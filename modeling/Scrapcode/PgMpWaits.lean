import Mathlib.Algebra.Order.BigOperators.Group.Finset
import Scrapcode.PgMp
import Scrapcode.Progress
/-!
# PgMpWaits — how `pg_mp.py` comes to rest after the stop

`start_lock` is set for a while and cleared for good.  A child that comes to `start_lock.wait()` later waits for ever,
and one that raises leaves without its `done_event`; the parent's `done_event.wait()` has no timeout.  Whatever happened
before the stop, and whoever goes first after it: when nothing raises any more everything comes to rest (`settles`), and
the parent hangs exactly where it was still waiting and some child had missed its event.
-/
namespace Scrapcode
namespace PgMp

section
variable (nWorkers connsPerWorker : Nat)

/-- The parent is past `start_lock.clear()`, or past everything. -/
def ParentPc.stopped : ParentPc → Bool
  | .checking | .starting _ | .release | .sleeping => false
  | _                                              => true

/-- **The start event is clear for good.** -/
structure Pool.Cleared (s : Pool) : Prop where
  lock   : s.startLock = false
  parent : s.parent.stopped = true

/-- The steps that are no exceptions. -/
def Pool.calmStep (s : Pool) : Event → Option Pool
  | .parentRaises  => none
  | .childRaises _ => none
  | e              => s.step nWorkers connsPerWorker e

/-- The child does not set its event any more: it waits for a start that is over, or it has left by an exception. -/
def Child.Missed (c : Child) : Prop := c.pc = .waitStart ∨ (c.pc = .leaving ∨ c.pc = .ended) ∧ c.done = false

/-- **How it rests** at `t`, seen from `s`: the parent has ended, with all children, or it has raised, or it waits for a
child that missed its event; and it waits exactly where it waited in `s` and a child had missed its event there. -/
structure Settled (s t : Pool) : Prop where
  parent   : t.parent = .ended ∨ (∃ x, t.parent = .raised x) ∨
    ∃ i, i < nWorkers ∧ t.parent = .waiting i ∧ (t.child i).Missed
  ended    : t.parent = .ended → ∀ i, i < nWorkers → (t.child i).pc = .ended ∧ (t.child i).done = true
  hangs    : (∃ i, t.parent = .waiting i) ↔ (∃ i, s.parent = .waiting i) ∧ ∃ i, i < nWorkers ∧ (s.child i).Missed
  children : ∀ i, (t.child i).pc = .ended ∨ (t.child i).pc = .waitStart ∨ (t.child i).pc = .unstarted

/-! ## Who was started, who is joined -/

/-- The children up to here are started, whoever raised. -/
def ParentPc.begun : ParentPc → Nat
  | .checking | .raised _ => 0
  | .starting i           => i
  | _                     => nWorkers

/-- The children up to here are joined. -/
def ParentPc.joined : ParentPc → Nat
  | .joining i => i
  | .ended     => nWorkers
  | _          => 0

structure Begun (s : Pool) : Prop where
  begun  : ∀ i, i < s.parent.begun nWorkers → (s.child i).pc ≠ .unstarted
  joined : ∀ i, i < s.parent.joined nWorkers → (s.child i).pc = .ended

/-! ## What is left to do -/

def ChildPc.ahead : ChildPc → Nat
  | .connect made     => connsPerWorker - made + 8
  | .announce         => 7
  | .work             => 6
  | .closeConnections => 5
  | .put              => 4
  | .setDone          => 2
  | .leaving          => 1
  | _                 => 0

def Feeder.ahead : Feeder → Nat
  | .holding _ => 1
  | _          => 0

def Child.ahead (c : Child) : Nat := c.pc.ahead connsPerWorker + c.feeder.ahead

def ParentPc.ahead : ParentPc → Nat
  | .waiting i => nWorkers - i + (2 * nWorkers + 5)
  | .getting i => nWorkers - i + (nWorkers + 4)
  | .mean      => nWorkers + 3
  | .joining i => nWorkers - i + 2
  | _          => 0

def Pool.ahead (s : Pool) : Nat :=
  s.parent.ahead nWorkers + ∑ i ∈ Finset.range nWorkers, (s.child i).ahead connsPerWorker

end
variable {nWorkers connsPerWorker i : Nat} {c c' : Child} {s s' t : Pool} {e : Event} {b : Bool}

theorem calmStep_step (h : s.calmStep nWorkers connsPerWorker e = some s') :
    s.step nWorkers connsPerWorker e = some s' := by
  cases e with
  | parentRaises  => cases h
  | childRaises i => cases h
  | _             => exact h

/-! ## One child -/

theorem Child.step_pc (h : c.step connsPerWorker b i = some c') :
    c.pc ≠ .unstarted ∧ c.pc ≠ .ended ∧ c'.pc ≠ .unstarted := by
  rcases c with ⟨pc, n, d, f⟩
  cases pc with
  | unstarted => cases h
  | ended     => cases h
  | waitStart =>
    simp only [Child.step, Option.ite_none_right_eq_some] at h
    cases h.2
    exact ⟨by rintro ⟨⟩, by rintro ⟨⟩, by rintro ⟨⟩⟩
  | connect made =>
    cases h
    refine ⟨by rintro ⟨⟩, by rintro ⟨⟩, ?_⟩
    by_cases hm : made < connsPerWorker
    · simp only [if_pos hm]; rintro ⟨⟩
    · simp only [if_neg hm]; rintro ⟨⟩
  | work =>
    cases h
    cases b <;> exact ⟨by rintro ⟨⟩, by rintro ⟨⟩, by rintro ⟨⟩⟩
  | leaving => cases f <;> cases h <;> exact ⟨by rintro ⟨⟩, by rintro ⟨⟩, by rintro ⟨⟩⟩
  | _       => cases h; exact ⟨by rintro ⟨⟩, by rintro ⟨⟩, by rintro ⟨⟩⟩

/-- **After the stop a child comes nearer to its end with every step.** -/
theorem Child.step_ahead (h : c.step connsPerWorker false i = some c') :
    c'.ahead connsPerWorker < c.ahead connsPerWorker := by
  rcases c with ⟨pc, n, d, f⟩
  cases pc with
  | unstarted => cases h
  | ended     => cases h
  | waitStart => cases h
  | connect made =>
    cases h
    by_cases hm : made < connsPerWorker
    · simp only [if_pos hm, Child.ahead, ChildPc.ahead]; omega
    · simp only [if_neg hm, Child.ahead, ChildPc.ahead]; omega
  | put     => cases h; simp only [Child.ahead, ChildPc.ahead, Feeder.ahead]; omega
  | work    => cases h; simp only [Child.ahead, ChildPc.ahead, Bool.false_eq_true, if_false]; omega
  | leaving => cases f <;> cases h <;> simp only [Child.ahead, ChildPc.ahead, Feeder.ahead] <;> omega
  | _       => cases h; simp only [Child.ahead, ChildPc.ahead]; omega

/-- **No step makes a child miss its event** once the start is over, and none helps one that has missed it. -/
theorem Child.missed_step (h : c.step connsPerWorker false i = some c') : c'.Missed ↔ c.Missed := by
  rcases c with ⟨pc, n, d, f⟩
  cases pc with
  | unstarted => cases h
  | ended     => cases h
  | waitStart => cases h
  | connect made =>
    cases h
    by_cases hm : made < connsPerWorker
    · simp [Child.Missed, if_pos hm]
    · simp [Child.Missed, if_neg hm]
  | leaving => cases f <;> cases h <;> simp [Child.Missed]
  | _       => cases h; simp [Child.Missed]

theorem Child.Ok.not_done_of_missed (h : c.Ok i) (hm : c.Missed) : c.done = false := by
  rcases hm with hp | hm
  · cases hd : c.done with
    | false => rfl
    | true  =>
      have hlate := h.late (h.done hd)
      rw [hp] at hlate
      cases hlate
  · exact hm.2

/-- A child that cannot go on after the stop. -/
theorem Child.rests_of_stuck (h : c.step connsPerWorker false i = none) (hf : ∀ item, c.feeder ≠ .holding item) :
    c.pc = .ended ∨ c.pc = .waitStart ∨ c.pc = .unstarted := by
  rcases c with ⟨pc, n, d, f⟩
  cases pc with
  | unstarted => exact Or.inr (Or.inr rfl)
  | ended     => exact Or.inl rfl
  | waitStart => exact Or.inr (Or.inl rfl)
  | leaving   =>
    cases f with
    | holding item => exact absurd rfl (hf item)
    | _            => cases h
  | _         => cases h

/-! ## Steps of the pool -/

theorem feed_eq (h : s.feed i = some s') : ∃ item, (s.child i).feeder = .holding item ∧
    s' = { s.set i { s.child i with feeder := .handed } with pipe := s.pipe ++ [item] } := by
  unfold Pool.feed at h
  split at h
  · rename_i item hf
    exact ⟨item, hf, (Option.some.inj h).symm⟩
  · cases h

/-- What the steps of the children say of those that are started and those that have ended. -/
theorem Begun.of_children (h : Begun nWorkers s) (hp : s'.parent = s.parent)
    (hu : ∀ i, (s.child i).pc ≠ .unstarted → (s'.child i).pc ≠ .unstarted)
    (he : ∀ i, (s.child i).pc = .ended → (s'.child i).pc = .ended) : Begun nWorkers s' where
  begun  := fun i hi => hu i (h.begun i (hp ▸ hi))
  joined := fun i hi => he i (h.joined i (hp ▸ hi))

theorem Begun.set (h : Begun nWorkers s) (hu : c.pc ≠ .unstarted) (he : (s.child i).pc = .ended → c.pc = .ended) :
    Begun nWorkers (s.set i c) := by
  refine h.of_children rfl (fun j hj => ?_) (fun j hj => ?_)
  · by_cases hji : j = i
    · rw [hji, set_child_self]; exact hu
    · rw [set_child_of_ne hji]; exact hj
  · by_cases hji : j = i
    · rw [hji, set_child_self]; exact he (hji ▸ hj)
    · rw [set_child_of_ne hji]; exact hj

theorem begun_start (nWorkers : Nat) : Begun nWorkers .start where
  begun  := fun i hi => absurd hi (Nat.not_lt_zero i)
  joined := fun i hi => absurd hi (Nat.not_lt_zero i)

/-- The parent goes on, the children stay where they are. -/
theorem Begun.onward (h : Begun nWorkers s) (hc : s'.child = s.child)
    (hb : s'.parent.begun nWorkers ≤ s.parent.begun nWorkers)
    (hj : ∀ i, i < s'.parent.joined nWorkers → (s.child i).pc = .ended) : Begun nWorkers s' where
  begun  := fun i hi => by rw [hc]; exact h.begun i (Nat.lt_of_lt_of_le hi hb)
  joined := fun i hi => by rw [hc]; exact hj i hi

theorem get_child (s : Pool) (i : Nat) : (s.get i).child = s.child := by
  unfold Pool.get
  split <;> rfl

theorem get_parent (s : Pool) (i : Nat) : (s.get i).parent = .raised .empty ∨ (s.get i).parent = .getting (i + 1) := by
  unfold Pool.get
  split
  · exact Or.inl rfl
  · exact Or.inr rfl

theorem Begun.parentStep (h : Begun nWorkers s) (hs : s.parentStep nWorkers = some s') : Begun nWorkers s' := by
  have hzero : ∀ i, i < 0 → (s.child i).pc = .ended := fun i hi => absurd hi (Nat.not_lt_zero i)
  unfold Pool.parentStep at hs
  split at hs
  · cases hs
    exact h.onward rfl (Nat.zero_le _) hzero
  · rename_i k hp
    cases hs
    split
    · refine ⟨fun j hj => ?_, fun j hj => absurd hj (Nat.not_lt_zero j)⟩
      by_cases hjk : j = k
      · rw [hjk]
        show ((s.set k _).child k).pc ≠ _
        rw [set_child_self]
        rintro ⟨⟩
      · show ((s.set k _).child j).pc ≠ _
        rw [set_child_of_ne hjk]
        refine h.begun j ?_
        rw [hp]
        exact Nat.lt_of_le_of_ne (Nat.le_of_lt_succ hj) hjk
    · rename_i hk
      exact h.onward rfl (by rw [hp]; exact Nat.not_lt.1 hk) hzero
  · rename_i hp
    cases hs
    exact h.onward rfl (by rw [hp]; exact Nat.le_refl _) hzero
  · rename_i hp
    cases hs
    exact h.onward rfl (by rw [hp]; exact Nat.le_refl _) hzero
  · rename_i k hp
    split at hs
    · simp only [Option.ite_none_right_eq_some] at hs
      cases hs.2
      exact h.onward rfl (by rw [hp]; exact Nat.le_refl _) hzero
    · cases hs
      exact h.onward rfl (by rw [hp]; exact Nat.le_refl _) hzero
  · rename_i k hp
    cases hs
    split
    · have hbegun : (s.get k).parent.begun nWorkers ≤ nWorkers := by
        rcases get_parent s k with hg | hg <;> rw [hg]
        · exact Nat.zero_le _
        · exact Nat.le_refl _
      have hjoined : (s.get k).parent.joined nWorkers = 0 := by
        rcases get_parent s k with hg | hg <;> rw [hg] <;> rfl
      exact h.onward (get_child s k) (by rw [hp]; exact hbegun) (by rw [hjoined]; exact hzero)
    · exact h.onward rfl (by rw [hp]; exact Nat.le_refl _) hzero
  · rename_i hp
    cases hs
    split
    · exact h.onward rfl (Nat.zero_le _) hzero
    · exact h.onward rfl (by rw [hp]; exact Nat.le_refl _) hzero
  · rename_i k hp
    have hjoined : ∀ i, i < k → (s.child i).pc = .ended := fun i hi => h.joined i (by rw [hp]; exact hi)
    split at hs
    · simp only [Option.ite_none_right_eq_some] at hs
      obtain ⟨hk, hs⟩ := hs
      cases hs
      refine h.onward rfl (by rw [hp]; exact Nat.le_refl _) (fun i hi => ?_)
      rcases Nat.lt_succ_iff_lt_or_eq.1 hi with hi | rfl
      · exact hjoined i hi
      · exact hk
    · rename_i hk
      cases hs
      exact h.onward rfl (by rw [hp]; exact Nat.le_refl _)
        (fun i hi => hjoined i (Nat.lt_of_lt_of_le hi (Nat.not_lt.1 hk)))
  · cases hs
  · cases hs

theorem Begun.step (h : Begun nWorkers s) (hs : s.step nWorkers connsPerWorker e = some s') : Begun nWorkers s' := by
  cases e with
  | parent => exact h.parentStep hs
  | child i =>
    obtain ⟨c, hc, rfl⟩ := Option.map_eq_some_iff.1 hs
    obtain ⟨-, hended, hstarted⟩ := Child.step_pc hc
    exact h.set hstarted (fun hp => absurd hp hended)
  | feed i =>
    obtain ⟨item, -, rfl⟩ := feed_eq hs
    have hset : ∀ j, ((s.set i { s.child i with feeder := .handed }).child j).pc = (s.child j).pc := fun j => by
      by_cases hji : j = i
      · rw [hji, set_child_self]
      · rw [set_child_of_ne hji]
    exact h.of_children rfl (fun j hj => by rw [← hset j] at hj; exact hj)
      (fun j hj => by rw [← hset j] at hj; exact hj)
  | parentRaises =>
    simp only [Pool.step] at hs
    split at hs
    · cases hs
    · cases hs
    · cases hs
      exact h.onward rfl (Nat.zero_le _) (fun j hj => absurd hj (Nat.not_lt_zero j))
  | childRaises i =>
    simp only [Pool.step] at hs
    split at hs
    · cases hs
    · cases hs
    · rename_i hended
      cases hs
      exact h.set (by rintro ⟨⟩) (fun hp => absurd hp hended)

/-! ## After the stop -/

/-- The parent goes on to a place past the stop. -/
theorem Pool.Cleared.goto (h : s.Cleared) {pc : ParentPc} (hs : pc.stopped = true)
    (hlt : pc.ahead nWorkers < s.parent.ahead nWorkers) :
    (s.goto pc).Cleared ∧ (s.goto pc).child = s.child ∧ (s.goto pc).parent.ahead nWorkers < s.parent.ahead nWorkers :=
  ⟨⟨h.lock, hs⟩, rfl, hlt⟩

theorem Pool.Cleared.parentStep (h : s.Cleared) (hs : s.parentStep nWorkers = some s') :
    s'.Cleared ∧ s'.child = s.child ∧ s'.parent.ahead nWorkers < s.parent.ahead nWorkers := by
  have hstopped := h.parent
  unfold Pool.parentStep at hs
  split at hs
  · rename_i hp; rw [hp] at hstopped; cases hstopped
  · rename_i hp; rw [hp] at hstopped; cases hstopped
  · rename_i hp; rw [hp] at hstopped; cases hstopped
  · rename_i hp; rw [hp] at hstopped; cases hstopped
  · rename_i k hp
    split at hs
    · simp only [Option.ite_none_right_eq_some] at hs
      cases hs.2
      refine h.goto rfl ?_
      simp only [hp, ParentPc.ahead]
      omega
    · cases hs
      refine h.goto rfl ?_
      simp only [hp, ParentPc.ahead]
      omega
  · rename_i k hp
    cases hs
    split
    · have hcleared : (s.get k).startLock = false := by
        unfold Pool.get
        split <;> exact h.lock
      have hparent : (s.get k).parent.stopped = true ∧
          (s.get k).parent.ahead nWorkers < s.parent.ahead nWorkers := by
        rcases get_parent s k with hg | hg <;> rw [hg, hp] <;> refine ⟨rfl, ?_⟩ <;> simp only [ParentPc.ahead] <;> omega
      exact ⟨⟨hcleared, hparent.1⟩, get_child s k, hparent.2⟩
    · refine ⟨⟨h.lock, rfl⟩, rfl, ?_⟩
      simp only [hp, ParentPc.ahead]
      omega
  · rename_i hp
    cases hs
    split
    · refine h.goto rfl ?_
      simp only [hp, ParentPc.ahead]
      omega
    · refine h.goto rfl ?_
      simp only [hp, ParentPc.ahead]
      omega
  · rename_i k hp
    split at hs
    · simp only [Option.ite_none_right_eq_some] at hs
      cases hs.2
      refine h.goto rfl ?_
      simp only [hp, ParentPc.ahead]
      omega
    · cases hs
      refine h.goto rfl ?_
      simp only [hp, ParentPc.ahead]
      omega
  · cases hs
  · cases hs

/-- A child that has less to do makes the whole less. -/
theorem ahead_set (hi : i < nWorkers) (hlt : c.ahead connsPerWorker < (s.child i).ahead connsPerWorker) :
    (s.set i c).ahead nWorkers connsPerWorker < s.ahead nWorkers connsPerWorker := by
  refine Nat.add_lt_add_left (Finset.sum_lt_sum (fun j _ => ?_) ⟨i, Finset.mem_range.2 hi, ?_⟩) _
  · by_cases hji : j = i
    · rw [hji, set_child_self]; exact Nat.le_of_lt hlt
    · rw [set_child_of_ne hji]
  · rw [set_child_self]; exact hlt

/-- **What one calm step does after the stop**: the start event stays clear, there is less to do, no child comes to miss
its event or to have it after all; and the parent goes on, or stays where it is. -/
structure Calms (nWorkers connsPerWorker : Nat) (s s' : Pool) : Prop where
  cleared : s'.Cleared
  ahead   : s'.ahead nWorkers connsPerWorker < s.ahead nWorkers connsPerWorker
  missed  : ∀ i, (s'.child i).Missed ↔ (s.child i).Missed
  parent  : s'.parent = s.parent ∨ s.parentStep nWorkers = some s'

/-- The same for a step of one child that is started. -/
theorem calms_set (hc : s.Cleared) (hi : i < nWorkers) (hlt : c.ahead connsPerWorker < (s.child i).ahead connsPerWorker)
    (hm : c.Missed ↔ (s.child i).Missed) : Calms nWorkers connsPerWorker s (s.set i c) where
  cleared := ⟨hc.lock, hc.parent⟩
  ahead   := ahead_set hi hlt
  missed  := fun j => by
    by_cases hji : j = i
    · rw [hji, set_child_self]; exact hm
    · rw [set_child_of_ne hji]
  parent  := Or.inl rfl

theorem calms_of_step (ha : Accounts nWorkers s) (hc : s.Cleared)
    (hs : s.calmStep nWorkers connsPerWorker e = some s') : Calms nWorkers connsPerWorker s s' := by
  cases e with
  | parent =>
    obtain ⟨hcleared, hchild, hlt⟩ := hc.parentStep hs
    refine ⟨hcleared, ?_, fun i => by rw [hchild], Or.inr hs⟩
    unfold Pool.ahead
    rw [hchild]
    exact Nat.add_lt_add_right hlt _
  | child i =>
    obtain ⟨c, hstep, rfl⟩ := Option.map_eq_some_iff.1 hs
    rw [hc.lock] at hstep
    have hi : i < nWorkers := Nat.lt_of_lt_of_le (ha.started_of (Child.step_pc hstep).1) ha.started
    exact calms_set hc hi (Child.step_ahead hstep) (Child.missed_step hstep)
  | feed i =>
    obtain ⟨item, hf, rfl⟩ := feed_eq hs
    have hi : i < nWorkers := by
      by_contra hle
      have hidle := (ha.unstarted i (Nat.le_trans ha.started (Nat.not_lt.1 hle))).2
      rw [hf] at hidle
      cases hidle
    have hlt : Child.ahead connsPerWorker { s.child i with feeder := .handed } < (s.child i).ahead connsPerWorker := by
      simp only [Child.ahead, hf, Feeder.ahead]
      omega
    obtain ⟨hcleared, hahead, hmissed, hparent⟩ := calms_set hc hi hlt Iff.rfl
    exact ⟨⟨hcleared.lock, hcleared.parent⟩, hahead, hmissed, Or.inl rfl⟩
  | parentRaises  => cases hs
  | childRaises i => cases hs

/-- Past the stop the parent waits only where it waited before. -/
theorem waiting_of_parentStep (hc : s.Cleared) (hs : s.parentStep nWorkers = some s') {j : Nat}
    (hp' : s'.parent = .waiting j) : ∃ k, s.parent = .waiting k := by
  have hstopped := hc.parent
  cases hp : s.parent with
  | waiting k  => exact ⟨k, rfl⟩
  | getting k  =>
    simp only [Pool.parentStep, hp, Option.some.injEq] at hs
    split at hs
    · rcases get_parent s k with hg | hg <;> rw [← hs, hg] at hp' <;> cases hp'
    · rw [← hs] at hp'; cases hp'
  | mean       =>
    simp only [Pool.parentStep, hp, Option.some.injEq] at hs
    rw [← hs] at hp'
    split at hp' <;> cases hp'
  | joining k  =>
    simp only [Pool.parentStep, hp] at hs
    split at hs
    · simp only [Option.ite_none_right_eq_some] at hs
      cases hs.2; cases hp'
    · cases hs; cases hp'
  | ended      => simp only [Pool.parentStep, hp] at hs; cases hs
  | raised x   => simp only [Pool.parentStep, hp] at hs; cases hs
  | _          => rw [hp] at hstopped; cases hstopped

/-- **The parent does not get past a child whose event is not set.** -/
theorem parentStep_held {j : Nat} (hp : s.parent = .waiting j) (hji : j ≤ i) (hi : i < nWorkers)
    (hd : (s.child i).done = false) (hs : s.parentStep nWorkers = some s') : ∃ k, s'.parent = .waiting k ∧ k ≤ i := by
  simp only [Pool.parentStep, hp, if_pos (Nat.lt_of_le_of_lt hji hi), Option.ite_none_right_eq_some] at hs
  obtain ⟨hdone, hs⟩ := hs
  cases hs
  refine ⟨j + 1, rfl, Nat.lt_of_le_of_ne hji (fun hh => ?_)⟩
  rw [hh, hd] at hdone
  cases hdone

/-- What holds all along from `s`. -/
structure Tail (nWorkers : Nat) (s t : Pool) : Prop where
  accounts : Accounts nWorkers t
  begun    : Begun nWorkers t
  cleared  : t.Cleared
  missed   : ∀ i, (t.child i).Missed ↔ (s.child i).Missed
  waited   : (∃ i, t.parent = .waiting i) → ∃ i, s.parent = .waiting i
  held     : (∃ i, s.parent = .waiting i) → ∀ i, i < nWorkers → (s.child i).Missed →
    ∃ j, t.parent = .waiting j ∧ j ≤ i

theorem tail_refl (ha : Accounts nWorkers s) (hb : Begun nWorkers s) (hc : s.Cleared) : Tail nWorkers s s where
  accounts := ha
  begun    := hb
  cleared  := hc
  missed   := fun _ => Iff.rfl
  waited   := id
  held     := fun ⟨k, hk⟩ i _ hm => by
    refine ⟨k, hk, Nat.not_lt.1 (fun hlt => ?_)⟩
    have hdone : (s.child i).done = true := ha.waited i (by rw [hk]; exact hlt)
    rw [(ha.child i).not_done_of_missed hm] at hdone
    cases hdone

theorem Tail.step {t' : Pool} (h : Tail nWorkers s t) (hs : t.calmStep nWorkers connsPerWorker e = some t') :
    Tail nWorkers s t' := by
  obtain ⟨hcleared, -, hmissed, hparent⟩ := calms_of_step h.accounts h.cleared hs
  refine ⟨h.accounts.step (calmStep_step hs), h.begun.step (calmStep_step hs), hcleared,
    fun i => (hmissed i).trans (h.missed i), fun ⟨j, hj⟩ => ?_, fun hw i hi hm => ?_⟩
  · rcases hparent with hp | hp
    · exact h.waited ⟨j, hp ▸ hj⟩
    · exact h.waited (waiting_of_parentStep h.cleared hp hj)
  · obtain ⟨j, hj, hji⟩ := h.held hw i hi hm
    rcases hparent with hp | hp
    · exact ⟨j, hp.trans hj, hji⟩
    · exact parentStep_held hj hji hi ((h.accounts.child i).not_done_of_missed ((h.missed i).2 hm)) hp

/-! ## At rest -/

/-- **Nothing goes on any more**: every item is handed over, and each child has ended or waits for the start. -/
theorem children_of_stuck (hc : t.Cleared) (hstuck : Runs.Stuck (Pool.calmStep nWorkers connsPerWorker) t) (i : Nat) :
    (t.child i).pc = .ended ∨ (t.child i).pc = .waitStart ∨ (t.child i).pc = .unstarted := by
  have hchild := hstuck (.child i)
  simp only [Pool.calmStep, Pool.step, Option.map_eq_none_iff, hc.lock] at hchild
  refine Child.rests_of_stuck hchild (fun item hf => ?_)
  have hfeed := hstuck (.feed i)
  simp only [Pool.calmStep, Pool.step, Pool.feed, hf] at hfeed
  cases hfeed

/-- A child that is done is not kept by anything. -/
theorem ended_of_done (ha : Accounts nWorkers t) (hd : (t.child i).done = true)
    (hr : (t.child i).pc = .ended ∨ (t.child i).pc = .waitStart ∨ (t.child i).pc = .unstarted) :
    (t.child i).pc = .ended := by
  have hlate := (ha.child i).late ((ha.child i).done hd)
  rcases hr with hr | hr | hr
  · exact hr
  · rw [hr] at hlate; cases hlate
  · rw [hr] at hlate; cases hlate

/-- Where the parent stands when it cannot go on. -/
theorem parent_of_stuck (h : Tail nWorkers s t)
    (hr : ∀ i, (t.child i).pc = .ended ∨ (t.child i).pc = .waitStart ∨ (t.child i).pc = .unstarted)
    (hs : t.parentStep nWorkers = none) :
    t.parent = .ended ∨ (∃ x, t.parent = .raised x) ∨
      ∃ i, i < nWorkers ∧ t.parent = .waiting i ∧ (t.child i).Missed := by
  have hstopped := h.cleared.parent
  cases hp : t.parent with
  | ended     => exact Or.inl rfl
  | raised x  => exact Or.inr (Or.inl ⟨x, rfl⟩)
  | getting k => simp only [Pool.parentStep, hp] at hs; cases hs
  | mean      => simp only [Pool.parentStep, hp] at hs; cases hs
  | waiting k =>
    have hk : k < nWorkers := by
      by_contra hk
      simp only [Pool.parentStep, hp, if_neg hk] at hs
      cases hs
    have hd : (t.child k).done = false := by
      cases hd : (t.child k).done with
      | false => rfl
      | true  => simp only [Pool.parentStep, hp, if_pos hk, hd, if_true] at hs; cases hs
    refine Or.inr (Or.inr ⟨k, hk, rfl, ?_⟩)
    rcases hr k with hr | hr | hr
    · exact Or.inr ⟨Or.inr hr, hd⟩
    · exact Or.inl hr
    · exact absurd hr (h.begun.begun k (by rw [hp]; exact hk))
  | joining k =>
    by_cases hk : k < nWorkers
    · have hdone : (t.child k).done = true := h.accounts.waited k (by rw [hp]; exact hk)
      simp only [Pool.parentStep, hp, if_pos hk, ended_of_done h.accounts hdone (hr k), if_true] at hs
      cases hs
    · simp only [Pool.parentStep, hp, if_neg hk] at hs
      cases hs
  | _         => rw [hp] at hstopped; cases hstopped

theorem settled_of_stuck (h : Tail nWorkers s t) (hstuck : Runs.Stuck (Pool.calmStep nWorkers connsPerWorker) t) :
    Settled nWorkers s t := by
  have hr := children_of_stuck h.cleared hstuck
  have hparent := parent_of_stuck h hr (hstuck .parent)
  refine ⟨hparent, fun hp i hi => ?_, ⟨fun hw => ?_, fun ⟨hw, i, hi, hm⟩ => ?_⟩, hr⟩
  · have hdone : (t.child i).done = true := h.accounts.waited i (by rw [hp]; exact hi)
    exact ⟨ended_of_done h.accounts hdone (hr i), hdone⟩
  · refine ⟨h.waited hw, ?_⟩
    obtain ⟨j, hj⟩ := hw
    rw [hj] at hparent
    rcases hparent with hp | ⟨x, hp⟩ | ⟨i, hi, -, hm⟩
    · cases hp
    · cases hp
    · exact ⟨i, hi, (h.missed i).1 hm⟩
  · obtain ⟨j, hj, -⟩ := h.held hw i hi hm
    exact ⟨j, hj⟩

/-- **After the stop everything comes to rest**: from a state of any run that has cleared the start event, no run that
raises nothing goes on for ever, and where it can go no further it is settled. -/
theorem settles (nWorkers connsPerWorker : Nat) (es : List Event) (s : Pool)
    (h : Runs.run (Pool.step nWorkers connsPerWorker) .start es = some s) (hc : s.Cleared) :
    Runs.Completes (Pool.calmStep nWorkers connsPerWorker) (Settled nWorkers s) s := by
  have ha : Accounts nWorkers s := Runs.run_invariant (fun _ _ _ h hs => h.step hs) es (accounts_start nWorkers) h
  have hb : Begun nWorkers s := Runs.run_invariant (fun _ _ _ h hs => h.step hs) es (begun_start nWorkers) h
  exact Runs.completes_of_decreases (I := Tail nWorkers s) (m := Pool.ahead nWorkers connsPerWorker)
    (fun _ _ _ ht hs => ht.step hs) (fun _ _ _ ht hs => (calms_of_step ht.accounts ht.cleared hs).ahead)
    (fun _ ht hstuck => settled_of_stuck ht hstuck) (tail_refl ha hb hc)

/-- The parent sets the start event and clears it before its only child has come to it. -/
theorem settles_late : ∃ s, Runs.run (Pool.step 1 0) .start (List.replicate 5 .parent) = some s ∧
    (s.child 0).pc = .waitStart ∧ Runs.Completes (Pool.calmStep 1 0) (Settled 1 s) s :=
  ⟨_, rfl, rfl, settles 1 0 (List.replicate 5 .parent) _ rfl ⟨rfl, rfl⟩⟩

end PgMp
end Scrapcode
