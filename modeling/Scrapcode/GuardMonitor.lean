import Scrapcode.GuardChain
/-!
# GuardMonitor — what the guards accept

The guards are a monitor of the frames that run under them, made of a byte and a link in each frame and one global
pointer.  What it monitors is a discipline that can be said without memory: a guard is set only while it is not set,
cleared only while it is the last that was set, and cleared before its frame ends (`Discipline`).

The monitor is exact (`passes_iff_disciplined`): a run fails no assert and ends with `check_guard` content exactly
where it keeps the discipline and ends with no guard set, whichever frames are still live then.
-/
namespace Scrapcode
namespace Guards

variable {α : Type} [DecidableEq α]

/-! ## The discipline -/

/-- The frames with their guards, and the guards that are set, the last first. -/
structure Discipline (α : Type) where
  frames : List (List α)
  held   : List α

def Discipline.live (d : Discipline α) : List α := d.frames.flatten

def Discipline.step (d : Discipline α) : Event α → Option (Discipline α)
  | .enter         => some { d with frames := [] :: d.frames }
  | .declare a     =>
    match d.frames with
    | []      => none
    | f :: fs => if a ∈ d.live then none else some { d with frames := (a :: f) :: fs }
  | .setGuard g    => if g ∈ d.live ∧ g ∉ d.held then some { d with held := g :: d.held } else none
  | .clearGuard g  => if d.held.head? = some g then some { d with held := d.held.tail } else none
  | .exit n        =>
    if n ≤ d.frames.length ∧ ∀ g ∈ (d.frames.take n).flatten, g ∉ d.held then
      some { d with frames := d.frames.drop n }
    else none
  | .overwrite a _ => if a ∈ d.live then none else some d

def Discipline.start : Discipline α := { frames := [], held := [] }

/-- The run fails no assert, and `check_guard` is content at its end. -/
def Passes (mem : α → Guard α) (es : List (Event α)) : Prop :=
  ∃ s, Runs.run step (Stack.start mem) es = some s ∧ checkGuard s = true

/-- Every guard is cleared, in its turn and before its frame ends. -/
def Disciplined (es : List (Event α)) : Prop :=
  ∃ d, Runs.run Discipline.step Discipline.start es = some d ∧ d.held = []

/-! ## The monitor simulates the discipline -/

structure Agrees (s : Stack α) (d : Discipline α) : Prop where
  sound  : Sound s
  leaked : s.leaked = false
  frames : d.frames = s.frames
  held   : d.held = s.setOrder

variable {s s' : Stack α} {d d' : Discipline α} {e : Event α}

theorem Agrees.live (h : Agrees s d) : d.live = s.live := by
  unfold Discipline.live Stack.live
  rw [h.frames]

theorem Agrees.exact (h : Agrees s d) : Exact s.guardPtr s.mem s.live d.held := by
  rw [h.held]
  exact h.sound.unmasked.1 h.leaked

/-- A guard of a live frame is set where the discipline holds it. -/
theorem Agrees.set_iff (h : Agrees s d) {g : α} (hg : g ∈ s.live) : g ∈ d.held ↔ (s.mem g).guardSet ≠ 0 :=
  (h.exact.set g).trans (and_iff_right hg)

theorem agrees_start (mem : α → Guard α) : Agrees (Stack.start mem) Discipline.start :=
  ⟨sound_start mem, rfl, rfl, rfl⟩

theorem setGuard_eq (h : Agrees s d) {g : α} (hg : g ∈ s.live) :
    (setGuard s g).isSome ↔ g ∉ d.held := by
  unfold setGuard
  rw [h.set_iff hg, Classical.not_not]
  split
  · rename_i h0; exact iff_of_true rfl h0
  · rename_i h0; exact iff_of_false (fun hs => nomatch hs) h0

/-- **The asserts of `clear_guard`** ask for the guard that was set last. -/
theorem clearGuard_iff (h : Agrees s d) (g : α) :
    g ∈ s.live ∧ (s.mem g).guardSet ≠ 0 ∧ s.guardPtr = some g ↔ d.held.head? = some g := by
  rw [h.exact.chain.head?]
  refine ⟨fun h => h.2.2, fun hp => ?_⟩
  have hmem : g ∈ d.held := List.mem_of_head? (h.exact.chain.head?.trans hp)
  obtain ⟨hg, hset⟩ := (h.exact.set g).1 hmem
  exact ⟨hg, hset, hp⟩

theorem leak_iff (h : Agrees s d) {n : Nat} :
    (s.frames.take n).flatten.any (fun g => (s.mem g).guardSet != 0) = false ↔
      ∀ g ∈ (d.frames.take n).flatten, g ∉ d.held := by
  rw [List.any_eq_false, h.frames]
  refine forall₂_congr fun g hg => ?_
  have hlive : g ∈ s.live := by
    obtain ⟨f, hf, hgf⟩ := List.mem_flatten.1 hg
    exact List.mem_flatten.2 ⟨f, List.mem_of_mem_take hf, hgf⟩
  rw [h.set_iff hlive]
  simp

/-- **Once a guard has leaked, one has.** -/
theorem leaked_step (hs : step s e = some s') (hl : s'.leaked = false) : s.leaked = false := by
  cases e with
  | enter => cases hs; exact hl
  | declare a =>
    simp only [step] at hs
    split at hs
    · cases hs
    · obtain ⟨-, hs⟩ := Option.ite_none_left_eq_some.1 hs
      cases hs; exact hl
  | setGuard g =>
    simp only [step, setGuard, Option.ite_none_right_eq_some] at hs
    obtain ⟨-, -, hs⟩ := hs
    cases hs; exact hl
  | clearGuard g =>
    simp only [step, clearGuard, Option.ite_none_right_eq_some] at hs
    obtain ⟨-, -, hs⟩ := hs
    cases hs; exact hl
  | exit n =>
    obtain ⟨-, hs⟩ := Option.ite_none_right_eq_some.1 hs
    cases hs
    exact (Bool.or_eq_false_iff.1 hl).1
  | overwrite a g =>
    obtain ⟨-, hs⟩ := Option.ite_none_left_eq_some.1 hs
    cases hs; exact hl

/-- **A step of the monitor that leaks nothing** is one of the discipline. -/
theorem Agrees.step (h : Agrees s d) (hl : s'.leaked = false) (hs : step s e = some s') :
    ∃ d', d.step e = some d' ∧ Agrees s' d' := by
  have hsound := sound_step s e s' h.sound hs
  have hlive := h.live
  cases e with
  | enter => cases hs; exact ⟨_, rfl, hsound, hl, congrArg _ h.frames, h.held⟩
  | declare a =>
    simp only [Guards.step] at hs
    simp only [Discipline.step, h.frames, hlive]
    cases hf : s.frames with
    | nil => rw [hf] at hs; cases hs
    | cons f fs =>
      rw [hf] at hs
      obtain ⟨ha, hs⟩ := Option.ite_none_left_eq_some.1 hs
      cases hs
      exact ⟨_, if_neg ha, hsound, hl, rfl, h.held⟩
  | setGuard g =>
    obtain ⟨hg, hs⟩ := Option.ite_none_right_eq_some.1 hs
    have hheld := (setGuard_eq h hg).1 (by rw [hs]; rfl)
    obtain ⟨-, hs⟩ := Option.ite_none_right_eq_some.1 hs
    cases hs
    exact ⟨_, if_pos ⟨hlive.symm ▸ hg, hheld⟩, hsound, hl, h.frames, congrArg _ h.held⟩
  | clearGuard g =>
    simp only [Guards.step, clearGuard, Option.ite_none_right_eq_some] at hs
    obtain ⟨hg, ⟨hset, hp⟩, hs⟩ := hs
    have hhead := (clearGuard_iff h g).1 ⟨hg, hset, hp⟩
    cases hs
    refine ⟨_, if_pos hhead, hsound, hl, h.frames, ?_⟩
    obtain ⟨rest, hrest⟩ := List.head?_eq_some_iff.1 hhead
    show d.held.tail = s.setOrder.erase g
    rw [← h.held, hrest, List.erase_cons_head, List.tail_cons]
  | exit n =>
    obtain ⟨hn, hs⟩ := Option.ite_none_right_eq_some.1 hs
    cases hs
    have hclear := (leak_iff h).1 (Bool.or_eq_false_iff.1 hl).2
    exact ⟨_, if_pos ⟨h.frames.symm ▸ hn, hclear⟩, hsound, hl, congrArg _ h.frames, h.held⟩
  | overwrite a g =>
    obtain ⟨ha, hs⟩ := Option.ite_none_left_eq_some.1 hs
    cases hs
    exact ⟨_, if_neg (hlive.symm ▸ ha), hsound, hl, h.frames, h.held⟩

/-- **A step of the discipline** fails no assert, and leaks nothing. -/
theorem Agrees.disciplined (h : Agrees s d) (hd : d.step e = some d') :
    ∃ s', Guards.step s e = some s' ∧ Agrees s' d' := by
  have hlive := h.live
  have hs : ∃ s', Guards.step s e = some s' ∧ s'.leaked = false := by
    cases e with
    | enter => exact ⟨_, rfl, h.leaked⟩
    | declare a =>
      simp only [Discipline.step, h.frames, hlive] at hd
      simp only [Guards.step]
      cases hf : s.frames with
      | nil => rw [hf] at hd; cases hd
      | cons f fs =>
        rw [hf] at hd
        obtain ⟨ha, -⟩ := Option.ite_none_left_eq_some.1 hd
        exact ⟨_, if_neg ha, h.leaked⟩
    | setGuard g =>
      obtain ⟨⟨hg, hheld⟩, -⟩ := Option.ite_none_right_eq_some.1 hd
      rw [hlive] at hg
      have h0 : (s.mem g).guardSet = 0 := Classical.not_not.1 (mt (h.set_iff hg).2 hheld)
      exact ⟨_, (if_pos hg).trans (if_pos h0), h.leaked⟩
    | clearGuard g =>
      obtain ⟨hhead, -⟩ := Option.ite_none_right_eq_some.1 hd
      obtain ⟨hg, hset⟩ := (clearGuard_iff h g).2 hhead
      exact ⟨_, (if_pos hg).trans (if_pos hset), h.leaked⟩
    | exit n =>
      obtain ⟨⟨hn, hclear⟩, -⟩ := Option.ite_none_right_eq_some.1 hd
      refine ⟨_, if_pos (h.frames ▸ hn), ?_⟩
      show (s.leaked || _) = false
      rw [h.leaked, Bool.false_or]
      exact (leak_iff h).2 hclear
    | overwrite a g =>
      obtain ⟨ha, -⟩ := Option.ite_none_left_eq_some.1 hd
      exact ⟨_, if_neg (hlive ▸ ha), h.leaked⟩
  obtain ⟨s', hs, hl⟩ := hs
  obtain ⟨d'', hd'', hagrees⟩ := h.step hl hs
  cases hd.symm.trans hd''
  exact ⟨s', hs, hagrees⟩

/-! ## The monitor is exact -/

/-- **`check_guard` tells** whether a guard has leaked or is still set. -/
theorem checkGuard_iff (h : Sound s) : checkGuard s = true ↔ s.leaked = false ∧ s.setOrder = [] := by
  cases hl : s.leaked with
  | true =>
    rw [(h.unmasked.2 hl).2]
    exact iff_of_false Bool.false_ne_true (fun h => Bool.noConfusion h.1)
  | false => rw [checkGuard, Option.isNone_iff_eq_none, and_iff_right rfl, (h.unmasked.1 hl).chain.null_iff]

/-- **The guards accept exactly the runs that keep the discipline**, from any memory. -/
theorem passes_iff_disciplined (mem : α → Guard α) (es : List (Event α)) : Passes mem es ↔ Disciplined es := by
  constructor
  · rintro ⟨s, hs, hcheck⟩
    have hsound := Runs.run_invariant sound_step es (sound_start mem) hs
    obtain ⟨hl, hnone⟩ := (checkGuard_iff hsound).1 hcheck
    obtain ⟨d, hd, hagrees⟩ := Runs.run_simulates (G := fun s : Stack α => s.leaked = false) (R := Agrees)
      (fun _ _ _ => leaked_step) (fun _ _ _ _ h hl hs => h.step hl hs) es (agrees_start mem) hl hs
    exact ⟨d, hd, hagrees.held.trans hnone⟩
  · rintro ⟨d, hd, hheld⟩
    have hstep : ∀ (d : Discipline α) (s : Stack α) (e : Event α) (d' : Discipline α), Agrees s d → True →
        d.step e = some d' → ∃ s', step s e = some s' ∧ Agrees s' d' := fun _ _ _ _ h _ hd => h.disciplined hd
    obtain ⟨s, hs, hagrees⟩ := Runs.run_simulates (R := fun d s => Agrees s d) (fun _ _ _ _ _ => trivial) hstep es
      (agrees_start mem) trivial hd
    exact ⟨s, hs, (checkGuard_iff hagrees.sound).2 ⟨hagrees.leaked, hagrees.held.symm.trans hheld⟩⟩

/-- A frame that clears its two guards in reverse order passes. -/
example : Passes (fun _ : Nat => ⟨0, none⟩)
    [.enter, .declare 1, .declare 2, .setGuard 1, .setGuard 2, .clearGuard 2, .clearGuard 1, .exit 1] :=
  ⟨_, rfl, rfl⟩

end Guards
end Scrapcode
