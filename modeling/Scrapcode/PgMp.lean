import Mathlib.Data.List.Nodup
import Mathlib.Data.List.Perm.Subperm
import Mathlib.Data.List.Range
import Mathlib.Logic.Function.Basic
import Scrapcode.Runs
/-!
# PgMp — how `pg_mp.py` collects its results

Each child puts one item on the queue and sets its `done_event`; the parent waits for every event and then takes one
item per child, without waiting for it.  `put` leaves the item with the queue's feeder, a thread of the child that hands
it over to the pipe at some later step, so an event may be set before the item can be taken.

Every `get(False)` succeeds, and `total_tx` is the sum of what the children counted, exactly in the runs in which more
feeders have handed over their item than gets were made before, at each get (`Delivered`).
-/
namespace Scrapcode
namespace PgMp

/-- What `sum` gives. -/
def total (xs : List Nat) : Nat := xs.foldr (· + ·) 0

/-- The step of `child_run` that is next. -/
inductive ChildPc where
  | unstarted
  | waitStart
  | connect (made : Nat)
  | announce
  | work
  | closeConnections
  | put
  | setDone
  | leaving
  | ended
deriving DecidableEq, Repr

/-- The item of a child: not put yet, with the feeder, or handed over. -/
inductive Feeder where
  | idle
  | holding (item : Nat × Nat)
  | handed
deriving DecidableEq, Repr

structure Child where
  pc       : ChildPc
  nQueries : Nat
  done     : Bool
  feeder   : Feeder
deriving DecidableEq, Repr

inductive Exn where
  | empty
  | zeroDivision
  | other
deriving DecidableEq, Repr

/-- The step of `parent_run` that is next. -/
inductive ParentPc where
  | checking
  | starting (i : Nat)
  | release
  | sleeping
  | waiting (i : Nat)
  | getting (i : Nat)
  | mean
  | joining (i : Nat)
  | ended
  | raised (e : Exn)
deriving DecidableEq, Repr

/-- The pipe is everything that was written to it; `got` items of it are read. -/
structure Pool where
  child     : Nat → Child
  pipe      : List (Nat × Nat)
  got       : Nat
  startLock : Bool
  parent    : ParentPc
  results   : List Nat
  totalTx   : Option Nat

def Pool.start : Pool where
  child     := fun _ => { pc := .unstarted, nQueries := 0, done := false, feeder := .idle }
  pipe      := []
  got       := 0
  startLock := false
  parent    := .checking
  results   := []
  totalTx   := none

/-- The parent goes on, a child goes on, a feeder hands over; the parent or a child raises. -/
inductive Event where
  | parent
  | child (i : Nat)
  | feed (i : Nat)
  | parentRaises
  | childRaises (i : Nat)
deriving DecidableEq, Repr

section
variable (nWorkers connsPerWorker : Nat)

def Child.step (startLock : Bool) (i : Nat) (c : Child) : Option Child :=
  match c.pc with
  | .unstarted | .ended => none
  | .waitStart          => if startLock = true then some { c with pc := .connect 0 } else none
  | .connect made       => some { c with pc := if made < connsPerWorker then .connect (made + 1) else .announce }
  | .announce           => some { c with pc := .work, nQueries := 0 }
  | .work               =>
    some (if startLock = true then { c with nQueries := c.nQueries + 1 } else { c with pc := .closeConnections })
  | .closeConnections   => some { c with pc := .put }
  | .put                => some { c with pc := .setDone, feeder := .holding (i, c.nQueries) }
  | .setDone            => some { c with pc := .leaving, done := true }
  | .leaving            =>
    match c.feeder with
    | .holding _ => none
    | _          => some { c with pc := .ended }

namespace Pool

def set (s : Pool) (i : Nat) (c : Child) : Pool := { s with child := Function.update s.child i c }

def goto (s : Pool) (pc : ParentPc) : Pool := { s with parent := pc }

/-- `get(False)`: the next item of the pipe, if there is one. -/
def get (s : Pool) (i : Nat) : Pool :=
  match s.pipe[s.got]? with
  | none      => s.goto (.raised .empty)
  | some item => { s with got := s.got + 1, results := s.results ++ [item.2], parent := .getting (i + 1) }

def parentStep (s : Pool) : Option Pool :=
  match s.parent with
  | .checking    => some (s.goto (.starting 0))
  | .starting i  =>
    some (if i < nWorkers then (s.set i { s.child i with pc := .waitStart }).goto (.starting (i + 1))
      else s.goto .release)
  | .release     => some { s with startLock := true, parent := .sleeping }
  | .sleeping    => some { s with startLock := false, parent := .waiting 0 }
  | .waiting i   =>
    if i < nWorkers then if (s.child i).done = true then some (s.goto (.waiting (i + 1))) else none
    else some (s.goto (.getting 0))
  | .getting i   =>
    some (if i < nWorkers then s.get i else { s with totalTx := some (total s.results), parent := .mean })
  | .mean        => some (s.goto (if s.results = [] then .raised .zeroDivision else .joining 0))
  | .joining i   =>
    if i < nWorkers then if (s.child i).pc = .ended then some (s.goto (.joining (i + 1))) else none
    else some (s.goto .ended)
  | .ended       => none
  | .raised _    => none

/-- A feeder writes what it holds. -/
def feed (s : Pool) (i : Nat) : Option Pool :=
  match (s.child i).feeder with
  | .holding item => some { s.set i { s.child i with feeder := .handed } with pipe := s.pipe ++ [item] }
  | _             => none

def step (s : Pool) : Event → Option Pool
  | .parent        => s.parentStep nWorkers
  | .child i       => ((s.child i).step connsPerWorker s.startLock i).map (s.set i)
  | .feed i        => s.feed i
  | .parentRaises  =>
    match s.parent with
    | .ended | .raised _ => none
    | _                  => some (s.goto (.raised .other))
  | .childRaises i =>
    match (s.child i).pc with
    | .unstarted | .ended => none
    | _                   => some (s.set i { s.child i with pc := .leaving })

end Pool

/-- How many feeders have handed over their item. -/
def Pool.handedOver (s : Pool) : Nat :=
  ((List.range nWorkers).filter (fun i => decide ((s.child i).feeder = .handed))).length

/-- What the children counted. -/
def Pool.counted (s : Pool) : Nat := total ((List.range nWorkers).map (fun i => (s.child i).nQueries))

/-- **Every get succeeded so far, and the total is the sum.** -/
structure Collects (s : Pool) : Prop where
  gets  : s.parent ≠ .raised .empty
  total : ∀ x, s.totalTx = some x → x = s.counted nWorkers

/-- **At each get more feeders have handed over their item than gets were made.** -/
def Delivered (s : Pool) (e : Event) : Prop :=
  e = .parent → ∀ i, s.parent = .getting i → i < nWorkers → i < s.handedOver nWorkers

end
/-! ## Sums over producers -/

theorem total_perm {xs ys : List Nat} (h : xs.Perm ys) : total xs = total ys := by
  induction h with
  | nil           => rfl
  | cons x _ ih   => simp only [total, List.foldr_cons] at ih ⊢; rw [ih]
  | swap x y l    => simp only [total, List.foldr_cons]; omega
  | trans _ _ i j => rw [i, j]

/-- Items of different producers below `n`, one for each: their values add up to what the producers say. -/
theorem total_of_all {items : List (Nat × Nat)} {n : Nat} {f : Nat → Nat} (hn : (items.map Prod.fst).Nodup)
    (hi : ∀ e ∈ items, e.1 < n ∧ e.2 = f e.1) (hl : n ≤ items.length) :
    total (items.map Prod.snd) = total ((List.range n).map f) := by
  have hsub : items.map Prod.fst ⊆ List.range n := fun i h => by
    obtain ⟨e, he, rfl⟩ := List.mem_map.1 h
    exact List.mem_range.2 (hi e he).1
  have hperm : (items.map Prod.fst).Perm (List.range n) :=
    (List.subperm_of_subset hn hsub).perm_of_length_le (by rwa [List.length_range, List.length_map])
  have hsnd : items.map Prod.snd = (items.map Prod.fst).map f := by
    rw [List.map_map]
    exact List.map_congr_left (fun e he => (hi e he).2)
  rw [hsnd]
  exact total_perm (hperm.map f)

/-! ## One child -/

/-- The child has put its item. -/
def ChildPc.late : ChildPc → Bool
  | .setDone | .leaving | .ended => true
  | _                            => false

structure Child.Ok (i : Nat) (c : Child) : Prop where
  holding : ∀ item, c.feeder = .holding item → item = (i, c.nQueries)
  late    : c.feeder ≠ .idle → c.pc.late = true
  setDone : c.pc = .setDone → c.feeder ≠ .idle
  done    : c.done = true → c.feeder ≠ .idle

/-- What a step of a child leaves: an event that is set, an item that is put, and its value. -/
structure Child.Keeps (c c' : Child) : Prop where
  handed : c'.feeder = .handed ↔ c.feeder = .handed
  put    : c.feeder ≠ .idle → c'.feeder ≠ .idle ∧ c'.nQueries = c.nQueries
  done   : c.done = true → c'.done = true

variable {nWorkers connsPerWorker i : Nat} {c c' : Child} {s s' : Pool} {e : Event} {b : Bool}

theorem Child.keeps_of_eq (hf : c'.feeder = c.feeder) (hn : c.feeder ≠ .idle → c'.nQueries = c.nQueries)
    (hd : c.done = true → c'.done = true) : c.Keeps c' where
  handed := by rw [hf]
  put    := fun h => ⟨hf ▸ h, hn h⟩
  done   := hd

theorem Child.Ok.idle_of_not_late (h : c.Ok i) (hl : c.pc.late = false) : c.feeder = .idle := by
  by_contra hf
  rw [h.late hf] at hl
  cases hl

/-- Before the put. -/
theorem Child.Ok.early (h : c.Ok i) (hl : c.pc.late = false) (hf : c'.feeder = .idle) (hd : c'.done = c.done)
    (hp : c'.pc ≠ .setDone) : c'.Ok i ∧ c.Keeps c' := by
  have hidle := h.idle_of_not_late hl
  have hdone : c.done = true → False := fun hd => h.done hd hidle
  refine ⟨⟨fun _ hh => ?_, fun hh => absurd hf hh, fun hh => absurd hh hp, fun hh => (hdone (hd ▸ hh)).elim⟩, ?_⟩
  · rw [hf] at hh; cases hh
  · exact Child.keeps_of_eq (hf.trans hidle.symm) (fun hh => absurd hidle hh) (fun hh => hd ▸ hh)

/-- From one place before the put to another. -/
theorem Child.Ok.onward (h : c.Ok i) (hl : c.pc.late = false) {pc : ChildPc} {n : Nat} (hp : pc ≠ .setDone) :
    Child.Ok i { c with pc := pc, nQueries := n } ∧ c.Keeps { c with pc := pc, nQueries := n } :=
  h.early hl (h.idle_of_not_late hl) rfl hp

theorem Child.Ok.step (h : c.Ok i) (hs : c.step connsPerWorker b i = some c') : c'.Ok i ∧ c.Keeps c' := by
  unfold Child.step at hs
  split at hs
  · cases hs
  · cases hs
  · rename_i hp
    simp only [Option.ite_none_right_eq_some] at hs
    obtain ⟨-, hs⟩ := hs
    cases hs
    exact h.onward (by rw [hp]; rfl) (fun h => nomatch h)
  · rename_i made hp
    cases hs
    apply h.onward (by rw [hp]; rfl)
    by_cases hm : made < connsPerWorker
    · rw [if_pos hm]; exact (nomatch ·)
    · rw [if_neg hm]; exact (nomatch ·)
  · rename_i hp
    cases hs
    exact h.onward (by rw [hp]; rfl) (fun h => nomatch h)
  · rename_i hp
    cases hs
    split
    · exact h.onward (by rw [hp]; rfl) (by rw [hp]; exact (nomatch ·))
    · exact h.onward (by rw [hp]; rfl) (fun h => nomatch h)
  · rename_i hp
    cases hs
    exact h.onward (by rw [hp]; rfl) (fun h => nomatch h)
  · rename_i hp
    have hidle := h.idle_of_not_late (by rw [hp]; rfl)
    cases hs
    refine ⟨⟨fun item hi => ?_, fun _ => rfl, fun _ => (nomatch ·), fun _ => (nomatch ·)⟩, ?_⟩
    · cases hi; rfl
    · exact ⟨⟨fun hh => (nomatch hh), fun hh => (by rw [hidle] at hh; cases hh)⟩, fun hh => absurd hidle hh, fun hh => hh⟩
  · rename_i hp
    cases hs
    exact ⟨⟨h.holding, fun _ => rfl, (fun hh => nomatch hh), fun _ => h.setDone hp⟩,
      Child.keeps_of_eq rfl (fun _ => rfl) (fun _ => rfl)⟩
  · split at hs
    · cases hs
    · cases hs
      exact ⟨⟨h.holding, fun _ => rfl, (fun hh => nomatch hh), h.done⟩,
        Child.keeps_of_eq rfl (fun _ => rfl) (fun hh => hh)⟩

theorem Child.Ok.raise (h : c.Ok i) : Child.Ok i { c with pc := .leaving } ∧ c.Keeps { c with pc := .leaving } :=
  ⟨⟨h.holding, fun _ => rfl, (fun hh => nomatch hh), h.done⟩, Child.keeps_of_eq rfl (fun _ => rfl) (fun hh => hh)⟩

/-! ## All of them -/

/-- The children from here on are not started. -/
def ParentPc.started (nWorkers : Nat) : ParentPc → Nat
  | .checking   => 0
  | .starting i => i
  | _           => nWorkers

/-- The children up to here are done. -/
def ParentPc.waited (nWorkers : Nat) : ParentPc → Nat
  | .waiting i                                  => i
  | .getting _ | .mean | .joining _ | .ended    => nWorkers
  | _                                           => 0

/-- The parent has not come to the gets. -/
def ParentPc.early : ParentPc → Bool
  | .checking | .starting _ | .release | .sleeping | .waiting _ => true
  | _                                                           => false

structure Accounts (nWorkers : Nat) (s : Pool) : Prop where
  child     : ∀ i, (s.child i).Ok i
  unstarted : ∀ i, s.parent.started nWorkers ≤ i → (s.child i).pc = .unstarted ∧ (s.child i).feeder = .idle
  started   : s.parent.started nWorkers ≤ nWorkers
  waited    : ∀ i, i < s.parent.waited nWorkers → (s.child i).done = true
  producers : (s.pipe.map Prod.fst).Nodup
  written   : ∀ x ∈ s.pipe, (s.child x.1).feeder = .handed ∧ x.2 = (s.child x.1).nQueries
  handed    : ∀ i, (s.child i).feeder = .handed → i ∈ s.pipe.map Prod.fst
  early     : s.parent.early = true → s.got = 0 ∧ s.results = []
  getting   : ∀ k, s.parent = .getting k → s.got = k ∧ k ≤ s.pipe.length ∧ s.results = (s.pipe.take k).map Prod.snd
  total     : ∀ x, s.totalTx = some x → x = s.counted nWorkers ∧ ∀ i, i < nWorkers → (s.child i).feeder ≠ .idle

theorem accounts_start (nWorkers : Nat) : Accounts nWorkers .start where
  child     := fun _ => ⟨fun _ h => (nomatch h), fun h => absurd rfl h, fun h => (nomatch h), fun h => (nomatch h)⟩
  unstarted := fun _ _ => ⟨rfl, rfl⟩
  started   := Nat.zero_le _
  waited    := fun _ h => absurd h (Nat.not_lt_zero _)
  producers := List.nodup_nil
  written   := fun _ h => absurd h List.not_mem_nil
  handed    := fun _ h => nomatch h
  early     := fun _ => ⟨rfl, rfl⟩
  getting   := fun _ h => nomatch h
  total     := fun _ h => nomatch h

theorem Accounts.producer_lt (h : Accounts nWorkers s) {x : Nat × Nat} (hx : x ∈ s.pipe) : x.1 < nWorkers := by
  by_contra hlt
  have hidle := (h.unstarted x.1 (Nat.le_trans h.started (Nat.not_lt.1 hlt))).2
  rw [(h.written x hx).1] at hidle
  cases hidle

/-- **What is in the pipe** is one item for each feeder that has handed over. -/
theorem Accounts.length_pipe (h : Accounts nWorkers s) : s.pipe.length = s.handedOver nWorkers := by
  have hperm : (s.pipe.map Prod.fst).Perm
      ((List.range nWorkers).filter (fun i => decide ((s.child i).feeder = .handed))) := by
    refine (List.perm_ext_iff_of_nodup h.producers (List.nodup_range.filter _)).2 (fun i => ?_)
    rw [List.mem_filter, List.mem_range, decide_eq_true_iff]
    constructor
    · intro hi
      obtain ⟨x, hx, rfl⟩ := List.mem_map.1 hi
      exact ⟨h.producer_lt hx, (h.written x hx).1⟩
    · exact fun hi => h.handed i hi.2
  rw [Pool.handedOver, ← hperm.length_eq, List.length_map]

theorem Accounts.length_le (h : Accounts nWorkers s) : s.pipe.length ≤ nWorkers := by
  rw [h.length_pipe, Pool.handedOver]
  exact Nat.le_trans (List.length_filter_le _ _) (by rw [List.length_range])

@[simp] theorem set_child_self (s : Pool) (i : Nat) (c : Child) : (s.set i c).child i = c := Function.update_self _ _ _

theorem set_child_of_ne {j : Nat} (h : j ≠ i) (s : Pool) (c : Child) : (s.set i c).child j = s.child j :=
  Function.update_of_ne h _ _

theorem counted_congr (h : ∀ i, i < nWorkers → (s'.child i).nQueries = (s.child i).nQueries) :
    s'.counted nWorkers = s.counted nWorkers :=
  congrArg PgMp.total (List.map_congr_left (fun i hi => h i (List.mem_range.1 hi)))

/-- **A child goes on.** -/
theorem Accounts.set (h : Accounts nWorkers s) (hp : i < s.parent.started nWorkers) (hc : c.Ok i)
    (hk : (s.child i).Keeps c) : Accounts nWorkers (s.set i c) := by
  have hkeeps : ∀ j, (s.child j).Keeps ((s.set i c).child j) := fun j => by
    by_cases hj : j = i
    · subst hj; rw [set_child_self]; exact hk
    · rw [set_child_of_ne hj]; exact Child.keeps_of_eq rfl (fun _ => rfl) (fun hh => hh)
  constructor
  · intro j
    by_cases hj : j = i
    · subst hj; rw [set_child_self]; exact hc
    · rw [set_child_of_ne hj]; exact h.child j
  · intro j hj
    have hji : j ≠ i := by rintro rfl; exact absurd hp (Nat.not_lt.2 hj)
    rw [set_child_of_ne hji]; exact h.unstarted j hj
  · exact h.started
  · exact fun j hj => (hkeeps j).done (h.waited j hj)
  · exact h.producers
  · intro x hx
    obtain ⟨hh, hv⟩ := h.written x hx
    have hne : (s.child x.1).feeder ≠ .idle := by rw [hh]; exact (nomatch ·)
    exact ⟨(hkeeps x.1).handed.2 hh, hv.trans ((hkeeps x.1).put hne).2.symm⟩
  · exact fun j hj => h.handed j ((hkeeps j).handed.1 hj)
  · exact h.early
  · exact h.getting
  · intro x hx
    obtain ⟨hv, hput⟩ := h.total x hx
    refine ⟨hv.trans ?_, fun j hj => ((hkeeps j).put (hput j hj)).1⟩
    exact (counted_congr (fun j hj => ((hkeeps j).put (hput j hj)).2)).symm

/-- **A feeder hands over.** -/
theorem Accounts.feed (h : Accounts nWorkers s) (hs : s.feed i = some s') : Accounts nWorkers s' := by
  unfold Pool.feed at hs
  split at hs
  · rename_i item hf
    cases hs
    have hitem := (h.child i).holding item hf
    subst hitem
    have hne : (s.child i).feeder ≠ .idle := by rw [hf]; exact (nomatch ·)
    have hnew : i ∉ s.pipe.map Prod.fst := fun hi => by
      obtain ⟨x, hx, rfl⟩ := List.mem_map.1 hi
      rw [(h.written x hx).1] at hf
      cases hf
    have hq : ∀ j, ((s.set i { s.child i with feeder := .handed }).child j).nQueries = (s.child j).nQueries := fun j => by
      by_cases hj : j = i
      · subst hj; rw [set_child_self]
      · rw [set_child_of_ne hj]
    constructor
    · intro j
      by_cases hj : j = i
      · subst hj
        simp only [set_child_self]
        exact ⟨fun _ hh => (nomatch hh), fun _ => (h.child j).late hne, fun _ => (nomatch ·), fun _ => (nomatch ·)⟩
      · simp only [set_child_of_ne hj]; exact h.child j
    · intro j hj
      have hji : j ≠ i := by rintro rfl; rw [(h.unstarted j hj).2] at hf; cases hf
      simp only [set_child_of_ne hji]; exact h.unstarted j hj
    · exact h.started
    · intro j hj
      by_cases hji : j = i
      · subst hji; simp only [set_child_self]; exact h.waited j hj
      · simp only [set_child_of_ne hji]; exact h.waited j hj
    · rw [List.map_append, List.map_singleton, List.nodup_append]
      refine ⟨h.producers, List.nodup_singleton _, fun a ha b hb hab => ?_⟩
      rw [hab, List.mem_singleton.1 hb] at ha
      exact hnew ha
    · intro x hx
      rcases List.mem_append.1 hx with hx | hx
      · have hxi : x.1 ≠ i := fun hh => hnew (hh ▸ List.mem_map_of_mem hx)
        simp only [set_child_of_ne hxi]; exact h.written x hx
      · rw [List.mem_singleton.1 hx]; simp only [set_child_self, and_self]
    · intro j hj
      rw [List.map_append, List.mem_append]
      by_cases hji : j = i
      · subst hji; exact Or.inr (by simp)
      · simp only [set_child_of_ne hji] at hj; exact Or.inl (h.handed j hj)
    · exact h.early
    · intro k hk
      obtain ⟨h₁, h₂, h₃⟩ := h.getting k hk
      refine ⟨h₁, by rw [List.length_append]; omega, ?_⟩
      rw [List.take_append_of_le_length h₂]; exact h₃
    · intro x hx
      obtain ⟨hv, hput⟩ := h.total x hx
      refine ⟨hv.trans (counted_congr (fun j _ => hq j)).symm, fun j hj => ?_⟩
      by_cases hji : j = i
      · subst hji; simp only [set_child_self]; exact (nomatch ·)
      · simp only [set_child_of_ne hji]; exact hput j hj
  · cases hs

/-- **The parent goes on** to a place other than a get. -/
theorem Accounts.goto (h : Accounts nWorkers s) {pc : ParentPc} (b : Bool) (hle : pc.started nWorkers ≤ nWorkers)
    (hst : ∀ i, pc.started nWorkers ≤ i → s.parent.started nWorkers ≤ i)
    (hw : ∀ i, i < pc.waited nWorkers → (s.child i).done = true)
    (he : pc.early = true → s.parent.early = true) (hg : ∀ k, pc ≠ .getting k) :
    Accounts nWorkers { s with parent := pc, startLock := b } where
  child     := h.child
  unstarted := fun i hi => h.unstarted i (hst i hi)
  started   := hle
  waited    := hw
  producers := h.producers
  written   := h.written
  handed    := h.handed
  early     := fun hp => h.early (he hp)
  getting   := fun k hk => absurd hk (hg k)
  total     := h.total

/-- The same where all children are started. -/
theorem Accounts.onward (h : Accounts nWorkers s) {pc : ParentPc} (b : Bool) (hs : pc.started nWorkers = nWorkers)
    (hw : ∀ i, i < pc.waited nWorkers → (s.child i).done = true)
    (he : pc.early = true → s.parent.early = true) (hg : ∀ k, pc ≠ .getting k) :
    Accounts nWorkers { s with parent := pc, startLock := b } :=
  h.goto b (Nat.le_of_eq hs) (fun _ hi => Nat.le_trans h.started (hs ▸ hi)) hw he hg

/-- **The next child is started.** -/
theorem Accounts.startChild (h : Accounts nWorkers s) (hp : s.parent = .starting i) (hi : i < nWorkers) :
    Accounts nWorkers ((s.set i { s.child i with pc := .waitStart }).goto (.starting (i + 1))) := by
  have hfresh := h.unstarted i (by rw [hp]; exact Nat.le_refl i)
  have hl : (s.child i).pc.late = false := by rw [hfresh.1]; rfl
  have hgo : Accounts nWorkers (s.goto (.starting (i + 1))) :=
    h.goto s.startLock hi (fun j hj => by rw [hp]; exact Nat.le_of_succ_le hj)
      (fun j hj => absurd hj (Nat.not_lt_zero j)) (fun _ => by rw [hp]; rfl) (fun _ => (nomatch ·))
  obtain ⟨hok, hkeeps⟩ : Child.Ok i { s.child i with pc := .waitStart } ∧
      (s.child i).Keeps { s.child i with pc := .waitStart } := (h.child i).onward hl (nomatch ·)
  exact hgo.set (Nat.lt_succ_self i) hok hkeeps

/-- **A get**: it takes the next item, if more feeders have handed over than gets were made. -/
theorem Accounts.get (h : Accounts nWorkers s) (hp : s.parent = .getting i) :
    Accounts nWorkers (s.get i) ∧ ((s.get i).parent ≠ .raised .empty ↔ i < s.handedOver nWorkers) := by
  obtain ⟨hgot, hle, hres⟩ := h.getting i hp
  have hdone : ∀ j, j < nWorkers → (s.child j).done = true := fun j hj => h.waited j (by rw [hp]; exact hj)
  rw [← h.length_pipe]
  unfold Pool.get
  rw [hgot]
  cases hx : s.pipe[i]? with
  | none =>
    have hlen : s.pipe.length ≤ i := List.getElem?_eq_none_iff.1 hx
    exact ⟨h.onward s.startLock rfl (fun j hj => absurd hj (Nat.not_lt_zero j)) (nomatch ·) (fun _ => (nomatch ·)),
      fun hh => absurd rfl hh, fun hh => absurd hlen (by omega)⟩
  | some item =>
    have hlen : i < s.pipe.length := (List.getElem?_eq_some_iff.1 hx).1
    refine ⟨⟨h.child, fun j hj => h.unstarted j (Nat.le_trans h.started hj), Nat.le_refl _, hdone, h.producers, h.written,
      h.handed, (fun he => nomatch he), fun k hk => ?_, h.total⟩, fun _ => hlen, fun _ => (nomatch ·)⟩
    cases hk
    refine ⟨rfl, hlen, ?_⟩
    rw [hres, List.take_add_one, hx, List.map_append]
    rfl

/-- **The total**: with every item read, the sum of the results is what the children counted. -/
theorem Accounts.sum (h : Accounts nWorkers s) (hp : s.parent = .getting i) (hi : ¬ i < nWorkers) :
    Accounts nWorkers { s with totalTx := some (PgMp.total s.results), parent := .mean } := by
  obtain ⟨-, hle, hres⟩ := h.getting i hp
  have hlen := h.length_le
  have hdone : ∀ j, j < nWorkers → (s.child j).done = true := fun j hj => h.waited j (by rw [hp]; exact hj)
  have hsum : PgMp.total s.results = s.counted nWorkers := by
    rw [hres, List.take_of_length_le (by omega)]
    exact total_of_all h.producers (fun x hx => ⟨h.producer_lt hx, (h.written x hx).2⟩) (by omega)
  refine ⟨h.child, fun i hi => h.unstarted i (Nat.le_trans h.started hi), Nat.le_refl _, hdone, h.producers, h.written,
    h.handed, (fun he => nomatch he), fun _ hk => (nomatch hk), fun x hx => ?_⟩
  cases hx
  exact ⟨hsum, fun j hj => (h.child j).done (hdone j hj)⟩

theorem Accounts.parentStep (h : Accounts nWorkers s) (hs : s.parentStep nWorkers = some s') : Accounts nWorkers s' := by
  have hnone : ∀ i, i < 0 → (s.child i).done = true := fun i hi => absurd hi (Nat.not_lt_zero i)
  unfold Pool.parentStep at hs
  split at hs
  · rename_i hp
    cases hs
    exact h.goto s.startLock (Nat.zero_le _) (fun i _ => by rw [hp]; exact Nat.zero_le i) hnone
      (fun _ => by rw [hp]; rfl) (fun _ => (nomatch ·))
  · rename_i k hp
    cases hs
    split
    · rename_i hk; exact h.startChild hp hk
    · exact h.onward s.startLock rfl hnone (fun _ => by rw [hp]; rfl) (fun _ => (nomatch ·))
  · rename_i hp
    cases hs
    exact h.onward true rfl hnone (fun _ => by rw [hp]; rfl) (fun _ => (nomatch ·))
  · rename_i hp
    cases hs
    exact h.onward false rfl hnone (fun _ => by rw [hp]; rfl) (fun _ => (nomatch ·))
  · rename_i k hp
    have hw : ∀ i, i < k → (s.child i).done = true := fun i hi => h.waited i (by rw [hp]; exact hi)
    split at hs
    · simp only [Option.ite_none_right_eq_some] at hs
      obtain ⟨hd, hs⟩ := hs
      cases hs
      refine h.onward s.startLock rfl (fun i hi => ?_) (fun _ => by rw [hp]; rfl) (fun _ => (nomatch ·))
      rcases Nat.lt_succ_iff_lt_or_eq.1 hi with hi | rfl
      · exact hw i hi
      · exact hd
    · rename_i hk
      cases hs
      obtain ⟨hgot, hres⟩ := h.early (by rw [hp]; rfl)
      refine ⟨h.child, fun i hi => h.unstarted i (Nat.le_trans h.started hi), Nat.le_refl _,
        fun i hi => hw i (Nat.lt_of_lt_of_le hi (Nat.not_lt.1 hk)), h.producers, h.written, h.handed,
        (fun he => nomatch he), fun j hj => ?_, h.total⟩
      cases hj
      exact ⟨hgot, Nat.zero_le _, hres⟩
  · rename_i k hp
    cases hs
    split
    · exact (h.get hp).1
    · rename_i hk; exact h.sum hp hk
  · rename_i hp
    have hw : ∀ i, i < nWorkers → (s.child i).done = true := fun i hi => h.waited i (by rw [hp]; exact hi)
    cases hs
    split
    · exact h.onward s.startLock rfl hnone (nomatch ·) (fun _ => (nomatch ·))
    · exact h.onward s.startLock rfl hw (nomatch ·) (fun _ => (nomatch ·))
  · rename_i k hp
    have hw : ∀ i, i < nWorkers → (s.child i).done = true := fun i hi => h.waited i (by rw [hp]; exact hi)
    split at hs
    · simp only [Option.ite_none_right_eq_some] at hs
      cases hs.2
      exact h.onward s.startLock rfl hw (nomatch ·) (fun _ => (nomatch ·))
    · cases hs
      exact h.onward s.startLock rfl hw (nomatch ·) (fun _ => (nomatch ·))
  · cases hs
  · cases hs

theorem Accounts.started_of (h : Accounts nWorkers s) (hp : (s.child i).pc ≠ .unstarted) :
    i < s.parent.started nWorkers := by
  by_contra hlt
  exact hp (h.unstarted i (Nat.not_lt.1 hlt)).1

theorem Accounts.step (h : Accounts nWorkers s) (hs : s.step nWorkers connsPerWorker e = some s') :
    Accounts nWorkers s' := by
  cases e with
  | parent => exact h.parentStep hs
  | child i =>
    obtain ⟨c, hc, rfl⟩ := Option.map_eq_some_iff.1 hs
    obtain ⟨hok, hkeeps⟩ := (h.child i).step hc
    refine h.set (h.started_of (fun hp => ?_)) hok hkeeps
    rw [Child.step, hp] at hc
    cases hc
  | feed i => exact h.feed hs
  | parentRaises =>
    simp only [Pool.step] at hs
    split at hs
    · cases hs
    · cases hs
    · cases hs
      exact h.onward s.startLock rfl (fun j hj => absurd hj (Nat.not_lt_zero j)) (nomatch ·) (fun _ => (nomatch ·))
  | childRaises i =>
    simp only [Pool.step] at hs
    split at hs
    · cases hs
    · cases hs
    · rename_i hne _
      cases hs
      exact h.set (h.started_of hne) (h.child i).raise.1 (h.child i).raise.2

/-! ## The gets -/

theorem parent_of_no_get (hn : ∀ i, s.parent = .getting i → ¬ i < nWorkers) (hs : s.parentStep nWorkers = some s') :
    s'.parent ≠ .raised .empty := by
  unfold Pool.parentStep at hs
  split at hs
  · cases hs; exact (nomatch ·)
  · cases hs; split <;> exact (nomatch ·)
  · cases hs; exact (nomatch ·)
  · cases hs; exact (nomatch ·)
  · split at hs
    · simp only [Option.ite_none_right_eq_some] at hs
      cases hs.2; exact (nomatch ·)
    · cases hs; exact (nomatch ·)
  · rename_i k hp
    cases hs
    rw [if_neg (hn k hp)]
    exact (nomatch ·)
  · cases hs; simp only [Pool.goto]; split <;> exact (nomatch ·)
  · split at hs
    · simp only [Option.ite_none_right_eq_some] at hs
      cases hs.2; exact (nomatch ·)
    · cases hs; exact (nomatch ·)
  · cases hs
  · cases hs

/-- **A step keeps the collecting right exactly when a get finds its item handed over.** -/
theorem collects_step (h : Accounts nWorkers s) (hc : Collects nWorkers s)
    (hs : s.step nWorkers connsPerWorker e = some s') : Collects nWorkers s' ↔ Delivered nWorkers s e := by
  have htotal : ∀ x, s'.totalTx = some x → x = s'.counted nWorkers := fun x hx => ((h.step hs).total x hx).1
  have hsame : s'.parent = s.parent ∨ s'.parent = .raised .other → e ≠ .parent →
      (Collects nWorkers s' ↔ Delivered nWorkers s e) := fun hp he =>
    ⟨fun _ hh => absurd hh he, fun _ => ⟨hp.elim (fun hp => hp ▸ hc.gets) (fun hp => hp ▸ (nomatch ·)), htotal⟩⟩
  cases e with
  | parent =>
    by_cases hg : ∃ i, s.parent = .getting i ∧ i < nWorkers
    · obtain ⟨i, hp, hi⟩ := hg
      have hs' : s' = s.get i := by
        simp only [Pool.step, Pool.parentStep, hp, if_pos hi, Option.some.injEq] at hs
        exact hs.symm
      have hget := (h.get hp).2
      rw [← hs'] at hget
      constructor
      · intro hcol _ j hj _
        rw [hp] at hj
        cases hj
        exact hget.1 hcol.gets
      · exact fun hd => ⟨hget.2 (hd rfl i hp hi), htotal⟩
    · have hn : ∀ i, s.parent = .getting i → ¬ i < nWorkers := fun i hp hi => hg ⟨i, hp, hi⟩
      exact ⟨fun _ _ i hp hi => absurd hi (hn i hp), fun _ => ⟨parent_of_no_get hn hs, htotal⟩⟩
  | child i =>
    obtain ⟨c, -, rfl⟩ := Option.map_eq_some_iff.1 hs
    exact hsame (Or.inl rfl) (nomatch ·)
  | feed i =>
    refine hsame (Or.inl ?_) (nomatch ·)
    simp only [Pool.step, Pool.feed] at hs
    split at hs
    · cases hs; rfl
    · cases hs
  | parentRaises =>
    refine hsame (Or.inr ?_) (nomatch ·)
    simp only [Pool.step] at hs
    split at hs
    · cases hs
    · cases hs
    · cases hs; rfl
  | childRaises i =>
    refine hsame (Or.inl ?_) (nomatch ·)
    simp only [Pool.step] at hs
    split at hs
    · cases hs
    · cases hs
    · cases hs; rfl

/-- **Every get succeeds, and the total is the sum, in every state of a run exactly where each get comes after enough
items were handed over.** -/
theorem collects_iff_delivered (nWorkers connsPerWorker : Nat) (es : List Event) :
    Runs.Always (Pool.step nWorkers connsPerWorker) (Collects nWorkers) .start es ↔
      Runs.Meets (Pool.step nWorkers connsPerWorker) (Delivered nWorkers) .start es :=
  Runs.always_iff_meets_of_invariant (J := Accounts nWorkers) (P := Collects nWorkers) (C := Delivered nWorkers)
    (fun _ _ _ h hs => h.step hs) (fun _ _ _ h hc hs => collects_step h hc hs) es (accounts_start nWorkers)
    ⟨(nomatch ·), fun _ h => nomatch h⟩

/-! ## One child and a slow feeder -/

/-- **The event is set while the feeder holds the item**: the parent's get raises `Empty`. -/
theorem get_raises_empty : ∃ s, Runs.run (Pool.step 1 0) .start
      ([.parent, .parent, .parent, .parent] ++ List.replicate 4 (.child 0) ++ [.parent] ++ List.replicate 4 (.child 0) ++
        [.parent, .parent, .parent]) = some s ∧
    (s.child 0).done = true ∧ s.parent = .raised .empty := by
  apply Runs.exists_run_of_any
  decide

end PgMp
end Scrapcode
