import Mathlib.Data.Fintype.Card
import Mathlib.Logic.Function.Basic
/-!
# Barriers — parties that wait for each other, all or none

Python's `threading.Barrier`, of which the barrier of `multiprocessing` is a shared copy.  A party that enters is
counted; the last one starts the draining, in which those inside leave one by one, and a barrier that is empty again is
as it was.  A party whose time is up breaks the barrier: it and all others raise, now or when they come.

Where each party waits once, either all of them pass or none does (`Meeting.AllOrNone`).
-/
namespace Scrapcode
namespace Barriers

inductive Phase where
  | filling
  | draining
  | broken
deriving DecidableEq, Repr

structure Barrier (ι : Type) where
  phase  : Phase
  inside : List ι
deriving DecidableEq, Repr

variable {ι : Type} [DecidableEq ι]

/-- The first part of `wait`: in, or out again with an exception (`false`).  It blocks while the barrier drains. -/
def Barrier.enter (parties : Nat) (b : Barrier ι) (i : ι) : Option (Barrier ι × Bool) :=
  match b.phase with
  | .filling  =>
    some ({ phase := if b.inside.length + 1 = parties then .draining else .filling, inside := b.inside ++ [i] }, true)
  | .draining => none
  | .broken   => some (b, false)

/-- The second part of `wait`: through, or an exception (`false`); where nothing else has happened only the end of the
time makes it go on. -/
def Barrier.leave (b : Barrier ι) (i : ι) (timedOut : Bool) : Option (Barrier ι × Bool) :=
  match b.phase with
  | .filling  => if timedOut then some ({ phase := .broken, inside := b.inside.erase i }, false) else none
  | .draining =>
    some ({ phase := if b.inside.erase i = [] then .filling else .draining, inside := b.inside.erase i }, true)
  | .broken   => some ({ b with inside := b.inside.erase i }, false)

/-! ## Parties that wait once -/

inductive Seat where
  | outside
  | inside
  | passed
  | refused
deriving DecidableEq, Repr

/-- A barrier, and how far each party has come with its one `wait`. -/
structure Meeting (ι : Type) where
  barrier : Barrier ι
  seat    : ι → Seat

namespace Meeting

def start : Meeting ι := { barrier := { phase := .filling, inside := [] }, seat := fun _ => .outside }

def enter (parties : Nat) (m : Meeting ι) (i : ι) : Option (Meeting ι × Bool) :=
  if m.seat i = .outside then
    (m.barrier.enter parties i).map fun r =>
      ({ barrier := r.1, seat := Function.update m.seat i (if r.2 then .inside else .refused) }, r.2)
  else none

def leave (m : Meeting ι) (i : ι) (timedOut : Bool) : Option (Meeting ι × Bool) :=
  if m.seat i = .inside then
    (m.barrier.leave i timedOut).map fun r =>
      ({ barrier := r.1, seat := Function.update m.seat i (if r.2 then .passed else .refused) }, r.2)
  else none

/-- **All or none**: who is through the barrier has all others with it, inside or through; where one was refused nobody
passes. -/
structure AllOrNone (m : Meeting ι) : Prop where
  nodup    : m.barrier.inside.Nodup
  inside   : ∀ i, i ∈ m.barrier.inside ↔ m.seat i = .inside
  filling  : m.barrier.phase = .filling → (∀ i, m.seat i ≠ .refused) ∧
    ((∃ i, m.seat i = .passed) → ∀ i, m.seat i = .passed)
  draining : m.barrier.phase = .draining → ∀ i, m.seat i = .inside ∨ m.seat i = .passed
  broken   : m.barrier.phase = .broken → ∀ i, m.seat i ≠ .passed

variable {m m' : Meeting ι} {i j : ι} {parties : Nat} {timedOut through : Bool}

omit [DecidableEq ι] in
theorem allOrNone_start : AllOrNone (start : Meeting ι) where
  nodup    := List.nodup_nil
  inside   := fun _ => iff_of_false List.not_mem_nil (nomatch ·)
  filling  := fun _ => ⟨fun _ => (nomatch ·), fun ⟨_, h⟩ => nomatch h⟩
  draining := (nomatch ·)
  broken   := (nomatch ·)

omit [DecidableEq ι] in
/-- **Who has passed has everybody with it.** -/
theorem AllOrNone.together (h : m.AllOrNone) (hi : m.seat i = .passed) (j : ι) :
    m.seat j = .inside ∨ m.seat j = .passed := by
  cases hp : m.barrier.phase with
  | filling  => exact Or.inr ((h.filling hp).2 ⟨i, hi⟩ j)
  | draining => exact h.draining hp j
  | broken   => exact absurd hi (h.broken hp i)

theorem enter_eq_some (h : m.enter parties i = some (m', through)) : m.seat i = .outside ∧
    ((m.barrier.phase = .filling ∧ through = true ∧
        m' = ⟨⟨if m.barrier.inside.length + 1 = parties then .draining else .filling, m.barrier.inside ++ [i]⟩,
          Function.update m.seat i .inside⟩) ∨
      (m.barrier.phase = .broken ∧ through = false ∧ m' = ⟨m.barrier, Function.update m.seat i .refused⟩)) := by
  obtain ⟨hi, h⟩ := Option.ite_none_right_eq_some.1 h
  refine ⟨hi, ?_⟩
  cases hp : m.barrier.phase with
  | filling  => rw [Barrier.enter, hp] at h; cases h; exact Or.inl ⟨rfl, rfl, rfl⟩
  | draining => rw [Barrier.enter, hp] at h; cases h
  | broken   => rw [Barrier.enter, hp] at h; cases h; exact Or.inr ⟨rfl, rfl, rfl⟩

theorem leave_eq_some (h : m.leave i timedOut = some (m', through)) : m.seat i = .inside ∧
    ((m.barrier.phase = .draining ∧ through = true ∧
        m' = ⟨⟨if m.barrier.inside.erase i = [] then .filling else .draining, m.barrier.inside.erase i⟩,
          Function.update m.seat i .passed⟩) ∨
      (m.barrier.phase ≠ .draining ∧ through = false ∧
        m' = ⟨⟨.broken, m.barrier.inside.erase i⟩, Function.update m.seat i .refused⟩)) := by
  obtain ⟨hi, h⟩ := Option.ite_none_right_eq_some.1 h
  refine ⟨hi, ?_⟩
  cases hp : m.barrier.phase with
  | filling =>
    rw [Barrier.leave, hp] at h
    cases timedOut with
    | false => cases h
    | true  => cases h; exact Or.inr ⟨(nomatch ·), rfl, rfl⟩
  | draining => rw [Barrier.leave, hp] at h; cases h; exact Or.inl ⟨rfl, rfl, rfl⟩
  | broken =>
    rw [Barrier.leave, hp] at h
    cases h
    exact Or.inr ⟨(nomatch ·), rfl, rfl⟩

/-- As many as there are parties are all parties. -/
theorem mem_of_nodup_of_length [Fintype ι] {l : List ι} (hl : l.Nodup) (hlen : l.length = Fintype.card ι) (j : ι) :
    j ∈ l := by
  have hcard : l.toFinset.card = Fintype.card ι := (List.toFinset_card_of_nodup hl).trans hlen
  rw [← List.mem_toFinset, Finset.card_eq_iff_eq_univ _ |>.1 hcard]
  exact Finset.mem_univ j

theorem mem_append_iff_seat (hm : m.AllOrNone) (hi : m.seat i = .outside) (j : ι) :
    j ∈ m.barrier.inside ++ [i] ↔ Function.update m.seat i .inside j = .inside := by
  rw [List.mem_append, List.mem_singleton, hm.inside]
  by_cases hj : j = i
  · subst hj; rw [Function.update_self]; exact iff_of_true (Or.inr rfl) rfl
  · rw [Function.update_of_ne hj]; exact or_iff_left hj

theorem mem_erase_iff_seat (hm : m.AllOrNone) {seat : Seat} (hseat : seat ≠ .inside) (j : ι) :
    j ∈ m.barrier.inside.erase i ↔ Function.update m.seat i seat j = .inside := by
  rw [hm.nodup.mem_erase_iff, hm.inside]
  by_cases hj : j = i
  · subst hj; rw [Function.update_self]; exact iff_of_false (fun h => h.1 rfl) hseat
  · rw [Function.update_of_ne hj]; exact and_iff_right hj

theorem update_ne {seat seat' : Seat} (hne : seat' ≠ seat) (h : m.seat j ≠ seat) :
    Function.update m.seat i seat' j ≠ seat := by
  by_cases hj : j = i
  · subst hj; rw [Function.update_self]; exact hne
  · rw [Function.update_of_ne hj]; exact h

theorem AllOrNone.enter [Fintype ι] (hm : m.AllOrNone) (h : m.enter (Fintype.card ι) i = some (m', through)) :
    m'.AllOrNone := by
  obtain ⟨hi, ⟨hp, -, rfl⟩ | ⟨hp, -, rfl⟩⟩ := enter_eq_some h
  · have hmem := mem_append_iff_seat hm hi
    have hnot : i ∉ m.barrier.inside := fun hin => by
      rw [(hm.inside i).1 hin] at hi
      cases hi
    have hnodup : (m.barrier.inside ++ [i]).Nodup :=
      List.nodup_append'.2 ⟨hm.nodup, List.nodup_singleton i, List.disjoint_singleton.2 hnot⟩
    obtain ⟨hrefused, hpassed⟩ := hm.filling hp
    have hnone : ∀ j, m.seat j ≠ .passed := fun j hj => by
      have := hpassed ⟨j, hj⟩ i
      rw [hi] at this
      cases this
    refine ⟨hnodup, hmem, fun _ => ⟨fun j => update_ne (nomatch ·) (hrefused j), fun ⟨j, hj⟩ => ?_⟩, fun hd j => ?_,
      fun hb => ?_⟩
    · exact absurd hj (update_ne (nomatch ·) (hnone j))
    · have hlen : m.barrier.inside.length + 1 = Fintype.card ι := by
        by_contra hne
        rw [if_neg hne] at hd
        cases hd
      exact Or.inl ((hmem j).1 (mem_of_nodup_of_length hnodup
        (by rw [List.length_append, List.length_singleton, hlen]) j))
    · split at hb <;> cases hb
  · refine ⟨hm.nodup, fun j => ?_, fun hf => ?_, fun hd => ?_, fun _ j => update_ne (nomatch ·) (hm.broken hp j)⟩
    · show j ∈ m.barrier.inside ↔ Function.update m.seat i .refused j = .inside
      rw [hm.inside]
      by_cases hj : j = i
      · subst hj; rw [Function.update_self, hi]; exact iff_of_false (nomatch ·) (nomatch ·)
      · rw [Function.update_of_ne hj]
    · exact nomatch hp.symm.trans hf
    · exact nomatch hp.symm.trans hd

theorem AllOrNone.leave (hm : m.AllOrNone) (h : m.leave i timedOut = some (m', through)) : m'.AllOrNone := by
  obtain ⟨hi, ⟨hp, -, rfl⟩ | ⟨hp, -, rfl⟩⟩ := leave_eq_some h
  · have hmem := mem_erase_iff_seat (i := i) hm (nomatch · : Seat.passed ≠ .inside)
    have hin : ∀ j, Function.update m.seat i .passed j = .inside ∨ Function.update m.seat i .passed j = .passed := by
      intro j
      by_cases hj : j = i
      · subst hj; rw [Function.update_self]; exact Or.inr rfl
      · rw [Function.update_of_ne hj]; exact hm.draining hp j
    refine ⟨hm.nodup.erase i, hmem, fun hf => ?_, fun _ => hin, fun hb => ?_⟩
    · -- the last one inside leaves
      have hempty : m.barrier.inside.erase i = [] := by
        by_contra hne
        rw [if_neg hne] at hf
        cases hf
      have hall : ∀ j, Function.update m.seat i .passed j = .passed := fun j =>
        (hin j).resolve_left fun h => by
          have := (hmem j).2 h
          rw [hempty] at this
          cases this
      exact ⟨fun j h => (nomatch (hall j).symm.trans h), fun _ => hall⟩
    · split at hb <;> cases hb
  · have hnone : ∀ j, m.seat j ≠ .passed := fun j hj => by
      cases hph : m.barrier.phase with
      | draining => exact hp hph
      | broken   => exact hm.broken hph j hj
      | filling  =>
        have := (hm.filling hph).2 ⟨j, hj⟩ i
        rw [hi] at this
        cases this
    exact ⟨hm.nodup.erase i, mem_erase_iff_seat hm (nomatch ·), (nomatch ·), (nomatch ·),
      fun _ j => update_ne (nomatch ·) (hnone j)⟩

/-- A party that has not come can come, and one that is inside goes on at the latest when its time is up. -/
theorem AllOrNone.enter_isSome (hm : m.AllOrNone) (hi : m.seat i = .outside) (parties : Nat) :
    ∃ r, m.enter parties i = some r := by
  rw [Meeting.enter, if_pos hi]
  cases hp : m.barrier.phase with
  | filling  => exact ⟨_, by rw [Barrier.enter, hp, Option.map_some]⟩
  | broken   => exact ⟨_, by rw [Barrier.enter, hp, Option.map_some]⟩
  | draining =>
    rcases hm.draining hp i with h | h <;> rw [hi] at h <;> cases h

theorem leave_isSome (hi : m.seat i = .inside) : ∃ r, m.leave i true = some r := by
  rw [Meeting.leave, if_pos hi]
  cases hp : m.barrier.phase with
  | filling  => exact ⟨_, by rw [Barrier.leave, hp, if_pos rfl, Option.map_some]⟩
  | draining => exact ⟨_, by rw [Barrier.leave, hp, Option.map_some]⟩
  | broken   => exact ⟨_, by rw [Barrier.leave, hp, Option.map_some]⟩

end Meeting
end Barriers
end Scrapcode
