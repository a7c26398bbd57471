import Scrapcode.Runs
/-!
# ForkCow — the wakeup of `fork_cow_demo.c`

The parent forks, installs its handler for `SIGUSR1`, resets `got_sigusr1` and then tests it and sleeps until it is set.
The child sends the signal once it has written its memory.  A signal that was sent is delivered at some later step of
the parent: it runs the handler if there is one, ends the parent otherwise, and ends a sleep early.

The handler and the reset come after the fork, so the signal may be too early for either.  No wakeup is lost
(`NoLostWakeup`) exactly in the runs in which the signal is delivered to the handler and the flag is not reset after it
(`Timely`).
-/
namespace Scrapcode
namespace ForkCow

/-- The step of the parent that is next: in `wait_for_sigusr1`, past it, or none after the default action. -/
inductive ParentPc where
  | install
  | reset
  | test
  | sleeping
  | past
  | terminated
deriving DecidableEq, Repr

/-- The step of `child_main` that is next. -/
inductive ChildPc where
  | assertParent
  | setDeathSignal
  | ignoreHangup
  | dirtyHeap
  | dirtyShm
  | pageout
  | kill
  | waiting
  | ended
deriving DecidableEq, Repr

/-- Both processes; `pending` is a signal that was sent and not delivered yet. -/
structure Demo where
  parent     : ParentPc
  child      : ChildPc
  handler    : Bool
  gotSigusr1 : Bool
  pending    : Bool
  delivered  : Bool
deriving DecidableEq, Repr

def Demo.start : Demo where
  parent     := .install
  child      := .assertParent
  handler    := false
  gotSigusr1 := false
  pending    := false
  delivered  := false

/-- The parent or the child goes on, the child fails an assert or a system call, the signal is delivered. -/
inductive Event where
  | parent
  | child
  | childFails
  | deliver
deriving DecidableEq, Repr

namespace Demo

def parentStep (s : Demo) : Option Demo :=
  match s.parent with
  | .install    => some { s with handler := true, parent := .reset }
  | .reset      => some { s with gotSigusr1 := false, parent := .test }
  | .test       => some { s with parent := if s.gotSigusr1 = true then .past else .sleeping }
  | .sleeping   => some { s with parent := .test }
  | .past       => none
  | .terminated => none

def childStep (s : Demo) : Option Demo :=
  match s.child with
  | .assertParent   => some { s with child := .setDeathSignal }
  | .setDeathSignal => some { s with child := .ignoreHangup }
  | .ignoreHangup   => some { s with child := .dirtyHeap }
  | .dirtyHeap      => some { s with child := .dirtyShm }
  | .dirtyShm       => some { s with child := .pageout }
  | .pageout        => some { s with child := .kill }
  | .kill           => some { s with pending := true, child := .waiting }
  | .waiting        => none
  | .ended          => none

def sigusr1Handler (s : Demo) : Demo := { s with gotSigusr1 := true }

/-- The handler, if it is installed, or the default action; a sleep returns early. -/
def deliver (s : Demo) : Demo :=
  if s.handler = true then
    { s.sigusr1Handler with
      pending := false, delivered := true, parent := if s.parent = .sleeping then .test else s.parent }
  else { s with pending := false, delivered := true, parent := .terminated }

def step (s : Demo) : Event → Option Demo
  | .parent     => s.parentStep
  | .child      => s.childStep
  | .childFails =>
    match s.child with
    | .assertParent | .pageout => some { s with child := .ended }
    | _                        => none
  | .deliver    => if s.pending = true ∧ s.parent ≠ .terminated then some s.deliver else none

end Demo

/-- The parent tests the flag or sleeps. -/
def ParentPc.waits : ParentPc → Bool
  | .test | .sleeping => true
  | _                 => false

/-- **The signal does not end the parent**, and none is gone while the parent waits for it. -/
structure NoLostWakeup (s : Demo) : Prop where
  alive : s.parent ≠ .terminated
  seen  : s.delivered = true → s.gotSigusr1 = false → s.parent.waits = false

/-- **The signal is delivered to the handler**, and the flag is not reset after it. -/
def Timely (s : Demo) : Event → Prop
  | .parent  => s.parent = .reset → s.delivered = false
  | .deliver => s.handler = true
  | _        => True

theorem noLostWakeup_start : NoLostWakeup .start := ⟨(nomatch ·), fun h => nomatch h⟩

variable {s s' : Demo}

theorem NoLostWakeup.got (h : NoLostWakeup s) (hw : s.parent.waits = true) (hd : s.delivered = true) :
    s.gotSigusr1 = true := by
  cases hg : s.gotSigusr1 with
  | true  => rfl
  | false => rw [h.seen hd hg] at hw; cases hw

/-- **A step of the parent** loses a wakeup where it resets the flag after the signal. -/
theorem parentStep_iff (h : NoLostWakeup s) (hs : s.parentStep = some s') :
    NoLostWakeup s' ↔ (s.parent = .reset → s.delivered = false) := by
  unfold Demo.parentStep at hs
  cases hp : s.parent with
  | install =>
    rw [hp] at hs; cases hs
    exact iff_of_true ⟨(nomatch ·), fun _ _ => rfl⟩ (nomatch ·)
  | reset =>
    rw [hp] at hs; cases hs
    constructor
    · intro h' _
      cases hd : s.delivered with
      | false => rfl
      | true  => exact absurd (h'.seen hd rfl) (nomatch ·)
    · intro hd
      exact ⟨(nomatch ·), fun hd' => by rw [hd rfl] at hd'; cases hd'⟩
  | test =>
    rw [hp] at hs; cases hs
    refine iff_of_true ⟨?_, fun hd hg => ?_⟩ (nomatch ·)
    · dsimp only; split <;> exact (nomatch ·)
    · rw [h.got (by rw [hp]; rfl) hd] at hg; cases hg
  | sleeping =>
    rw [hp] at hs; cases hs
    refine iff_of_true ⟨(nomatch ·), fun hd hg => ?_⟩ (nomatch ·)
    rw [h.got (by rw [hp]; rfl) hd] at hg; cases hg
  | past       => rw [hp] at hs; cases hs
  | terminated => rw [hp] at hs; cases hs

theorem childStep_same (hs : s.childStep = some s') :
    s'.parent = s.parent ∧ s'.delivered = s.delivered ∧ s'.gotSigusr1 = s.gotSigusr1 := by
  unfold Demo.childStep at hs
  split at hs <;> cases hs <;> exact ⟨rfl, rfl, rfl⟩

theorem NoLostWakeup.congr (h : NoLostWakeup s) (hp : s'.parent = s.parent) (hd : s'.delivered = s.delivered)
    (hg : s'.gotSigusr1 = s.gotSigusr1) : NoLostWakeup s' :=
  ⟨by rw [hp]; exact h.alive, by rw [hd, hg, hp]; exact h.seen⟩

/-- **The delivery** ends the parent where there is no handler, and sets the flag where there is one. -/
theorem deliver_iff (h : NoLostWakeup s) : NoLostWakeup s.deliver ↔ s.handler = true := by
  unfold Demo.deliver
  cases hh : s.handler with
  | true =>
    refine iff_of_true ⟨?_, fun _ hg => Bool.noConfusion hg⟩ rfl
    simp only [if_true]
    split
    · exact (by decide)
    · exact h.alive
  | false => exact iff_of_false (fun h' => h'.alive rfl) (nomatch ·)

theorem noLostWakeup_step (s : Demo) (e : Event) (s' : Demo) (h : NoLostWakeup s) (hs : s.step e = some s') :
    NoLostWakeup s' ↔ Timely s e := by
  cases e with
  | parent => exact parentStep_iff h hs
  | child =>
    obtain ⟨hp, hd, hg⟩ := childStep_same hs
    exact iff_of_true (h.congr hp hd hg) trivial
  | childFails =>
    simp only [Demo.step] at hs
    split at hs
    · cases hs; exact iff_of_true (h.congr rfl rfl rfl) trivial
    · cases hs; exact iff_of_true (h.congr rfl rfl rfl) trivial
    · cases hs
  | deliver =>
    simp only [Demo.step, Option.ite_none_right_eq_some] at hs
    obtain ⟨-, hs⟩ := hs
    cases hs
    exact deliver_iff h

/-- **No wakeup is lost** in any state of a run exactly where the signal is delivered to the handler and the flag is
not reset after it. -/
theorem noLostWakeup_iff_timely (es : List Event) :
    Runs.Always Demo.step NoLostWakeup .start es ↔ Runs.Meets Demo.step Timely .start es :=
  Runs.always_iff_meets noLostWakeup_step es noLostWakeup_start

/-- **The child is faster**: its signal ends the parent that has no handler yet, or it comes between the handler and the
reset, and the parent sleeps for a signal that was delivered. -/
theorem signal_too_early :
    (∃ s, Runs.run Demo.step .start (List.replicate 7 .child ++ [.deliver]) = some s ∧ s.parent = .terminated) ∧
    ∃ s, Runs.run Demo.step .start (.parent :: List.replicate 7 .child ++ [.deliver, .parent, .parent]) = some s ∧
      s.delivered = true ∧ s.gotSigusr1 = false ∧ s.parent = .sleeping := by
  refine ⟨⟨_, rfl, ?_⟩, ⟨_, rfl, ?_⟩⟩
  · decide
  · decide

end ForkCow
end Scrapcode
