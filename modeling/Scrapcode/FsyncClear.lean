import Scrapcode.Runs
import Scrapcode.Programs
/-!
# FsyncClear — the main loop of `fsync-error-clear`

One pass of the loop writes a block at the offset of the descriptor, in reopen mode closes the file and opens it again,
calls `fsync` and, after an `EIO` or `ENOSPC` of the write or of the `fsync`, calls `fsync` again and goes back to the
offset of the block.  It goes back once; a second error ends the program.

Which blocks the program has behind it is `AdvanceRule`: each was written, closed and synced without an error in the
last pass that wrote it.  An error of `close` is printed and sets no flag, so the rule holds exactly in the runs in
which no `close` fails between a full write and an `fsync` that succeeds (`CloseSeen`).
-/
namespace Scrapcode
namespace FsyncClear

open Programs

/-- `WRITE_BUF_SIZE`. -/
def writeBufSize : Nat := 4096 * 10

inductive Errno where
  | eio
  | enospc
  | other
deriving DecidableEq, Repr

/-- The errors the program looks for. -/
def Errno.expected : Errno → Bool
  | .eio | .enospc => true
  | .other         => false

/-- The bytes written, or an error and the offset it leaves. -/
inductive Written where
  | bytes (n : Nat)
  | error (e : Errno) (offset : Nat)
deriving DecidableEq, Repr

/-- What the calls of `write_another_file` do. -/
structure OtherFile where
  opened  : Bool := true
  written : Option Nat := some writeBufSize
  fsync   : Bool := true
  close   : Bool := true
deriving DecidableEq, Repr

/-- What the calls of one pass do, in their order; `true` is success, and `fsync` has the error it reports. -/
structure Outcomes where
  tell            : Bool := true
  write           : Written := .bytes writeBufSize
  tellBeforeClose : Bool := true
  close           : Bool := true
  openAgain       : Bool := true
  seekBack        : Bool := true
  fsync           : Option Errno := none
  fsyncAgain      : Bool := true
  otherFile       : OtherFile := {}
  rewind          : Bool := true
deriving DecidableEq, Repr

/-- What is printed of the second `fsync`. -/
inductive Verdict where
  | good
  | bad
  | ok
deriving DecidableEq, Repr

/-- The program; `passes` are those that came to their end, the last one first, each with the offset it wrote at. -/
structure Tester where
  offset     : Nat
  lastOffset : Nat
  secondTry  : Bool
  dots       : Nat
  verdicts   : List Verdict
  retries    : Nat
  passes     : List (Nat × Outcomes)
  exited     : Option Nat
deriving DecidableEq, Repr

def Tester.start : Tester where
  offset     := 0
  lastOffset := 0
  secondTry  := false
  dots       := 0
  verdicts   := []
  retries    := 0
  passes     := []
  exited     := none

/-- A part of the program; a fault is the status it exits with. -/
abbrev Prog := EStateM Nat Tester

def orExit (ok : Bool) (status : Nat) : Prog Unit := if ok = true then pure () else throw status

def seek (offset : Nat) : Prog Unit := modify (fun s => { s with offset := offset })

def writeAnotherFile (o : OtherFile) : Prog Unit := do
  orExit o.opened 1
  orExit (o.written == some writeBufSize) 1
  orExit o.fsync 1
  orExit o.close 1

/-- An error of `close` is printed only. -/
def reopenFd (o : Outcomes) : Prog Unit := do
  orExit o.tellBeforeClose 1
  let s ← get
  orExit o.openAgain 1
  seek 0
  orExit o.seekBack 1
  seek s.offset

def reopenIf (reopen : Bool) (o : Outcomes) : Prog Unit := if reopen = true then reopenFd o else pure ()

/-- The write; its result is `write_err`. -/
def writeBlock (o : Outcomes) : Prog Bool := do
  let s ← get
  match o.write with
  | .bytes n        =>
    orExit (n == writeBufSize) 1
    seek (s.offset + n)
    pure false
  | .error e offset =>
    seek offset
    orExit e.expected 1
    pure true

/-- The first `fsync`, after a write without an error; its result is `fsync_err`. -/
def firstFsync (o : Outcomes) (writeErr : Bool) : Prog Bool :=
  match writeErr, o.fsync with
  | true, _       => pure false
  | false, none   => pure false
  | false, some e => do
    orExit e.expected 1
    pure true

def verdict (o : Outcomes) (fsyncErr : Bool) : Verdict :=
  if o.fsyncAgain = true then (if fsyncErr = true then .bad else .ok) else .good

def Tester.report (s : Tester) (v : Verdict) : Tester := { s with verdicts := s.verdicts ++ [v] }

def Tester.retry (s : Tester) : Tester :=
  { s with offset := s.lastOffset, secondTry := true, retries := s.retries + 1 }

/-- The second `fsync`, and back to the block unless this was done before. -/
def afterError (o : Outcomes) (fsyncErr : Bool) : Prog Unit := do
  modify (·.report (verdict o fsyncErr))
  let s ← get
  match s.secondTry with
  | true  =>
    writeAnotherFile o.otherFile
    throw 1
  | false =>
    orExit o.rewind 4
    modify Tester.retry

def afterErrorIf (writeErr fsyncErr : Bool) (o : Outcomes) : Prog Unit :=
  if writeErr = true ∨ fsyncErr = true then afterError o fsyncErr else pure ()

def Tester.dot (s : Tester) : Tester := { s with dots := if s.dots + 1 = 60 then 0 else s.dots + 1 }

/-- One pass of the loop. -/
def pass (reopen : Bool) (o : Outcomes) : Prog Unit := do
  orExit o.tell 3
  modify (fun s => { s with lastOffset := s.offset })
  let writeErr ← writeBlock o
  reopenIf reopen o
  let fsyncErr ← firstFsync o writeErr
  afterErrorIf writeErr fsyncErr o
  modify Tester.dot

def Tester.record (s : Tester) (offset : Nat) (o : Outcomes) : Tester := { s with passes := (offset, o) :: s.passes }

/-- From one head of the loop to the next, or to the exit of the program. -/
def step (reopen : Bool) (s : Tester) (o : Outcomes) : Option Tester :=
  match s.exited, pass reopen o s with
  | some _, _              => none
  | none, .ok _ s'         => some (s'.record s.offset o)
  | none, .error status s' => some { s' with exited := some status }

/-! ## What a pass does -/

/-- Every call that is looked at succeeds. -/
structure Outcomes.Advances (o : Outcomes) (reopen : Bool) : Prop where
  tell     : o.tell = true
  write    : o.write = .bytes writeBufSize
  fsync    : o.fsync = none
  reopened : reopen = true → o.tellBeforeClose = true ∧ o.openAgain = true ∧ o.seekBack = true

/-- The block is on disk as far as the calls say. -/
structure Outcomes.Good (o : Outcomes) (reopen : Bool) : Prop where
  write : o.write = .bytes writeBufSize
  close : reopen = true → o.close = true
  fsync : o.fsync = none

variable {s s' : Tester} {o : Outcomes} {reopen : Bool}

theorem orExit_ends (ok : Bool) (status : Nat) (s : Tester) :
    Ends (orExit ok status s) (fun _ s' => ok = true ∧ s' = s) (fun _ s' => ok = false ∧ s' = s) := by
  cases ok with
  | true  => exact ⟨rfl, rfl⟩
  | false => exact ⟨rfl, rfl⟩

theorem orExit_same (ok : Bool) (status : Nat) (s : Tester) :
    Ends (orExit ok status s) (fun _ s' => s' = s) (fun _ s' => s' = s) :=
  (orExit_ends ok status s).mono (fun _ _ h => h.2) (fun _ _ h => h.2)

theorem reopenFd_ends (o : Outcomes) (s : Tester) :
    Ends (reopenFd o s) (fun _ s' => (o.tellBeforeClose = true ∧ o.openAgain = true ∧ o.seekBack = true) ∧ s' = s)
      (fun _ s' => ¬ (o.tellBeforeClose = true ∧ o.openAgain = true ∧ o.seekBack = true) ∧ s'.retries = s.retries) := by
  unfold reopenFd orExit seek
  cases ht : o.tellBeforeClose with
  | false => exact ⟨fun h => (nomatch h.1), rfl⟩
  | true =>
    cases ho : o.openAgain with
    | false => exact ⟨fun h => (nomatch h.2.1), rfl⟩
    | true =>
      cases hk : o.seekBack with
      | false => exact ⟨fun h => (nomatch h.2.2), rfl⟩
      | true  => exact ⟨⟨rfl, rfl, rfl⟩, rfl⟩

theorem writeBlock_ends (o : Outcomes) (s : Tester) :
    Ends (writeBlock o s)
      (fun writeErr s' => (o.write = .bytes writeBufSize ∧ writeErr = false ∧
          s' = { s with offset := s.offset + writeBufSize }) ∨
        (o.write ≠ .bytes writeBufSize ∧ writeErr = true ∧ ∃ offset, s' = { s with offset := offset }))
      (fun _ s' => o.write ≠ .bytes writeBufSize ∧ s'.retries = s.retries) := by
  unfold writeBlock seek
  rw [bind_run, get_run]
  cases hw : o.write with
  | bytes n =>
    apply ((orExit_ends (n == writeBufSize) 1 s).mono_fault
      (fun _ _ h => ⟨fun he => beq_eq_false_iff_ne.1 h.1 (Written.bytes.inj he), by rw [h.2]⟩)).bind
    rintro _ _ ⟨hn, rfl⟩
    cases beq_iff_eq.1 hn
    exact Or.inl ⟨rfl, rfl, rfl⟩
  | error e offset =>
    dsimp only
    rw [bind_run, modify_run]
    apply ((orExit_ends e.expected 1 _).mono_fault (fun _ _ h => ⟨(nomatch ·), by rw [h.2]⟩)).bind
    rintro _ _ ⟨-, rfl⟩
    exact Or.inr ⟨(nomatch ·), rfl, offset, rfl⟩

theorem firstFsync_ends (o : Outcomes) (writeErr : Bool) (s : Tester) :
    Ends (firstFsync o writeErr s) (fun fsyncErr s' => (fsyncErr = true ↔ writeErr = false ∧ o.fsync ≠ none) ∧ s' = s)
      (fun _ s' => o.fsync ≠ none ∧ s' = s) := by
  unfold firstFsync
  cases writeErr with
  | true => exact ⟨⟨(nomatch ·), fun h => nomatch h.1⟩, rfl⟩
  | false =>
    cases hf : o.fsync with
    | none => exact ⟨⟨(nomatch ·), fun h => absurd rfl h.2⟩, rfl⟩
    | some e =>
      apply ((orExit_ends e.expected 1 s).mono_fault (fun _ _ h => ⟨(nomatch ·), h.2⟩)).bind
      rintro _ _ ⟨-, rfl⟩
      exact ⟨⟨fun _ => ⟨rfl, (nomatch ·)⟩, fun _ => rfl⟩, rfl⟩

theorem writeAnotherFile_ends (o : OtherFile) (s : Tester) :
    Ends (writeAnotherFile o s) (fun _ s' => s' = s) (fun _ s' => s' = s) := by
  unfold writeAnotherFile
  apply (orExit_same _ _ s).bind
  rintro _ _ rfl
  apply (orExit_same _ _ _).bind
  rintro _ _ rfl
  apply (orExit_same _ _ _).bind
  rintro _ _ rfl
  exact orExit_same _ _ _

/-- The program goes back once only. -/
theorem afterError_ends (o : Outcomes) (fsyncErr : Bool) (s : Tester) :
    Ends (afterError o fsyncErr s)
      (fun _ s' => s.secondTry = false ∧ s' = (s.report (verdict o fsyncErr)).retry)
      (fun _ s' => s'.retries = s.retries) := by
  unfold afterError
  simp only [bind_run, modify_run, get_run, Tester.report]
  cases ht : s.secondTry with
  | true =>
    apply ((writeAnotherFile_ends o.otherFile _).mono_fault (fun _ _ h => by rw [h])).bind
    rintro _ _ rfl
    rfl
  | false =>
    apply ((orExit_same o.rewind 4 _).mono_fault (fun _ _ h => by rw [h])).bind
    rintro _ _ rfl
    exact ⟨rfl, rfl⟩

/-- The pass went back to its block. -/
structure Retried (s s' : Tester) : Prop where
  first     : s.secondTry = false
  secondTry : s'.secondTry = true
  offset    : s'.offset = s.offset
  retries   : s'.retries = s.retries + 1
  passes    : s'.passes = s.passes
  exited    : s'.exited = s.exited

/-- The pass went on to the next block. -/
structure Advanced (s s' : Tester) : Prop where
  secondTry : s'.secondTry = s.secondTry
  offset    : s'.offset = s.offset + writeBufSize
  retries   : s'.retries = s.retries
  passes    : s'.passes = s.passes
  exited    : s'.exited = s.exited

theorem reopenIf_ends (reopen : Bool) (o : Outcomes) (s : Tester) :
    Ends (reopenIf reopen o s)
      (fun _ s' => (reopen = true → o.tellBeforeClose = true ∧ o.openAgain = true ∧ o.seekBack = true) ∧ s' = s)
      (fun _ s' => ¬ (reopen = true → o.tellBeforeClose = true ∧ o.openAgain = true ∧ o.seekBack = true) ∧
        s'.retries = s.retries) := by
  cases reopen with
  | true =>
    apply (reopenFd_ends o s).mono
    · exact fun _ _ h => ⟨fun _ => h.1, h.2⟩
    · exact fun _ _ h => ⟨fun hr => h.1 (hr rfl), h.2⟩
  | false => exact ⟨(nomatch ·), rfl⟩

/-- **A pass goes on** where every call that is looked at succeeds, and otherwise goes back to its block or exits. -/
theorem pass_ends (reopen : Bool) (o : Outcomes) (s : Tester) :
    Ends (pass reopen o s) (fun _ s' => o.Advances reopen ∧ Advanced s s' ∨ ¬ o.Advances reopen ∧ Retried s s')
      (fun _ s' => ¬ o.Advances reopen ∧ s'.retries = s.retries) := by
  unfold pass
  apply ((orExit_ends o.tell 3 s).mono_fault
    (fun _ _ h => ⟨fun ha => Bool.false_ne_true (h.1.symm.trans ha.tell), by rw [h.2]⟩)).bind
  rintro _ _ ⟨htell, rfl⟩
  rw [bind_run, modify_run]
  apply ((writeBlock_ends o _).mono_fault (fun _ _ h => ⟨fun ha => h.1 ha.write, h.2⟩)).bind
  rintro writeErr s₁ (⟨hwrite, rfl, rfl⟩ | ⟨hwrite, rfl, offset, rfl⟩)
  · apply ((reopenIf_ends reopen o _).mono_fault (fun _ _ h => ⟨fun ha => h.1 ha.reopened, h.2⟩)).bind
    rintro _ _ ⟨hreopen, rfl⟩
    apply ((firstFsync_ends o false _).mono_fault (fun _ _ h => ⟨fun ha => h.1 ha.fsync, by rw [h.2]⟩)).bind
    rintro fsyncErr _ ⟨hfsync, rfl⟩
    cases fsyncErr with
    | false =>
      have : o.fsync = none := by
        cases hf : o.fsync with
        | none   => rfl
        | some e => exact absurd (hfsync.2 ⟨rfl, by rw [hf]; exact (nomatch ·)⟩) (nomatch ·)
      exact Or.inl ⟨⟨htell, hwrite, this, hreopen⟩, rfl, rfl, rfl, rfl, rfl⟩
    | true =>
      have hn : ¬ o.Advances reopen := fun ha => (hfsync.1 rfl).2 ha.fsync
      apply ((afterError_ends o true _).mono_fault (fun _ _ h => ⟨hn, h⟩)).bind
      rintro _ _ ⟨hfirst, rfl⟩
      exact Or.inr ⟨hn, hfirst, rfl, rfl, rfl, rfl, rfl⟩
  · have hn : ¬ o.Advances reopen := fun ha => hwrite ha.write
    apply ((reopenIf_ends reopen o _).mono_fault (fun _ _ h => ⟨hn, h.2⟩)).bind
    rintro _ _ ⟨-, rfl⟩
    apply ((firstFsync_ends o true _).mono_fault (fun _ _ h => ⟨hn, by rw [h.2]⟩)).bind
    rintro fsyncErr _ ⟨-, rfl⟩
    apply ((afterError_ends o fsyncErr _).mono_fault (fun _ _ h => ⟨hn, h⟩)).bind
    rintro _ _ ⟨hfirst, rfl⟩
    exact Or.inr ⟨hn, hfirst, rfl, rfl, rfl, rfl, rfl⟩

inductive Passed (reopen : Bool) (s : Tester) (o : Outcomes) : Tester → Prop
  | advanced {t} : o.Advances reopen → Advanced s t → Passed reopen s o (t.record s.offset o)
  | retried {t} : ¬ o.Advances reopen → Retried s t → Passed reopen s o (t.record s.offset o)
  | exits {t} : ¬ o.Advances reopen → t.exited ≠ none → t.retries = s.retries → Passed reopen s o t

theorem step_cases (h : step reopen s o = some s') : s.exited = none ∧ Passed reopen s o s' := by
  unfold step at h
  have hp := pass_ends reopen o s
  revert h hp
  cases s.exited with
  | some status => exact fun h => nomatch h
  | none =>
    cases pass reopen o s with
    | ok x t =>
      rintro h (⟨ha, ht⟩ | ⟨ha, ht⟩)
      · cases h; exact ⟨rfl, .advanced ha ht⟩
      · cases h; exact ⟨rfl, .retried ha ht⟩
    | error status t =>
      rintro h ⟨ha, ht⟩
      cases h
      exact ⟨rfl, .exits ha (nomatch ·) ht⟩

/-! ## The rule -/

/-- The last pass that wrote block `k`. -/
def Tester.lastPass (s : Tester) (k : Nat) : Option Outcomes :=
  (s.passes.find? (fun p => p.1 == writeBufSize * k)).map Prod.snd

/-- The blocks below `k` are behind the program. -/
def Behind (reopen : Bool) (s : Tester) (k : Nat) : Prop :=
  ∀ j < k, ∃ o, s.lastPass j = some o ∧ o.Good reopen

/-- **At a head of the loop** the offset is that of a block, and what is below it was written, closed and synced without
an error; the program went back once at most. -/
structure AdvanceRule (reopen : Bool) (s : Tester) : Prop where
  blocks : s.exited = none → ∃ k, s.offset = writeBufSize * k ∧ Behind reopen s k
  once   : s.retries ≤ 1

/-- **No `close` fails** in a pass that goes on. -/
def CloseSeen (reopen : Bool) (_ : Tester) (o : Outcomes) : Prop :=
  reopen = true → o.Advances reopen → o.close = true

/-- `second_try` says whether the program went back. -/
def RetriesCounted (s : Tester) : Prop := s.exited = none → s.retries = if s.secondTry = true then 1 else 0

theorem advanceRule_start (reopen : Bool) : AdvanceRule reopen .start :=
  ⟨fun _ => ⟨0, rfl, fun _ hj => absurd hj (Nat.not_lt_zero _)⟩, Nat.zero_le _⟩

theorem retriesCounted_step (hc : RetriesCounted s) (h : step reopen s o = some s') : RetriesCounted s' := by
  obtain ⟨hrun, hp⟩ := step_cases h
  cases hp with
  | advanced _ ht => exact fun _ => by simp [Tester.record, ht.retries, ht.secondTry, hc hrun]
  | retried _ ht  => exact fun _ => by simp [Tester.record, ht.retries, ht.secondTry, hc hrun, ht.first]
  | exits _ he _ => exact fun h => absurd h he

theorem blockOffset_inj {j k : Nat} (h : writeBufSize * j = writeBufSize * k) : j = k :=
  Nat.eq_of_mul_eq_mul_left (by decide) h

theorem lastPass_record (s : Tester) (k j : Nat) (o : Outcomes) :
    (s.record (writeBufSize * k) o).lastPass j = if k = j then some o else s.lastPass j := by
  unfold Tester.lastPass Tester.record
  by_cases hk : k = j
  · subst hk; simp
  · have : (writeBufSize * k == writeBufSize * j) = false := beq_eq_false_iff_ne.2 (fun h => hk (blockOffset_inj h))
    simp [this, hk]

theorem behind_record_self {k : Nat} : Behind reopen (s.record (writeBufSize * k) o) k ↔ Behind reopen s k := by
  unfold Behind
  refine forall₂_congr fun j hj => ?_
  rw [lastPass_record, if_neg (Nat.ne_of_gt hj)]

theorem behind_record_succ {k : Nat} :
    Behind reopen (s.record (writeBufSize * k) o) (k + 1) ↔ Behind reopen s k ∧ o.Good reopen := by
  have hself : Behind reopen (s.record (writeBufSize * k) o) k ↔ Behind reopen s k := behind_record_self
  rw [← hself]
  unfold Behind
  constructor
  · intro h
    refine ⟨fun j hj => h j (Nat.lt_succ_of_lt hj), ?_⟩
    obtain ⟨o', ho, hg⟩ := h k (Nat.lt_succ_self k)
    rw [lastPass_record, if_pos rfl] at ho
    cases ho
    exact hg
  · rintro ⟨h, hg⟩ j hj
    rcases Nat.lt_succ_iff_lt_or_eq.1 hj with hj | rfl
    · exact h j hj
    · exact ⟨o, by rw [lastPass_record, if_pos rfl], hg⟩

theorem Behind.congr {k : Nat} (h : Behind reopen s k) (hp : s'.passes = s.passes) : Behind reopen s' k := by
  unfold Behind Tester.lastPass at *
  rwa [hp]

theorem good_iff (ha : o.Advances reopen) : o.Good reopen ↔ CloseSeen reopen s o :=
  ⟨fun hg hr _ => hg.close hr, fun hc => ⟨ha.write, fun hr => hc hr ha, ha.fsync⟩⟩

theorem advanceRule_step (reopen : Bool) (s : Tester) (o : Outcomes) (s' : Tester) (hc : RetriesCounted s)
    (h : AdvanceRule reopen s) (hs : step reopen s o = some s') : AdvanceRule reopen s' ↔ CloseSeen reopen s o := by
  obtain ⟨hrun, hp⟩ := step_cases hs
  obtain ⟨k, hk, hb⟩ := h.blocks hrun
  cases hp with
  | @advanced t ha ht =>
    rw [← good_iff ha]
    have hb : Behind reopen t k := hb.congr ht.passes
    have hoff : (t.record s.offset o).offset = writeBufSize * (k + 1) := by
      rw [Tester.record, ht.offset, hk, Nat.mul_succ]
    constructor
    · intro h'
      obtain ⟨k', hk', hb'⟩ := h'.blocks (by rw [Tester.record, ht.exited, hrun])
      cases blockOffset_inj (hoff.symm.trans hk')
      rw [hk] at hb'
      exact (behind_record_succ.1 hb').2
    · intro hg
      refine ⟨fun _ => ⟨k + 1, hoff, ?_⟩, ?_⟩
      · rw [hk]; exact behind_record_succ.2 ⟨hb, hg⟩
      · rw [Tester.record, ht.retries]; exact h.once
  | @retried t ha ht =>
    refine iff_of_true ⟨fun _ => ⟨k, ?_, ?_⟩, ?_⟩ (fun _ ha' => absurd ha' ha)
    · rw [Tester.record, ht.offset, hk]
    · rw [hk]; exact behind_record_self.2 (hb.congr ht.passes)
    · simp [Tester.record, ht.retries, hc hrun, ht.first]
  | exits ha he hr =>
    exact iff_of_true ⟨fun h => absurd h he, by rw [hr]; exact h.once⟩ (fun _ ha' => absurd ha' ha)

/-- **The rule holds at every head of a run** exactly where no `close` fails in a pass that goes on. -/
theorem advanceRule_iff_closeSeen (reopen : Bool) (os : List Outcomes) :
    Runs.Always (step reopen) (AdvanceRule reopen) .start os ↔ Runs.Meets (step reopen) (CloseSeen reopen) .start os :=
  Runs.always_iff_meets_of_invariant (fun _ _ _ hc hs => retriesCounted_step hc hs) (advanceRule_step reopen) os
    (fun _ => rfl) (advanceRule_start reopen)

/-- **An error of `close`** in reopen mode, all else as it should be, and the program is past the block. -/
theorem close_error_unseen :
    ∃ s, Runs.run (step true) .start [{ close := false }] = some s ∧ s.offset = writeBufSize ∧ ¬ AdvanceRule true s := by
  refine ⟨_, rfl, by decide, fun h => ?_⟩
  obtain ⟨k, hk, hb⟩ := h.blocks (by decide)
  have hk : 1 = k := blockOffset_inj hk
  subst hk
  obtain ⟨o, ho, hg⟩ := hb 0 Nat.one_pos
  cases ho
  exact absurd (hg.close rfl) (by decide)

end FsyncClear
end Scrapcode
