import Scrapcode.FileSystem
/-!
# OverwriteSteps — the system calls of `atomic_overwrite`

One call of `atomic_overwrite(destpath, newcontent, mode)` is the system calls it makes, in the order it makes them;
any of them may fail.  `destpath` and its temporary file are names in one directory.  The bytes of `newcontent` are
written in pieces: those of `flush`, and those that closing the file object writes when it is dropped after a failure.

A step is read through `Moves`, which says what each of them does to the process and to the files.  What a process
knows at each point is its `Phase`.
-/
namespace Scrapcode
namespace SecretStore

structure Call where
  newcontent : List UInt8
  mode       : UInt32 := 0o0600
  umask      : UInt32

def tmppath (destpath : String) : String := "." ++ destpath ++ ".tmp"

theorem destpath_ne_tmppath (destpath : String) : destpath ≠ tmppath destpath := by
  intro h
  have := congrArg String.length h
  rw [tmppath, String.length_append, String.length_append] at this
  have h₁ : ".".length = 1 := rfl
  have h₂ : ".tmp".length = 4 := rfl
  omega

/-- The call that is made next. -/
inductive Pc where
  | pathExists
  | unlinkStale
  | openTmp
  | statTmp
  | write
  | fsyncTmp
  | close
  | openDir
  | fsyncDir
  | rename
  | fsyncRenamed
  | closeDir
  | unlinkTmp (returns : Bool)
  | ended (returned : Bool)
deriving DecidableEq, Repr

structure Proc where
  pc      : Pc
  tmpfile : Option Nat
  handed  : Bool
  written : Nat
deriving DecidableEq, Repr

def Proc.start : Proc := { pc := .pathExists, tmpfile := none, handed := false, written := 0 }

def Proc.to (p : Proc) (pc : Pc) : Proc := { p with pc := pc }

def Proc.opened (p : Proc) (i : Nat) : Proc := { p with pc := .statTmp, tmpfile := some i }

def Proc.hand (p : Proc) : Proc := { p with pc := .write, handed := true }

def Proc.wrote (p : Proc) (n : Nat) : Proc := { p with written := p.written + n }

inductive Sys where
  | call
  | fails
  | piece (n : Nat)
deriving DecidableEq, Repr

abbrev Files := FileSystem String

section
variable (destpath : String) (c : Call) (p : Proc) (fs : Files)

/-- The call at `pc`, where it succeeds. -/
def Proc.call : Option (Proc × Files) :=
  match p.pc with
  | .pathExists    => some (p.to (if (fs.names (tmppath destpath)).isSome then .unlinkStale else .openTmp), fs)
  | .unlinkStale   => (fs.unlink (tmppath destpath)).map (fun fs' => (p.to .openTmp, fs'))
  | .openTmp       =>
    (fs.create (tmppath destpath) (c.mode &&& ~~~ c.umask)).map
      (fun fs' => (p.opened fs.nextIno, fs'))
  | .statTmp       =>
    (fs.names (tmppath destpath)).map (fun i =>
      if ((fs.file i).mode &&& 0o777) &&& ~~~ c.mode = 0 then (p.hand, fs)
      else (p.to (.unlinkTmp false), fs))
  | .write         => if p.written = c.newcontent.length then some (p.to .fsyncTmp, fs) else none
  | .fsyncTmp      => p.tmpfile.map (fun i => (p.to .close, fs.fsync i))
  | .close         => some (p.to .openDir, fs)
  | .openDir       => some (p.to .fsyncDir, fs)
  | .fsyncDir      => some (p.to .rename, fs.fsyncDir)
  | .rename        => (fs.rename (tmppath destpath) destpath).map (fun fs' => (p.to .fsyncRenamed, fs'))
  | .fsyncRenamed  => some (p.to .closeDir, fs.fsyncDir)
  | .closeDir      => some (p.to (.unlinkTmp true), fs)
  | .unlinkTmp ret => (fs.unlink (tmppath destpath)).map (fun fs' => (p.to (.ended ret), fs'))
  | .ended _       => none

/-- Where a failure leads: `os.path.exists` is false on an error, the first `unlink` is outside the `try`, and the
`unlink` of the `finally` may fail. -/
def Pc.failed : Pc → Option Pc
  | .pathExists    => some .openTmp
  | .unlinkStale   => some (.ended false)
  | .unlinkTmp ret => some (.ended ret)
  | .ended _       => none
  | _              => some (.unlinkTmp false)

def Proc.piece (n : Nat) : Option (Proc × Files) :=
  if p.handed = true ∧ 0 < n ∧ p.written + n ≤ c.newcontent.length then
    p.tmpfile.map (fun i => (p.wrote n, fs.write i ((c.newcontent.drop p.written).take n)))
  else none

def Proc.step : Sys → Option (Proc × Files)
  | .call    => p.call destpath c fs
  | .fails   => p.pc.failed.map (fun pc => (p.to pc, fs))
  | .piece n => p.piece c fs n

end

/-! ## What a step does -/

/-- How far a call has come. -/
inductive Phase where
  | looking
  | opened
  | written
  | synced
  | renamed
  | durable
  | failed
deriving DecidableEq, Repr

def Pc.phase : Pc → Phase
  | .pathExists | .unlinkStale | .openTmp          => .looking
  | .statTmp | .write                              => .opened
  | .fsyncTmp                                      => .written
  | .close | .openDir | .fsyncDir | .rename        => .synced
  | .fsyncRenamed                                  => .renamed
  | .closeDir | .unlinkTmp true | .ended true      => .durable
  | .unlinkTmp false | .ended false                => .failed

inductive Moves (destpath : String) (c : Call) (p : Proc) (fs : Files) : Sys → Proc → Files → Prop
  | pass {e pc} : pc.phase = p.pc.phase ∨ pc.phase = .failed → Moves destpath c p fs e (p.to pc) fs
  | hand : p.pc = .statTmp → Moves destpath c p fs .call p.hand fs
  | unlink {pc fs'} : pc.phase = p.pc.phase → (p.pc.phase = .looking ∨ p.pc.phase = .durable ∨ p.pc.phase = .failed) →
      fs.unlink (tmppath destpath) = some fs' → Moves destpath c p fs .call (p.to pc) fs'
  | create {fs'} : p.pc = .openTmp → fs.create (tmppath destpath) (c.mode &&& ~~~ c.umask) = some fs' →
      Moves destpath c p fs .call (p.opened fs.nextIno) fs'
  | flush : p.pc = .write → p.written = c.newcontent.length → Moves destpath c p fs .call (p.to .fsyncTmp) fs
  | fsync {i} : p.pc = .fsyncTmp → p.tmpfile = some i → Moves destpath c p fs .call (p.to .close) (fs.fsync i)
  | fsyncDir : p.pc = .fsyncDir → Moves destpath c p fs .call (p.to .rename) fs.fsyncDir
  | rename {fs'} : p.pc = .rename → fs.rename (tmppath destpath) destpath = some fs' →
      Moves destpath c p fs .call (p.to .fsyncRenamed) fs'
  | fsyncRenamed : p.pc = .fsyncRenamed → Moves destpath c p fs .call (p.to .closeDir) fs.fsyncDir
  | piece {n i} : p.handed = true → 0 < n → p.written + n ≤ c.newcontent.length → p.tmpfile = some i →
      Moves destpath c p fs (.piece n) (p.wrote n)
        (fs.write i ((c.newcontent.drop p.written).take n))

variable {destpath : String} {c : Call} {p p' : Proc} {fs fs' : Files} {e : Sys}

theorem Pc.phase_failed {pc pc' : Pc} (h : pc.failed = some pc') : pc'.phase = pc.phase ∨ pc'.phase = .failed := by
  cases pc <;> cases h <;> first | exact Or.inr rfl | exact Or.inl rfl | (rename_i r; cases r <;> exact Or.inl rfl)

theorem call_moves (h : p.call destpath c fs = some (p', fs')) : Moves destpath c p fs .call p' fs' := by
  unfold Proc.call at h
  cases hpc : p.pc with
  | pathExists =>
    rw [hpc] at h; cases h
    refine .pass (Or.inl ?_)
    rw [hpc]; split <;> rfl
  | unlinkStale =>
    rw [hpc] at h
    obtain ⟨fs', hfs, he⟩ := Option.map_eq_some_iff.1 h
    cases he
    exact .unlink (by rw [hpc]; rfl) (by rw [hpc]; exact Or.inl rfl) hfs
  | openTmp =>
    rw [hpc] at h
    obtain ⟨fs', hfs, he⟩ := Option.map_eq_some_iff.1 h
    cases he
    exact .create hpc hfs
  | statTmp =>
    rw [hpc] at h
    obtain ⟨i, -, he⟩ := Option.map_eq_some_iff.1 h
    split at he
    · cases he; exact .hand hpc
    · cases he; exact .pass (Or.inr rfl)
  | write =>
    rw [hpc] at h
    simp only [Option.ite_none_right_eq_some] at h
    obtain ⟨hw, he⟩ := h
    cases he
    exact .flush hpc hw
  | fsyncTmp =>
    rw [hpc] at h
    obtain ⟨i, hi, he⟩ := Option.map_eq_some_iff.1 h
    cases he
    exact .fsync hpc hi
  | close => rw [hpc] at h; cases h; exact .pass (Or.inl (by rw [hpc]; rfl))
  | openDir => rw [hpc] at h; cases h; exact .pass (Or.inl (by rw [hpc]; rfl))
  | fsyncDir => rw [hpc] at h; cases h; exact .fsyncDir hpc
  | rename =>
    rw [hpc] at h
    obtain ⟨fs', hfs, he⟩ := Option.map_eq_some_iff.1 h
    cases he
    exact .rename hpc hfs
  | fsyncRenamed => rw [hpc] at h; cases h; exact .fsyncRenamed hpc
  | closeDir => rw [hpc] at h; cases h; exact .pass (Or.inl (by rw [hpc]; rfl))
  | unlinkTmp ret =>
    rw [hpc] at h
    obtain ⟨fs', hfs, he⟩ := Option.map_eq_some_iff.1 h
    cases he
    cases ret with
    | true  => exact .unlink (by rw [hpc]; rfl) (by rw [hpc]; exact Or.inr (Or.inl rfl)) hfs
    | false => exact .unlink (by rw [hpc]; rfl) (by rw [hpc]; exact Or.inr (Or.inr rfl)) hfs
  | ended ret => rw [hpc] at h; cases h

theorem step_moves (h : p.step destpath c fs e = some (p', fs')) : Moves destpath c p fs e p' fs' := by
  cases e with
  | call => exact call_moves h
  | fails =>
    obtain ⟨pc, hpc, he⟩ := Option.map_eq_some_iff.1 h
    cases he
    exact .pass (Pc.phase_failed hpc)
  | piece n =>
    simp only [Proc.step, Proc.piece, Option.ite_none_right_eq_some] at h
    obtain ⟨⟨hh, hn, hw⟩, h⟩ := h
    obtain ⟨i, hi, he⟩ := Option.map_eq_some_iff.1 h
    cases he
    exact .piece hh hn hw hi

/-! ## What a process knows -/

/-- What a process has done by its phase, whatever the others do to the names. -/
def Knows (c : Call) (p : Proc) : Prop :=
  match p.pc.phase with
  | .looking => p.tmpfile = none ∧ p.handed = false ∧ p.written = 0
  | .opened  => p.tmpfile ≠ none
  | .failed  => True
  | _        => p.tmpfile ≠ none ∧ p.written = c.newcontent.length

theorem knows_start (c : Call) : Knows c Proc.start := ⟨rfl, rfl, rfl⟩

theorem Knows.opened (h : Knows c p) (hl : p.pc.phase ≠ .looking) (hf : p.pc.phase ≠ .failed) : p.tmpfile ≠ none := by
  unfold Knows at h
  cases hp : p.pc.phase with
  | looking => exact absurd hp hl
  | failed  => exact absurd hp hf
  | opened  => rw [hp] at h; exact h
  | _       => rw [hp] at h; exact h.1

theorem Moves.knows (h : Moves destpath c p fs e p' fs') (hk : Knows c p) : Knows c p' := by
  cases h with
  | @pass _ pc hpc =>
    rcases hpc with hpc | hpc
    · unfold Knows at hk ⊢; simpa only [Proc.to, hpc] using hk
    · unfold Knows; simp only [Proc.to, hpc]
  | hand hpc =>
    unfold Knows at hk
    rw [hpc] at hk
    exact hk
  | @unlink pc _ hpc => unfold Knows at hk ⊢; simpa only [Proc.to, hpc] using hk
  | create hpc => exact (nomatch ·)
  | flush hpc hw =>
    unfold Knows at hk
    rw [hpc] at hk
    exact ⟨hk, hw⟩
  | fsync hpc _ => unfold Knows at hk; rw [hpc] at hk; exact hk
  | fsyncDir hpc => unfold Knows at hk; rw [hpc] at hk; exact hk
  | rename hpc _ => unfold Knows at hk; rw [hpc] at hk; exact hk
  | fsyncRenamed hpc => unfold Knows at hk; rw [hpc] at hk; exact hk
  | @piece n i hh hn hw hi =>
    unfold Knows at hk ⊢
    simp only [Proc.wrote]
    cases hp : p.pc.phase with
    | looking => rw [hp] at hk; rw [hk.2.1] at hh; cases hh
    | opened  => rw [hp] at hk; exact hk
    | failed  => trivial
    | _       => rw [hp] at hk; have := hk.2; omega

end SecretStore
end Scrapcode
