import Mathlib.Logic.Function.Basic
import Mathlib.Data.List.Sublists
/-!
# FileSystem — one directory, its files, and what a crash leaves of them

Names and files are separate: a name is bound to an inode, an open file keeps its inode whatever happens to the name.
A change of the names is durable once the directory is synced; until then it is in the `journal`, and a crash keeps any
part of the journal, each change whole and in order.  The content of a file is durable once the file is synced; before
that a crash may leave anything in it.

`Survives d` says that a crash may leave the names `d`; each operation on the names says what it adds to them.  What a
crash leaves is `Crash fs fs'`.  Every bound inode is allocated, by construction: the next one is always fresh.
-/
namespace Scrapcode

structure File where
  content : List UInt8
  mode    : UInt32
  synced  : Bool
deriving DecidableEq, Repr

inductive NameOp (ν : Type) where
  | link (n : ν) (i : Nat)
  | unlink (n : ν)
  | rename (src dst : ν) (i : Nat)

namespace NameOp

variable {ν : Type} [DecidableEq ν]

def binds : NameOp ν → Option Nat
  | .link _ i     => some i
  | .unlink _     => none
  | .rename _ _ i => some i

def apply (d : ν → Option Nat) : NameOp ν → ν → Option Nat
  | .link n i         => Function.update d n (some i)
  | .unlink n         => Function.update d n none
  | .rename src dst i => Function.update (Function.update d src none) dst (some i)

def replay (d : ν → Option Nat) (ops : List (NameOp ν)) : ν → Option Nat := ops.foldl apply d

theorem replay_concat (d : ν → Option Nat) (ops : List (NameOp ν)) (op : NameOp ν) :
    replay d (ops ++ [op]) = op.apply (replay d ops) := by
  unfold replay; rw [List.foldl_append]; rfl

theorem apply_lt {d : ν → Option Nat} {op : NameOp ν} {b : Nat} (hd : ∀ n i, d n = some i → i < b)
    (hop : ∀ i, op.binds = some i → i < b) : ∀ n i, op.apply d n = some i → i < b := by
  intro n i h
  cases op with
  | link m j =>
    by_cases hn : n = m
    · subst hn; rw [apply, Function.update_self] at h; exact hop i h
    · rw [apply, Function.update_of_ne hn] at h; exact hd n i h
  | unlink m =>
    by_cases hn : n = m
    · subst hn; rw [apply, Function.update_self] at h; cases h
    · rw [apply, Function.update_of_ne hn] at h; exact hd n i h
  | rename src dst j =>
    by_cases hn : n = dst
    · subst hn; rw [apply, Function.update_self] at h; exact hop i h
    · rw [apply, Function.update_of_ne hn] at h
      by_cases hm : n = src
      · subst hm; rw [Function.update_self] at h; cases h
      · rw [Function.update_of_ne hm] at h; exact hd n i h

theorem replay_lt {b : Nat} : ∀ (ops : List (NameOp ν)) {d : ν → Option Nat}, (∀ n i, d n = some i → i < b) →
    (∀ op ∈ ops, ∀ i, op.binds = some i → i < b) → ∀ n i, replay d ops n = some i → i < b
  | [], _, hd, _          => hd
  | op :: ops, _, hd, hop =>
    replay_lt ops (apply_lt hd (hop op (by simp))) (fun o ho => hop o (by simp [ho]))

end NameOp

structure FileSystem (ν : Type) where
  disk       : ν → Option Nat
  journal    : List (NameOp ν)
  file       : Nat → File
  nextIno    : Nat
  disk_lt    : ∀ n i, disk n = some i → i < nextIno
  journal_lt : ∀ op ∈ journal, ∀ i, op.binds = some i → i < nextIno

namespace FileSystem

open NameOp (replay)

variable {ν : Type}

/-! ## The files -/

def setFile (fs : FileSystem ν) (i : Nat) (f : File) : FileSystem ν := { fs with file := Function.update fs.file i f }

def write (fs : FileSystem ν) (i : Nat) (data : List UInt8) : FileSystem ν :=
  fs.setFile i { fs.file i with content := (fs.file i).content ++ data, synced := false }

def fsync (fs : FileSystem ν) (i : Nat) : FileSystem ν := fs.setFile i { fs.file i with synced := true }

section
variable {fs : FileSystem ν} {i j : Nat}

@[simp] theorem fsync_content : ((fs.fsync i).file j).content = (fs.file j).content := by
  by_cases hj : j = i
  · subst hj; simp only [fsync, setFile, Function.update_self]
  · simp only [fsync, setFile, Function.update_of_ne hj]

@[simp] theorem fsync_synced : ((fs.fsync i).file i).synced = true := by
  simp only [fsync, setFile, Function.update_self]

theorem fsync_keeps_synced (h : (fs.file j).synced = true) : ((fs.fsync i).file j).synced = true := by
  by_cases hj : j = i
  · subst hj; exact fsync_synced
  · simpa only [fsync, setFile, Function.update_of_ne hj] using h

theorem fsync_of_ne (hj : j ≠ i) : (fs.fsync i).file j = fs.file j := Function.update_of_ne hj _ _

@[simp] theorem fsync_mode : ((fs.fsync i).file j).mode = (fs.file j).mode := by
  by_cases hj : j = i
  · subst hj; simp only [fsync, setFile, Function.update_self]
  · rw [fsync_of_ne hj]

@[simp] theorem write_content (data : List UInt8) :
    ((fs.write i data).file i).content = (fs.file i).content ++ data := by
  simp only [write, setFile, Function.update_self]

theorem write_of_ne (hj : j ≠ i) (data : List UInt8) : (fs.write i data).file j = fs.file j :=
  Function.update_of_ne hj _ _

@[simp] theorem write_mode (data : List UInt8) : ((fs.write i data).file j).mode = (fs.file j).mode := by
  by_cases hj : j = i
  · subst hj; simp only [write, setFile, Function.update_self]
  · rw [write_of_ne hj]

end

/-! ## The names -/

variable [DecidableEq ν]

/-- One file, on disk with its name. -/
def single (n : ν) (f : File) : FileSystem ν where
  disk       := Function.update (fun _ => none) n (some 0)
  journal    := []
  file       := fun _ => f
  nextIno    := 1
  disk_lt    := fun m i h => by
    by_cases hm : m = n
    · subst hm; rw [Function.update_self] at h; cases h; exact Nat.one_pos
    · rw [Function.update_of_ne hm] at h; cases h
  journal_lt := fun _ ho => absurd ho List.not_mem_nil

def names (fs : FileSystem ν) : ν → Option Nat := replay fs.disk fs.journal

theorem names_lt (fs : FileSystem ν) {n : ν} {i : Nat} (h : fs.names n = some i) : i < fs.nextIno :=
  NameOp.replay_lt _ fs.disk_lt fs.journal_lt n i h

def read (fs : FileSystem ν) (n : ν) : Option (List UInt8) := (fs.names n).map (fun i => (fs.file i).content)

def record (fs : FileSystem ν) (op : NameOp ν) (h : ∀ i, op.binds = some i → i < fs.nextIno) : FileSystem ν where
  disk       := fs.disk
  journal    := fs.journal ++ [op]
  file       := fs.file
  nextIno    := fs.nextIno
  disk_lt    := fs.disk_lt
  journal_lt := fun o ho => by
    rcases List.mem_append.1 ho with ho | ho
    · exact fs.journal_lt o ho
    · rw [List.mem_singleton.1 ho]; exact h

/-- A fresh inode, with no name yet. -/
def allocate (fs : FileSystem ν) (mode : UInt32) : FileSystem ν where
  disk       := fs.disk
  journal    := fs.journal
  file       := Function.update fs.file fs.nextIno { content := [], mode := mode, synced := false }
  nextIno    := fs.nextIno + 1
  disk_lt    := fun n i h => Nat.lt_succ_of_lt (fs.disk_lt n i h)
  journal_lt := fun o ho i h => Nat.lt_succ_of_lt (fs.journal_lt o ho i h)

/-- `open` with `O_CREAT | O_EXCL`: the file is `nextIno`. -/
def create (fs : FileSystem ν) (n : ν) (mode : UInt32) : Option (FileSystem ν) :=
  if fs.names n = none then
    some ((fs.allocate mode).record (.link n fs.nextIno) (fun _ h => Option.some.inj h ▸ Nat.lt_succ_self _))
  else none

def unlink (fs : FileSystem ν) (n : ν) : Option (FileSystem ν) :=
  if (fs.names n).isSome then some (fs.record (.unlink n) (fun _ h => nomatch h)) else none

/-- Two names of one file are left as they are. -/
def rename (fs : FileSystem ν) (src dst : ν) : Option (FileSystem ν) :=
  match h : fs.names src with
  | none   => none
  | some i =>
    if fs.names dst = some i then some fs
    else some (fs.record (.rename src dst i) (fun _ hi => Option.some.inj hi ▸ fs.names_lt h))

def fsyncDir (fs : FileSystem ν) : FileSystem ν where
  disk       := fs.names
  journal    := []
  file       := fs.file
  nextIno    := fs.nextIno
  disk_lt    := fun _ _ h => fs.names_lt h
  journal_lt := fun _ ho => nomatch ho

/-! ## What a crash may leave -/

def Survives (fs : FileSystem ν) (d : ν → Option Nat) : Prop :=
  ∃ ops, ops.Sublist fs.journal ∧ d = replay fs.disk ops

structure Crash (fs fs' : FileSystem ν) : Prop where
  names   : fs.Survives fs'.names
  journal : fs'.journal = []
  files   : ∀ i, (fs.file i).synced = true → (fs'.file i).content = (fs.file i).content
  synced  : ∀ i, (fs'.file i).synced = true

/-- A crash leaves what `n` holds as it is. -/
def Durable (fs : FileSystem ν) (n : ν) : Prop := ∀ fs', Crash fs fs' → fs'.read n = fs.read n

variable {fs fs' : FileSystem ν} {n m src dst : ν} {i : Nat} {d : ν → Option Nat}

theorem survives_names (fs : FileSystem ν) : fs.Survives fs.names := ⟨fs.journal, List.Sublist.refl _, rfl⟩

theorem Survives.lt (h : fs.Survives d) : ∀ n i, d n = some i → i < fs.nextIno := by
  obtain ⟨ops, hops, rfl⟩ := h
  exact NameOp.replay_lt _ fs.disk_lt (fun op ho => fs.journal_lt op (hops.subset ho))

/-- **Every surviving directory is left by some crash**, with any content in the files that were not synced. -/
theorem Survives.crash (h : fs.Survives d) (content : Nat → List UInt8)
    (hc : ∀ i, (fs.file i).synced = true → content i = (fs.file i).content) :
    ∃ fs', Crash fs fs' ∧ fs'.names = d ∧ ∀ i, (fs'.file i).content = content i := by
  refine ⟨{ disk := d, journal := [], file := fun i => ⟨content i, (fs.file i).mode, true⟩, nextIno := fs.nextIno
            disk_lt := h.lt, journal_lt := fun _ ho => nomatch ho }, ⟨?_, rfl, hc, fun _ => rfl⟩, rfl, fun _ => rfl⟩
  exact h

/-- **Recording a change** of the names: it survives or it does not. -/
theorem survives_record {op : NameOp ν} {h : ∀ i, op.binds = some i → i < fs.nextIno} :
    (fs.record op h).Survives d ↔ fs.Survives d ∨ ∃ d', fs.Survives d' ∧ d = op.apply d' := by
  constructor
  · rintro ⟨ops, hops, rfl⟩
    obtain ⟨l₁, l₂, rfl, h₁, h₂⟩ := List.sublist_append_iff.1 hops
    rcases List.sublist_singleton.1 h₂ with rfl | rfl
    · exact Or.inl ⟨l₁, h₁, by rw [List.append_nil]; rfl⟩
    · exact Or.inr ⟨_, ⟨l₁, h₁, rfl⟩, NameOp.replay_concat _ _ _⟩
  · rintro (⟨ops, hops, rfl⟩ | ⟨d', ⟨ops, hops, rfl⟩, rfl⟩)
    · exact ⟨ops, hops.trans (List.sublist_append_left _ _), rfl⟩
    · exact ⟨ops ++ [op], hops.append (List.Sublist.refl _), (NameOp.replay_concat _ _ _).symm⟩

@[simp] theorem survives_fsyncDir : fs.fsyncDir.Survives d ↔ d = fs.names := by
  constructor
  · rintro ⟨ops, hops, rfl⟩
    have hnil : ops = [] := List.sublist_nil.1 hops
    subst hnil; rfl
  · rintro rfl; exact ⟨[], List.Sublist.refl _, rfl⟩

@[simp] theorem names_record {op : NameOp ν} {h : ∀ i, op.binds = some i → i < fs.nextIno} :
    (fs.record op h).names = op.apply fs.names := NameOp.replay_concat _ _ _

@[simp] theorem names_fsyncDir : fs.fsyncDir.names = fs.names := rfl

/-! ## What a successful operation did -/

theorem create_eq_some {mode : UInt32} (h : fs.create n mode = some fs') :
    fs.names n = none ∧ fs'.names = Function.update fs.names n (some fs.nextIno) ∧
    fs'.file = Function.update fs.file fs.nextIno ⟨[], mode, false⟩ ∧ fs'.nextIno = fs.nextIno + 1 ∧
    (∀ d, fs'.Survives d → ∃ d', fs.Survives d' ∧ ∀ m, m ≠ n → d m = d' m) := by
  unfold create at h
  split at h
  · rename_i hn
    cases h
    refine ⟨hn, names_record, rfl, rfl, fun d hd => ?_⟩
    rcases survives_record.1 hd with hd | ⟨d', hd', rfl⟩
    · exact ⟨d, hd, fun _ _ => rfl⟩
    · exact ⟨d', hd', fun m hm => Function.update_of_ne hm _ _⟩
  · cases h

theorem unlink_eq_some (h : fs.unlink n = some fs') :
    fs'.names = Function.update fs.names n none ∧ fs'.file = fs.file ∧ fs'.nextIno = fs.nextIno ∧
    (∀ d, fs'.Survives d → ∃ d', fs.Survives d' ∧ ∀ m, m ≠ n → d m = d' m) := by
  unfold unlink at h
  split at h
  · cases h
    refine ⟨names_record, rfl, rfl, fun d hd => ?_⟩
    rcases survives_record.1 hd with hd | ⟨d', hd', rfl⟩
    · exact ⟨d, hd, fun _ _ => rfl⟩
    · exact ⟨d', hd', fun m hm => Function.update_of_ne hm _ _⟩
  · cases h

theorem rename_eq_some (h : fs.rename src dst = some fs') :
    ∃ i, fs.names src = some i ∧ fs'.file = fs.file ∧ fs'.nextIno = fs.nextIno ∧ fs'.names dst = some i ∧
    (∀ m, m ≠ dst → fs'.names m = none ∨ fs'.names m = fs.names m) ∧
    (∀ d, fs'.Survives d → d dst = some i ∨ fs.Survives d) := by
  unfold rename at h
  split at h
  · cases h
  · rename_i i hi
    split at h
    · rename_i hdst
      cases h
      exact ⟨i, hi, rfl, rfl, hdst, fun _ _ => Or.inr rfl, fun _ hd => Or.inr hd⟩
    · cases h
      refine ⟨i, hi, rfl, rfl, ?_, fun m hm => ?_, fun d hd => ?_⟩
      · rw [names_record, NameOp.apply, Function.update_self]
      · rw [names_record, NameOp.apply, Function.update_of_ne hm]
        by_cases hs : m = src
        · subst hs; exact Or.inl (Function.update_self _ _ _)
        · exact Or.inr (Function.update_of_ne hs _ _)
      · rcases survives_record.1 hd with hd | ⟨d', hd', rfl⟩
        · exact Or.inr hd
        · exact Or.inl (Function.update_self _ _ _)

end FileSystem
end Scrapcode
