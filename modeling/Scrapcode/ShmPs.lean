import Mathlib.Data.List.Induction
import Scrapcode.ByteText
/-!
# ShmPs — the rows of `shm_ps`

For each pid of its input the script reads what procfs has, prints a row and adds it to the totals.  The map `smaps` is
filled from the lines of `smaps_rollup` under their first fields, of which `substr` is to cut the colon.  It counts from
the position 0, so that the last letter goes, too, and the map is asked for other keys than it is filled with.  It also
keeps what earlier processes had, and the numbers `shared` and `smaps["Anonymous"]` stand under each other's heading.

`correct_iff` says of each row what the lines that were read must have been for it to be right; the totals always are
the sums of the rows.  A file that was read to its end is not read again.

Numbers are exact.  Left out are `verbose`, and the fields of `statm` that nothing prints.
-/
namespace Scrapcode
namespace ShmPs

open ByteText (Str)

/-- A line, by its first field and the number in its second. -/
structure Line where
  first  : Str
  second : Nat
deriving DecidableEq, Repr

/-- What procfs has for a process: pages of `statm`, and the lines of `smaps_rollup` if it can be read. -/
structure Files where
  cmdline  : Option Str
  resident : Nat
  shared   : Nat
  rollup   : Option (List Line)

/-- The numbers of a row, or of the totals. -/
structure Numbers where
  resident        : Int
  pss             : Int
  pssAnon         : Int
  pssFile         : Int
  pssShmem        : Int
  shared          : Int
  anonymous       : Int
  unsharedPrivate : Int
deriving DecidableEq, Repr

/-- The numbers as they are printed. -/
def Numbers.columns (n : Numbers) : List Int :=
  [n.resident, n.pss, n.pssAnon, n.pssFile, n.pssShmem, n.shared, n.anonymous, n.unsharedPrivate]

def Numbers.add (n m : Numbers) : Numbers where
  resident        := n.resident + m.resident
  pss             := n.pss + m.pss
  pssAnon         := n.pssAnon + m.pssAnon
  pssFile         := n.pssFile + m.pssFile
  pssShmem        := n.pssShmem + m.pssShmem
  shared          := n.shared + m.shared
  anonymous       := n.anonymous + m.anonymous
  unsharedPrivate := n.unsharedPrivate + m.unsharedPrivate

structure Row where
  pid     : Nat
  numbers : Numbers
  cmdline : Str
deriving DecidableEq, Repr

/-- The variables between two records; `read` are the processes whose files are at their end. -/
structure State where
  read    : List Nat
  cmdline : Str
  smaps   : Str → Nat
  rows    : List Row
  totals  : Numbers

def State.start : State where
  read    := []
  cmdline := []
  smaps   := fun _ => 0
  rows    := []
  totals  := ⟨0, 0, 0, 0, 0, 0, 0, 0⟩

/-- The headings of the numbers. -/
def headings : List Str :=
  ["RSS".toList, "PSS".toList, "PSS Anon".toList, "PSS File".toList, "PSS Shared".toList, "Anonymous".toList,
    "shared".toList, "private".toList]

/-- `substr`: the characters with positions from `start` on, of `length` positions. -/
def substr (s : Str) (start length : Int) : Str :=
  (s.drop (max start 1 - 1).toNat).take (start + length - max start 1).toNat

def key (first : Str) : Str := substr first 0 ((first.length : Int) - 1)

def store (smaps : Str → Nat) (line : Line) : Str → Nat := fun k => if k = key line.first then line.second else smaps k

/-- The lines after the first. -/
def Files.lines (f : Files) : List Line := (f.rollup.getD []).tail

section
variable (procfs : Nat → Files) (s : State) (pid : Nat)

/-- `$2` and `$3` after the `getline` of `statm`; at the end of the file they are those of the input. -/
def statm : Nat × Nat := if pid ∈ s.read then (0, 0) else ((procfs pid).resident, (procfs pid).shared)

def cmdlineOf : Str := if pid ∈ s.read then s.cmdline else (procfs pid).cmdline.getD s.cmdline

def linesOf : List Line := if pid ∈ s.read then [] else (procfs pid).lines

def smapsOf : Str → Nat := (linesOf procfs s pid).foldl store s.smaps

def numbersOf : Numbers where
  resident        := (statm procfs s pid).1 * 4
  pss             := smapsOf procfs s pid "Pss".toList
  pssAnon         := smapsOf procfs s pid "Pss_Anon".toList
  pssFile         := smapsOf procfs s pid "Pss_File".toList
  pssShmem        := smapsOf procfs s pid "Pss_Shmem".toList
  shared          := (statm procfs s pid).2 * 4
  anonymous       := smapsOf procfs s pid "Anonymous".toList
  unsharedPrivate := (statm procfs s pid).1 * 4 - (statm procfs s pid).2 * 4

def rowOf : Row where
  pid     := pid
  numbers := numbersOf procfs s pid
  cmdline := cmdlineOf procfs s pid

/-- The main rule. -/
def record : State where
  read    := pid :: s.read
  cmdline := cmdlineOf procfs s pid
  smaps   := smapsOf procfs s pid
  rows    := s.rows ++ [rowOf procfs s pid]
  totals  := s.totals.add (numbersOf procfs s pid)

def run (pids : List Nat) : State := pids.foldl (record procfs) .start

end

/-! ## What the rows are to show -/

/-- The number in the last line whose first field is accepted, 0 if there is none. -/
def lastNumber (accepts : Str → Bool) (lines : List Line) : Nat :=
  lines.foldl (fun n line => if accepts line.first = true then line.second else n) 0

/-- The number of a process under a key. -/
def Files.own (f : Files) (k : Str) : Nat := lastNumber (fun first => decide (first = k)) f.lines

def under (heading : Str) (columns : List Int) : Option Int := (headings.zip columns).lookup heading

/-- **The row shows the numbers of the process.** -/
structure OwnNumbers (f : Files) (columns : List Int) : Prop where
  pss       : under "PSS".toList columns = some (f.own "Pss:".toList : Int)
  pssAnon   : under "PSS Anon".toList columns = some (f.own "Pss_Anon:".toList : Int)
  pssFile   : under "PSS File".toList columns = some (f.own "Pss_File:".toList : Int)
  pssShared : under "PSS Shared".toList columns = some (f.own "Pss_Shmem:".toList : Int)
  anonymous : under "Anonymous".toList columns = some (f.own "Anonymous:".toList : Int)
  shared    : under "shared".toList columns = some (f.shared * 4 : Int)

def columnSums (rows : List (List Int)) : List Int :=
  rows.foldl (fun sums row => List.zipWith (fun x y => x + y) sums row) [0, 0, 0, 0, 0, 0, 0, 0]

/-- **The output is right**: a row for each pid, with the numbers of the process, and the sums of the rows. -/
structure Correct (procfs : Nat → Files) (pids : List Nat) : Prop where
  length : (run procfs pids).rows.length = pids.length
  rows   : ∀ before pid after, pids = before ++ pid :: after → ∃ row, (run procfs pids).rows[before.length]? = some row ∧
    row.pid = pid ∧ OwnNumbers (procfs pid) row.numbers.columns
  totals : (run procfs pids).totals.columns = columnSums ((run procfs pids).rows.map (fun r => r.numbers.columns))

/-- `first` has two letters more than `k`. -/
def cutTo (k first : Str) : Bool := decide (first.length = k.length + 2) && k.isPrefixOf first

/-- All lines that are read for these pids. -/
def linesRead (procfs : Nat → Files) (pids : List Nat) : List Line :=
  pids.eraseDups.flatMap (fun p => (procfs p).lines)

/-- **The lines make the row right**: for each key the last line read so far that has two letters more than the key, if
there is one, has the number that the process has under the key. -/
structure Fits (procfs : Nat → Files) (before : List Nat) (pid : Nat) : Prop where
  pss       : lastNumber (cutTo "Pss".toList) (linesRead procfs (before ++ [pid])) = (procfs pid).own "Pss:".toList
  pssAnon   : lastNumber (cutTo "Pss_Anon".toList) (linesRead procfs (before ++ [pid])) =
    (procfs pid).own "Pss_Anon:".toList
  pssFile   : lastNumber (cutTo "Pss_File".toList) (linesRead procfs (before ++ [pid])) =
    (procfs pid).own "Pss_File:".toList
  pssShmem  : lastNumber (cutTo "Pss_Shmem".toList) (linesRead procfs (before ++ [pid])) =
    (procfs pid).own "Pss_Shmem:".toList
  anonymous : (if pid ∈ before then 0 else (procfs pid).shared * 4) = (procfs pid).own "Anonymous:".toList
  shared    : lastNumber (cutTo "Anonymous".toList) (linesRead procfs (before ++ [pid])) = (procfs pid).shared * 4

variable {procfs : Nat → Files} {pids : List Nat} {pid : Nat} {s : State} {k first : Str} {lines : List Line}

/-! ## The keys -/

/-- Two letters are cut. -/
theorem key_eq (first : Str) : key first = first.take (first.length - 2) := by
  unfold key substr
  have hdrop : ((max 0 1 - 1 : Int)).toNat = 0 := rfl
  have htake : (0 + ((first.length : Int) - 1) - max 0 1).toNat = first.length - 2 := by omega
  rw [hdrop, htake, List.drop_zero]

theorem key_eq_iff (hk : k ≠ []) : key first = k ↔ cutTo k first = true := by
  rw [key_eq, cutTo, Bool.and_eq_true, decide_eq_true_eq, List.isPrefixOf_iff_prefix, List.prefix_iff_eq_take]
  constructor
  · rintro rfl
    have hlen := List.length_pos_iff.2 hk
    rw [List.length_take] at hlen ⊢
    have hmin : min (first.length - 2) first.length = first.length - 2 := by omega
    rw [hmin] at hlen ⊢
    exact ⟨by omega, rfl⟩
  · rintro ⟨hlen, hk⟩
    have h2 : first.length - 2 = k.length := by omega
    rw [h2, ← hk]

theorem foldl_store (hk : k ≠ []) : ∀ (lines : List Line) (smaps : Str → Nat), (lines.foldl store smaps) k =
    lines.foldl (fun n line => if cutTo k line.first = true then line.second else n) (smaps k)
  | [], _               => rfl
  | line :: lines, smaps => by
    rw [List.foldl_cons, List.foldl_cons, foldl_store hk lines]
    congr 1
    by_cases h : key line.first = k
    · rw [store, if_pos h.symm, if_pos ((key_eq_iff hk).1 h)]
    · rw [store, if_neg (fun h' => h h'.symm), if_neg (fun h' => h ((key_eq_iff hk).2 h'))]

/-! ## The state after the records -/

theorem run_concat (pids : List Nat) (pid : Nat) : run procfs (pids ++ [pid]) = record procfs (run procfs pids) pid :=
  List.foldl_concat _ _ _ _

theorem mem_read {p : Nat} : p ∈ (run procfs pids).read ↔ p ∈ pids := by
  induction pids using List.reverseRecOn with
  | nil               => rfl
  | append_singleton pids q ih =>
    rw [run_concat, List.mem_append, List.mem_singleton, ← ih]
    exact List.mem_cons.trans or_comm

theorem linesRead_concat (procfs : Nat → Files) (pids : List Nat) (pid : Nat) : linesRead procfs (pids ++ [pid]) =
    linesRead procfs pids ++ linesOf procfs (run procfs pids) pid := by
  unfold linesRead linesOf
  rw [List.eraseDups_append, List.flatMap_append]
  congr 1
  by_cases h : pid ∈ pids
  · rw [if_pos (mem_read.2 h)]
    simp [List.removeAll, h]
  · rw [if_neg (fun h' => h (mem_read.1 h'))]
    simp [List.removeAll, h, List.eraseDups_cons]

/-- **The map** has the last number of a line with two letters more. -/
theorem smaps_run (hk : k ≠ []) : (run procfs pids).smaps k = lastNumber (cutTo k) (linesRead procfs pids) := by
  induction pids using List.reverseRecOn with
  | nil                        => rfl
  | append_singleton pids p ih =>
    rw [run_concat, linesRead_concat, lastNumber, List.foldl_append]
    show (smapsOf procfs (run procfs pids) p) k = _
    rw [smapsOf, foldl_store hk, ih, lastNumber]

theorem smapsOf_run (hk : k ≠ []) : smapsOf procfs (run procfs pids) pid k =
    lastNumber (cutTo k) (linesRead procfs (pids ++ [pid])) := by
  rw [← smaps_run hk, run_concat]
  rfl

theorem exists_rows (procfs : Nat → Files) : ∀ (pids : List Nat) (s : State), ∃ rest, (pids.foldl (record procfs) s).rows = s.rows ++ rest ∧
    rest.length = pids.length
  | [], s          => ⟨[], (List.append_nil _).symm, rfl⟩
  | pid :: pids, s => by
    obtain ⟨rest, hrest, hlen⟩ := exists_rows procfs pids (record procfs s pid)
    refine ⟨rowOf procfs s pid :: rest, ?_, congrArg Nat.succ hlen⟩
    rw [List.foldl_cons, hrest]
    exact List.append_assoc _ _ _

theorem length_rows (pids : List Nat) : (run procfs pids).rows.length = pids.length := by
  obtain ⟨rest, hrest, hlen⟩ := exists_rows procfs pids .start
  rw [run, hrest]
  exact hlen

/-- **The row of a record** is that of the state before it. -/
theorem row_run (before after : List Nat) (pid : Nat) :
    (run procfs (before ++ pid :: after)).rows[before.length]? = some (rowOf procfs (run procfs before) pid) := by
  obtain ⟨rest, hrest, -⟩ := exists_rows procfs after (record procfs (run procfs before) pid)
  have hrun : run procfs (before ++ pid :: after) =
      after.foldl (record procfs) (record procfs (run procfs before) pid) := List.foldl_append
  have hlen : (run procfs before).rows.length = before.length := length_rows before
  rw [hrun, hrest]
  show (((run procfs before).rows ++ [_]) ++ rest)[before.length]? = _
  rw [List.append_assoc, List.getElem?_append_right hlen.le, hlen, Nat.sub_self]
  rfl

theorem columns_add (n m : Numbers) :
    (n.add m).columns = List.zipWith (fun x y => x + y) n.columns m.columns := rfl

theorem totals_run (pids : List Nat) : (run procfs pids).totals.columns =
    columnSums ((run procfs pids).rows.map (fun r => r.numbers.columns)) := by
  induction pids using List.reverseRecOn with
  | nil                        => rfl
  | append_singleton pids p ih =>
    rw [run_concat]
    show ((run procfs pids).totals.add _).columns = columnSums (((run procfs pids).rows ++ [_]).map _)
    rw [columns_add, ih, List.map_append, columnSums, columnSums, List.foldl_append]
    rfl

/-- **What stands under the headings.** -/
theorem ownNumbers_iff {f : Files} {n : Numbers} : OwnNumbers f n.columns ↔ n.pss = f.own "Pss:".toList ∧
    n.pssAnon = f.own "Pss_Anon:".toList ∧ n.pssFile = f.own "Pss_File:".toList ∧
    n.pssShmem = f.own "Pss_Shmem:".toList ∧ n.shared = f.own "Anonymous:".toList ∧ n.anonymous = (f.shared * 4 : Int) := by
  constructor
  · intro h
    exact ⟨Option.some.inj h.pss, Option.some.inj h.pssAnon, Option.some.inj h.pssFile, Option.some.inj h.pssShared,
      Option.some.inj h.anonymous, Option.some.inj h.shared⟩
  · rintro ⟨h1, h2, h3, h4, h5, h6⟩
    exact ⟨congrArg some h1, congrArg some h2, congrArg some h3, congrArg some h4, congrArg some h5, congrArg some h6⟩

theorem ownNumbers_rowOf (before : List Nat) (pid : Nat) :
    OwnNumbers (procfs pid) (rowOf procfs (run procfs before) pid).numbers.columns ↔ Fits procfs before pid := by
  have hshared : (statm procfs (run procfs before) pid).2 * 4 = if pid ∈ before then 0 else (procfs pid).shared * 4 := by
    unfold statm
    by_cases h : pid ∈ before
    · rw [if_pos (mem_read.2 h), if_pos h]; rfl
    · rw [if_neg (fun h' => h (mem_read.1 h')), if_neg h]
  rw [ownNumbers_iff]
  simp only [rowOf, numbersOf]
  rw [smapsOf_run (by decide), smapsOf_run (by decide), smapsOf_run (by decide), smapsOf_run (by decide),
    smapsOf_run (by decide)]
  constructor
  · rintro ⟨h1, h2, h3, h4, h5, h6⟩
    exact ⟨by exact_mod_cast h1, by exact_mod_cast h2, by exact_mod_cast h3, by exact_mod_cast h4,
      hshared.symm.trans (by exact_mod_cast h5), by exact_mod_cast h6⟩
  · intro h
    have h5 := hshared.trans h.anonymous
    exact ⟨by exact_mod_cast h.pss, by exact_mod_cast h.pssAnon, by exact_mod_cast h.pssFile,
      by exact_mod_cast h.pssShmem, by exact_mod_cast h5, by exact_mod_cast h.shared⟩

/-- **The output is right** exactly where the lines fit in each record. -/
theorem correct_iff (procfs : Nat → Files) (pids : List Nat) : Correct procfs pids ↔
    ∀ before pid after, pids = before ++ pid :: after → Fits procfs before pid := by
  constructor
  · rintro h before pid after rfl
    obtain ⟨row, hrow, -, hown⟩ := h.rows before pid after rfl
    rw [row_run] at hrow
    cases hrow
    exact (ownNumbers_rowOf before pid).1 hown
  · intro h
    refine ⟨length_rows pids, ?_, totals_run pids⟩
    rintro before pid after rfl
    exact ⟨_, row_run before after pid, rfl, (ownNumbers_rowOf before pid).2 (h before pid after rfl)⟩

/-- A process with 100 KiB in the line of `Pss`. -/
def proc (_ : Nat) : Files where
  cmdline  := none
  resident := 50
  shared   := 0
  rollup   := some [⟨"00400000-7ffd".toList, 0⟩, ⟨"Pss:".toList, 100⟩]

/-- Its row shows 0. -/
theorem not_correct_pss : ¬ Correct proc [7] := by
  intro h
  obtain ⟨row, hrow, -, hown⟩ := h.rows [] 7 [] rfl
  cases hrow
  exact absurd hown.pss (by decide)

end ShmPs
end Scrapcode
