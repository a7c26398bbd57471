import Mathlib.Data.Nat.Basic
import Scrapcode.ByteText
import Scrapcode.Nspid
/-!
# NspidStatus — the reader of `/proc/pid/status`

`readPidProc` binds its variables where their lines occur, and no others: the check that is meant for missing lines
tests variables that may be unbound.  It keeps the contract of its comment where all of the lines are there, or where
an empty name ends the call before another variable is looked at (`keepsContract_iff`).

The numbers are those of procfs, in decimal; the file is read with `status_only`.
-/
namespace Scrapcode
namespace Nspid
namespace Status

open ByteText (Str int strInt)

/-- A line, with the line feed that may end it. -/
structure Line where
  text : Str
  feed : '\n' ∉ text.dropLast

/-- The group of `^key\s*(.*)$`. -/
def matcher (key : Str) (line : Line) : Option Str :=
  if key.isPrefixOf line.text = true then
    some (((line.text.drop key.length).dropWhile isSpace).takeWhile (fun c => decide (c ≠ '\n')))
  else none

def nameMatcher : Line → Option Str := matcher "Name:".toList

def pidMatcher : Line → Option Str := matcher "Pid:".toList

def ppidMatcher : Line → Option Str := matcher "PPid:".toList

def nspidMatcher : Line → Option Str := matcher "NSpid:".toList

/-- The numbers between single characters of white space. -/
def ints (group : Str) : Option (List Int) := (group.splitOnP isSpace).mapM int

inductive Exn where
  | fileNotFound (text : Str)
  | unboundLocal (name : Str)
  | value
deriving DecidableEq, Repr

/-- The local variables; one that is unbound is `none`. -/
structure Locals where
  name   : Option Str
  pid    : Int
  ppid   : Option Int
  nspids : Option (List Int)

/-- What is done where a matcher gives the group. -/
def assign {α : Type} (parse : Str → Option α) (store : Locals → α → Locals) (group : Option Str) (v : Locals) :
    Except Exn Locals :=
  match group with
  | none   => .ok v
  | some g =>
    match parse g with
    | none   => .error .value
    | some x => .ok (store v x)

def readLine (v : Locals) (line : Line) : Except Exn Locals :=
  (assign some (fun v x => { v with name := some x }) (nameMatcher line) v).bind fun v =>
    (assign int (fun v n => { v with pid := n }) (pidMatcher line) v).bind fun v =>
      (assign int (fun v n => { v with ppid := some n }) (ppidMatcher line) v).bind fun v =>
        assign ints (fun v ns => { v with nspids := some ns }) (nspidMatcher line) v

def readLines : Locals → List Line → Except Exn Locals
  | v, []            => .ok v
  | v, line :: lines => (readLine v line).bind fun v => readLines v lines

def statusPath (pid : Int) : Str := "/proc/".toList ++ strInt pid ++ "/status".toList

def notRead (pid : Int) : Exn := .fileNotFound (statusPath pid ++
  " was opened but the Name, PPid, and/or NSpids fields could not be read from it".toList)

/-- What follows the loop; `pid` is the argument. -/
def entryOf (pid : Int) (v : Locals) : Except Exn Entry :=
  match v.name with
  | none      => .error (.unboundLocal "name".toList)
  | some name =>
    if name = [] then .error (notRead pid)
    else match v.nspids with
      | none        => .error (.unboundLocal "nspids".toList)
      | some nspids =>
        if nspids = [] then .error (notRead pid)
        else match v.ppid with
          | none      => .error (.unboundLocal "ppid".toList)
          | some ppid => .ok {
              name := name, pid := v.pid, ppid := ppid, nspid := nspids, cmdline := none, exe := none, pidNsId := none }

def readPidProc (pid : Int) (lines : List Line) : Except Exn Entry :=
  (readLines { name := none, pid := pid, ppid := none, nspids := none } lines).bind (entryOf pid)

/-! ## The contract -/

/-- What the last line that has a value says. -/
def last {α : Type} (value : Line → Option α) : List Line → Option α
  | []            => none
  | line :: lines => (last value lines).or (value line)

def pidOf (line : Line) : Option Int := (pidMatcher line).bind int

def ppidOf (line : Line) : Option Int := (ppidMatcher line).bind int

def nspidsOf (line : Line) : Option (List Int) := (nspidMatcher line).bind ints

/-- The fields are the values of the lines; `unwritten` is the pid where no line tells it. -/
structure FieldsOf (lines : List Line) (unwritten : Option Int) (e : Entry) : Prop where
  name  : last nameMatcher lines = some e.name
  pid   : (last pidOf lines).or unwritten = some e.pid
  ppid  : last ppidOf lines = some e.ppid
  nspid : last nspidsOf lines = some e.nspid

/-- **The contract**: an entry of the lines, or `FileNotFoundError`. -/
def KeepsContract (unwritten : Option Int) (pid : Int) (lines : List Line) : Prop :=
  (∃ e, readPidProc pid lines = .ok e ∧ FieldsOf lines unwritten e) ∨
    ∃ text, readPidProc pid lines = .error (.fileNotFound text)

/-- The numbers can be read. -/
def WellFormed (line : Line) : Prop :=
  (pidMatcher line).all (fun g => (int g).isSome) = true ∧ (ppidMatcher line).all (fun g => (int g).isSome) = true ∧
    (nspidMatcher line).all (fun g => (ints g).isSome) = true

def Has (kind : Line → Option Str) (lines : List Line) : Prop := ∃ line ∈ lines, (kind line).isSome = true

instance (kind : Line → Option Str) (lines : List Line) : Decidable (Has kind lines) :=
  inferInstanceAs (Decidable (∃ line ∈ lines, (kind line).isSome = true))

variable {α : Type} {lines : List Line} {line : Line} {v : Locals} {pid : Int} {unwritten : Option Int}

theorem last_isSome {value : Line → Option α} : ∀ {lines : List Line},
    (last value lines).isSome = true ↔ ∃ line ∈ lines, (value line).isSome = true
  | []            => by simp [last]
  | line :: lines => by
    rw [last, Option.isSome_or, Bool.or_eq_true, last_isSome]
    simp [or_comm]

/-- Every line of a kind has a value. -/
theorem last_isSome_iff {kind : Line → Option Str} {parse : Str → Option α}
    (h : ∀ line ∈ lines, (kind line).all (fun g => (parse g).isSome) = true) :
    (last (fun line => (kind line).bind parse) lines).isSome = true ↔ Has kind lines := by
  rw [last_isSome]
  refine exists_congr (fun line => and_congr_right fun hl => ?_)
  have hline := h line hl
  cases hk : kind line with
  | none   => rfl
  | some g => rw [hk] at hline; simpa using hline

/-! ## The loop -/

theorem assign_ok {parse : Str → Option α} {store : Locals → α → Locals} {group : Option Str}
    (h : group.all (fun g => (parse g).isSome) = true) :
    assign parse store group v = .ok (((group.bind parse).map (store v)).getD v) := by
  cases group with
  | none   => rfl
  | some g =>
    obtain ⟨x, hx⟩ := Option.isSome_iff_exists.1 h
    rw [assign, Option.bind_some, hx]
    rfl

theorem readLine_ok (h : WellFormed line) : readLine v line = .ok {
    name := (nameMatcher line).or v.name, pid := (pidOf line).getD v.pid, ppid := (ppidOf line).or v.ppid
    nspids := (nspidsOf line).or v.nspids } := by
  obtain ⟨hpid, hppid, hnspid⟩ := h
  have hname : (nameMatcher line).all (fun g => (some g).isSome) = true := by cases nameMatcher line <;> rfl
  rw [readLine, assign_ok hname, Except.bind, assign_ok hpid, Except.bind, assign_ok hppid, Except.bind,
    assign_ok hnspid, pidOf, ppidOf, nspidsOf, Option.bind_fun_some]
  cases nameMatcher line <;> cases (pidMatcher line).bind int <;> cases (ppidMatcher line).bind int <;>
    cases (nspidMatcher line).bind ints <;> rfl

/-- **After the loop** each variable is what the last line of its kind says, if there is one. -/
theorem readLines_ok : ∀ {lines : List Line} {v : Locals}, (∀ line ∈ lines, WellFormed line) → readLines v lines = .ok {
    name := (last nameMatcher lines).or v.name, pid := (last pidOf lines).getD v.pid
    ppid := (last ppidOf lines).or v.ppid, nspids := (last nspidsOf lines).or v.nspids }
  | [], _, _            => rfl
  | line :: lines, v, h => by
    rw [readLines, readLine_ok (h line List.mem_cons_self), Except.bind,
      readLines_ok (fun l hl => h l (List.mem_cons_of_mem line hl))]
    simp only [last, Option.or_assoc, Option.getD_or]

theorem ints_ne_nil {g : Str} {ns : List Int} (h : ints g = some ns) : ns ≠ [] := by
  rintro rfl
  obtain ⟨f, fs, hf⟩ := List.exists_cons_of_ne_nil (List.splitOnP_ne_nil isSpace g)
  rw [ints, hf, List.mapM_cons] at h
  obtain ⟨n, -, h⟩ := Option.bind_eq_some_iff.1 h
  obtain ⟨ns, -, h⟩ := Option.bind_eq_some_iff.1 h
  cases h

theorem nspids_ne_nil {ns : List Int} : ∀ {lines : List Line}, last nspidsOf lines = some ns → ns ≠ []
  | line :: lines, h => by
    rw [last, Option.or_eq_some_iff] at h
    rcases h with h | ⟨-, h⟩
    · exact nspids_ne_nil h
    · obtain ⟨g, -, hg⟩ := Option.bind_eq_some_iff.1 h
      exact ints_ne_nil hg

/-! ## The whole call -/

/-- The variables as the lines leave them. -/
def bound (pid : Int) (lines : List Line) : Locals where
  name   := last nameMatcher lines
  pid    := (last pidOf lines).getD pid
  ppid   := last ppidOf lines
  nspids := last nspidsOf lines

theorem readPidProc_eq (h : ∀ line ∈ lines, WellFormed line) :
    readPidProc pid lines = entryOf pid (bound pid lines) := by
  rw [readPidProc, readLines_ok h]
  simp only [Option.or_none]
  rfl

theorem entryOf_ok {e : Entry} (hns : v.nspids ≠ some []) : entryOf pid v = .ok e ↔ ∃ name ppid ns, name ≠ [] ∧
    v.name = some name ∧ v.ppid = some ppid ∧ v.nspids = some ns ∧
      e = { name := name, pid := v.pid, ppid := ppid, nspid := ns, cmdline := none, exe := none, pidNsId := none } := by
  unfold entryOf
  cases hname : v.name with
  | none      => simp
  | some name =>
    by_cases h0 : name = []
    · simp [h0]
    · cases hnspids : v.nspids with
      | none    => simp [h0]
      | some ns =>
        have hne : ns ≠ [] := fun hn => hns (by rw [hnspids, hn])
        cases hppid : v.ppid with
        | none      => simp [h0, hne]
        | some ppid => simp [h0, hne, eq_comm]

/-- The error is raised for an empty name only. -/
theorem entryOf_fileNotFound (hns : v.nspids ≠ some []) :
    (∃ text, entryOf pid v = .error (.fileNotFound text)) ↔ v.name = some [] := by
  unfold entryOf
  cases hname : v.name with
  | none      => simp
  | some name =>
    by_cases h0 : name = []
    · simp [h0, notRead]
    · cases hnspids : v.nspids with
      | none    => simp [h0]
      | some ns =>
        have hne : ns ≠ [] := fun hn => hns (by rw [hnspids, hn])
        cases hppid : v.ppid <;> simp [h0, hne]

/-- **What the contract comes to**, by the values of the lines. -/
theorem keepsContract_of_values (h : ∀ line ∈ lines, WellFormed line) (hu : unwritten = none ∨ unwritten = some pid) :
    KeepsContract unwritten pid lines ↔ last nameMatcher lines = some [] ∨
      (last nameMatcher lines).isSome = true ∧ ((last pidOf lines).or unwritten).isSome = true ∧
        (last ppidOf lines).isSome = true ∧ (last nspidsOf lines).isSome = true := by
  have hns : (bound pid lines).nspids ≠ some [] := fun hn => nspids_ne_nil hn rfl
  rw [KeepsContract, readPidProc_eq h, entryOf_fileNotFound hns, or_comm]
  simp only [entryOf_ok hns]
  constructor
  · rintro (h0 | ⟨e, -, hf⟩)
    · exact Or.inl h0
    · exact Or.inr ⟨Option.isSome_of_eq_some hf.name, Option.isSome_of_eq_some hf.pid, Option.isSome_of_eq_some hf.ppid,
        Option.isSome_of_eq_some hf.nspid⟩
  · rintro (h0 | ⟨hname, hpid, hppid, hnspids⟩)
    · exact Or.inl h0
    · obtain ⟨name, hname⟩ := Option.isSome_iff_exists.1 hname
      obtain ⟨n, hpid⟩ := Option.isSome_iff_exists.1 hpid
      obtain ⟨ppid, hppid⟩ := Option.isSome_iff_exists.1 hppid
      obtain ⟨ns, hnspids⟩ := Option.isSome_iff_exists.1 hnspids
      by_cases h0 : name = []
      · exact Or.inl (h0 ▸ hname)
      · refine Or.inr ⟨_, ⟨name, ppid, ns, h0, hname, hppid, hnspids, rfl⟩, hname, ?_, hppid, hnspids⟩
        show (last pidOf lines).or unwritten = some ((last pidOf lines).getD pid)
        rcases hu with rfl | rfl
        · rw [Option.or_none] at hpid ⊢
          rw [hpid]; rfl
        · cases last pidOf lines <;> rfl

/-- **The contract is kept** where all lines are there, or the name is empty.  Where the pid of the argument may stand
for the line that tells it, this line may be missing. -/
theorem keepsContract_iff (pid : Int) (lines : List Line) (h : ∀ line ∈ lines, WellFormed line) :
    (KeepsContract none pid lines ↔ last nameMatcher lines = some [] ∨
      Has nameMatcher lines ∧ Has pidMatcher lines ∧ Has ppidMatcher lines ∧ Has nspidMatcher lines) ∧
    (KeepsContract (some pid) pid lines ↔ last nameMatcher lines = some [] ∨
      Has nameMatcher lines ∧ Has ppidMatcher lines ∧ Has nspidMatcher lines) := by
  have hname : (last nameMatcher lines).isSome = true ↔ Has nameMatcher lines := last_isSome
  have hpid : (last pidOf lines).isSome = true ↔ Has pidMatcher lines := last_isSome_iff (fun l hl => (h l hl).1)
  have hppid : (last ppidOf lines).isSome = true ↔ Has ppidMatcher lines := last_isSome_iff (fun l hl => (h l hl).2.1)
  have hnspid : (last nspidsOf lines).isSome = true ↔ Has nspidMatcher lines :=
    last_isSome_iff (fun l hl => (h l hl).2.2)
  rw [keepsContract_of_values h (Or.inl rfl), keepsContract_of_values h (Or.inr rfl), Option.or_none, hname, hpid, hppid,
    hnspid]
  simp

/-- What `sh` with the pid 7 has in its status, as far as it is read. -/
def shStatus : List Line :=
  [⟨"Name:\tsh\n".toList, by decide⟩, ⟨"Pid:\t7\n".toList, by decide⟩, ⟨"PPid:\t1\n".toList, by decide⟩,
    ⟨"NSpid:\t7\t2\n".toList, by decide⟩]

theorem keepsContract_sh : KeepsContract none 7 shStatus :=
  (keepsContract_iff 7 shStatus (by unfold shStatus WellFormed; decide)).1.2
    (Or.inr (by decide))

/-- The file of a process that has exited is empty: `name` is unbound. -/
theorem not_keepsContract_empty : ¬ KeepsContract (some 7) 7 [] := by
  rintro (⟨e, he, -⟩ | ⟨text, he⟩) <;> cases he

end Status
end Nspid
end Scrapcode
