import Mathlib.Data.List.DropRight
import Mathlib.Data.List.Nodup
import Scrapcode.Climb
/-!
# Nspid — what `nspid` reads and prints

A process table that does not change: what procfs holds for each pid, and how the pid namespaces are nested.  A process
lives in the namespace of its parent or in one below it.  `readPidProc` is what the script makes of one process,
`pidIsAncestor` and `namespaceIsAncestor` are its two walks, and `main` is the loop with its tests.

`status` and `cmdline` are opened as text, and what is no text raises a `ValueError`; so does a line of `status` that is
no number, where a name with a carriage return in it makes one.  A link may have any bytes, but `print` raises the same
on those that are no text.  No `except` of the script is for it: it ends `main` after the lines that are printed by then.

The option `--show-parents` and the layout of a line are left out.  The output has the encoding of the files.
-/
namespace Scrapcode
namespace Nspid

/-- A link of procfs may be hidden, or not be there. -/
inductive Access where
  | granted
  | denied
  | missing
deriving DecidableEq, Repr

/-- `str.isspace` for one character. -/
def isSpace (c : Char) : Bool :=
  [(0x9, 0xd), (0x1c, 0x20), (0x85, 0x85), (0xa0, 0xa0), (0x1680, 0x1680), (0x2000, 0x200a), (0x2028, 0x2029),
    (0x202f, 0x202f), (0x205f, 0x205f), (0x3000, 0x3000)].any (fun r => decide (r.1 ≤ c.toNat ∧ c.toNat ≤ r.2))

/-- `str.strip`. -/
def strip (s : List Char) : List Char := (s.dropWhile isSpace).rdropWhile isSpace

/-- What procfs holds for a process.  The name is what follows the white space of its line, and `none` where reading
`status` raises `ValueError`, as is the command line where `cmdline` is no text; a byte of `exe` that is no text is
`none`; the pids are those in each namespace, the innermost last. -/
structure Proc where
  name      : Option (List Char)
  ppid      : Int
  nspid     : List Int
  cmdline   : Option (List Char)
  exe       : List (Option Char)
  exeAccess : Access
  ns        : Int
  nsAccess  : Access
  nspid_ne  : nspid ≠ []

def Proc.innermost (q : Proc) : Int := q.nspid.getLast q.nspid_ne

/-- `inner` is `outer` or a namespace below it. -/
def Below (nsParent : Int → Option Int) (outer inner : Int) : Prop :=
  Relation.ReflTransGen (fun m n => nsParent m = some n) inner outer

structure Table where
  mypid    : Int
  pids     : List Int
  proc     : Int → Option Proc
  nsParent : Int → Option Int
  depth    : Int → Nat
  nodup    : pids.Nodup
  acyclic  : ∀ p q r, proc p = some q → proc q.ppid = some r → depth q.ppid < depth p
  nested   : ∀ p q r, proc p = some q → proc q.ppid = some r → Below nsParent r.ns q.ns

/-- `proc_entry`; a field that was not read is `none`. -/
structure Entry where
  name    : List Char
  pid     : Int
  ppid    : Int
  nspid   : List Int
  cmdline : Option (List Char)
  exe     : Option (List (Option Char))
  pidNsId : Option Int
deriving DecidableEq, Repr

inductive Exn where
  | fileNotFound
  | valueError
deriving DecidableEq, Repr

def Table.readPidProc (t : Table) (pid : Int) (statusOnly : Bool) : Except Exn Entry :=
  match t.proc pid with
  | none   => .error .fileNotFound
  | some q =>
    match q.name with
    | none      => .error .valueError
    | some name =>
      if name = [] then .error .fileNotFound
      else if statusOnly = true then
        .ok { name := name, pid := pid, ppid := q.ppid, nspid := q.nspid, cmdline := none, exe := none, pidNsId := none }
      else if q.nsAccess = .missing ∨ q.exeAccess = .missing then .error .fileNotFound
      else match q.cmdline with
        | none         => .error .valueError
        | some cmdline => .ok {
            name := name, pid := pid, ppid := q.ppid, nspid := q.nspid, cmdline := some (strip cmdline)
            exe := if q.exeAccess = .granted then some q.exe else none
            pidNsId := if q.nsAccess = .granted then some q.ns else none }

/-- `except FileNotFoundError`. -/
def caught {α : Type} : Except Exn α → Except Exn (Option α)
  | .ok x                 => .ok (some x)
  | .error .fileNotFound  => .ok none
  | .error .valueError => .error .valueError

/-- The way up of `pid_is_ancestor`. -/
def Table.parentStatus (t : Table) (e : Entry) : Except Exn (Option Entry) := caught (t.readPidProc e.ppid true)

/-- The way up of `namespace_is_ancestor`, which ends at the pid 0. -/
def Table.parentEntry (t : Table) (e : Entry) : Except Exn (Option Entry) :=
  if e.ppid = 0 then .ok none else caught (t.readPidProc e.ppid false)

def Table.pidIsAncestor (t : Table) (e : Entry) (pid : Int) : Except Exn Bool :=
  climb t.parentStatus (fun e => decide (e.ppid = pid)) (t.depth e.pid + 1) e

def Table.namespaceIsAncestor (t : Table) (e ancestor : Entry) : Except Exn Bool :=
  climb t.parentEntry (fun e => decide (ancestor.pidNsId = e.pidNsId)) (t.depth e.pid + 1) e

/-- `--namespace` and `--same-namespace-as` exclude each other. -/
inductive NsSelector where
  | none
  | namespace (n : Int)
  | sameNamespaceAs (pid : Int)
deriving DecidableEq, Repr

structure Options where
  pid                : Option Int := Option.none
  parentPid          : Option Int := Option.none
  allNamespaces      : Bool       := false
  selector           : NsSelector := .none
  indirectNamespaces : Bool       := false
  pidsOnly           : Bool       := false
deriving DecidableEq, Repr

def Options.namespace (o : Options) : Option Int :=
  match o.selector with
  | .namespace n => some n
  | _            => Option.none

def Options.sameNamespaceAs (o : Options) : Option Int :=
  match o.selector with
  | .sameNamespaceAs p => some p
  | _                  => Option.none

/-- A number is true in a test where it is not 0. -/
def truthy (x : Option Int) : Option Int := x.filter (fun n => decide (n ≠ 0))

/-- The part of the executable's path that is printed. -/
def shortExe (exe : List (Option Char)) : List (Option Char) := ((exe.splitOn (some '/')).getLastD []).take 14

/-- Whether `print_entry` can print the entry. -/
def Entry.printable (e : Entry) : Bool := (shortExe (e.exe.getD [])).all Option.isSome

inductive Printed where
  | header
  | pid (p : Int)
  | entry (e : Entry)
deriving DecidableEq, Repr

/-- How `main` ends, and what it has printed: `exited` is `exit(1)`, where the namespace cannot be resolved. -/
inductive Outcome where
  | ended (out : List Printed)
  | exited
  | uncaught (out : List Printed)
deriving DecidableEq, Repr

def Outcome.printed : Outcome → List Printed
  | .ended out    => out
  | .exited       => []
  | .uncaught out => out

section
variable (t : Table) (o : Options)

/-- The tests that take an entry as it is. -/
def passesAlone (e : Entry) : Bool :=
  !(decide (e.cmdline = some []) ||
    (truthy o.pid).any (fun p => decide (e.nspid.getLast? ≠ some p)) ||
    (truthy o.namespace).any (fun n => decide (e.pidNsId ≠ some n)))

def passesParentPid (e : Entry) : Except Exn Bool :=
  match truthy o.parentPid with
  | none   => .ok true
  | some x => t.pidIsAncestor e x

def passesNamespace (ancestor : Option Entry) (e : Entry) : Except Exn Bool :=
  match truthy o.sameNamespaceAs, ancestor with
  | some _, some a => t.namespaceIsAncestor e a
  | _, _           => .ok true

/-- The tests of the loop. -/
def passes (ancestor : Option Entry) (e : Entry) : Except Exn Bool :=
  if passesAlone o e = true then
    match passesParentPid t o e with
    | .error x   => .error x
    | .ok false  => .ok false
    | .ok true   => passesNamespace t o ancestor e
  else .ok false

/-- What `list_nspids` and the loop do with a name of the listing. -/
def visit (ancestor : Option Entry) (p : Int) : Except Exn (List Printed) :=
  if p = t.mypid then .ok []
  else match caught (t.readPidProc p false) with
    | .error x     => .error x
    | .ok none     => .ok []
    | .ok (some e) =>
      match passes t o ancestor e with
      | .error x  => .error x
      | .ok false => .ok []
      | .ok true  =>
        if o.pidsOnly = true then .ok [.pid e.pid]
        else if e.printable = true then .ok [.entry e]
        else .error .valueError

/-- The loop, after the namespace of `--same-namespace-as` was found: what is printed, and whether it raises. -/
def loop (ancestor : Option Entry) : List Int → List Printed × Bool
  | []      => ([], false)
  | p :: ps =>
    match visit t o ancestor p with
    | .error _ => ([], true)
    | .ok out  => (out ++ (loop ancestor ps).1, (loop ancestor ps).2)

/-- The entry with its namespace, where it could be read. -/
def resolved (r : Except Exn Entry) : Except Exn (Option Entry) :=
  (caught r).map (Option.filter (fun a => a.pidNsId.any (fun n => decide (n ≠ 0))))

/-- The namespace that `--same-namespace-as` names, and the entry it is read from. -/
def resolve (p : Int) : Except Exn (Option Entry) := resolved (t.readPidProc p false)

def listAll (ancestor : Option Entry) : Outcome :=
  let out := (if o.pidsOnly = true then [] else [.header]) ++ (loop t o ancestor t.pids).1
  if (loop t o ancestor t.pids).2 = true then .uncaught out else .ended out

def main : Outcome :=
  match truthy o.sameNamespaceAs with
  | none   => listAll t o none
  | some p =>
    match resolve t p with
    | .error _     => .uncaught []
    | .ok none     => .exited
    | .ok (some a) => listAll t o (some a)

end

def Printed.process : Printed → Option Int
  | .header  => none
  | .pid p   => some p
  | .entry e => some e.pid

/-- The processes that are printed. -/
def shown (t : Table) (o : Options) : List Int := (main t o).printed.filterMap Printed.process

end Nspid
end Scrapcode
