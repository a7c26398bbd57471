import Scrapcode.Lookups
import Scrapcode.NspidOptions
/-!
# NspidVanish — `nspid` while processes vanish

The process table of `Nspid`, where any process may vanish between two looks at procfs: the listing, or one of the four
files that `readPidProc` takes from a process.  The two walks that test an entry take the end of a process for the end
of the walk.  The walk of `--show-parents` does not, and runs while the entries are printed.

`Tolerates` asks for an end without exception, and that no process is missed that stays.  It holds on every schedule
exactly where `main` has to read or print no bytes that are no text, and no process that matches needs another one to be
read: for its parents to be shown, and for the tests it has to pass (`tolerates_iff`).  Where the processes stay that a
test may come to, the tests do not matter.
-/
namespace Scrapcode
namespace Nspid

/-- The namespace that the `ns` link shows. -/
def Proc.nsLink (q : Proc) : Option Int := if q.nsAccess = .granted then some q.ns else none

namespace Vanish

open Lookups

structure Args extends Options where
  showParents : Bool := false
deriving DecidableEq, Repr

/-- A line of a process, or of one that spawned a namespace around it. -/
inductive Output where
  | line (l : Printed)
  | parent (e : Entry) (indent : Nat)
deriving DecidableEq, Repr

def Output.process : Output → Option Int
  | .line l     => l.process
  | .parent _ _ => none

inductive Outcome where
  | ended (out : List Output)
  | exited
  | uncaught
deriving DecidableEq, Repr

section
variable (t : Table) (o : Args)

def readPidProc (pid : Int) (statusOnly : Bool) : Prog Int (Except Exn Entry) :=
  find pid (.error .fileNotFound) (match t.proc pid with
    | none   => .ret (.error .fileNotFound)
    | some q =>
      match q.name with
      | none      => .ret (.error .valueError)
      | some name =>
        if name = [] then .ret (.error .fileNotFound)
        else if statusOnly = true then .ret (.ok {
          name := name, pid := pid, ppid := q.ppid, nspid := q.nspid, cmdline := none, exe := none, pidNsId := none })
        else find pid (.error .fileNotFound) (if q.nsAccess = .missing then .ret (.error .fileNotFound)
          else find pid (.error .fileNotFound) (if q.exeAccess = .missing then .ret (.error .fileNotFound)
            else find pid (.error .fileNotFound) (match q.cmdline with
              | none         => .ret (.error .valueError)
              | some cmdline => .ret (.ok {
                  name := name, pid := pid, ppid := q.ppid, nspid := q.nspid, cmdline := some (strip cmdline)
                  exe := if q.exeAccess = .granted then some q.exe else none
                  pidNsId := if q.nsAccess = .granted then some q.ns else none })))))

/-- A read where `FileNotFoundError` is caught. -/
def readCaught (pid : Int) (statusOnly : Bool) : Prog Int (Except Exn (Option Entry)) :=
  (readPidProc t pid statusOnly).bind fun r => .ret (caught r)

def upStatus (e : Entry) : Prog Int (Except Exn (Option Entry)) := readCaught t e.ppid true

def upEntry (e : Entry) : Prog Int (Except Exn (Option Entry)) :=
  if e.ppid = 0 then .ret (.ok none) else readCaught t e.ppid false

def pidIsAncestor (e : Entry) (pid : Int) : Prog Int (Except Exn Bool) :=
  climbNow (upStatus t) (fun e => decide (e.ppid = pid)) (t.depth e.pid + 1) e

def namespaceIsAncestor (e ancestor : Entry) : Prog Int (Except Exn Bool) :=
  climbNow (upEntry t) (fun e => decide (ancestor.pidNsId = e.pidNsId)) (t.depth e.pid + 1) e

/-- No exception is caught. -/
def getNamespaceParent : Nat → Entry → Prog Int (Except Exn (Option Entry))
  | 0, _     => .ret (.ok none)
  | k + 1, e =>
    if e.pidNsId = none ∨ e.ppid = 0 then .ret (.ok none)
    else (readPidProc t e.ppid false).andThen fun b =>
      if b.pidNsId = none then .ret (.ok none)
      else if b.pidNsId ≠ e.pidNsId then .ret (.ok (some b))
      else getNamespaceParent k b

def printEntryAncestors : Nat → Nat → Entry → Prog Int (Except Exn (List Output))
  | 0, _, _          => .ret (.ok [])
  | k + 1, indent, e => (getNamespaceParent t (t.depth e.pid + 1) e).andThen fun
    | none   => .ret (.ok [])
    | some b =>
      if b.printable = true then
        (printEntryAncestors k (indent + 2) b).andThen fun out => .ret (.ok (.parent b indent :: out))
      else .ret (.error .valueError)

def passesParentPid (e : Entry) : Prog Int (Except Exn Bool) :=
  match truthy o.parentPid with
  | none   => .ret (.ok true)
  | some x => pidIsAncestor t e x

def passesNamespace (ancestor : Option Entry) (e : Entry) : Prog Int (Except Exn Bool) :=
  match truthy o.sameNamespaceAs, ancestor with
  | some _, some a => namespaceIsAncestor t e a
  | _, _           => .ret (.ok true)

/-- The tests of the loop. -/
def passes (ancestor : Option Entry) (e : Entry) : Prog Int (Except Exn Bool) :=
  if passesAlone o.toOptions e = true then
    (passesParentPid t o e).andThen fun
      | false => .ret (.ok false)
      | true  => passesNamespace t o ancestor e
  else .ret (.ok false)

def report (e : Entry) : Prog Int (Except Exn (List Output)) :=
  if o.pidsOnly = true then .ret (.ok [.line (.pid e.pid)])
  else if e.printable = false then .ret (.error .valueError)
  else if o.showParents = true then
    (printEntryAncestors t (t.depth e.pid + 1) 2 e).andThen fun out => .ret (.ok (.line (.entry e) :: out))
  else .ret (.ok [.line (.entry e)])

/-- What `list_nspids` and the loop do with a name of the listing. -/
def visit (ancestor : Option Entry) (p : Int) : Prog Int (Except Exn (List Output)) :=
  if p = t.mypid then .ret (.ok [])
  else (readCaught t p false).andThen fun
    | none   => .ret (.ok [])
    | some e => (passes t o ancestor e).andThen fun
      | false => .ret (.ok [])
      | true  => report t o e

def loop (ancestor : Option Entry) : List Int → Prog Int (Except Exn (List Output))
  | []      => .ret (.ok [])
  | p :: ps => (visit t o ancestor p).andThen fun out =>
    (loop ancestor ps).andThen fun out' => .ret (.ok (out ++ out'))

/-- The namespace of `--same-namespace-as`, or the end of `main`. -/
def start : Prog Int (Except Outcome (Option Entry)) :=
  match truthy o.sameNamespaceAs with
  | none   => .ret (.ok none)
  | some x => (readPidProc t x false).bind fun r =>
    .ret (match resolved r with
      | .error _     => .error .uncaught
      | .ok none     => .error .exited
      | .ok (some a) => .ok (some a))

def main : Prog Int Outcome :=
  (start t o).bind fun
    | .error out   => .ret out
    | .ok ancestor => .look fun alive => (loop t o ancestor (t.pids.filter alive)).bind fun
      | .error _ => .ret .uncaught
      | .ok out  => .ret (.ended ((if o.pidsOnly = true then [] else [Output.line .header]) ++ out))

/-- A process that matches: all tests of the loop hold of it where nothing vanishes. -/
structure Matching (p : Int) (q : Proc) : Prop where
  listed : p ∈ t.pids
  other  : p ≠ t.mypid
  proc   : t.proc p = some q
  tested : Tested t o.toOptions p q

/-- **Vanishing processes are tolerated**: once the process of `--same-namespace-as` could be read `main` ends, and has
printed each process that matches and stays. -/
def Tolerates (stays : Schedule Int → Int → Prop) (s : Schedule Int) : Prop :=
  ∀ ancestor, ((start t o).run s 0).1 = .ok ancestor →
    ∃ out, ((main t o).run s 0).1 = .ended out ∧
      ∀ p q, Matching t o p q → stays s p → p ∈ out.filterMap Output.process

/-- The ancestors of the process stay, too. -/
def LineSurvives (s : Schedule Int) (p : Int) : Prop := ∀ a, Relation.ReflTransGen (IsParent t) p a → s.Survives a

/-- The process of `--same-namespace-as` has a namespace that can be read. -/
def Resolves : Prop := ∀ x, o.sameNamespaceAs = some x → x ≠ 0 → ∃ n, NamespaceOf t x n

/-- No parent is read for `--show-parents`, of a process with this namespace and this parent. -/
def ParentsUnread (ns : Option Int) (ppid : Int) : Prop :=
  o.showParents = true → o.pidsOnly = false → ns = none ∨ ppid = 0

/-- No other process is needed for the tests of this one. -/
structure MatchesAlone (q : Proc) : Prop where
  parentPid       : ∀ x, o.parentPid = some x → x ≠ 0 → q.ppid = x
  sameNamespaceAs : ∀ x, o.sameNamespaceAs = some x → x ≠ 0 → ∀ n, NamespaceOf t x n → q.nsLink = some n

end

variable {t : Table} {o : Args} {s : Schedule Int} {n p : Int} {q : Proc} {k m : Nat} {e b : Entry}
  {ancestor : Option Entry}

/-! ## Reading -/

/-- A read gives what is there, or `FileNotFoundError`. -/
theorem read_loses (t : Table) (s : Schedule Int) (p : Int) (so : Bool) (m : Nat) :
    ((readPidProc t p so).run s m).1 = .error .fileNotFound ∨
      ((readPidProc t p so).run s m).1 = t.readPidProc p so := by
  unfold readPidProc Table.readPidProc
  rcases find_loses s p (Except.error Exn.fileNotFound) _ m with h | h
  · exact Or.inl h
  · rw [h]
    cases hq : t.proc p with
    | none   => exact Or.inl rfl
    | some q =>
      dsimp only
      cases hn : q.name with
      | none      => exact Or.inr rfl
      | some name =>
        dsimp only
        by_cases hnil : name = []
        · rw [if_pos hnil]; exact Or.inl rfl
        · rw [if_neg hnil, if_neg hnil]
          cases so with
          | true  => exact Or.inr rfl
          | false =>
            rw [if_neg Bool.false_ne_true, if_neg Bool.false_ne_true]
            rcases find_loses s p (Except.error Exn.fileNotFound) _ (m + 1) with h | h
            · exact Or.inl h
            · rw [h]
              by_cases hns : q.nsAccess = .missing
              · rw [if_pos hns]; exact Or.inl rfl
              · rw [if_neg hns]
                rcases find_loses s p (Except.error Exn.fileNotFound) _ (m + 1 + 1) with h | h
                · exact Or.inl h
                · rw [h]
                  by_cases hexe : q.exeAccess = .missing
                  · rw [if_pos hexe]; exact Or.inl rfl
                  · rw [if_neg hexe, if_neg (not_or.2 ⟨hns, hexe⟩)]
                    rcases find_loses s p (Except.error Exn.fileNotFound) _ (m + 1 + 1 + 1) with h | h
                    · exact Or.inl h
                    · rw [h]
                      cases q.cmdline <;> exact Or.inr rfl

theorem static_of_read {so : Bool} (h : ((readPidProc t p so).run s m).1 = .ok e) : t.readPidProc p so = .ok e := by
  rcases read_loses t s p so m with hl | hl
  · rw [hl] at h; cases h
  · rw [← hl, h]

theorem read_of_survives {so : Bool} (h : s.Survives p) : ((readPidProc t p so).run s m).1 = t.readPidProc p so := by
  unfold readPidProc Table.readPidProc
  rw [run_find, if_pos (h.alive m)]
  cases hq : t.proc p with
  | none   => rfl
  | some q =>
    dsimp only
    cases hn : q.name with
    | none      => rfl
    | some name =>
      by_cases hnil : name = [] <;> cases so <;> by_cases hns : q.nsAccess = .missing <;>
        by_cases hexe : q.exeAccess = .missing <;> cases hc : q.cmdline <;> simp [h.alive, hnil, hns, hexe]

theorem read_steady {so : Bool} : ((readPidProc t p so).run steady m).1 = t.readPidProc p so :=
  read_of_survives (survives_steady p)

theorem read_of_gone {so : Bool} (h : s.alive m p = false) :
    ((readPidProc t p so).run s m).1 = .error .fileNotFound := by
  rw [readPidProc, run_find, h]
  rfl

@[simp] theorem run_readCaught (pid : Int) (so : Bool) (m : Nat) : (readCaught t pid so).run s m =
    (caught ((readPidProc t pid so).run s m).1, ((readPidProc t pid so).run s m).2) := by
  rw [readCaught, run_bind, run_ret]

theorem upStatus_loses (e : Entry) (m : Nat) :
    ((upStatus t e).run s m).1 = .ok none ∨ ((upStatus t e).run s m).1 = t.parentStatus e := by
  rw [upStatus, run_readCaught, Table.parentStatus]
  rcases read_loses t s e.ppid true m with h | h
  · exact Or.inl (by rw [h]; rfl)
  · exact Or.inr (by rw [h])

theorem upEntry_loses (e : Entry) (m : Nat) :
    ((upEntry t e).run s m).1 = .ok none ∨ ((upEntry t e).run s m).1 = t.parentEntry e := by
  unfold upEntry Table.parentEntry
  by_cases h0 : e.ppid = 0
  · rw [if_pos h0, if_pos h0]; exact Or.inl rfl
  · rw [if_neg h0, if_neg h0, run_readCaught]
    rcases read_loses t s e.ppid false m with h | h
    · exact Or.inl (by rw [h]; rfl)
    · exact Or.inr (by rw [h])

theorem upStatus_of_survives (h : s.Survives e.ppid) : ((upStatus t e).run s m).1 = t.parentStatus e := by
  rw [upStatus, run_readCaught, read_of_survives h, Table.parentStatus]

theorem upEntry_of_survives (h : s.Survives e.ppid) : ((upEntry t e).run s m).1 = t.parentEntry e := by
  unfold upEntry Table.parentEntry
  by_cases h0 : e.ppid = 0
  · rw [if_pos h0, if_pos h0]; rfl
  · rw [if_neg h0, if_neg h0, run_readCaught, read_of_survives h]

theorem upStatus_of_gone (h : s.alive m e.ppid = false) : ((upStatus t e).run s m).1 = .ok none := by
  rw [upStatus, run_readCaught, read_of_gone h]
  rfl

theorem upEntry_of_gone (h : s.alive m e.ppid = false) : ((upEntry t e).run s m).1 = .ok none := by
  unfold upEntry
  by_cases h0 : e.ppid = 0
  · rw [if_pos h0]; rfl
  · rw [if_neg h0, run_readCaught, read_of_gone h]; rfl

theorem entry_eq (hp : t.proc p = some q) (he : t.readPidProc p false = .ok e) :
    e.pidNsId = q.nsLink ∧ e.ppid = q.ppid := by
  obtain ⟨rfl, r, hr, -, hfull⟩ := Table.readPidProc_ok he
  cases hp.symm.trans hr.proc
  exact ⟨(hfull rfl).2.1, hr.ppid⟩

/-! ## The tests -/

/-- The two walks that test an entry are not cut short. -/
theorem climbNow_succ_of_up {so : Bool} {up : Entry → Prog Int (Except Exn (Option Entry))}
    {above : Entry → Except Exn (Option Entry)} {test : Entry → Bool} {q : Proc}
    (hup : ∀ a m, ((up a).run s m).1 = .ok none ∨ ((up a).run s m).1 = above a) (habove : t.Up so above)
    (hq : t.Tells e q) (hk : t.depth e.pid < k) :
    (climbNow up test (k + 1) e).run s m = (climbNow up test k e).run s m := by
  have hfalls : ∀ a b n, (∃ q, t.Tells a q) → ((up a).run s n).1 = .ok (some b) →
      (∃ q, t.Tells b q) ∧ t.depth b.pid < t.depth a.pid := by
    rintro a b n ⟨r, hr⟩ hb
    have hab : above a = .ok (some b) := by
      rcases hup a n with h | h
      · rw [h] at hb; cases hb
      · rw [← h, hb]
    obtain ⟨-, r', hr', -⟩ := Table.readPidProc_ok ((t.up_some habove).1 hab).2
    exact ⟨⟨r', hr'⟩, t.line_depth habove hr a b .refl hab⟩
  exact climbNow_succ (fun e => t.depth e.pid) hfalls k e m ⟨q, hq⟩ hk

theorem passesParentPid_loses (t : Table) (o : Args) (s : Schedule Int) (e : Entry) (m : Nat) :
    ((passesParentPid t o e).run s m).1 = .ok false ∨
      ((passesParentPid t o e).run s m).1 = Nspid.passesParentPid t o.toOptions e := by
  unfold passesParentPid Nspid.passesParentPid
  cases truthy o.parentPid with
  | none   => exact Or.inr rfl
  | some x => exact climbNow_loses upStatus_loses _ _ _

theorem passesNamespace_loses (t : Table) (o : Args) (s : Schedule Int) (ancestor : Option Entry) (e : Entry) (m : Nat) :
    ((passesNamespace t o ancestor e).run s m).1 = .ok false ∨
      ((passesNamespace t o ancestor e).run s m).1 = Nspid.passesNamespace t o.toOptions ancestor e := by
  unfold passesNamespace Nspid.passesNamespace
  cases truthy o.sameNamespaceAs with
  | none   => exact Or.inr rfl
  | some x =>
    cases ancestor with
    | none   => exact Or.inr rfl
    | some a => exact climbNow_loses upEntry_loses _ _ _

/-- **What vanishes can make an entry fail its tests**, and nothing else of them. -/
theorem passes_loses (t : Table) (o : Args) (s : Schedule Int) (ancestor : Option Entry) (e : Entry) (m : Nat) :
    ((passes t o ancestor e).run s m).1 = .ok false ∨
      ((passes t o ancestor e).run s m).1 = Nspid.passes t o.toOptions ancestor e := by
  unfold passes Nspid.passes
  by_cases halone : passesAlone o.toOptions e = true
  · rw [if_pos halone, if_pos halone]
    rcases passesParentPid_loses t o s e m with h | h
    · exact Or.inl (by rw [run_andThen_ok h]; rfl)
    · rcases hp : Nspid.passesParentPid t o.toOptions e with y | _ | _
      · exact Or.inr (by rw [run_andThen_error (h.trans hp)])
      · exact Or.inr (by rw [run_andThen_ok (h.trans hp)]; rfl)
      · rw [run_andThen_ok (h.trans hp)]
        exact passesNamespace_loses t o s ancestor e _
  · rw [if_neg halone, if_neg halone]
    exact Or.inr rfl

theorem passes_eq_true : Nspid.passes t o.toOptions ancestor e = .ok true ↔ passesAlone o.toOptions e = true ∧
    Nspid.passesParentPid t o.toOptions e = .ok true ∧
    Nspid.passesNamespace t o.toOptions ancestor e = .ok true := by
  unfold Nspid.passes
  by_cases ha : passesAlone o.toOptions e = true
  · rw [if_pos ha]
    rcases hp : Nspid.passesParentPid t o.toOptions e with y | _ | _ <;> simp [ha]
  · simp [ha]

theorem passes_iff : ((passes t o ancestor e).run s m).1 = .ok true ↔ passesAlone o.toOptions e = true ∧
    ((passesParentPid t o e).run s m).1 = .ok true ∧
    ((passesNamespace t o ancestor e).run s ((passesParentPid t o e).run s m).2).1 = .ok true := by
  unfold passes
  by_cases ha : passesAlone o.toOptions e = true
  · rw [if_pos ha]
    rcases hp : ((passesParentPid t o e).run s m).1 with y | _ | _
    · simp [run_andThen_error hp]
    · simp [run_andThen_ok hp]
    · simp [run_andThen_ok hp, ha]
  · simp [ha]

/-- An entry is tested as it is where its ancestors stay. -/
theorem passes_of_line (hread : t.readPidProc p false = .ok e) (hline : LineSurvives t s p) (m : Nat) :
    ((passes t o ancestor e).run s m).1 = Nspid.passes t o.toOptions ancestor e := by
  obtain ⟨rfl, q, hq, -⟩ := Table.readPidProc_ok hread
  have hstay : ∀ so up, t.Up so up → ∀ b, Line up e b → s.Survives b.ppid := by
    intro so up hup b hl
    obtain ⟨hs, r, hr⟩ := t.seen_of_line hup hq hl
    have hup : Relation.ReflTransGen (IsParent t) e.pid b.pid := hs.lift id (fun _ _ h => h.1)
    exact hline _ (hup.tail ⟨r, hr.proc, hr.ppid.symm⟩)
  have hparent : ((passesParentPid t o e).run s m).1 = Nspid.passesParentPid t o.toOptions e := by
    unfold passesParentPid Nspid.passesParentPid
    cases truthy o.parentPid with
    | none   => rfl
    | some x =>
      exact climbNow_eq_climb _ _ _ (fun b m hl => upStatus_of_survives (hstay true _ Table.up_parentStatus b hl))
  have hns : ∀ m, ((passesNamespace t o ancestor e).run s m).1 = Nspid.passesNamespace t o.toOptions ancestor e := by
    intro m
    unfold passesNamespace Nspid.passesNamespace
    cases truthy o.sameNamespaceAs with
    | none   => rfl
    | some x =>
      cases ancestor with
      | none   => rfl
      | some a =>
        exact climbNow_eq_climb _ _ _ (fun b m hl => upEntry_of_survives (hstay false _ Table.up_parentEntry b hl))
  unfold passes Nspid.passes
  by_cases ha : passesAlone o.toOptions e = true
  · rw [if_pos ha, if_pos ha]
    rcases hp : Nspid.passesParentPid t o.toOptions e with y | _ | _
    · rw [run_andThen_error (hparent.trans hp)]
    · rw [run_andThen_ok (hparent.trans hp)]; rfl
    · rw [run_andThen_ok (hparent.trans hp)]; exact hns _
  · rw [if_neg ha, if_neg ha]; rfl

theorem passes_steady (o : Args) (ancestor : Option Entry) (he : t.readPidProc p false = .ok e) (m : Nat) :
    ((passes t o ancestor e).run steady m).1 = Nspid.passes t o.toOptions ancestor e :=
  passes_of_line he (fun a _ => survives_steady a) m

theorem passes_of_matchesAlone (hs : Nspid.passes t o.toOptions ancestor e = .ok true) (ha : MatchesAlone t o q)
    (hp : t.proc p = some q) (he : t.readPidProc p false = .ok e)
    (hres : ∀ x a, truthy o.sameNamespaceAs = some x → ancestor = some a → resolve t x = .ok (some a)) (m : Nat) :
    ((passes t o ancestor e).run s m).1 = .ok true := by
  obtain ⟨hns, hppid⟩ := entry_eq hp he
  refine passes_iff.2 ⟨(passes_eq_true.1 hs).1, ?_, ?_⟩
  · unfold passesParentPid
    cases hx : truthy o.parentPid with
    | none   => rfl
    | some x =>
      obtain ⟨hv, h0⟩ := truthy_eq_some.1 hx
      have ht : pidIsAncestor t e x = .ret (.ok true) :=
        if_pos (decide_eq_true (hppid.trans (ha.parentPid x hv h0)))
      show ((pidIsAncestor t e x).run s m).1 = .ok true
      rw [ht, run_ret]
  · unfold passesNamespace
    cases hx : truthy o.sameNamespaceAs with
    | none   => rfl
    | some x =>
      cases hanc : ancestor with
      | none   => rfl
      | some a =>
        obtain ⟨hv, h0⟩ := truthy_eq_some.1 hx
        obtain ⟨n, hn, hof⟩ := resolve_some (hres x a hx hanc)
        have hsame : a.pidNsId = e.pidNsId := by rw [hn, hns, ha.sameNamespaceAs x hv h0 n hof]
        have ht : namespaceIsAncestor t e a = .ret (.ok true) := if_pos (decide_eq_true hsame)
        show ((namespaceIsAncestor t e a).run s _).1 = .ok true
        rw [ht, run_ret]

/-- What passes without its parent does so by itself. -/
theorem matchesAlone_of_passes (hp : t.proc p = some q) (he : t.readPidProc p false = .ok e)
    (hgone : ∀ m', m ≤ m' → s.alive m' e.ppid = false)
    (hres : ∀ x a, truthy o.sameNamespaceAs = some x → resolve t x = .ok (some a) → ancestor = some a)
    (h : ((passes t o ancestor e).run s m).1 = .ok true) : MatchesAlone t o q := by
  obtain ⟨hns, hppid⟩ := entry_eq hp he
  obtain ⟨-, hparent, hpassns⟩ := passes_iff.1 h
  refine ⟨fun x hx h0 => ?_, fun x hx h0 n hn => ?_⟩
  · rw [passesParentPid, truthy_eq_some.2 ⟨hx, h0⟩] at hparent
    have ht := test_of_climbNow hparent (upStatus_of_gone (hgone m le_rfl))
    exact hppid.symm.trans (of_decide_eq_true ht)
  · obtain ⟨a, ha, han⟩ := exists_resolve hn
    have hx' := truthy_eq_some.2 ⟨hx, h0⟩
    unfold passesNamespace at hpassns
    rw [hx', hres x a hx' ha] at hpassns
    have ht := test_of_climbNow hpassns (upEntry_of_gone (hgone _ (le_run _ _ _)))
    rw [← hns, ← of_decide_eq_true ht, han]

/-! ## The parents -/

theorem tells_of_read {q : Proc} (hq : t.Tells e q) (h : ((readPidProc t e.ppid false).run s m).1 = .ok b) :
    ∃ r, t.Tells b r ∧ t.depth b.pid < t.depth e.pid := by
  obtain ⟨hb, r, hr, -⟩ := Table.readPidProc_ok (static_of_read h)
  refine ⟨r, hr, ?_⟩
  rw [hb, hq.ppid]
  exact t.acyclic e.pid q r hq.proc (by rw [← hq.ppid, ← hb]; exact hr.proc)

/-- The walk to the next namespace is not cut short. -/
theorem getNamespaceParent_succ : ∀ (k : Nat) (e : Entry) (m : Nat) (q : Proc), t.Tells e q → t.depth e.pid < k →
    (getNamespaceParent t (k + 1) e).run s m = (getNamespaceParent t k e).run s m
  | 0, _, _, _, _, hk        => absurd hk (Nat.not_lt_zero _)
  | k + 1, e, m, q, hq, hk => by
    rw [getNamespaceParent, getNamespaceParent]
    by_cases htop : e.pidNsId = none ∨ e.ppid = 0
    · rw [if_pos htop, if_pos htop]
    · rw [if_neg htop, if_neg htop]
      cases hb : ((readPidProc t e.ppid false).run s m).1 with
      | error y => rw [run_andThen_error hb, run_andThen_error hb]
      | ok b =>
        obtain ⟨r, hr, hdepth⟩ := tells_of_read hq hb
        rw [run_andThen_ok hb, run_andThen_ok hb]
        split_ifs
        · rfl
        · rfl
        · exact getNamespaceParent_succ k b _ r hr (by omega)

theorem tells_of_getNamespaceParent : ∀ (k : Nat) (e : Entry) (m : Nat) (q : Proc), t.Tells e q →
    ((getNamespaceParent t k e).run s m).1 = .ok (some b) → ∃ r, t.Tells b r ∧ t.depth b.pid < t.depth e.pid
  | 0, _, _, _, _, h        => by cases h
  | k + 1, e, m, q, hq, h => by
    rw [getNamespaceParent] at h
    by_cases htop : e.pidNsId = none ∨ e.ppid = 0
    · rw [if_pos htop] at h; cases h
    · rw [if_neg htop] at h
      cases hc : ((readPidProc t e.ppid false).run s m).1 with
      | error y => rw [run_andThen_error hc] at h; cases h
      | ok c =>
        obtain ⟨r, hr, hdepth⟩ := tells_of_read hq hc
        rw [run_andThen_ok hc] at h
        split_ifs at h
        · cases h
        · cases h; exact ⟨r, hr, hdepth⟩
        · obtain ⟨r', hr', hdepth'⟩ := tells_of_getNamespaceParent k c _ r hr h
          exact ⟨r', hr', by omega⟩

/-- Nor is the walk over the namespaces. -/
theorem printEntryAncestors_succ : ∀ (k indent : Nat) (e : Entry) (m : Nat) (q : Proc), t.Tells e q →
    t.depth e.pid < k → (printEntryAncestors t (k + 1) indent e).run s m = (printEntryAncestors t k indent e).run s m
  | 0, _, _, _, _, _, hk            => absurd hk (Nat.not_lt_zero _)
  | k + 1, indent, e, m, q, hq, hk => by
    rw [printEntryAncestors, printEntryAncestors]
    rcases hr : ((getNamespaceParent t (t.depth e.pid + 1) e).run s m).1 with y | _ | b
    · rw [run_andThen_error hr, run_andThen_error hr]
    · rw [run_andThen_ok hr, run_andThen_ok hr]
    · obtain ⟨r, hr', hdepth⟩ := tells_of_getNamespaceParent _ e m q hq hr
      rw [run_andThen_ok hr, run_andThen_ok hr]
      dsimp only [Prog.andThen]
      split_ifs
      · rw [run_bind, run_bind, printEntryAncestors_succ k (indent + 2) b _ r hr' (by omega)]
      · rfl

theorem process_parents : ∀ (k indent : Nat) (e : Entry) (m : Nat) (out : List Output),
    ((printEntryAncestors t k indent e).run s m).1 = .ok out → out.filterMap Output.process = []
  | 0, _, _, _, _, h              => by cases h; rfl
  | k + 1, indent, e, m, out, h => by
    rw [printEntryAncestors] at h
    rcases hr : ((getNamespaceParent t (t.depth e.pid + 1) e).run s m).1 with y | _ | b
    · rw [run_andThen_error hr] at h; cases h
    · rw [run_andThen_ok hr] at h; cases h; rfl
    · rw [run_andThen_ok hr] at h
      dsimp only at h
      split_ifs at h
      · cases hb : ((printEntryAncestors t k (indent + 2) b).run s
            ((getNamespaceParent t (t.depth e.pid + 1) e).run s m).2).1 with
        | error y => rw [run_andThen_error hb] at h; cases h
        | ok out' =>
          rw [run_andThen_ok hb] at h
          cases h
          exact process_parents k (indent + 2) b _ out' hb
      · cases h

theorem parents_of_unread (h : e.pidNsId = none ∨ e.ppid = 0) (k indent : Nat) :
    printEntryAncestors t (k + 1) indent e = .ret (.ok []) := by
  rw [printEntryAncestors, getNamespaceParent, if_pos h]
  rfl

theorem parents_of_gone (h : ¬(e.pidNsId = none ∨ e.ppid = 0)) (hgone : s.alive m e.ppid = false) (k indent : Nat) :
    ((printEntryAncestors t (k + 1) indent e).run s m).1 = .error .fileNotFound := by
  have hread : ((readPidProc t e.ppid false).run s m).1 = .error .fileNotFound := read_of_gone hgone
  have hparent : ((getNamespaceParent t (t.depth e.pid + 1) e).run s m).1 = .error .fileNotFound := by
    rw [getNamespaceParent, if_neg h, run_andThen_error hread]
  rw [printEntryAncestors, run_andThen_error hparent]

/-! ## The loop -/

theorem process_report {out : List Output} (h : ((report t o e).run s m).1 = .ok out) :
    out.filterMap Output.process = [e.pid] := by
  unfold report at h
  split_ifs at h
  · cases h; rfl
  · cases h
  · cases hp : ((printEntryAncestors t (t.depth e.pid + 1) 2 e).run s m).1 with
    | error y => rw [run_andThen_error hp] at h; cases h
    | ok out' =>
      rw [run_andThen_ok hp] at h
      cases h
      rw [List.filterMap_cons, process_parents _ _ _ _ _ hp]
      rfl
  · cases h; rfl

theorem report_of_unread (h : ParentsUnread o e.pidNsId e.ppid) (hpr : o.pidsOnly = false → e.printable = true)
    (m : Nat) : ∃ out, ((report t o e).run s m).1 = .ok out := by
  unfold report
  by_cases hq : o.pidsOnly = true
  · rw [if_pos hq]; exact ⟨_, rfl⟩
  · have hq' : o.pidsOnly = false := Bool.not_eq_true _ ▸ hq
    rw [if_neg hq, hpr hq', if_neg Bool.noConfusion]
    by_cases hr : o.showParents = true
    · rw [if_pos hr, parents_of_unread (h hr hq')]; exact ⟨_, rfl⟩
    · rw [if_neg hr]; exact ⟨_, rfl⟩

theorem report_of_gone (h : ¬ ParentsUnread o e.pidNsId e.ppid) (hgone : s.alive m e.ppid = false) :
    ∃ y, ((report t o e).run s m).1 = .error y := by
  unfold ParentsUnread at h
  push Not at h
  obtain ⟨hr, hq, hns, h0⟩ := h
  rw [report, if_neg (by rw [hq]; exact Bool.false_ne_true)]
  by_cases hpr : e.printable = false
  · rw [if_pos hpr]; exact ⟨_, rfl⟩
  · rw [if_neg hpr, if_pos hr, run_andThen_error (parents_of_gone (not_or.2 ⟨hns, h0⟩) hgone _ _)]
    exact ⟨_, rfl⟩

section
variable (t o)

/-- `main` does not raise at the process where nothing vanishes. -/
def Quiet (ancestor : Option Entry) (p : Int) : Prop := ∀ y, Nspid.visit t o.toOptions ancestor p ≠ .error y

end

/-- What becomes of a name in the listing: its process has vanished, or fails the tests, or is printed. -/
theorem visit_cases (s : Schedule Int) (m : Nat) (hquiet : Quiet t o ancestor p) :
    (p = t.mypid ∨ ((readPidProc t p false).run s m).1 = .error .fileNotFound) ∧
      ((visit t o ancestor p).run s m).1 = .ok [] ∨
    p ≠ t.mypid ∧ ∃ e n, t.readPidProc p false = .ok e ∧ m ≤ n ∧
      (((passes t o ancestor e).run s n).1 = .ok false ∧ ((visit t o ancestor p).run s m).1 = .ok [] ∨
        ((passes t o ancestor e).run s n).1 = .ok true ∧
          ∃ k, ((visit t o ancestor p).run s m).1 = ((report t o e).run s k).1) := by
  unfold Quiet Nspid.visit at hquiet
  unfold visit
  by_cases hm : p = t.mypid
  · rw [if_pos hm]
    exact Or.inl ⟨Or.inl hm, rfl⟩
  · rw [if_neg hm] at hquiet ⊢
    rcases hr : ((readPidProc t p false).run s m).1 with y | e
    · have hcaught : ((readCaught t p false).run s m).1 = caught (.error y) := by rw [run_readCaught, hr]
      cases y with
      | fileNotFound => exact Or.inl ⟨Or.inr rfl, by rw [run_andThen_ok hcaught]; rfl⟩
      | valueError =>
        rcases read_loses t s p false m with h | h
        · rw [hr] at h; cases h
        · rw [← h, hr] at hquiet
          exact absurd rfl (hquiet .valueError)
    · have hcaught : ((readCaught t p false).run s m).1 = .ok (some e) := by rw [run_readCaught, hr]; rfl
      have he := static_of_read hr
      rw [run_andThen_ok hcaught]
      refine Or.inr ⟨hm, e, ((readCaught t p false).run s m).2, he, le_run _ _ _, ?_⟩
      rw [he] at hquiet
      dsimp only [caught] at hquiet ⊢
      rcases hp : ((passes t o ancestor e).run s ((readCaught t p false).run s m).2).1 with y | _ | _
      · rcases passes_loses t o s ancestor e ((readCaught t p false).run s m).2 with h | h
        · rw [hp] at h; cases h
        · rw [← h, hp] at hquiet
          exact absurd rfl (hquiet y)
      · exact Or.inl ⟨rfl, by rw [run_andThen_ok hp]; rfl⟩
      · exact Or.inr ⟨rfl, _, by rw [run_andThen_ok hp]⟩

/-- The process of an entry that is printed was read, and passed. -/
theorem process_visit {out : List Output} {x : Int} (hquiet : Quiet t o ancestor p)
    (h : ((visit t o ancestor p).run s m).1 = .ok out) (hx : x ∈ out.filterMap Output.process) :
    x = p ∧ ∃ e m', t.readPidProc p false = .ok e ∧ m ≤ m' ∧ ((passes t o ancestor e).run s m').1 = .ok true := by
  rcases visit_cases s m hquiet with ⟨-, hv⟩ | ⟨-, e, n, he, hn, ⟨-, hv⟩ | ⟨hp, k, hv⟩⟩
  · cases hv.symm.trans h; cases hx
  · cases hv.symm.trans h; cases hx
  · rw [process_report (hv.symm.trans h), (Table.readPidProc_ok he).1, List.mem_singleton] at hx
    exact ⟨hx, e, n, he, hn, hp⟩

theorem loop_cons {out : List Output} {ps : List Int} (h : ((loop t o ancestor (p :: ps)).run s m).1 = .ok out) :
    ∃ o₁ o₂, ((visit t o ancestor p).run s m).1 = .ok o₁ ∧
      ((loop t o ancestor ps).run s ((visit t o ancestor p).run s m).2).1 = .ok o₂ ∧ out = o₁ ++ o₂ := by
  rw [loop] at h
  cases hv : ((visit t o ancestor p).run s m).1 with
  | error y => rw [run_andThen_error hv] at h; cases h
  | ok o₁ =>
    rw [run_andThen_ok hv] at h
    cases hl : ((loop t o ancestor ps).run s ((visit t o ancestor p).run s m).2).1 with
    | error y => rw [run_andThen_error hl] at h; cases h
    | ok o₂ => rw [run_andThen_ok hl] at h; exact ⟨o₁, o₂, rfl, rfl, (Except.ok.inj h).symm⟩

theorem loop_cons_ok {o₁ o₂ : List Output} {ps : List Int} (hv : ((visit t o ancestor p).run s m).1 = .ok o₁)
    (hl : ((loop t o ancestor ps).run s ((visit t o ancestor p).run s m).2).1 = .ok o₂) :
    ((loop t o ancestor (p :: ps)).run s m).1 = .ok (o₁ ++ o₂) := by
  rw [loop, run_andThen_ok hv, run_andThen_ok hl, run_ret]

theorem process_loop : ∀ (ps : List Int) (m : Nat) (out : List Output) (x : Int), (∀ p ∈ ps, Quiet t o ancestor p) →
    ((loop t o ancestor ps).run s m).1 = .ok out → x ∈ out.filterMap Output.process →
    ∃ e m', t.readPidProc x false = .ok e ∧ m ≤ m' ∧ ((passes t o ancestor e).run s m').1 = .ok true
  | [], _, _, _, _, h, hx               => by cases h; cases hx
  | p :: ps, m, out, x, hquiet, h, hx => by
    obtain ⟨hq, hquiet⟩ := List.forall_mem_cons.1 hquiet
    obtain ⟨o₁, o₂, hv, hl, rfl⟩ := loop_cons h
    rw [List.filterMap_append, List.mem_append] at hx
    rcases hx with hx | hx
    · obtain ⟨rfl, hx⟩ := process_visit hq hv hx; exact hx
    · obtain ⟨e, m', he, hm, hp⟩ := process_loop ps _ o₂ x hquiet hl hx
      exact ⟨e, m', he, (le_run _ _ _).trans hm, hp⟩

/-- A process whose parents need not be read does no harm, and is printed if it stays and passes. -/
theorem visit_of_unread (hquiet : Quiet t o ancestor p) (h : ∀ e, p ≠ t.mypid → t.readPidProc p false = .ok e →
    Nspid.passes t o.toOptions ancestor e = .ok true → ParentsUnread o e.pidNsId e.ppid) (m : Nat) :
    ∃ out, ((visit t o ancestor p).run s m).1 = .ok out ∧
      ∀ e, t.readPidProc p false = .ok e → p ≠ t.mypid → s.Survives p →
        (∀ m', ((passes t o ancestor e).run s m').1 = .ok true) → p ∈ out.filterMap Output.process := by
  rcases visit_cases s m hquiet with ⟨hr, hv⟩ | ⟨hm, e, n, he, -, ⟨hp, hv⟩ | ⟨hp, k, hv⟩⟩
  · refine ⟨[], hv, fun e he hm hs _ => ?_⟩
    rw [read_of_survives hs, he] at hr
    rcases hr with hr | hr
    · exact absurd hr hm
    · cases hr
  · refine ⟨[], hv, fun e' he' _ _ hpass => ?_⟩
    obtain rfl := Except.ok.inj (he.symm.trans he')
    cases hp.symm.trans (hpass n)
  · have hpass : Nspid.passes t o.toOptions ancestor e = .ok true := by
      rcases passes_loses t o s ancestor e n with hl | hl
      · rw [hp] at hl; cases hl
      · rw [← hl, hp]
    have hprintable : o.pidsOnly = false → e.printable = true := fun hpo => by
      by_contra hno
      refine hquiet .valueError ?_
      rw [Nspid.visit, if_neg hm, he]
      simp [caught, hpass, hpo, hno]
    obtain ⟨out, hout⟩ := report_of_unread (s := s) (t := t) (h e hm he hpass) hprintable k
    refine ⟨out, hv.trans hout, fun _ _ _ _ _ => ?_⟩
    rw [process_report hout, (Table.readPidProc_ok he).1]
    exact List.mem_singleton_self p

theorem loop_of_unread : ∀ (ps : List Int), (∀ p ∈ ps, Quiet t o ancestor p) → (∀ p ∈ ps, ∀ e, p ≠ t.mypid →
    t.readPidProc p false = .ok e → Nspid.passes t o.toOptions ancestor e = .ok true →
      ParentsUnread o e.pidNsId e.ppid) → ∀ m, ∃ out,
      ((loop t o ancestor ps).run s m).1 = .ok out ∧ ∀ p ∈ ps, ∀ e, t.readPidProc p false = .ok e → p ≠ t.mypid →
        s.Survives p → (∀ m', ((passes t o ancestor e).run s m').1 = .ok true) → p ∈ out.filterMap Output.process
  | [], _, _, _           => ⟨[], rfl, fun _ hp => absurd hp List.not_mem_nil⟩
  | p :: ps, hquiet, h, m => by
    obtain ⟨hq, hquiet⟩ := List.forall_mem_cons.1 hquiet
    obtain ⟨hu, h⟩ := List.forall_mem_cons.1 h
    obtain ⟨o₁, ho₁, hin₁⟩ := visit_of_unread (s := s) hq hu m
    obtain ⟨o₂, ho₂, hin₂⟩ := loop_of_unread ps hquiet h ((visit t o ancestor p).run s m).2
    refine ⟨o₁ ++ o₂, loop_cons_ok ho₁ ho₂, fun x hx e he hm hs hpass => ?_⟩
    rw [List.filterMap_append, List.mem_append]
    rcases List.mem_cons.1 hx with rfl | hx
    · exact Or.inl (hin₁ e he hm hs hpass)
    · exact Or.inr (hin₂ x hx e he hm hs hpass)

/-- **A parent that has to be read is missed** if it vanishes when its child has passed the tests. -/
theorem exists_uncaught (he : t.readPidProc p false = .ok e) (hm : p ≠ t.mypid)
    (hs : Nspid.passes t o.toOptions ancestor e = .ok true) (hneeds : ¬ ParentsUnread o e.pidNsId e.ppid) :
    ∀ (ps : List Int), p ∈ ps → ∀ m, ∃ c, m ≤ c ∧ ∃ y, ((loop t o ancestor ps).run (only e.ppid c) m).1 = .error y
  | [], hp, _      => absurd hp List.not_mem_nil
  | x :: ps, hp, m => by
    by_cases hx : p = x
    · subst hx
      have hr : ((readCaught t p false).run steady m).1 = .ok (some e) := by
        rw [run_readCaught, read_steady, he]; rfl
      have hpass := (passes_steady o ancestor he ((readCaught t p false).run steady m).2).trans hs
      have hle := le_run steady (passes t o ancestor e) ((readCaught t p false).run steady m).2
      obtain ⟨y, hy⟩ := report_of_gone (t := t) hneeds (alive_only_of_le
        (le_refl ((passes t o ancestor e).run steady ((readCaught t p false).run steady m).2).2))
      refine ⟨_, (le_run steady (readCaught t p false) m).trans hle, y, ?_⟩
      have hvisit : ((visit t o ancestor p).run (only e.ppid
          ((passes t o ancestor e).run steady ((readCaught t p false).run steady m).2).2) m).1 = .error y := by
        rw [visit, if_neg hm, run_andThen_ok ((congrArg Prod.fst (run_only hle)).trans hr), run_only hle]
        dsimp only
        rw [run_andThen_ok ((congrArg Prod.fst (run_only le_rfl)).trans hpass), run_only le_rfl]
        exact hy
      rw [loop, run_andThen_error hvisit]
    · have hp := (List.mem_cons.1 hp).resolve_left hx
      have hm' := le_run steady (visit t o ancestor x) m
      cases hv : ((visit t o ancestor x).run steady m).1 with
      | error y =>
        refine ⟨_, hm', y, ?_⟩
        rw [loop, run_andThen_error ((congrArg Prod.fst (run_only le_rfl)).trans hv)]
      | ok out =>
        obtain ⟨c, hc, y, hy⟩ := exists_uncaught he hm hs hneeds ps hp ((visit t o ancestor x).run steady m).2
        refine ⟨c, hm'.trans hc, y, ?_⟩
        rw [loop, run_andThen_ok ((congrArg Prod.fst (run_only hc)).trans hv), run_only hc, run_andThen_error hy]

/-! ## The run -/

theorem start_eq (h : ((start t o).run s 0).1 = .ok ancestor) :
    Nspid.main t o.toOptions = listAll t o.toOptions ancestor ∧
      ∀ x, truthy o.sameNamespaceAs = some x → ∃ a, resolve t x = .ok (some a) ∧ ancestor = some a := by
  unfold start at h
  unfold Nspid.main
  cases hx : truthy o.sameNamespaceAs with
  | none   => rw [hx] at h; cases h; exact ⟨rfl, fun _ hx => by cases hx⟩
  | some x =>
    rw [hx] at h
    dsimp only at h
    rw [run_bind, run_ret] at h
    rcases hr : resolved ((readPidProc t x false).run s 0).1 with y | _ | a
    · rw [hr] at h; cases h
    · rw [hr] at h; cases h
    · rw [hr] at h
      cases h
      have hres : resolve t x = .ok (some a) := by
        rcases read_loses t s x false 0 with hl | hl
        · rw [hl] at hr; cases hr
        · rw [resolve, ← hl, hr]
      refine ⟨by dsimp only; rw [hres], fun y hy => ⟨a, ?_, rfl⟩⟩
      cases hy
      exact hres

theorem ancestor_of_start (h : ((start t o).run s 0).1 = .ok ancestor) :
    ∀ x, o.sameNamespaceAs = some x → x ≠ 0 → ∃ a, resolve t x = .ok (some a) ∧ ancestor = some a :=
  fun x hx h0 => (start_eq h).2 x (truthy_eq_some.2 ⟨hx, h0⟩)

theorem resolves_of_start (h : ((start t o).run s 0).1 = .ok ancestor) : Resolves t o := fun x hx h0 => by
  obtain ⟨a, ha, -⟩ := ancestor_of_start h x hx h0
  obtain ⟨n, -, hn⟩ := resolve_some ha
  exact ⟨n, hn⟩

theorem exists_start (h : Resolves t o) : ∃ ancestor, ((start t o).run steady 0).1 = .ok ancestor := by
  unfold start
  cases hx : truthy o.sameNamespaceAs with
  | none   => exact ⟨none, rfl⟩
  | some x =>
    obtain ⟨hv, h0⟩ := truthy_eq_some.1 hx
    obtain ⟨n, hn⟩ := h x hv h0
    obtain ⟨a, ha, -⟩ := exists_resolve hn
    refine ⟨some a, ?_⟩
    dsimp only
    rw [run_bind, run_ret, read_steady, show resolved (t.readPidProc x false) = .ok (some a) from ha]

theorem Matching.resolves (h : Matching t o p q) : Resolves t o := fun x hx h0 => by
  obtain ⟨n, hn, -⟩ := h.tested.sameNamespaceAs x hx h0
  exact ⟨n, hn⟩

theorem quiet_iff (h : ((start t o).run s 0).1 = .ok ancestor) :
    Quiet t o ancestor p ↔ (p ≠ t.mypid → ¬ Stops t o.toOptions p) := by
  have herror := visit_error_iff (p := p) (ancestor_of_start h)
  constructor
  · intro hquiet hm hs
    obtain ⟨y, hy⟩ := herror.2 ⟨hm, hs⟩
    exact hquiet y hy
  · intro hno y hy
    obtain ⟨hm, hs⟩ := herror.1 ⟨y, hy⟩
    exact hno hm hs

/-- What matches is read, and passes where nothing vanishes. -/
theorem matching_iff (h : ((start t o).run s 0).1 = .ok ancestor) (he : t.readPidProc p false = .ok e)
    (hp : t.proc p = some q) : Matching t o p q ↔
      p ∈ t.pids ∧ p ≠ t.mypid ∧ Nspid.passes t o.toOptions ancestor e = .ok true := by
  rw [tested_iff hp he (ancestor_of_start h)]
  exact ⟨fun hq => ⟨hq.listed, hq.other, hq.tested⟩, fun hq => ⟨hq.1, hq.2.1, hp, hq.2.2⟩⟩

theorem Matching.read (h : Matching t o p q) : ∃ e, t.readPidProc p false = .ok e :=
  Table.readPidProc_of_legible h.proc h.tested.alone.legible

section
variable (t o s)

/-- The number of the look at the listing. -/
def listing : Nat := ((start t o).run s 0).2

def listed : List Int := t.pids.filter (s.alive (listing t o s))

end

theorem mem_listed (hp : p ∈ t.pids) (h : s.alive (listing t o s) p = true) : p ∈ listed t o s :=
  List.mem_filter.2 ⟨hp, h⟩

theorem listed_steady : listed t o steady = t.pids := List.filter_eq_self.2 (fun _ _ => rfl)

theorem main_run (h : ((start t o).run s 0).1 = .ok ancestor) : ((main t o).run s 0).1 =
    match ((loop t o ancestor (listed t o s)).run s (listing t o s + 1)).1 with
    | .error _ => .uncaught
    | .ok out  => .ended ((if o.pidsOnly = true then [] else [Output.line .header]) ++ out) := by
  rw [main, run_bind, h]
  dsimp only
  rw [run_look, run_bind]
  unfold listed listing
  generalize Prog.run s (loop t o ancestor _) _ = r
  rcases r with ⟨_ | out, m⟩ <;> rfl

theorem loop_of_ended {out : List Output} (h : ((start t o).run s 0).1 = .ok ancestor)
    (hout : ((main t o).run s 0).1 = .ended out) :
    ∃ out', ((loop t o ancestor (listed t o s)).run s (listing t o s + 1)).1 = .ok out' ∧
      out.filterMap Output.process = out'.filterMap Output.process := by
  rw [main_run h] at hout
  cases hloop : ((loop t o ancestor (listed t o s)).run s (listing t o s + 1)).1 with
  | error y => rw [hloop] at hout; cases hout
  | ok out' =>
    rw [hloop] at hout
    cases hout
    refine ⟨out', rfl, ?_⟩
    by_cases hq : o.pidsOnly = true
    · rw [if_pos hq]; rfl
    · rw [if_neg hq]; rfl

/-! ### Where nothing vanishes -/

theorem visit_steady (ancestor : Option Entry) (hr : o.showParents = false) (p : Int) (m : Nat) :
    ((visit t o ancestor p).run steady m).1 =
      (Nspid.visit t o.toOptions ancestor p).map (List.map Output.line) := by
  unfold visit Nspid.visit
  by_cases hm : p = t.mypid
  · rw [if_pos hm, if_pos hm]; rfl
  · rw [if_neg hm, if_neg hm]
    have hcaught : ((readCaught t p false).run steady m).1 = caught (t.readPidProc p false) := by
      rw [run_readCaught, read_steady]
    rcases hread : t.readPidProc p false with (_ | _) | e <;> rw [hread] at hcaught
    · rw [run_andThen_ok hcaught]; rfl
    · rw [run_andThen_error hcaught]; rfl
    · rw [run_andThen_ok hcaught]
      have hpass := passes_steady o ancestor hread ((readCaught t p false).run steady m).2
      dsimp only [caught]
      rcases hp : Nspid.passes t o.toOptions ancestor e with y | _ | _ <;> rw [hp] at hpass
      · rw [run_andThen_error hpass]; rfl
      · rw [run_andThen_ok hpass]; rfl
      · rw [run_andThen_ok hpass]
        by_cases hq : o.pidsOnly = true
        · simp [report, hq, Except.map]
        · by_cases hpr : e.printable = true <;> simp [report, hq, hpr, hr, Except.map]

theorem loop_steady (ancestor : Option Entry) (hr : o.showParents = false) : ∀ (ps : List Int) (m : Nat),
    (Nspid.loop t o.toOptions ancestor ps).2 = true ∧ (∃ y, ((loop t o ancestor ps).run steady m).1 = .error y) ∨
      (Nspid.loop t o.toOptions ancestor ps).2 = false ∧
        ((loop t o ancestor ps).run steady m).1 = .ok ((Nspid.loop t o.toOptions ancestor ps).1.map .line)
  | [], _      => Or.inr ⟨rfl, rfl⟩
  | p :: ps, m => by
    have hvisit := visit_steady (t := t) ancestor hr p m
    rw [Nspid.loop]
    cases hv : Nspid.visit t o.toOptions ancestor p with
    | error y =>
      rw [hv] at hvisit
      exact Or.inl ⟨rfl, y, by rw [loop, run_andThen_error hvisit]⟩
    | ok out =>
      rw [hv] at hvisit
      rcases loop_steady ancestor hr ps ((visit t o ancestor p).run steady m).2 with ⟨hraised, y, hy⟩ | ⟨hended, hout⟩
      · exact Or.inl ⟨hraised, y, by rw [loop, run_andThen_ok hvisit, run_andThen_error hy]⟩
      · exact Or.inr ⟨hended, by rw [loop_cons_ok hvisit hout, List.map_append]⟩

/-- **Where nothing vanishes** and no parents are shown, this is the `main` of a table that does not change. -/
theorem main_steady (hr : o.showParents = false) : ((main t o).run steady 0).1 =
    match Nspid.main t o.toOptions with
    | .ended out  => .ended (out.map .line)
    | .exited     => .exited
    | .uncaught _ => .uncaught := by
  cases hs : ((start t o).run steady 0).1 with
  | ok ancestor =>
    rw [main_run hs, (start_eq hs).1, listed_steady, listAll]
    rcases loop_steady (t := t) ancestor hr t.pids (listing t o steady + 1) with
      ⟨hraised, y, hy⟩ | ⟨hended, hout⟩
    · rw [hy, hraised]; rfl
    · rw [hout, hended]
      dsimp only
      rw [if_neg Bool.false_ne_true]
      dsimp only
      rw [List.map_append]
      by_cases hq : o.pidsOnly = true
      · rw [if_pos hq, if_pos hq]; rfl
      · rw [if_neg hq, if_neg hq]; rfl
  | error out =>
    rw [main, run_bind, hs]
    unfold start at hs
    unfold Nspid.main
    cases hx : truthy o.sameNamespaceAs with
    | none   => rw [hx] at hs; cases hs
    | some x =>
      rw [hx] at hs
      dsimp only at hs ⊢
      rw [run_bind, run_ret, read_steady] at hs
      rw [resolve]
      rcases hres : resolved (t.readPidProc x false) with y | _ | a <;> rw [hres] at hs <;> cases hs <;> rfl

/-! ### On every schedule -/

/-- The parents are not read, and what stays passes: this is enough on every schedule. -/
theorem tolerates_of {stays : Schedule Int → Int → Prop} (hstay : ∀ s p, stays s p → s.Survives p)
    (hstops : Resolves t o → ∀ p ∈ t.pids, p ≠ t.mypid → ¬ Stops t o.toOptions p)
    (hunread : ∀ p q, Matching t o p q → ParentsUnread o q.nsLink q.ppid)
    (hpass : ∀ p q, Matching t o p q → ∀ e, t.readPidProc p false = .ok e → ∀ s ancestor,
      ((start t o).run s 0).1 = .ok ancestor → Nspid.passes t o.toOptions ancestor e = .ok true → stays s p →
        ∀ m, ((passes t o ancestor e).run s m).1 = .ok true) (s : Schedule Int) : Tolerates t o stays s := by
  intro ancestor hstart
  have hquiet : ∀ p ∈ t.pids, Quiet t o ancestor p := fun p hp =>
    (quiet_iff hstart).2 (hstops (resolves_of_start hstart) p hp)
  have hlisted : ∀ p ∈ listed t o s, p ∈ t.pids := fun p hp => (List.mem_filter.1 hp).1
  have hparents : ∀ p ∈ listed t o s, ∀ e, p ≠ t.mypid → t.readPidProc p false = .ok e →
      Nspid.passes t o.toOptions ancestor e = .ok true → ParentsUnread o e.pidNsId e.ppid := by
    intro p hp e hm he hpe
    obtain ⟨rfl, q, hq, -⟩ := Table.readPidProc_ok he
    obtain ⟨hns, hppid⟩ := entry_eq hq.proc he
    rw [hns, hppid]
    exact hunread _ q ((matching_iff hstart he hq.proc).2 ⟨hlisted _ hp, hm, hpe⟩)
  obtain ⟨out, hout, hin⟩ := loop_of_unread (s := s) (listed t o s) (fun p hp => hquiet p (hlisted p hp)) hparents
    (listing t o s + 1)
  have hended := main_run hstart
  rw [hout] at hended
  refine ⟨_, hended, fun p q hq hsp => ?_⟩
  obtain ⟨out', hout', hprocess⟩ := loop_of_ended hstart hended
  cases hout.symm.trans hout'
  rw [hprocess]
  obtain ⟨e, he⟩ := hq.read
  obtain ⟨hpids, hm, hpe⟩ := (matching_iff hstart he hq.proc).1 hq
  exact hin p (mem_listed hpids ((hstay s p hsp).alive _)) e he hm (hstay s p hsp)
    (hpass p q hq e he s ancestor hstart hpe hsp)

/-- Where `main` raises without anything vanishing, it does with `--show-parents` as well. -/
theorem visit_error {y : Exn} (hv : Nspid.visit t o.toOptions ancestor p = .error y) (m : Nat) :
    ((visit t o ancestor p).run steady m).1 = .error y := by
  unfold Nspid.visit at hv
  unfold visit
  by_cases hm : p = t.mypid
  · rw [if_pos hm] at hv; cases hv
  · rw [if_neg hm] at hv ⊢
    have hcaught : ((readCaught t p false).run steady m).1 = caught (t.readPidProc p false) := by
      rw [run_readCaught, read_steady]
    rcases hread : t.readPidProc p false with (_ | _) | e <;> rw [hread] at hv hcaught
    · cases hv
    · rw [run_andThen_error hcaught]; cases hv; rfl
    · have hpass := passes_steady o ancestor hread ((readCaught t p false).run steady m).2
      rw [run_andThen_ok hcaught]
      dsimp only [caught] at hv ⊢
      rcases hp : Nspid.passes t o.toOptions ancestor e with y | _ | _ <;> rw [hp] at hv hpass
      · rw [run_andThen_error hpass]; cases hv; rfl
      · cases hv
      · rw [run_andThen_ok hpass]
        dsimp only at hv ⊢
        split_ifs at hv with hpo hpr
        rw [report, if_neg hpo, if_pos (Bool.not_eq_true _ ▸ hpr), run_ret]
        cases hv; rfl

theorem quiet_of_loop : ∀ (ps : List Int) (m : Nat) (out : List Output),
    ((loop t o ancestor ps).run steady m).1 = .ok out → ∀ p ∈ ps, Quiet t o ancestor p
  | [], _, _, _      => fun _ hp => absurd hp List.not_mem_nil
  | p :: ps, m, _, h => by
    obtain ⟨o₁, o₂, hv, hl, -⟩ := loop_cons h
    refine List.forall_mem_cons.2 ⟨fun y hy => ?_, quiet_of_loop ps _ o₂ hl⟩
    rw [visit_error hy] at hv
    cases hv

section
variable {stays : Schedule Int → Int → Prop} (h : ∀ s, Tolerates t o stays s)
include h

theorem quiet_of_tolerates (hstart : ((start t o).run steady 0).1 = .ok ancestor) :
    ∀ p ∈ t.pids, Quiet t o ancestor p := by
  obtain ⟨out, hout, -⟩ := h steady ancestor hstart
  obtain ⟨out', hloop, -⟩ := loop_of_ended hstart hout
  rw [← listed_steady (t := t) (o := o)]
  exact quiet_of_loop _ _ out' hloop

theorem not_stops_of_tolerates (hr : Resolves t o) (hp : p ∈ t.pids) (hm : p ≠ t.mypid) :
    ¬ Stops t o.toOptions p := by
  obtain ⟨ancestor, hstart⟩ := exists_start hr
  exact (quiet_iff hstart).1 (quiet_of_tolerates h hstart p hp) hm

theorem unread_of_tolerates (hq : Matching t o p q) : ParentsUnread o q.nsLink q.ppid := by
  by_contra hneeds
  obtain ⟨e, he⟩ := hq.read
  obtain ⟨hns, hppid⟩ := entry_eq hq.proc he
  rw [← hns, ← hppid] at hneeds
  obtain ⟨ancestor, hstart⟩ := exists_start hq.resolves
  obtain ⟨hmem, hm, hpass⟩ := (matching_iff hstart he hq.proc).1 hq
  have hl : p ∈ listed t o steady := mem_listed hmem rfl
  obtain ⟨c, hc, y, hy⟩ := exists_uncaught he hm hpass hneeds (listed t o steady) hl (listing t o steady + 1)
  have hrun : (start t o).run (only e.ppid c) 0 = (start t o).run steady 0 :=
    run_only ((Nat.le_succ _).trans hc)
  have hlisting : listing t o (only e.ppid c) = listing t o steady := congrArg Prod.snd hrun
  have hlisted : listed t o (only e.ppid c) = listed t o steady := by
    unfold listed
    rw [hlisting, alive_only_of_lt (Nat.lt_of_succ_le hc)]
  have hstart' : ((start t o).run (only e.ppid c) 0).1 = .ok ancestor := (congrArg Prod.fst hrun).trans hstart
  obtain ⟨out, hout, -⟩ := h (only e.ppid c) ancestor hstart'
  rw [main_run hstart', hlisted, hlisting, hy] at hout
  cases hout

end

theorem matchesAlone_of_tolerates (h : ∀ s, Tolerates t o Schedule.Survives s) (hq : Matching t o p q) :
    MatchesAlone t o q := by
  obtain ⟨e, he⟩ := hq.read
  obtain ⟨-, hppid⟩ := entry_eq hq.proc he
  obtain ⟨ancestor, hstart⟩ := exists_start hq.resolves
  have hquiet := quiet_of_tolerates h hstart
  have hne : p ≠ e.ppid := by
    intro hpp
    have hparent : t.proc q.ppid = some q := by rw [← hppid, ← hpp]; exact hq.proc
    have hlt := t.acyclic p q q hq.proc hparent
    rw [← hppid, ← hpp] at hlt
    exact absurd hlt (Nat.lt_irrefl _)
  have hrun : (start t o).run (only e.ppid (listing t o steady)) 0 = (start t o).run steady 0 := run_only le_rfl
  have hstart' : ((start t o).run (only e.ppid (listing t o steady)) 0).1 = .ok ancestor :=
    (congrArg Prod.fst hrun).trans hstart
  have hlisting : listing t o (only e.ppid (listing t o steady)) = listing t o steady := congrArg Prod.snd hrun
  obtain ⟨out, hout, hin⟩ := h (only e.ppid (listing t o steady)) ancestor hstart'
  obtain ⟨out', hloop, hprocess⟩ := loop_of_ended hstart' hout
  have hx := hin p q hq (survives_only hne _)
  rw [hprocess] at hx
  obtain ⟨e', m, he', hm, hpass⟩ := process_loop _ _ _ p (fun a ha => hquiet a (List.mem_filter.1 ha).1) hloop hx
  obtain rfl := Except.ok.inj (he.symm.trans he')
  refine matchesAlone_of_passes hq.proc he (fun m' hm' => alive_only_of_le ?_) (fun x a hx ha => ?_) hpass
  · rw [hlisting] at hm; omega
  · obtain ⟨a', ha', hanc⟩ := (start_eq hstart).2 x hx
    rw [ha] at ha'
    cases ha'
    exact hanc

/-- **Vanishing processes are tolerated on every schedule** exactly where `main` stops at no process, no process that
matches has a parent to be read for `--show-parents`, and each matches by itself.  The last is not asked where a process
whose ancestors vanish may be missed. -/
theorem tolerates_iff (t : Table) (o : Args) :
    ((∀ s, Tolerates t o Schedule.Survives s) ↔
      (Resolves t o → ∀ p ∈ t.pids, p ≠ t.mypid → ¬ Stops t o.toOptions p) ∧
        ∀ p q, Matching t o p q → ParentsUnread o q.nsLink q.ppid ∧ MatchesAlone t o q) ∧
    ((∀ s, Tolerates t o (LineSurvives t) s) ↔
      (Resolves t o → ∀ p ∈ t.pids, p ≠ t.mypid → ¬ Stops t o.toOptions p) ∧
        ∀ p q, Matching t o p q → ParentsUnread o q.nsLink q.ppid) := by
  refine ⟨⟨fun h => ⟨fun hr p hp hm => not_stops_of_tolerates h hr hp hm,
      fun p q hq => ⟨unread_of_tolerates h hq, matchesAlone_of_tolerates h hq⟩⟩, fun ⟨hstops, h⟩ => ?_⟩,
    ⟨fun h => ⟨fun hr p hp hm => not_stops_of_tolerates h hr hp hm, fun p q hq => unread_of_tolerates h hq⟩,
      fun ⟨hstops, h⟩ => ?_⟩⟩
  · refine tolerates_of (fun _ _ hs => hs) hstops (fun p q hq => (h p q hq).1) ?_
    intro p q hq e he s ancestor hstart hpass _
    refine passes_of_matchesAlone hpass (h p q hq).2 hq.proc he (fun x a hx ha => ?_)
    obtain ⟨a', ha', hanc⟩ := (start_eq hstart).2 x hx
    rw [ha] at hanc
    cases hanc
    exact ha'
  · refine tolerates_of (fun _ p hs => hs p .refl) hstops h ?_
    intro p q _ e he s ancestor _ hpass hline m
    exact (passes_of_line he hline m).trans hpass

/-- `init` vanishes when its child has passed the tests and the child's parents are to be shown. -/
theorem not_tolerates_parent : ¬ Tolerates host { showParents := true } Schedule.Survives (only 1 9) := by
  intro h
  obtain ⟨out, hout, -⟩ := h none rfl
  have hmain : ((main host { showParents := true }).run (only 1 9) 0).1 = .uncaught := by decide +kernel
  rw [hmain] at hout
  cases hout

end Vanish
end Nspid
end Scrapcode
