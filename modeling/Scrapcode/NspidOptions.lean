import Scrapcode.Nspid
/-!
# NspidOptions — what `nspid` selects, against the help texts of its options

`Meets` is what the help texts say of a process, read off the table itself.  `Tested` is what the loop makes of them:
of the pids the innermost one only, of the namespaces the process's own only, and, for `--same-namespace-as`, only the
processes on its line of parents that can be read.  `Stops` says at which processes `main` raises, as it reads or has to
print bytes that are no text.  `main` prints each process that is tested so once, up to the first at which it stops
(`mem_shown`, `shown_nodup`), so it selects what the options document exactly where every process that meets them is tested so and is
reached, and none of those fails an option given as 0 (`selects_iff`).
-/
namespace Scrapcode
namespace Nspid

/-- `status` can be read, and so can the other files if they are asked for. -/
structure Proc.Legible (q : Proc) (statusOnly : Bool) : Prop where
  text  : q.name ≠ none
  named : q.name ≠ some []
  files : statusOnly = false → q.nsAccess ≠ .missing ∧ q.exeAccess ≠ .missing ∧ q.cmdline ≠ none

/-- A file that is read is no text. -/
def Proc.Garbled (q : Proc) (statusOnly : Bool) : Prop :=
  q.name = none ∨ q.name ≠ some [] ∧ statusOnly = false ∧ q.nsAccess ≠ .missing ∧ q.exeAccess ≠ .missing ∧
    q.cmdline = none

/-- The line of the process has no byte that is no text. -/
def Proc.Printable (q : Proc) : Prop := q.exeAccess = .granted → none ∉ shortExe q.exe

section
variable (t : Table) (o : Options)

def IsParent (p a : Int) : Prop := ∃ q, t.proc p = some q ∧ q.ppid = a

/-- `a` is a proper ancestor of `p`. -/
def Ancestor (p a : Int) : Prop := Relation.TransGen (IsParent t) p a

/-- A process other than `nspid` itself, with a command line. -/
structure Candidate (p : Int) (q : Proc) : Prop where
  listed  : p ∈ t.pids
  other   : p ≠ t.mypid
  proc    : t.proc p = some q
  cmdline : q.cmdline ≠ some []

/-- The process meets, as the help texts have it, each option that is given with a value that fulfils `given`. -/
structure Meets (given : Int → Prop) (p : Int) (q : Proc) : Prop where
  pid       : ∀ x, o.pid = some x → given x → q.innermost = x ∨ o.allNamespaces = true ∧ x ∈ q.nspid
  parentPid : ∀ x, o.parentPid = some x → given x → Ancestor t p x
  ns        : ∀ n, o.namespace = some n → given n →
    q.ns = n ∨ o.indirectNamespaces = true ∧ Below t.nsParent n q.ns
  sameNamespaceAs : ∀ x, o.sameNamespaceAs = some x → given x →
    ∃ r, t.proc x = some r ∧ Below t.nsParent r.ns q.ns

/-- The process is printed once if it meets all options that are given, and no other is. -/
structure Selects : Prop where
  once  : (shown t o).Nodup
  shown : ∀ p, p ∈ Nspid.shown t o ↔ ∃ q, Candidate t p q ∧ Meets t o (fun _ => True) p q

/-! ## The condition -/

/-- `a` is the parent of `p`, and what is read of it for a walk can be read. -/
def Seen (statusOnly : Bool) (p a : Int) : Prop :=
  IsParent t p a ∧ (statusOnly = false → a ≠ 0) ∧ ∃ q, t.proc a = some q ∧ q.Legible statusOnly

/-- The process has the ancestor `x`, and those before it can be read. -/
def HasAncestor (p x : Int) : Prop := ∃ a, Relation.ReflTransGen (Seen t true) p a ∧ IsParent t a x

/-- The process `x` has a namespace that can be read. -/
structure NamespaceOf (x n : Int) : Prop where
  read : ∃ r, t.proc x = some r ∧ r.Legible false ∧ r.nsAccess = .granted ∧ r.ns = n
  ne   : n ≠ 0

/-- The process, or one that is seen on its line of parents, shows the namespace `n`. -/
def InNamespace (p n : Int) : Prop :=
  ∃ a r, Relation.ReflTransGen (Seen t false) p a ∧ t.proc a = some r ∧ r.nsAccess = .granted ∧ r.ns = n

/-- The walk up from the process comes to bytes that are no text. -/
def ComesToGarbled (statusOnly : Bool) (p : Int) : Prop :=
  ∃ a b q, Relation.ReflTransGen (Seen t statusOnly) p a ∧ IsParent t a b ∧ (statusOnly = false → b ≠ 0) ∧
    t.proc b = some q ∧ q.Garbled statusOnly

/-- What the loop tests of the process alone, for each option that is given with a value other than 0. -/
structure TestedAlone (q : Proc) : Prop where
  legible : q.Legible false
  cmdline : ∀ c, q.cmdline = some c → strip c ≠ []
  pid     : ∀ x, o.pid = some x → x ≠ 0 → q.innermost = x
  ns      : ∀ n, o.namespace = some n → n ≠ 0 → q.nsAccess = .granted ∧ q.ns = n

/-- What the loop tests. -/
structure Tested (p : Int) (q : Proc) : Prop where
  alone           : TestedAlone o q
  parentPid       : ∀ x, o.parentPid = some x → x ≠ 0 → HasAncestor t p x
  sameNamespaceAs : ∀ x, o.sameNamespaceAs = some x → x ≠ 0 → ∃ n, NamespaceOf t x n ∧ InNamespace t p n

/-- The tests of the process raise: it is garbled itself, or a walk up from it comes to what is, having found
nothing. -/
def TestsRaise (p : Int) : Prop :=
  ∃ q, t.proc p = some q ∧ (q.Garbled false ∨ TestedAlone o q ∧
    ((∃ x, o.parentPid = some x ∧ x ≠ 0 ∧ ¬ HasAncestor t p x ∧ ComesToGarbled t true p) ∨
      (∀ x, o.parentPid = some x → x ≠ 0 → HasAncestor t p x) ∧
        ∃ x, o.sameNamespaceAs = some x ∧ x ≠ 0 ∧ (∀ n, NamespaceOf t x n → ¬ InNamespace t p n) ∧
          ComesToGarbled t false p))

/-- **`main` raises at the process**: in its tests, or after them, where its line cannot be printed. -/
def Stops (p : Int) : Prop :=
  TestsRaise t o p ∨ ∃ q, t.proc p = some q ∧ Tested t o p q ∧ o.pidsOnly = false ∧ ¬ q.Printable

/-- `main` raises neither at the process nor at one that is listed before it. -/
def Reached (p : Int) : Prop :=
  ¬ Stops t o p ∧ ∀ a ∈ t.pids.takeWhile (fun a => decide (a ≠ p)), a ≠ t.mypid → ¬ Stops t o a

end

variable {t : Table} {o : Options} {p x : Int} {q : Proc} {e b : Entry} {so : Bool}

/-! ## Reading -/

/-- What an entry tells of the process it was read from. -/
structure Table.Tells (t : Table) (e : Entry) (q : Proc) : Prop where
  proc  : t.proc e.pid = some q
  ppid  : e.ppid = q.ppid
  nspid : e.nspid = q.nspid

theorem Table.readPidProc_ok (h : t.readPidProc p so = .ok e) : e.pid = p ∧ ∃ q, t.Tells e q ∧ q.Legible so ∧
    (so = false → e.cmdline = q.cmdline.map strip ∧ (e.pidNsId = if q.nsAccess = .granted then some q.ns else none) ∧
      e.exe = if q.exeAccess = .granted then some q.exe else none) := by
  unfold Table.readPidProc at h
  cases hq : t.proc p with
  | none   => rw [hq] at h; cases h
  | some q =>
    rw [hq] at h
    dsimp only at h
    cases hn : q.name with
    | none      => rw [hn] at h; cases h
    | some name =>
      rw [hn] at h
      dsimp only at h
      by_cases hnil : name = []
      · rw [if_pos hnil] at h; cases h
      · rw [if_neg hnil] at h
        have hname : q.name ≠ none ∧ q.name ≠ some [] := by simp [hn, hnil]
        cases so with
        | true  =>
          cases h
          exact ⟨rfl, q, ⟨hq, rfl, rfl⟩, ⟨hname.1, hname.2, fun h => by cases h⟩, fun h => by cases h⟩
        | false =>
          rw [if_neg Bool.false_ne_true] at h
          by_cases hm : q.nsAccess = .missing ∨ q.exeAccess = .missing
          · rw [if_pos hm] at h; cases h
          · rw [if_neg hm] at h
            rw [not_or] at hm
            cases hc : q.cmdline with
            | none         => rw [hc] at h; cases h
            | some cmdline =>
              rw [hc] at h
              cases h
              have hfiles := And.intro hm.1 (And.intro hm.2 (hc ▸ Option.some_ne_none cmdline))
              exact ⟨rfl, q, ⟨hq, rfl, rfl⟩, ⟨hname.1, hname.2, fun _ => hfiles⟩, fun _ => ⟨by rw [hc]; rfl, rfl, rfl⟩⟩

/-- The entry can be printed where the line of its process can. -/
theorem Table.printable_iff (h : t.readPidProc p false = .ok e) (hp : t.proc p = some q) :
    e.printable = true ↔ q.Printable := by
  obtain ⟨rfl, r, hr, -, hfull⟩ := Table.readPidProc_ok h
  cases hp.symm.trans hr.proc
  unfold Entry.printable Proc.Printable
  rw [(hfull rfl).2.2, List.all_eq_true]
  by_cases hg : q.exeAccess = .granted
  · rw [if_pos hg, Option.getD_some, imp_iff_right hg]
    exact ⟨fun h hn => Bool.false_ne_true (h none hn), fun h c hc => Option.isSome_iff_ne_none.2 (fun hn => h (hn ▸ hc))⟩
  · rw [if_neg hg, Option.getD_none]
    exact iff_of_true (by decide) (fun h => absurd h hg)

theorem Table.readPidProc_of_legible (hp : t.proc p = some q) (hq : q.Legible so) :
    ∃ e, t.readPidProc p so = .ok e := by
  obtain ⟨htext, hnamed, hfiles⟩ := hq
  obtain ⟨name, hn⟩ := Option.ne_none_iff_exists'.1 htext
  have hnil : name ≠ [] := fun h => hnamed (by rw [hn, h])
  unfold Table.readPidProc
  cases so with
  | true  => simp [hp, hn, hnil]
  | false =>
    obtain ⟨hns, hexe, hcmd⟩ := hfiles rfl
    obtain ⟨cmdline, hc⟩ := Option.ne_none_iff_exists'.1 hcmd
    simp [hp, hn, hnil, hns, hexe, hc]

theorem Table.readPidProc_garbled_iff :
    t.readPidProc p so = .error .valueError ↔ ∃ q, t.proc p = some q ∧ q.Garbled so := by
  unfold Table.readPidProc Proc.Garbled
  cases hp : t.proc p with
  | none   => simp
  | some q =>
    cases hn : q.name with
    | none      => simp [hn]
    | some name =>
      by_cases hnil : name = []
      · simp [hn, hnil]
      · cases so with
        | true  => simp [hn, hnil]
        | false =>
          by_cases hm : q.nsAccess = .missing ∨ q.exeAccess = .missing
          · simp only [hn, hnil, hm, if_true, if_false, Bool.false_eq_true]
            rcases hm with hm | hm <;> simp [hn, hm]
          · rw [not_or] at hm
            cases hc : q.cmdline <;> simp [hn, hnil, hm, hc]

theorem Proc.Legible.not_garbled (h : q.Legible so) : ¬ q.Garbled so := by
  rintro (hn | ⟨-, hso, -, -, hc⟩)
  · exact h.text hn
  · exact (h.files hso).2.2 hc

theorem caught_eq_some {α : Type} {r : Except Exn α} {a : α} : caught r = .ok (some a) ↔ r = .ok a := by
  rcases r with (_ | _) | _ <;> simp [caught]

theorem caught_eq_error {α : Type} {r : Except Exn α} {y : Exn} :
    caught r = .error y ↔ r = .error .valueError ∧ y = .valueError := by
  rcases r with (_ | _) | _ <;> simp [caught, eq_comm]

/-! ## The walks -/

/-- A way up goes to the entry that is read for the parent, if it is not one that ends at the pid 0. -/
def Table.Up (t : Table) (so : Bool) (up : Entry → Except Exn (Option Entry)) : Prop :=
  ∀ a, up a = if so = false ∧ a.ppid = 0 then .ok none else caught (t.readPidProc a.ppid so)

theorem Table.up_parentStatus : t.Up true t.parentStatus := fun a => by
  rw [if_neg (fun h => by cases h.1)]; rfl

theorem Table.up_parentEntry : t.Up false t.parentEntry := fun a => by
  by_cases h0 : a.ppid = 0 <;> simp [Table.parentEntry, h0]

section
variable {up : Entry → Except Exn (Option Entry)} (hu : t.Up so up)
include hu

theorem Table.up_some : up e = .ok (some b) ↔ (so = false → e.ppid ≠ 0) ∧ t.readPidProc e.ppid so = .ok b := by
  rw [hu e]
  by_cases h0 : so = false ∧ e.ppid = 0
  · rw [if_pos h0]
    exact iff_of_false (fun h => by cases h) (fun h => h.1 h0.1 h0.2)
  · rw [if_neg h0, caught_eq_some]
    exact (and_iff_right (fun hso hz => h0 ⟨hso, hz⟩)).symm

theorem Table.up_error {y : Exn} : up e = .error y ↔ y = .valueError ∧ (so = false → e.ppid ≠ 0) ∧
    ∃ q, t.proc e.ppid = some q ∧ q.Garbled so := by
  rw [hu e]
  by_cases h0 : so = false ∧ e.ppid = 0
  · rw [if_pos h0]
    exact iff_of_false (fun h => by cases h) (fun h => h.2.1 h0.1 h0.2)
  · rw [if_neg h0, caught_eq_error, and_comm, Table.readPidProc_garbled_iff]
    exact and_congr_right' (and_iff_right (fun hso hz => h0 ⟨hso, hz⟩)).symm

/-- Every entry on the line was read from a process that is seen from the first one. -/
theorem Table.seen_of_line (hq : t.Tells e q) (hl : Line up e b) :
    Relation.ReflTransGen (Seen t so) e.pid b.pid ∧ ∃ r, t.Tells b r := by
  induction hl with
  | refl => exact ⟨.refl, q, hq⟩
  | @tail b c _ hc ih =>
    obtain ⟨hs, r, hr⟩ := ih
    obtain ⟨h0, hread⟩ := (t.up_some hu).1 hc
    obtain ⟨hp, r', hr', hlegible, -⟩ := Table.readPidProc_ok hread
    rw [hp]
    exact ⟨hs.tail ⟨⟨r, hr.proc, hr.ppid.symm⟩, h0, r', hp ▸ hr'.proc, hlegible⟩, r', hr'⟩

/-- And every process that is seen is read on the line. -/
theorem Table.line_of_seen (hq : t.Tells e q) (hs : Relation.ReflTransGen (Seen t so) e.pid x) :
    ∃ b, Line up e b ∧ b.pid = x ∧ ∃ r, t.Tells b r := by
  induction hs with
  | refl => exact ⟨e, .refl, rfl, q, hq⟩
  | @tail y z _ hz ih =>
    obtain ⟨b, hl, rfl, r, hr⟩ := ih
    obtain ⟨⟨r', hr', hppid⟩, h0, s, hs, hlegible⟩ := hz
    cases hr.proc.symm.trans hr'
    obtain ⟨c, hc⟩ := Table.readPidProc_of_legible hs hlegible
    obtain ⟨hcp, s', hs', -⟩ := Table.readPidProc_ok hc
    have hup : up b = .ok (some c) := (t.up_some hu).2 (by rw [hr.ppid, hppid]; exact ⟨h0, hc⟩)
    exact ⟨c, hl.tail hup, hcp, s', hs'⟩

theorem Table.line_depth (hq : t.Tells e q) :
    ∀ b c, Line up e b → up b = .ok (some c) → t.depth c.pid < t.depth b.pid := by
  intro b c hl hc
  obtain ⟨-, r, hr⟩ := t.seen_of_line hu hq hl
  obtain ⟨hp, r', hr', -⟩ := Table.readPidProc_ok ((t.up_some hu).1 hc).2
  have hproc : t.proc r.ppid = some r' := by rw [← hr.ppid, ← hp]; exact hr'.proc
  rw [hp, hr.ppid]
  exact t.acyclic b.pid r r' hr.proc hproc

theorem Table.comesToGarbled_iff (hq : t.Tells e q) {y : Exn} :
    (∃ b, Line up e b ∧ up b = .error y) ↔ y = .valueError ∧ ComesToGarbled t so e.pid := by
  constructor
  · rintro ⟨b, hl, hb⟩
    obtain ⟨hs, r, hr⟩ := t.seen_of_line hu hq hl
    obtain ⟨hy, h0, s, hproc, hg⟩ := (t.up_error hu).1 hb
    exact ⟨hy, b.pid, b.ppid, s, hs, ⟨r, hr.proc, hr.ppid.symm⟩, h0, hproc, hg⟩
  · rintro ⟨hy, a, c, s, hs, ⟨r, hr, rfl⟩, h0, hproc, hg⟩
    obtain ⟨b, hl, rfl, r', hr'⟩ := t.line_of_seen hu hq hs
    cases hr.symm.trans hr'.proc
    exact ⟨b, hl, (t.up_error hu).2 ⟨hy, by rw [hr'.ppid]; exact ⟨h0, s, hproc, hg⟩⟩⟩

end

theorem Table.Tells.line_hasAncestor_iff (hq : t.Tells e q) :
    (∃ b, Line t.parentStatus e b ∧ decide (b.ppid = x) = true) ↔ HasAncestor t e.pid x := by
  constructor
  · rintro ⟨b, hl, hx⟩
    obtain ⟨hs, r, hr⟩ := t.seen_of_line Table.up_parentStatus hq hl
    exact ⟨b.pid, hs, r, hr.proc, hr.ppid.symm.trans (of_decide_eq_true hx)⟩
  · rintro ⟨a, hs, r, hr, hx⟩
    obtain ⟨b, hl, rfl, r', hr'⟩ := t.line_of_seen Table.up_parentStatus hq hs
    cases hr.symm.trans hr'.proc
    exact ⟨b, hl, decide_eq_true (hr'.ppid.trans hx)⟩

theorem Table.Tells.pidIsAncestor_iff (hq : t.Tells e q) :
    t.pidIsAncestor e x = .ok true ↔ HasAncestor t e.pid x := by
  unfold Table.pidIsAncestor
  rw [climb_iff (fun e => t.depth e.pid) _ e (t.line_depth Table.up_parentStatus hq) (Nat.lt_succ_self _)]
  exact hq.line_hasAncestor_iff

theorem Table.Tells.pidIsAncestor_error_iff (hq : t.Tells e q) {y : Exn} : t.pidIsAncestor e x = .error y ↔
    (y = .valueError ∧ ComesToGarbled t true e.pid) ∧ ¬ HasAncestor t e.pid x := by
  unfold Table.pidIsAncestor
  rw [climb_error_iff (fun e => t.depth e.pid) _ e (t.line_depth Table.up_parentStatus hq) (Nat.lt_succ_self _),
    t.comesToGarbled_iff Table.up_parentStatus hq, ← hq.line_hasAncestor_iff]
  simp only [not_exists, not_and]

/-- What is read on the way of `namespace_is_ancestor` is read whole. -/
theorem Table.line_read (hr : t.readPidProc e.pid false = .ok e) (hl : Line t.parentEntry e b) :
    t.readPidProc b.pid false = .ok b := by
  rcases Relation.ReflTransGen.cases_tail hl with rfl | ⟨c, -, hc⟩
  · exact hr
  · have hread := ((t.up_some Table.up_parentEntry).1 hc).2
    rw [(Table.readPidProc_ok hread).1]
    exact hread

theorem Table.pidNsId_iff {n : Int} (hr : t.readPidProc p false = .ok e) :
    e.pidNsId = some n ↔ ∃ q, t.proc p = some q ∧ q.nsAccess = .granted ∧ q.ns = n := by
  obtain ⟨rfl, q, hq, -, hfull⟩ := Table.readPidProc_ok hr
  rw [(hfull rfl).2.1]
  constructor
  · intro h
    obtain ⟨hg, hn⟩ := Option.ite_none_right_eq_some.1 h
    exact ⟨q, hq.proc, hg, Option.some.inj hn⟩
  · rintro ⟨q', hq', hg, rfl⟩
    cases hq.proc.symm.trans hq'
    exact if_pos hg

theorem Table.line_inNamespace_iff {n : Int} {a : Entry} (hr : t.readPidProc e.pid false = .ok e)
    (ha : a.pidNsId = some n) :
    (∃ b, Line t.parentEntry e b ∧ decide (a.pidNsId = b.pidNsId) = true) ↔ InNamespace t e.pid n := by
  obtain ⟨-, q, hq, -⟩ := Table.readPidProc_ok hr
  constructor
  · rintro ⟨b, hl, hab⟩
    have hn : b.pidNsId = some n := (of_decide_eq_true hab).symm.trans ha
    obtain ⟨r, hproc, hg, hns⟩ := (Table.pidNsId_iff (Table.line_read hr hl)).1 hn
    exact ⟨b.pid, r, (t.seen_of_line Table.up_parentEntry hq hl).1, hproc, hg, hns⟩
  · rintro ⟨c, r, hs, hproc, hg, hns⟩
    obtain ⟨b, hl, rfl, -⟩ := t.line_of_seen Table.up_parentEntry hq hs
    have hn := (Table.pidNsId_iff (Table.line_read hr hl)).2 ⟨r, hproc, hg, hns⟩
    exact ⟨b, hl, decide_eq_true (ha.trans hn.symm)⟩

section
variable {n : Int} {a : Entry} (hr : t.readPidProc e.pid false = .ok e) (ha : a.pidNsId = some n)
include hr ha

theorem Table.namespaceIsAncestor_iff : t.namespaceIsAncestor e a = .ok true ↔ InNamespace t e.pid n := by
  obtain ⟨-, q, hq, -⟩ := Table.readPidProc_ok hr
  unfold Table.namespaceIsAncestor
  rw [climb_iff (fun e => t.depth e.pid) _ e (t.line_depth Table.up_parentEntry hq) (Nat.lt_succ_self _)]
  exact Table.line_inNamespace_iff hr ha

theorem Table.namespaceIsAncestor_error_iff {y : Exn} : t.namespaceIsAncestor e a = .error y ↔
    (y = .valueError ∧ ComesToGarbled t false e.pid) ∧ ¬ InNamespace t e.pid n := by
  obtain ⟨-, q, hq, -⟩ := Table.readPidProc_ok hr
  unfold Table.namespaceIsAncestor
  rw [climb_error_iff (fun e => t.depth e.pid) _ e (t.line_depth Table.up_parentEntry hq) (Nat.lt_succ_self _),
    t.comesToGarbled_iff Table.up_parentEntry hq, ← Table.line_inNamespace_iff hr ha]
  simp only [not_exists, not_and]

end

/-! ## The tests -/

theorem truthy_eq_some {v : Option Int} : truthy v = some x ↔ v = some x ∧ x ≠ 0 := by
  rw [truthy, Option.filter_eq_some_iff, decide_eq_true_eq]

theorem truthy_any {v : Option Int} {f : Int → Bool} :
    (truthy v).any f = false ↔ ∀ x, v = some x → x ≠ 0 → f x = false := by
  cases v with
  | none   => simp [truthy]
  | some n => by_cases hn : n = 0 <;> simp [truthy, Option.filter, hn]

/-- What `resolve` finds is the namespace of the process. -/
theorem resolve_some {a : Entry} (h : resolve t x = .ok (some a)) : ∃ n, a.pidNsId = some n ∧ NamespaceOf t x n := by
  unfold resolve resolved at h
  obtain ⟨r, hr, hf⟩ : ∃ r, caught (t.readPidProc x false) = .ok r ∧
      r.filter (fun a => a.pidNsId.any (fun n => decide (n ≠ 0))) = some a := by
    cases hc : caught (t.readPidProc x false) with
    | error y => rw [hc] at h; cases h
    | ok r => rw [hc] at h; exact ⟨r, rfl, Except.ok.inj h⟩
  obtain ⟨rfl, hn⟩ := Option.filter_eq_some_iff.1 hf
  obtain ⟨n, hn, h0⟩ := (Option.any_eq_true _ _).1 hn
  have hread := caught_eq_some.1 hr
  obtain ⟨-, q, hq, hlegible, -⟩ := Table.readPidProc_ok hread
  obtain ⟨r, hr', hg, hns⟩ := (Table.pidNsId_iff hread).1 hn
  have hproc : t.proc x = some q := by rw [← (Table.readPidProc_ok hread).1]; exact hq.proc
  cases hproc.symm.trans hr'
  exact ⟨n, hn, ⟨q, hproc, hlegible, hg, hns⟩, of_decide_eq_true h0⟩

theorem exists_resolve {n : Int} (h : NamespaceOf t x n) : ∃ a, resolve t x = .ok (some a) ∧ a.pidNsId = some n := by
  obtain ⟨⟨r, hr, hlegible, hg, hns⟩, h0⟩ := h
  obtain ⟨a, ha⟩ := Table.readPidProc_of_legible hr hlegible
  have hn : a.pidNsId = some n := (Table.pidNsId_iff ha).2 ⟨r, hr, hg, hns⟩
  refine ⟨a, ?_, hn⟩
  rw [resolve, resolved, ha]
  exact congrArg Except.ok (Option.filter_eq_some_iff.2 ⟨rfl, by rw [hn]; exact decide_eq_true h0⟩)

theorem NamespaceOf.unique {m n : Int} (hm : NamespaceOf t x m) (hn : NamespaceOf t x n) : m = n := by
  obtain ⟨⟨r, hr, -, -, rfl⟩, -⟩ := hm
  obtain ⟨⟨r', hr', -, -, rfl⟩, -⟩ := hn
  cases hr.symm.trans hr'
  rfl

section
variable (hp : t.proc p = some q) (hr : t.readPidProc p false = .ok e)
include hp hr

theorem passesAlone_iff : passesAlone o e = true ↔ TestedAlone o q := by
  obtain ⟨rfl, q', hq, hlegible, hfull⟩ := Table.readPidProc_ok hr
  cases hp.symm.trans hq.proc
  have hlast : e.nspid.getLast? = some q.innermost := by
    rw [hq.nspid, List.getLast?_eq_getLast_of_ne_nil q.nspid_ne]; rfl
  have hcmd : e.cmdline = some [] ↔ ¬ ∀ c, q.cmdline = some c → strip c ≠ [] := by
    rw [(hfull rfl).1]
    cases q.cmdline <;> simp
  have hns : ∀ n, e.pidNsId = some n ↔ q.nsAccess = .granted ∧ q.ns = n := by
    intro n
    rw [(hfull rfl).2.1]
    by_cases hg : q.nsAccess = .granted <;> simp [hg]
  unfold passesAlone
  simp only [Bool.not_eq_true', Bool.or_eq_false_iff, truthy_any, decide_eq_false_iff_not, not_not, ne_eq, hcmd, hlast,
    Option.some.injEq, hns, and_assoc]
  constructor
  · rintro ⟨hc, hpid, hn⟩
    exact ⟨hlegible, hc, hpid, hn⟩
  · intro h
    exact ⟨h.cmdline, h.pid, h.ns⟩

theorem passesParentPid_iff :
    passesParentPid t o e = .ok true ↔ ∀ x, o.parentPid = some x → x ≠ 0 → HasAncestor t p x := by
  obtain ⟨rfl, q', hq, -⟩ := Table.readPidProc_ok hr
  unfold passesParentPid
  cases hx : truthy o.parentPid with
  | none   =>
    refine iff_of_true rfl (fun x hv h0 => ?_)
    rw [truthy_eq_some.2 ⟨hv, h0⟩] at hx
    cases hx
  | some x =>
    obtain ⟨hv, h0⟩ := truthy_eq_some.1 hx
    refine hq.pidIsAncestor_iff.trans ⟨fun h y hy _ => ?_, fun h => h x hv h0⟩
    cases hv.symm.trans hy
    exact h

theorem passesParentPid_error_iff {y : Exn} : passesParentPid t o e = .error y ↔ y = .valueError ∧
    ∃ x, o.parentPid = some x ∧ x ≠ 0 ∧ ¬ HasAncestor t p x ∧ ComesToGarbled t true p := by
  obtain ⟨rfl, q', hq, -⟩ := Table.readPidProc_ok hr
  unfold passesParentPid
  cases hx : truthy o.parentPid with
  | none   =>
    refine iff_of_false (fun h => by cases h) ?_
    rintro ⟨-, x, hv, h0, -⟩
    rw [truthy_eq_some.2 ⟨hv, h0⟩] at hx
    cases hx
  | some x =>
    obtain ⟨hv, h0⟩ := truthy_eq_some.1 hx
    refine hq.pidIsAncestor_error_iff.trans ⟨fun h => ⟨h.1.1, x, hv, h0, h.2, h.1.2⟩, ?_⟩
    rintro ⟨hy, x', hv', -, hno, hcomes⟩
    cases hv.symm.trans hv'
    exact ⟨⟨hy, hcomes⟩, hno⟩

variable {ancestor : Option Entry}
  (ha : ∀ x, o.sameNamespaceAs = some x → x ≠ 0 → ∃ a, resolve t x = .ok (some a) ∧ ancestor = some a)
include ha

theorem passesNamespace_iff : passesNamespace t o ancestor e = .ok true ↔
    ∀ x, o.sameNamespaceAs = some x → x ≠ 0 → ∃ n, NamespaceOf t x n ∧ InNamespace t p n := by
  obtain ⟨rfl, -⟩ := Table.readPidProc_ok hr
  unfold passesNamespace
  cases hx : truthy o.sameNamespaceAs with
  | none   =>
    refine iff_of_true rfl (fun x hv h0 => ?_)
    rw [truthy_eq_some.2 ⟨hv, h0⟩] at hx
    cases hx
  | some x =>
    obtain ⟨hv, h0⟩ := truthy_eq_some.1 hx
    obtain ⟨a, hres, rfl⟩ := ha x hv h0
    obtain ⟨n, hn, hns⟩ := resolve_some hres
    refine (Table.namespaceIsAncestor_iff hr hn).trans ⟨fun h y hy _ => ?_, fun h => ?_⟩
    · cases hv.symm.trans hy
      exact ⟨n, hns, h⟩
    · obtain ⟨m, hm, hin⟩ := h x hv h0
      rw [hns.unique hm]
      exact hin

theorem passesNamespace_error_iff {y : Exn} : passesNamespace t o ancestor e = .error y ↔ y = .valueError ∧
    ∃ x, o.sameNamespaceAs = some x ∧ x ≠ 0 ∧ (∀ n, NamespaceOf t x n → ¬ InNamespace t p n) ∧
      ComesToGarbled t false p := by
  obtain ⟨rfl, -⟩ := Table.readPidProc_ok hr
  unfold passesNamespace
  cases hx : truthy o.sameNamespaceAs with
  | none   =>
    refine iff_of_false (fun h => by cases h) ?_
    rintro ⟨-, x, hv, h0, -⟩
    rw [truthy_eq_some.2 ⟨hv, h0⟩] at hx
    cases hx
  | some x =>
    obtain ⟨hv, h0⟩ := truthy_eq_some.1 hx
    obtain ⟨a, hres, rfl⟩ := ha x hv h0
    obtain ⟨n, hn, hns⟩ := resolve_some hres
    refine (Table.namespaceIsAncestor_error_iff hr hn).trans ⟨fun h => ⟨h.1.1, x, hv, h0, fun m hm => ?_, h.1.2⟩, ?_⟩
    · rw [hm.unique hns]
      exact h.2
    · rintro ⟨hy, x', hv', -, hno, hcomes⟩
      cases hv.symm.trans hv'
      exact ⟨⟨hy, hcomes⟩, hno n hns⟩

/-- The entry gets through the loop where it is tested so. -/
theorem tested_iff : passes t o ancestor e = .ok true ↔ Tested t o p q := by
  have halone := passesAlone_iff (o := o) hp hr
  have hparent := passesParentPid_iff (o := o) hp hr
  have hns := passesNamespace_iff hp hr ha
  unfold passes
  by_cases h : passesAlone o e = true
  · rw [if_pos h]
    rcases hpp : passesParentPid t o e with y | _ | _
    · exact iff_of_false (fun h => by cases h) (fun ht => by rw [hparent.2 ht.parentPid] at hpp; cases hpp)
    · exact iff_of_false (fun h => by cases h) (fun ht => by rw [hparent.2 ht.parentPid] at hpp; cases hpp)
    · exact ⟨fun hn => ⟨halone.1 h, hparent.1 hpp, hns.1 hn⟩, fun ht => hns.2 ht.sameNamespaceAs⟩
  · rw [if_neg h]
    exact iff_of_false (fun h => by cases h) (fun ht => h (halone.2 ht.alone))

/-- It raises where the tests of its process do. -/
theorem testsRaise_iff : (∃ y, passes t o ancestor e = .error y) ↔ TestsRaise t o p := by
  obtain ⟨-, q', hq, hlegible, -⟩ := Table.readPidProc_ok hr
  have halone := passesAlone_iff (o := o) hp hr
  have hparent := passesParentPid_iff (o := o) hp hr
  have hgarbled : ¬ q.Garbled false := by
    obtain ⟨hep, -⟩ := Table.readPidProc_ok hr
    cases hp.symm.trans (hep ▸ hq.proc)
    exact hlegible.not_garbled
  have hraise : TestsRaise t o p ↔ TestedAlone o q ∧
      ((∃ y, passesParentPid t o e = .error y) ∨
        passesParentPid t o e = .ok true ∧ ∃ y, passesNamespace t o ancestor e = .error y) := by
    simp only [passesParentPid_error_iff hp hr, passesNamespace_error_iff hp hr ha, hparent, exists_eq_left]
    constructor
    · rintro ⟨q', hq', h⟩
      cases hp.symm.trans hq'
      exact h.resolve_left hgarbled
    · intro h
      exact ⟨q, hp, Or.inr h⟩
  rw [hraise, ← halone]
  unfold passes
  by_cases h : passesAlone o e = true
  · rw [if_pos h]
    rcases hpp : passesParentPid t o e with y | _ | _ <;> simp [h]
  · rw [if_neg h]
    simp [h]

end

/-! ## The run -/

section
variable {ancestor : Option Entry}
  (ha : ∀ x, o.sameNamespaceAs = some x → x ≠ 0 → ∃ a, resolve t x = .ok (some a) ∧ ancestor = some a)
include ha

theorem visit_error_iff : (∃ y, visit t o ancestor p = .error y) ↔ p ≠ t.mypid ∧ Stops t o p := by
  unfold visit
  by_cases hm : p = t.mypid
  · rw [if_pos hm]
    exact iff_of_false (fun h => by cases h with | intro y h => cases h) (fun h => h.1 hm)
  · rw [if_neg hm, and_iff_right hm]
    cases hread : t.readPidProc p false with
    | error y =>
      cases y with
      | fileNotFound =>
        have hlost : ∀ q, t.proc p = some q → ¬ q.Legible false := fun q hq hlegible => by
          obtain ⟨e, he⟩ := Table.readPidProc_of_legible hq hlegible
          rw [hread] at he; cases he
        refine iff_of_false (fun h => by cases h with | intro y h => cases h) ?_
        rintro (⟨q, hq, hg | ⟨halone, -⟩⟩ | ⟨q, hq, ht, -⟩)
        · rw [Table.readPidProc_garbled_iff.2 ⟨q, hq, hg⟩] at hread; cases hread
        · exact hlost q hq halone.legible
        · exact hlost q hq ht.alone.legible
      | valueError =>
        obtain ⟨q, hq, hg⟩ := Table.readPidProc_garbled_iff.1 hread
        exact iff_of_true ⟨.valueError, rfl⟩ (Or.inl ⟨q, hq, Or.inl hg⟩)
    | ok e =>
      obtain ⟨hep, q, hq, -⟩ := Table.readPidProc_ok hread
      have hproc : t.proc p = some q := hep ▸ hq.proc
      have hraise := testsRaise_iff hproc hread ha
      have htested := tested_iff hproc hread ha
      have hprints : (∃ q, t.proc p = some q ∧ Tested t o p q ∧ o.pidsOnly = false ∧ ¬ q.Printable) ↔
          passes t o ancestor e = .ok true ∧ o.pidsOnly = false ∧ e.printable = false := by
        rw [htested, ← Bool.not_eq_true e.printable, Table.printable_iff hread hproc, hproc]
        simp
      rw [Stops, ← hraise, hprints]
      dsimp only [caught]
      rcases passes t o ancestor e with y | _ | _
      · simp
      · simp
      · by_cases hpo : o.pidsOnly = true
        · simp [hpo]
        · by_cases hpr : e.printable = true <;> simp [hpo, hpr]

/-- What is printed for a name of the listing: its process, if it is tested so. -/
theorem process_visit {out : List Printed} (h : visit t o ancestor p = .ok out) :
    out.filterMap Printed.process = [p] ∧ p ≠ t.mypid ∧ (∃ q, t.proc p = some q ∧ Tested t o p q) ∨
      out.filterMap Printed.process = [] ∧ ¬ (p ≠ t.mypid ∧ ∃ q, t.proc p = some q ∧ Tested t o p q) := by
  unfold visit at h
  by_cases hm : p = t.mypid
  · rw [if_pos hm] at h
    cases h
    exact Or.inr ⟨rfl, fun h => h.1 hm⟩
  · rw [if_neg hm] at h
    cases hread : t.readPidProc p false with
    | error y =>
      rw [hread] at h
      refine Or.inr ⟨by cases y <;> cases h; rfl, ?_⟩
      rintro ⟨-, q, hq, ht⟩
      obtain ⟨e, he⟩ := Table.readPidProc_of_legible hq ht.alone.legible
      rw [hread] at he; cases he
    | ok e =>
      obtain ⟨rfl, q, hq, -⟩ := Table.readPidProc_ok hread
      have htested := tested_iff hq.proc hread ha
      rw [hread] at h
      dsimp only [caught] at h
      rcases hp : passes t o ancestor e with y | _ | _
      · rw [hp] at h; cases h
      · rw [hp] at h htested
        cases h
        refine Or.inr ⟨rfl, ?_⟩
        rintro ⟨-, q', hq', ht⟩
        cases hq.proc.symm.trans hq'
        cases htested.2 ht
      · rw [hp] at h htested
        have hout : out.filterMap Printed.process = [e.pid] := by
          dsimp only at h
          split_ifs at h <;> cases h <;> rfl
        exact Or.inl ⟨hout, hm, q, hq.proc, htested.1 rfl⟩

omit ha in
/-- A name that is not the one looked for is one of those before it. -/
theorem takeWhile_ne {a : Int} (h : a ≠ p) (ps : List Int) :
    (a :: ps).takeWhile (fun a => decide (a ≠ p)) = a :: ps.takeWhile (fun a => decide (a ≠ p)) :=
  List.takeWhile_cons_of_pos (decide_eq_true h)

theorem mem_loop : ∀ ps : List Int, p ∈ (loop t o ancestor ps).1.filterMap Printed.process ↔
    p ∈ ps ∧ (p ≠ t.mypid ∧ ∃ q, t.proc p = some q ∧ Tested t o p q) ∧ ¬ Stops t o p ∧
      ∀ a ∈ ps.takeWhile (fun a => decide (a ≠ p)), a ≠ t.mypid → ¬ Stops t o a
  | []      => iff_of_false List.not_mem_nil (fun h => List.not_mem_nil h.1)
  | a :: ps => by
    have herror := visit_error_iff (p := a) ha
    rw [loop]
    cases hv : visit t o ancestor a with
    | error y =>
      have hstops := herror.1 ⟨y, hv⟩
      refine iff_of_false List.not_mem_nil ?_
      rintro ⟨-, -, hquiet, hreached⟩
      by_cases hap : a = p
      · exact hquiet (hap ▸ hstops.2)
      · have hmem : a ∈ (a :: ps).takeWhile (fun a => decide (a ≠ p)) := by
          rw [takeWhile_ne hap]
          exact List.mem_cons_self
        exact hreached a hmem hstops.1 hstops.2
    | ok out =>
      have hpasses : a ≠ t.mypid → ¬ Stops t o a := fun hm hs => by
        obtain ⟨y, hy⟩ := herror.2 ⟨hm, hs⟩
        rw [hv] at hy; cases hy
      dsimp only
      rw [List.filterMap_append, List.mem_append, mem_loop ps]
      by_cases hap : a = p
      · subst hap
        rw [List.takeWhile_cons_of_neg (by simp)]
        rcases process_visit ha hv with ⟨hout, ht⟩ | ⟨hout, ht⟩
        · rw [hout]
          exact iff_of_true (Or.inl (List.mem_singleton_self a))
            ⟨List.mem_cons_self, ht, hpasses ht.1, fun _ h => absurd h List.not_mem_nil⟩
        · rw [hout]
          refine iff_of_false ?_ (fun h => ht h.2.1)
          rintro (h | h)
          · cases h
          · exact ht h.2.1
      · rw [takeWhile_ne hap, List.forall_mem_cons, List.mem_cons, and_iff_right (a := a ≠ _ → _) hpasses]
        have hout : p ∉ out.filterMap Printed.process := by
          rcases process_visit ha hv with ⟨hout, -⟩ | ⟨hout, -⟩ <;> rw [hout]
          · exact fun h => hap (List.mem_singleton.1 h).symm
          · exact List.not_mem_nil
        rw [or_iff_right hout, or_iff_right (fun h => hap h.symm)]

theorem loop_sublist : ∀ ps : List Int, ((loop t o ancestor ps).1.filterMap Printed.process).Sublist ps
  | []      => List.Sublist.slnil
  | a :: ps => by
    rw [loop]
    cases hv : visit t o ancestor a with
    | error y => exact List.nil_sublist _
    | ok out =>
      dsimp only
      rw [List.filterMap_append]
      rcases process_visit ha hv with ⟨hout, -⟩ | ⟨hout, -⟩ <;> rw [hout]
      · exact (loop_sublist ps).cons_cons a
      · exact (loop_sublist ps).cons a

end

/-- The run either fails to resolve the namespace, or goes through the loop with the entry it was read from. -/
theorem main_cases (t : Table) (o : Options) :
    (∃ ancestor, main t o = listAll t o ancestor ∧
      ∀ x, o.sameNamespaceAs = some x → x ≠ 0 → ∃ a, resolve t x = .ok (some a) ∧ ancestor = some a) ∨
    (main t o).printed = [] ∧ ∃ x, o.sameNamespaceAs = some x ∧ x ≠ 0 ∧ ∀ n, ¬ NamespaceOf t x n := by
  unfold main
  cases hs : truthy o.sameNamespaceAs with
  | none =>
    refine Or.inl ⟨none, rfl, fun x hx h0 => ?_⟩
    rw [truthy_eq_some.2 ⟨hx, h0⟩] at hs
    cases hs
  | some x =>
    obtain ⟨hx, h0⟩ := truthy_eq_some.1 hs
    dsimp only
    have hnone : (∀ a, resolve t x ≠ .ok (some a)) → ∀ n, ¬ NamespaceOf t x n := fun h n hn => by
      obtain ⟨a, ha, -⟩ := exists_resolve hn
      exact h a ha
    rcases hr : resolve t x with y | _ | a
    · exact Or.inr ⟨rfl, x, hx, h0, hnone (fun a ha => by rw [hr] at ha; cases ha)⟩
    · exact Or.inr ⟨rfl, x, hx, h0, hnone (fun a ha => by rw [hr] at ha; cases ha)⟩
    · refine Or.inl ⟨some a, rfl, fun y hy _ => ?_⟩
      cases hx.symm.trans hy
      exact ⟨a, hr, rfl⟩

theorem process_listAll (ancestor : Option Entry) : (listAll t o ancestor).printed.filterMap Printed.process =
    (loop t o ancestor t.pids).1.filterMap Printed.process := by
  have hprinted : (listAll t o ancestor).printed =
      (if o.pidsOnly = true then [] else [.header]) ++ (loop t o ancestor t.pids).1 := by
    unfold listAll
    split_ifs <;> rfl
  rw [hprinted, List.filterMap_append]
  by_cases hpo : o.pidsOnly = true
  · rw [if_pos hpo]; rfl
  · rw [if_neg hpo]; rfl

/-- **Nothing is printed twice.** -/
theorem shown_nodup : (shown t o).Nodup := by
  unfold shown
  rcases main_cases t o with ⟨ancestor, hm, ha⟩ | ⟨hm, -⟩
  · rw [hm, process_listAll]
    exact (loop_sublist ha t.pids).nodup t.nodup
  · rw [hm]
    exact List.nodup_nil

/-- **What is printed**: the candidates that are tested so, up to the first at which `main` raises. -/
theorem mem_shown : p ∈ shown t o ↔ ∃ q, Candidate t p q ∧ Tested t o p q ∧ Reached t o p := by
  unfold shown
  rcases main_cases t o with ⟨ancestor, hm, ha⟩ | ⟨hm, x, hx, h0, hnone⟩
  · rw [hm, process_listAll, mem_loop ha]
    constructor
    · rintro ⟨hl, ⟨hp, q, hq, ht⟩, hreached⟩
      exact ⟨q, ⟨hl, hp, hq, fun h => ht.alone.cmdline [] h rfl⟩, ht, hreached⟩
    · rintro ⟨q, hc, ht, hreached⟩
      exact ⟨hc.listed, ⟨hc.other, q, hc.proc, ht⟩, hreached⟩
  · rw [hm]
    refine iff_of_false List.not_mem_nil ?_
    rintro ⟨q, -, ht, -⟩
    obtain ⟨n, hn, -⟩ := ht.sameNamespaceAs x hx h0
    exact hnone n hn

/-! ## What is documented -/

/-- Whoever is on the line of parents lives in a namespace around. -/
theorem below_of_seen {a : Int} {r : Proc} (h : Relation.ReflTransGen (Seen t so) p a) (hp : t.proc p = some q)
    (ha : t.proc a = some r) : Below t.nsParent r.ns q.ns := by
  induction h generalizing r with
  | refl => cases hp.symm.trans ha; exact .refl
  | @tail b c _ hc ih =>
    obtain ⟨⟨s, hs, rfl⟩, -⟩ := hc
    exact (ih hs).trans (t.nested b s r hs ha)

/-- What is tested meets the options as documented, apart from those given as 0. -/
theorem Tested.meets (hp : t.proc p = some q) (ht : Tested t o p q) : Meets t o (fun x => x ≠ 0) p q := by
  refine ⟨fun x hx h0 => Or.inl (ht.alone.pid x hx h0), fun x hx h0 => ?_, fun n hn h0 => Or.inl (ht.alone.ns n hn h0).2,
    fun x hx h0 => ?_⟩
  · obtain ⟨a, hs, ha⟩ := ht.parentPid x hx h0
    have hline : Relation.ReflTransGen (IsParent t) p a := hs.lift id (fun _ _ h => h.1)
    exact Relation.TransGen.tail' hline ha
  · obtain ⟨n, ⟨⟨r, hr, -, -, rfl⟩, -⟩, a, s, hs, ha, -, hns⟩ := ht.sameNamespaceAs x hx h0
    exact ⟨r, hr, by rw [← hns]; exact below_of_seen hs hp ha⟩

theorem Meets.mono {g g' : Int → Prop} (hg : ∀ x, g' x → g x) (h : Meets t o g p q) : Meets t o g' p q :=
  ⟨fun x hx h' => h.pid x hx (hg x h'), fun x hx h' => h.parentPid x hx (hg x h'), fun n hn h' => h.ns n hn (hg n h'),
    fun x hx h' => h.sameNamespaceAs x hx (hg x h')⟩

theorem meets_all_iff :
    Meets t o (fun _ => True) p q ↔ Meets t o (fun x => x ≠ 0) p q ∧ Meets t o (fun x => x = 0) p q := by
  constructor
  · intro h; exact ⟨h.mono (fun _ _ => trivial), h.mono (fun _ _ => trivial)⟩
  · rintro ⟨hn, hz⟩
    exact ⟨fun x hx _ => (eq_or_ne x 0).elim (hz.pid x hx) (hn.pid x hx),
      fun x hx _ => (eq_or_ne x 0).elim (hz.parentPid x hx) (hn.parentPid x hx),
      fun x hx _ => (eq_or_ne x 0).elim (hz.ns x hx) (hn.ns x hx),
      fun x hx _ => (eq_or_ne x 0).elim (hz.sameNamespaceAs x hx) (hn.sameNamespaceAs x hx)⟩

theorem selects_of (h : ∀ p q, Candidate t p q →
    (Meets t o (fun _ => True) p q → Tested t o p q ∧ Reached t o p) ∧
    (Tested t o p q ∧ Reached t o p → Meets t o (fun x => x = 0) p q)) : Selects t o := by
  refine ⟨shown_nodup, fun p => mem_shown.trans ?_⟩
  constructor
  · rintro ⟨q, hc, ht⟩
    exact ⟨q, hc, meets_all_iff.2 ⟨ht.1.meets hc.proc, (h p q hc).2 ht⟩⟩
  · rintro ⟨q, hc, hm⟩
    exact ⟨q, hc, (h p q hc).1 hm⟩

/-- **When the selection is what the options document**: every candidate that meets them is tested so and reached, and
every one that is tested so and reached meets, too, those of them that are given as 0. -/
theorem selects_iff : Selects t o ↔ ∀ p q, Candidate t p q →
    (Meets t o (fun _ => True) p q → Tested t o p q ∧ Reached t o p) ∧
    (Tested t o p q ∧ Reached t o p → Meets t o (fun x => x = 0) p q) := by
  refine ⟨fun h p q hc => ⟨fun hm => ?_, fun ht => ?_⟩, selects_of⟩
  · obtain ⟨q', hc', ht⟩ := mem_shown.1 ((h.shown p).2 ⟨q, hc, hm⟩)
    cases hc.proc.symm.trans hc'.proc
    exact ht
  · obtain ⟨q', hc', hm⟩ := (h.shown p).1 (mem_shown.2 ⟨q, hc, ht⟩)
    cases hc.proc.symm.trans hc'.proc
    exact (meets_all_iff.1 hm).2

/-! ### Where every process can be read -/

/-- Procfs shows all of the process, which can be printed, and a command line that there is is not white space alone. -/
structure Proc.Readable (q : Proc) : Prop where
  text      : q.name ≠ none
  named     : q.name ≠ some []
  exeAccess : q.exeAccess ≠ .missing
  nsAccess  : q.nsAccess = .granted
  cmdline   : ∃ c, q.cmdline = some c ∧ (c ≠ [] → strip c ≠ [])
  printable : q.Printable

theorem Proc.Readable.legible (h : q.Readable) (so : Bool) : q.Legible so := by
  obtain ⟨c, hc, -⟩ := h.cmdline
  exact ⟨h.text, h.named, fun _ => ⟨by rw [h.nsAccess]; rintro ⟨⟩, h.exeAccess, by rw [hc]; rintro ⟨⟩⟩⟩

section
variable (hr : ∀ p q, t.proc p = some q → q.Readable)
include hr

theorem Table.readPidProc_of_readable (hp : t.proc p = some q) (s : Bool) : ∃ e, t.readPidProc p s = .ok e :=
  Table.readPidProc_of_legible hp ((hr p q hp).legible s)

theorem hasAncestor_of_ancestor (ha : Ancestor t p x) : HasAncestor t p x := by
  induction ha with
  | single h => exact ⟨p, .refl, h⟩
  | @tail y z _ h ih =>
    obtain ⟨b, hs, hb⟩ := ih
    obtain ⟨r, hr', hx⟩ := h
    exact ⟨y, hs.tail ⟨hb, fun h => (by cases h), r, hr', (hr y r hr').legible true⟩, r, hr', hx⟩

/-- Nor is there anything to stop at. -/
theorem not_stops_of_readable : ¬ Stops t o p := by
  have hcomes : ∀ so, ¬ ComesToGarbled t so p := by
    rintro so ⟨a, b, r, -, -, -, hb, hg⟩
    exact ((hr b r hb).legible so).not_garbled hg
  rintro (⟨q, hq, hg | ⟨-, ⟨x, -, -, -, h⟩ | ⟨-, x, -, -, -, h⟩⟩⟩ | ⟨q, hq, -, -, h⟩)
  · exact ((hr p q hq).legible false).not_garbled hg
  · exact hcomes true h
  · exact hcomes false h
  · exact h (hr p q hq).printable

/-- **Without `--all-namespaces`, `--indirect-namespaces` and `--same-namespace-as`** the selection is what the other
options document, where every process can be read and no option is given as 0. -/
theorem selects_of_readable (ha : o.allNamespaces = false) (hi : o.indirectNamespaces = false)
    (hs : o.sameNamespaceAs = none) (h0 : o.pid ≠ some 0 ∧ o.parentPid ≠ some 0 ∧ o.namespace ≠ some 0) :
    Selects t o := by
  refine selects_of fun p q hc => ⟨fun hm => ⟨⟨?_, fun x hx _ => ?_, fun x hx => ?_⟩, ?_, fun a _ _ => ?_⟩, fun _ => ?_⟩
  · have hq := hr p q hc.proc
    refine ⟨hq.legible false, fun c hcmd => ?_, fun x hx _ => ?_, fun n hn _ => ?_⟩
    · obtain ⟨c', hc', hstrip⟩ := hq.cmdline
      cases hcmd.symm.trans hc'
      exact hstrip (fun h => hc.cmdline (by rw [hcmd, h]))
    · rcases hm.pid x hx trivial with h | ⟨h, -⟩
      · exact h
      · rw [ha] at h; cases h
    · rcases hm.ns n hn trivial with h | ⟨h, -⟩
      · exact ⟨hq.nsAccess, h⟩
      · rw [hi] at h; cases h
  · exact hasAncestor_of_ancestor hr (hm.parentPid x hx trivial)
  · rw [hs] at hx; cases hx
  · exact not_stops_of_readable hr
  · exact not_stops_of_readable hr
  · exact ⟨fun x hx h => absurd (h ▸ hx) h0.1, fun x hx h => absurd (h ▸ hx) h0.2.1,
      fun n hn h => absurd (h ▸ hn) h0.2.2, fun x hx => by rw [hs] at hx; cases hx⟩

end

/-! ### A pid in an outer namespace -/

def initProc : Proc where
  name      := some ['i', 'n', 'i', 't']
  ppid      := 0
  nspid     := [1]
  cmdline   := some ['i', 'n', 'i', 't']
  exe       := [some 'i', some 'n', some 'i', some 't']
  exeAccess := .granted
  ns        := 10
  nsAccess  := .granted
  nspid_ne  := by decide

/-- A process of the namespace 20, with the pid 7 in it. -/
def innerProc : Proc where
  name      := some ['s', 'h']
  ppid      := 1
  nspid     := [200, 7]
  cmdline   := some ['s', 'h']
  exe       := [some 's', some 'h']
  exeAccess := .granted
  ns        := 20
  nsAccess  := .granted
  nspid_ne  := by decide

def hostProc (p : Int) : Option Proc := if p = 1 then some initProc else if p = 200 then some innerProc else none

def hostNsParent (n : Int) : Option Int := if n = 20 then some 10 else none

theorem hostProc_parent {p : Int} {q r : Proc} (hq : hostProc p = some q) (hr : hostProc q.ppid = some r) :
    p = 200 ∧ q = innerProc ∧ r = initProc := by
  unfold hostProc at hq
  by_cases h1 : p = 1
  · rw [if_pos h1] at hq; cases hq
    exact absurd hr.symm (Option.some_ne_none r)
  · by_cases h2 : p = 200
    · rw [if_neg h1, if_pos h2] at hq; cases hq
      exact ⟨h2, rfl, (Option.some.inj hr).symm⟩
    · rw [if_neg h1, if_neg h2] at hq; cases hq

def host : Table where
  mypid    := 300
  pids     := [1, 200]
  proc     := hostProc
  nsParent := hostNsParent
  depth    := Int.toNat
  nodup    := by decide
  acyclic  := by
    intro p q r hq hr
    obtain ⟨rfl, rfl, -⟩ := hostProc_parent hq hr
    decide
  nested   := by
    intro p q r hq hr
    obtain ⟨rfl, rfl, rfl⟩ := hostProc_parent hq hr
    exact .single rfl

/-- `-a -p 200` does not print the process that has the pid 200 in the namespace of `nspid` itself. -/
theorem outer_pid_not_shown : ¬ Selects host { pid := some 200, allNamespaces := true } := by
  intro h
  have hm : Meets host { pid := some 200, allNamespaces := true } (fun _ => True) 200 innerProc :=
    ⟨fun x hx _ => Or.inr ⟨rfl, by cases hx; decide⟩, fun x hx => absurd hx.symm (Option.some_ne_none x),
      fun x hx => absurd hx.symm (Option.some_ne_none x), fun x hx => absurd hx.symm (Option.some_ne_none x)⟩
  obtain ⟨q, hc, ht, -⟩ := mem_shown.1 ((h.shown 200).2 ⟨innerProc, ⟨by decide, by decide, rfl, by decide⟩, hm⟩)
  cases hc.proc
  exact absurd (ht.alone.pid 200 rfl (by decide)) (by decide)

end Nspid
end Scrapcode
