import Mathlib.Logic.Function.Basic
import Scrapcode.Runs
/-!
# PgFork — the processes of `pgfork.py`

`run_parent` forks its workers in a loop, and what a fork copies is the whole process: the place in the loop, the list
of pids, the handlers.  A worker is to leave `do_worker` by `sys.exit` only.  A `KeyboardInterrupt` is swallowed around
`do_worker`, so the worker goes on with the loop it was forked in; any other exception reaches the handler at the end of
the script, which signals every pid in the list.

So only the original process forks, sleeps, signals and waits (`OnlyParent`) exactly in the runs in which no exception
leaves `do_worker` (`Contained`).
-/
namespace Scrapcode
namespace PgFork

/-- The step of `do_worker` that is next. -/
inductive Point where
  | closeResult
  | setSignal
  | connect (made : Nat)
  | announce
  | work
  | closeConnections
  | report
  | exit
deriving DecidableEq, Repr

inductive Exit where
  | returned
  | exited
  | raised
  | terminated
deriving DecidableEq, Repr

/-- Where a process is: in `run_parent`, in `do_worker`, in `kill_children`, which raises again where the handler
called it, or at its end. -/
inductive Control where
  | checking
  | spawning (i : Nat)
  | worker (i : Nat) (at_ : Point)
  | settling
  | thrashing
  | killing (rest : List Nat) (raises : Bool)
  | waiting
  | totalling
  | ended (exit : Exit)
deriving DecidableEq, Repr

structure Process where
  control        : Control
  parent         : Option Nat
  pids           : List Nat
  connections    : Nat
  handlesTerm    : Bool
  workerContinue : Bool
  nQueries       : Nat
  resultClosed   : Bool
  reaped         : Bool
deriving DecidableEq, Repr

namespace Process

def goto (q : Process) (c : Control) : Process := { q with control := c }

/-- `SIGTERM` as it arrives. -/
def term (q : Process) : Process :=
  match q.control with
  | .ended _ => q
  | _        => if q.handlesTerm = true then { q with workerContinue := false } else q.goto (.ended .terminated)

/-- The next step of `do_worker(i)`. -/
def work (connsPerWorker i : Nat) (q : Process) : Point → Process
  | .closeResult      => { q with resultClosed := true, control := .worker i .setSignal }
  | .setSignal        => { q with workerContinue := true, handlesTerm := true, control := .worker i (.connect 0) }
  | .connect made     =>
    if made < connsPerWorker then { q with connections := q.connections + 1, control := .worker i (.connect (made + 1)) }
    else q.goto (.worker i .announce)
  | .announce         => { q with nQueries := 0, control := .worker i .work }
  | .work             =>
    if q.workerContinue = true then { q with nQueries := q.nQueries + 1 } else q.goto (.worker i .closeConnections)
  | .closeConnections => q.goto (.worker i .report)
  | .report           => q.goto (.worker i .exit)
  | .exit             => q.goto (.ended .exited)

end Process

/-- All processes, and what they have done: who forked whom, who signalled whom, the lines of the result file and the
totals that were printed. -/
structure Tree where
  proc    : Nat → Process
  nextPid : Nat
  forks   : List (Nat × Nat)
  signals : List (Nat × Nat)
  results : List (Nat × Nat)
  totals  : List (Nat × Nat)

/-- The process the script is started in. -/
def original : Nat := 0

def Tree.start : Tree where
  proc    := fun _ => { control := .checking, parent := none, pids := [], connections := 0, handlesTerm := false,
                        workerContinue := false, nQueries := 0, resultClosed := false, reaped := false }
  nextPid := 1
  forks   := []
  signals := []
  results := []
  totals  := []

namespace Tree

def set (t : Tree) (p : Nat) (q : Process) : Tree := { t with proc := Function.update t.proc p q }

@[simp] theorem set_self (t : Tree) (p : Nat) (q : Process) : (t.set p q).proc p = q := Function.update_self _ _ _

theorem set_of_ne {p c : Nat} (h : c ≠ p) (t : Tree) (q : Process) : (t.set p q).proc c = t.proc c :=
  Function.update_of_ne h _ _

def goto (t : Tree) (p : Nat) (c : Control) : Tree := t.set p ((t.proc p).goto c)

/-- `os.fork()` at the place `i` of the loop: the child goes on in `do_worker`, the parent appends its pid. -/
def fork (t : Tree) (p i : Nat) : Tree where
  proc    := Function.update
    (Function.update t.proc p
      { t.proc p with control := .spawning (i + 1), pids := (t.proc p).pids ++ [t.nextPid] })
    t.nextPid { t.proc p with control := .worker i .closeResult, parent := some p, reaped := false }
  nextPid := t.nextPid + 1
  forks   := t.forks ++ [(p, t.nextPid)]
  signals := t.signals
  results := t.results
  totals  := t.totals

/-- `os.kill(pid, SIGTERM)` of a process that is there. -/
def signal (t : Tree) (p pid : Nat) (rest : List Nat) (raises : Bool) : Tree :=
  let t := t.goto p (.killing rest raises)
  { t.set pid (t.proc pid).term with signals := t.signals ++ [(p, pid)] }

def isThere (t : Tree) (pid : Nat) : Bool := decide (pid < t.nextPid) && !(t.proc pid).reaped

def children (t : Tree) (p : Nat) : List Nat :=
  (List.range t.nextPid).filter (fun c => decide ((t.proc c).parent = some p) && !(t.proc c).reaped)

end Tree

def Control.isEnded : Control → Bool
  | .ended _ => true
  | _        => false

/-- After `kill_children`: the handler raises again, `run_parent` goes on to wait. -/
def Control.killed (raises : Bool) : Control := if raises then .ended .raised else .waiting

/-- An exception that is not a `KeyboardInterrupt`, at each place. -/
def Control.failed (pids : List Nat) : Control → Option Control
  | .ended _        => none
  | .killing _ true => some (.ended .raised)
  | _               => some (.killing pids true)

/-- A `KeyboardInterrupt`, at each place. -/
def Control.interrupted : Control → Option Control
  | .ended _    => none
  | .worker i _ => some (.spawning (i + 1))
  | _           => some (.ended .raised)

inductive Act where
  | call
  | fails
  | interrupt
deriving DecidableEq, Repr

namespace Tree

section
variable (nWorkers connsPerWorker : Nat)

/-- The next step of the process `p`, where it raises nothing. -/
def call (t : Tree) (p : Nat) : Option Tree :=
  match (t.proc p).control with
  | .checking                    => some (t.goto p (.spawning 0))
  | .spawning i                  => some (if i < nWorkers then t.fork p i else t.goto p .settling)
  | .worker i .report            =>
    some { t.set p ((t.proc p).work connsPerWorker i .report) with results := t.results ++ [(i, (t.proc p).nQueries)] }
  | .worker i pt                 => some (t.set p ((t.proc p).work connsPerWorker i pt))
  | .settling                    => some (t.goto p .thrashing)
  | .thrashing                   => some (t.goto p (.killing (t.proc p).pids false))
  | .killing [] raises           => some (t.goto p (.killed raises))
  | .killing (pid :: rest) raises =>
    some (if t.isThere pid = true then t.signal p pid rest raises else t.goto p (.killed raises))
  | .waiting                     =>
    if t.children p = [] then some (t.goto p .totalling)
    else ((t.children p).find? (fun c => (t.proc c).control.isEnded)).map
      (fun c => t.set c { t.proc c with reaped := true })
  | .totalling                   =>
    some (if (t.proc p).resultClosed = true then t.goto p (.killing (t.proc p).pids true)
      else { t.goto p (.ended .returned) with totals := t.totals ++ [(p, (t.results.map Prod.snd).foldr (· + ·) 0)] })
  | .ended _                     => none

def step (t : Tree) (e : Nat × Act) : Option Tree :=
  if e.1 < t.nextPid then
    match e.2 with
    | .call      => t.call nWorkers connsPerWorker e.1
    | .fails     => ((t.proc e.1).control.failed (t.proc e.1).pids).map (t.goto e.1)
    | .interrupt => ((t.proc e.1).control.interrupted).map (t.goto e.1)
  else none

end
end Tree

/-! ## Who does what -/

/-- The code of `run_parent`, and `kill_children`. -/
def Control.manages : Control → Bool
  | .worker _ _ | .ended _ => false
  | _                      => true

def Control.isWorker : Control → Bool
  | .worker _ _ => true
  | _           => false

/-- **Only the original process manages workers.** -/
structure OnlyParent (nWorkers : Nat) (t : Tree) : Prop where
  atMost  : t.forks.length ≤ nWorkers
  forks   : ∀ e ∈ t.forks, e.1 = original
  signals : ∀ e ∈ t.signals, e.1 = original
  manages : ∀ p, p < t.nextPid → (t.proc p).control.manages = true → p = original

/-- **No exception leaves `do_worker`**: a worker's step raises nothing. -/
def Contained (t : Tree) (e : Nat × Act) : Prop := (t.proc e.1).control.isWorker = true → e.2 = .call

instance (t : Tree) (e : Nat × Act) : Decidable (Contained t e) := inferInstanceAs (Decidable (_ → _))

/-! ## One step -/

/-- The iterations of the loop that are done, where the place says so. -/
def Control.made : Control → Option Nat
  | .checking   => some 0
  | .spawning i => some i
  | _           => none

/-- What a process may become without a fork and without leaving `do_worker` by an exception. -/
structure Goes (q q' : Process) : Prop where
  manages : q'.control.manages = true → q.control.manages = true
  made    : ∀ i, q'.control.made = some i → q.control.made = some i
  worker  : q'.control.isWorker = true → q.control.isWorker = true

inductive TreeMoves (nWorkers : Nat) (t : Tree) (p : Nat) (a : Act) : Tree → Prop
  | go {t'} : (∀ c, Goes (t.proc c) (t'.proc c)) → t'.nextPid = t.nextPid → t'.forks = t.forks →
      (t'.signals = t.signals ∨ (t.proc p).control.manages = true ∧ ∃ pid, t'.signals = t.signals ++ [(p, pid)]) →
      TreeMoves nWorkers t p a t'
  | escape {c} : a ≠ .call → (t.proc p).control.isWorker = true → c.manages = true →
      TreeMoves nWorkers t p a (t.goto p c)
  | fork {i} : (t.proc p).control = .spawning i → i < nWorkers → TreeMoves nWorkers t p a (t.fork p i)

variable {nWorkers connsPerWorker : Nat} {t t' : Tree} {p : Nat} {a : Act} {e : Nat × Act} {q q' : Process}

theorem goes_of_manages {c : Control} (h : q.control.manages = true) (hm : c.made = none) (hw : c.isWorker = false) :
    Goes q (q.goto c) where
  manages := fun _ => h
  made    := fun i hi => (by rw [Process.goto, hm] at hi; cases hi)
  worker  := fun hi => (by rw [Process.goto, hw] at hi; cases hi)

/-- A process that ends. -/
theorem goes_ended (q : Process) (x : Exit) : Goes q (q.goto (.ended x)) :=
  ⟨fun h => (nomatch h), fun _ h => (nomatch h), fun h => (nomatch h)⟩

theorem goes_same (h : q'.control = q.control) : Goes q q' :=
  ⟨fun hq => h ▸ hq, fun _ hq => h ▸ hq, fun hq => h ▸ hq⟩

theorem goes_work {i : Nat} {pt : Point} (h : q.control = .worker i pt) : Goes q (q.work connsPerWorker i pt) := by
  have hw : ∀ {pt' : Point} {q'}, q'.control = .worker i pt' → Goes q q' := fun hq =>
    ⟨fun hm => (by rw [hq] at hm; cases hm), fun _ hm => (by rw [hq] at hm; cases hm), fun _ => by rw [h]; rfl⟩
  cases pt with
  | connect made =>
    simp only [Process.work]
    split
    · exact hw rfl
    · exact hw rfl
  | work =>
    simp only [Process.work]
    split
    · exact hw h
    · exact hw rfl
  | exit => exact goes_ended _ _
  | _ => exact hw rfl

theorem Goes.trans {q'' : Process} (h : Goes q q') (h' : Goes q' q'') : Goes q q'' where
  manages := fun hm => h.manages (h'.manages hm)
  made    := fun i hm => h.made i (h'.made i hm)
  worker  := fun hw => h.worker (h'.worker hw)

theorem goes_term (q : Process) : Goes q q.term := by
  unfold Process.term
  split
  · exact goes_same rfl
  · split
    · exact goes_same rfl
    · exact goes_ended _ _

theorem goes_set (h : Goes (t.proc p) q) (c : Nat) : Goes (t.proc c) ((t.set p q).proc c) := by
  by_cases hc : c = p
  · subst hc; rw [Tree.set_self]; exact h
  · rw [Tree.set_of_ne hc]; exact goes_same rfl

/-- A step that changes one process, and what was reported. -/
theorem TreeMoves.set {c : Nat} {rs ts : List (Nat × Nat)} (h : Goes (t.proc c) q) :
    TreeMoves nWorkers t p a { t.set c q with results := rs, totals := ts } :=
  .go (goes_set h) rfl rfl (Or.inl rfl)

theorem TreeMoves.goto {c : Control} (h : Goes (t.proc p) ((t.proc p).goto c)) : TreeMoves nWorkers t p a (t.goto p c) :=
  .set h

/-- Within the code of `run_parent`, or to its end. -/
theorem TreeMoves.onward {c : Control} (h : (t.proc p).control.manages = true) (hm : c.made = none)
    (hw : c.isWorker = false) : TreeMoves nWorkers t p a (t.goto p c) :=
  .goto (goes_of_manages h hm hw)

theorem call_treeMoves (h : t.call nWorkers connsPerWorker p = some t') : TreeMoves nWorkers t p a t' := by
  simp only [Tree.call] at h
  split at h
  · rename_i hc
    cases h
    exact .goto ⟨fun _ => by rw [hc]; rfl, fun _ hi => by rw [hc]; exact hi, fun hw => nomatch hw⟩
  · rename_i i hc
    cases h
    split
    · rename_i hi; exact .fork hc hi
    · exact .onward (by rw [hc]; rfl) rfl rfl
  · rename_i i hc; cases h; exact .set (goes_work hc)
  · rename_i i pt _ hc; cases h; exact .set (goes_work hc)
  · rename_i hc; cases h; exact .onward (by rw [hc]; rfl) rfl rfl
  · rename_i hc; cases h; exact .onward (by rw [hc]; rfl) rfl rfl
  · rename_i raises hc
    cases h
    cases raises with
    | true  => exact .goto (goes_ended _ _)
    | false => exact .onward (by rw [hc]; rfl) rfl rfl
  · rename_i pid rest raises hc
    cases h
    split
    · have hm : (t.proc p).control.manages = true := by rw [hc]; rfl
      refine .go (fun c => ?_) rfl rfl (Or.inr ⟨hm, pid, rfl⟩)
      exact (goes_set (goes_of_manages hm rfl rfl) c).trans (goes_set (goes_term _) c)
    · cases raises with
      | true  => exact .goto (goes_ended _ _)
      | false => exact .onward (by rw [hc]; rfl) rfl rfl
  · rename_i hc
    split at h
    · cases h; exact .onward (by rw [hc]; rfl) rfl rfl
    · obtain ⟨c, -, rfl⟩ := Option.map_eq_some_iff.1 h
      exact .set (goes_same rfl)
  · rename_i hc
    cases h
    split
    · exact .onward (by rw [hc]; rfl) rfl rfl
    · exact .set (goes_ended _ _)
  · cases h

/-- **A step** forks from the loop, signals from `kill_children`, leaves `do_worker` by an exception, or does none of
these. -/
theorem step_treeMoves (h : t.step nWorkers connsPerWorker e = some t') : TreeMoves nWorkers t e.1 e.2 t' := by
  obtain ⟨p, a⟩ := e
  simp only [Tree.step, Option.ite_none_right_eq_some] at h
  obtain ⟨-, h⟩ := h
  cases a with
  | call => exact call_treeMoves h
  | fails =>
    obtain ⟨c, hc, rfl⟩ := Option.map_eq_some_iff.1 h
    cases hp : (t.proc p).control with
    | ended x => rw [hp] at hc; cases hc
    | worker i pt =>
      rw [hp] at hc; cases hc
      exact .escape (fun h => nomatch h) (by rw [hp]; rfl) rfl
    | killing rest raises =>
      rw [hp] at hc
      cases raises with
      | true  => cases hc; exact .goto (goes_ended _ _)
      | false => cases hc; exact .onward (by rw [hp]; rfl) rfl rfl
    | _ =>
      rw [hp] at hc; cases hc
      exact .onward (by rw [hp]; rfl) rfl rfl
  | interrupt =>
    obtain ⟨c, hc, rfl⟩ := Option.map_eq_some_iff.1 h
    cases hp : (t.proc p).control with
    | ended x => rw [hp] at hc; cases hc
    | worker i pt =>
      rw [hp] at hc; cases hc
      exact .escape (fun h => nomatch h) (by rw [hp]; rfl) rfl
    | _ =>
      rw [hp] at hc; cases hc
      exact .goto (goes_ended _ _)

/-! ## The loop of the original process -/

def Tree.ownForks (t : Tree) : List (Nat × Nat) := t.forks.filter (fun e => decide (e.1 = original))

/-- What holds in every run: the original process is never in `do_worker`, and its own forks are counted by its loop. -/
structure Loop (nWorkers : Nat) (t : Tree) : Prop where
  known    : original < t.nextPid
  original : (t.proc original).control.isWorker = false
  made     : ∀ i, (t.proc PgFork.original).control.made = some i → t.ownForks.length = i
  atMost   : t.ownForks.length ≤ nWorkers

theorem loop_start (nWorkers : Nat) : Loop nWorkers .start where
  known    := Nat.one_pos
  original := rfl
  made     := fun _ h => Option.some.inj h
  atMost   := Nat.zero_le _

theorem fork_proc (t : Tree) (p i : Nat) {c : Nat} (hc : c ≠ p) (hn : c ≠ t.nextPid) :
    (t.fork p i).proc c = t.proc c := by
  simp only [Tree.fork, Function.update_of_ne hn, Function.update_of_ne hc]

theorem fork_self (t : Tree) {p : Nat} (i : Nat) (hp : p < t.nextPid) :
    ((t.fork p i).proc p).control = .spawning (i + 1) := by
  simp only [Tree.fork, Function.update_of_ne (Nat.ne_of_lt hp), Function.update_self]

theorem fork_child (t : Tree) (p i : Nat) : ((t.fork p i).proc t.nextPid).control = .worker i .closeResult := by
  simp only [Tree.fork, Function.update_self]

theorem ownForks_fork (t : Tree) (p i : Nat) :
    (t.fork p i).ownForks.length = t.ownForks.length + if p = original then 1 else 0 := by
  unfold Tree.ownForks Tree.fork
  rw [List.filter_append, List.length_append]
  by_cases hp : p = original <;> simp [hp]

theorem TreeMoves.loop (h : Loop nWorkers t) (hp : p < t.nextPid) (hm : TreeMoves nWorkers t p a t') :
    Loop nWorkers t' := by
  cases hm with
  | go hg hn hf _ =>
    have hown : t'.ownForks = t.ownForks := by unfold Tree.ownForks; rw [hf]
    refine ⟨hn ▸ h.known, ?_, fun i hi => ?_, hown ▸ h.atMost⟩
    · rw [Bool.eq_false_iff]
      intro hw
      exact absurd h.original (by rw [(hg _).worker hw]; decide)
    · rw [hown]; exact h.made i ((hg original).made i hi)
  | escape _ hw _ =>
    have hne : original ≠ p := by rintro rfl; rw [h.original] at hw; cases hw
    refine ⟨h.known, ?_, fun i hi => ?_, h.atMost⟩
    · rw [Tree.goto, Tree.set_of_ne hne]; exact h.original
    · rw [Tree.goto, Tree.set_of_ne hne] at hi; exact h.made i hi
  | @fork i hc hi =>
    have hlen := ownForks_fork t p i
    have hknown : original < (t.fork p i).nextPid := Nat.lt_succ_of_lt h.known
    by_cases hpo : p = original
    · subst hpo
      rw [if_pos rfl] at hlen
      have hi' : t.ownForks.length = i := h.made i (by rw [hc]; rfl)
      refine ⟨hknown, ?_, fun j hj => ?_, by omega⟩
      · rw [fork_self t i hp]; rfl
      · rw [fork_self t i hp] at hj
        have : i + 1 = j := Option.some.inj hj
        omega
    · rw [if_neg hpo, Nat.add_zero] at hlen
      have hproc := fork_proc t p i (Ne.symm hpo) (Nat.ne_of_lt h.known)
      refine ⟨hknown, ?_, fun j hj => ?_, hlen ▸ h.atMost⟩
      · rw [hproc]; exact h.original
      · rw [hlen]; rw [hproc] at hj; exact h.made j hj

theorem loop_step (h : Loop nWorkers t) (hs : t.step nWorkers connsPerWorker e = some t') : Loop nWorkers t' := by
  have hp : e.1 < t.nextPid := by
    simp only [Tree.step, Option.ite_none_right_eq_some] at hs
    exact hs.1
  exact (step_treeMoves hs).loop h hp

/-- A worker that raises is back in the code of the parent. -/
theorem goto_of_raises (hs : t.step nWorkers connsPerWorker e = some t') (hw : (t.proc e.1).control.isWorker = true)
    (ha : e.2 ≠ .call) : ∃ c, c.manages = true ∧ t' = t.goto e.1 c := by
  obtain ⟨p, a⟩ := e
  simp only [Tree.step, Option.ite_none_right_eq_some] at hs
  obtain ⟨-, hs⟩ := hs
  cases hc : (t.proc p).control with
  | worker i pt =>
    cases a with
    | call      => exact absurd rfl ha
    | fails     => rw [hc] at hs; cases hs; exact ⟨_, rfl, rfl⟩
    | interrupt => rw [hc] at hs; cases hs; exact ⟨_, rfl, rfl⟩
  | _ => rw [hc] at hw; cases hw

/-- **A step keeps the managing with the original process exactly when no exception leaves `do_worker`.** -/
theorem onlyParent_step (hl : Loop nWorkers t) (h : OnlyParent nWorkers t)
    (hs : t.step nWorkers connsPerWorker e = some t') : OnlyParent nWorkers t' ↔ Contained t e := by
  have hp : e.1 < t.nextPid := by
    simp only [Tree.step, Option.ite_none_right_eq_some] at hs
    exact hs.1
  have hl' := loop_step hl hs
  have hatMost : (∀ x ∈ t'.forks, x.1 = original) → t'.forks.length ≤ nWorkers := fun hf => by
    have hown : t'.ownForks = t'.forks := List.filter_eq_self.2 (fun x hx => decide_eq_true (hf x hx))
    rw [← hown]; exact hl'.atMost
  have hm := step_treeMoves hs
  constructor
  · intro h' hw
    by_contra ha
    obtain ⟨c, hc, rfl⟩ := goto_of_raises hs hw ha
    have hpo := h'.manages e.1 hp (by rw [Tree.goto, Tree.set_self]; exact hc)
    rw [hpo, hl.original] at hw
    cases hw
  · intro hC
    cases hm with
    | go hg hn hf hsig =>
      refine ⟨hatMost (hf ▸ h.forks), hf ▸ h.forks, ?_, fun c hc hmc => h.manages c (hn ▸ hc) ((hg c).manages hmc)⟩
      rcases hsig with hsig | ⟨hmp, pid, hsig⟩
      · rw [hsig]; exact h.signals
      · rw [hsig]
        intro x hx
        rcases List.mem_append.1 hx with hx | hx
        · exact h.signals x hx
        · rw [List.mem_singleton.1 hx]; exact h.manages _ hp hmp
    | escape ha hw _ => exact absurd (hC hw) ha
    | @fork i hc hi =>
      have hpo := h.manages _ hp (by rw [hc]; rfl)
      have hforks : ∀ x ∈ (t.fork e.1 i).forks, x.1 = original := by
        intro x hx
        rcases List.mem_append.1 hx with hx | hx
        · exact h.forks x hx
        · rw [List.mem_singleton.1 hx]; exact hpo
      refine ⟨hatMost hforks, hforks, h.signals, fun c hc' hmc => ?_⟩
      by_cases hcp : c = e.1
      · rw [hcp]; exact hpo
      · by_cases hcn : c = t.nextPid
        · rw [hcn, fork_child] at hmc; cases hmc
        · rw [fork_proc t e.1 i hcp hcn] at hmc
          exact h.manages c (Nat.lt_of_le_of_ne (Nat.lt_succ_iff.1 hc') hcn) hmc

theorem onlyParent_start (nWorkers : Nat) : OnlyParent nWorkers .start where
  atMost  := Nat.zero_le _
  forks   := fun _ h => nomatch h
  signals := fun _ h => nomatch h
  manages := fun _ hp _ => Nat.lt_one_iff.1 hp

/-- **Only the original process manages workers, in every state of a run, exactly where no exception leaves
`do_worker`** in it. -/
theorem onlyParent_iff_contained (nWorkers connsPerWorker : Nat) (es : List (Nat × Act)) :
    Runs.Always (Tree.step nWorkers connsPerWorker) (OnlyParent nWorkers) .start es ↔
      Runs.Meets (Tree.step nWorkers connsPerWorker) Contained .start es :=
  Runs.always_iff_meets_of_invariant (fun _ _ _ hl hs => loop_step hl hs) (fun _ _ _ hl h hs => onlyParent_step hl h hs)
    es (loop_start nWorkers) (onlyParent_start nWorkers)

/-! ## Two workers and a `KeyboardInterrupt` -/

/-- **The first worker is interrupted while it connects**: it forks a second worker, and the original process another. -/
theorem worker_forks : ∃ t, Runs.run (Tree.step 2 8) .start
      [(0, .call), (0, .call), (1, .call), (1, .call), (1, .call), (1, .interrupt), (1, .call), (0, .call)] = some t ∧
    t.forks = [(0, 1), (1, 2), (0, 3)] ∧ ¬ OnlyParent 2 t := by
  obtain ⟨t, ht, hforks⟩ : ∃ t, Runs.run (Tree.step 2 8) .start
      [(0, .call), (0, .call), (1, .call), (1, .call), (1, .call), (1, .interrupt), (1, .call), (0, .call)] = some t ∧
      t.forks = [(0, 1), (1, 2), (0, 3)] := Runs.exists_run_of_any (by decide)
  refine ⟨t, ht, hforks, fun h => ?_⟩
  have hthree := h.atMost
  rw [hforks] at hthree
  exact absurd hthree (by decide)

/-- The second worker cannot connect, and signals the first. -/
example : (Runs.run (Tree.step 2 8) .start
    [(0, .call), (0, .call), (0, .call), (2, .call), (2, .call), (2, .fails), (2, .call)]).map (·.signals) =
    some [(2, 1)] := by decide

end PgFork
end Scrapcode
