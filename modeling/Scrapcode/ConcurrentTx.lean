import Mathlib.Data.Fintype.Option
import Scrapcode.Barriers
import Scrapcode.Progress
/-!
# ConcurrentTx — `concurrent_tx.py`, two statements raced

The parent starts two workers; each connects to the database and waits at a barrier, and so does the parent.  Then each
worker runs its statement and sends what came of it through its own pipe, and the parent reads the pipes in turn, joins
the workers and reports.  What the database answers, when a wait is timed out and where an exception is raised is in the
events.

No statement runs before everyone is connected, and none at all where somebody is turned away at the barrier; what is
reported of a worker is what came of its own statement (`raced_always`).  The parent comes to an end but where a worker
dies after the barrier with nothing sent: the parent holds the other end of the pipe as well, so that it never reads the
end of the stream (`run_settles`).
-/
namespace Scrapcode
namespace ConcurrentTx

open Barriers

inductive Runner where
  | runner1
  | runner2
deriving DecidableEq, Repr

instance : Fintype Runner := ⟨{.runner1, .runner2}, fun r => by cases r <;> decide⟩

/-- `workers`, in the order of the loops. -/
def workers : List Runner := [.runner1, .runner2]

/-- Who waits at the barrier: the parent (`none`) and the workers. -/
abbrev Party := Option Runner

/-- The number of parties the barrier is made for. -/
def parties : Nat := 3

abbrev Rows := List (List String)

/-- What a worker sends: its rows and its exception. -/
abbrev Outcome := Option Rows × Option String

/-- What a `ConcurrentRunner` is made with, but for the barrier and the delay. -/
structure Config where
  name      : String
  sql       : String
  hasResult : Bool
deriving DecidableEq, Repr

/-- The call of `run` that is next. -/
inductive WorkerPc where
  | unstarted
  | connect
  | arrive
  | wait
  | sleep
  | execute
  | fetchall
  | commit
  | close
  | send
  | ended
  | died
deriving DecidableEq, Repr

/-- A worker process.  `executed` counts the statements it has given to the server, `pipe` is what it sent and the
parent has not read. -/
structure Worker where
  pc        : WorkerPc
  connected : Bool
  executed  : Nat
  result    : Option Rows
  exception : Option String
  pipe      : List Outcome
deriving DecidableEq, Repr

/-- The call of `main` that is next, with the workers its loop has not come to. -/
inductive MainPc where
  | setup
  | start (left : List Runner)
  | arrive
  | wait
  | getResult (left : List Runner)
  | join (left : List Runner)
  | report (left : List Runner)
  | ended
  | raised
deriving DecidableEq, Repr

inductive Report where
  | gotException (name exception : String)
  | gotResult (name : String) (result : Rows)
  | succeededSilently (name : String)
deriving DecidableEq, Repr

/-- The processes.  `outcome` is what the parent's own copy of each runner holds. -/
structure State where
  meeting : Meeting Party
  main    : MainPc
  worker  : Runner → Worker
  outcome : Runner → Outcome
  printed : List Report

def State.start : State where
  meeting := .start
  main    := .setup
  worker  := fun _ => ⟨.unstarted, false, 0, none, none, []⟩
  outcome := fun _ => (none, none)
  printed := []

/-- What a call does: it returns (`fetchall` with rows), it raises, or the time at the barrier is up. -/
inductive Act where
  | returns
  | rows (r : Rows)
  | raises (ex : String)
  | timesOut
deriving DecidableEq, Repr

inductive Event where
  | main (a : Act)
  | worker (w : Runner) (a : Act)
deriving DecidableEq, Repr

section
variable (config : Runner → Config)

/-- A worker's calls but for the barrier.  `try` is around the statement and its `commit`. -/
def Worker.step (hasResult : Bool) (w : Worker) : Act → Option Worker
  | .returns   =>
    match w.pc with
    | .connect => some { w with pc := .arrive, connected := true }
    | .sleep   => some { w with pc := .execute }
    | .execute => some { w with pc := if hasResult then .fetchall else .commit, executed := w.executed + 1 }
    | .commit  => some { w with pc := .close }
    | .close   => some { w with pc := .send }
    | .send    => some { w with pc := .ended, pipe := w.pipe ++ [(w.result, w.exception)] }
    | _        => none
  | .rows r    =>
    match w.pc with
    | .fetchall => some { w with pc := .commit, result := some r }
    | _         => none
  | .raises ex =>
    match w.pc with
    | .execute           => some { w with pc := .close, exception := some ex, executed := w.executed + 1 }
    | .fetchall          => some { w with pc := .close, exception := some ex }
    | .commit            => some { w with pc := .close, exception := some ex }
    | .connect           => some { w with pc := .died }
    | .sleep             => some { w with pc := .died }
    | .close             => some { w with pc := .died }
    | .send              => some { w with pc := .died }
    | _                  => none
  | .timesOut  => none

def report (w : Runner) (o : Outcome) : Report :=
  match o with
  | (_, some ex)      => .gotException (config w).name ex
  | (some r, none)    => .gotResult (config w).name r
  | (none, none)      => .succeededSilently (config w).name

namespace State

def set (s : State) (w : Runner) (x : Worker) : State := { s with worker := Function.update s.worker w x }

def goto (s : State) (pc : MainPc) : State := { s with main := pc }

/-- `run_barrier.wait()` in a worker. -/
def workerWaits (s : State) (w : Runner) (r : Meeting Party × Bool) (next : WorkerPc) : State :=
  { s.set w { s.worker w with pc := if r.2 then next else .died } with meeting := r.1 }

/-- The same in the parent. -/
def mainWaits (s : State) (r : Meeting Party × Bool) (next : MainPc) : State :=
  { s with meeting := r.1, main := if r.2 then next else .raised }

def workerStep (s : State) (w : Runner) (a : Act) : Option State :=
  match (s.worker w).pc, a with
  | .arrive, .returns => (s.meeting.enter parties (some w)).map (s.workerWaits w · .wait)
  | .wait, .returns   => (s.meeting.leave (some w) false).map (s.workerWaits w · .sleep)
  | .wait, .timesOut  => (s.meeting.leave (some w) true).map (s.workerWaits w · .sleep)
  | _, _              => ((s.worker w).step (config w).hasResult a).map (s.set w)

def mainReturns (s : State) : Option State :=
  match s.main with
  | .setup                 => some (s.goto (.start workers))
  | .start (w :: left)     => some ((s.set w { s.worker w with pc := .connect }).goto (.start left))
  | .start []              => some (s.goto .arrive)
  | .arrive                => (s.meeting.enter parties none).map (s.mainWaits · .wait)
  | .wait                  => (s.meeting.leave none false).map (s.mainWaits · (.getResult workers))
  | .getResult (w :: left) =>
    match (s.worker w).pipe with
    | []        => none
    | o :: rest =>
      some { (s.set w { s.worker w with pipe := rest }).goto (.getResult left) with
        outcome := Function.update s.outcome w o }
  | .getResult []          => some (s.goto (.join workers))
  | .join (w :: left)      =>
    match (s.worker w).pc with
    | .ended | .died => some (s.goto (.join left))
    | _              => none
  | .join []               => some (s.goto (.report workers))
  | .report (w :: left)    =>
    some { s with main := .report left, printed := s.printed ++ [report config w (s.outcome w)] }
  | .report []             => some (s.goto .ended)
  | .ended                 => none
  | .raised                => none

def mainStep (s : State) : Act → Option State
  | .returns  => s.mainReturns config
  | .rows _   => none
  | .raises _ =>
    match s.main with
    | .setup | .start _      => some (s.goto .raised)
    -- what was sent cannot be unpickled; before that `recv` blocks
    | .getResult (w :: _)    =>
      match (s.worker w).pipe with
      | []        => none
      | _ :: rest => some ((s.set w { s.worker w with pipe := rest }).goto .raised)
    | _                      => none
  | .timesOut =>
    match s.main with
    | .wait => (s.meeting.leave none true).map (s.mainWaits · (.getResult workers))
    | _     => none

def step (s : State) : Event → Option State
  | .main a     => s.mainStep config a
  | .worker w a => s.workerStep config w a

end State

/-! ## What is to hold -/

/-- What came of a worker's statement. -/
def Worker.came (w : Worker) : Outcome := (w.result, w.exception)

/-- **The race is fair and truly told**: a worker runs its statement only when it is through the barrier, so that
everybody has come and all workers are connected; none runs twice, and none at all where somebody was turned away; what
is reported of a worker is what came of its statement. -/
structure Raced (s : State) : Prop where
  together : ∀ w, (s.worker w).executed ≠ 0 → s.meeting.seat (some w) = .passed ∧
    (∀ v, (s.worker v).connected = true) ∧ ∀ p, s.meeting.seat p = .inside ∨ s.meeting.seat p = .passed
  once     : ∀ w, (s.worker w).executed ≤ 1
  refused  : ∀ p, s.meeting.seat p = .refused → ∀ w, (s.worker w).executed = 0
  printed  : s.printed <+: workers.map (fun w => report config w (s.worker w).came)
  ended    : s.main = .ended → s.printed = workers.map (fun w => report config w (s.worker w).came) ∧
    ∀ w, (s.worker w).executed = 1

/-- **How it ends**: with both outcomes reported; with an exception of the parent; or the parent waits for ever for a
worker that died after the barrier. -/
structure Settled (s : State) : Prop where
  parent  : s.main = .ended ∨ s.main = .raised ∨
    ∃ w left, s.main = .getResult (w :: left) ∧ (s.worker w).pc = .died ∧ s.meeting.seat (some w) = .passed
  workers : ∀ w, (s.worker w).pc = .ended ∨ (s.worker w).pc = .died ∨ ((s.worker w).pc = .unstarted ∧ s.main = .raised)

/-! ## Where a process is -/

/-- The seat of a party that is there; a process that is over may have any. -/
def WorkerPc.seat? : WorkerPc → Option Seat
  | .unstarted | .connect | .arrive => some .outside
  | .wait                           => some .inside
  | .died                           => none
  | _                               => some .passed

def MainPc.seat? : MainPc → Option Seat
  | .setup | .start _ | .arrive => some .outside
  | .wait                       => some .inside
  | .raised                     => none
  | _                           => some .passed

/-- How many statements a worker that is there has run. -/
def WorkerPc.runs? : WorkerPc → Option Nat
  | .unstarted | .connect | .arrive | .wait | .sleep | .execute => some 0
  | .died                                                       => none
  | _                                                           => some 1

/-- The workers whose pipe the parent has still to read. -/
def MainPc.pending : MainPc → List Runner
  | .getResult left                            => left
  | .join _ | .report _ | .ended | .raised     => []
  | _                                          => workers

/-- The workers that are reported. -/
def MainPc.Reports (done : List Runner) : MainPc → Prop
  | .report left => done ++ left = workers
  | .ended       => done = workers
  | _            => done = []

structure Worker.Ok (x : Worker) (seat : Seat) : Prop where
  place     : ∀ y, x.pc.seat? = some y → seat = y
  count     : ∀ n, x.pc.runs? = some n → x.executed = n
  once      : x.executed ≤ 1
  quiet     : seat ≠ .passed → x.executed = 0
  connected : x.pc = .arrive ∨ seat ≠ .outside → x.connected = true
  waits     : seat = .inside → x.pc = .wait
  unsent    : x.pc ≠ .ended → x.pipe = []

/-- The workers the parent has still to start. -/
def MainPc.toStart : MainPc → List Runner
  | .setup      => workers
  | .start left => left
  | _           => []

def MainPc.todo : MainPc → List Runner
  | .start left | .getResult left | .join left | .report left => left
  | _                                                         => []

structure Inv (s : State) : Prop where
  meeting : s.meeting.AllOrNone
  todo    : s.main.todo <:+ workers
  fresh   : ∀ w ∈ s.main.toStart, (s.worker w).pc = .unstarted
  started : ∀ w, (s.worker w).pc = .unstarted → w ∈ s.main.toStart ∨ s.main = .raised
  main    : ∀ y, s.main.seat? = some y → s.meeting.seat none = y
  worker  : ∀ w, (s.worker w).Ok (s.meeting.seat (some w))
  sent    : ∀ w ∈ s.main.pending, (s.worker w).pc = .ended → (s.worker w).pipe = [(s.worker w).came]
  read    : ∀ w, w ∉ s.main.pending → s.main ≠ .raised →
    (s.worker w).pc = .ended ∧ s.outcome w = (s.worker w).came
  printed : ∃ done, s.main.Reports done ∧ s.printed = done.map (fun w => report config w (s.worker w).came)

theorem mem_workers (w : Runner) : w ∈ workers := by cases w <;> decide

theorem inv_start : Inv config .start where
  meeting := Meeting.allOrNone_start
  todo    := List.nil_suffix
  fresh   := fun _ _ => rfl
  started := fun w _ => Or.inl (mem_workers w)
  main    := fun _ h => Option.some.inj h
  worker  := fun _ => ⟨fun _ h => Option.some.inj h, fun _ h => Option.some.inj h, Nat.zero_le 1, fun _ => rfl,
    fun h => (nomatch h.resolve_right (not_not_intro rfl)), (nomatch ·), fun _ => rfl⟩
  sent    := fun _ _ h => nomatch h
  read    := fun w hw => absurd (mem_workers w) hw
  printed := ⟨[], rfl, rfl⟩

variable {config} {s s' : State} {x x' : Worker} {seat : Seat} {hasResult : Bool} {a : Act} {w : Runner}

/-- A call that runs no statement. -/
theorem Worker.Ok.moves (hx : x.Ok seat) (hwait : x.pc ≠ .wait)
    (hplace : ∀ y, x'.pc.seat? = some y → x.pc.seat? = some y)
    (hcount : ∀ n, x'.pc.runs? = some n → x.pc.runs? = some n)
    (hexecuted : x'.executed = x.executed) (hconn : x'.connected = true ∨ x'.connected = x.connected ∧ x'.pc ≠ .arrive)
    (hpipe : x'.pc ≠ .ended → x'.pipe = []) : x'.Ok seat where
  place     := fun y h => hx.place y (hplace y h)
  count     := fun n h => hexecuted.trans (hx.count n (hcount n h))
  once      := by rw [hexecuted]; exact hx.once
  quiet     := fun h => hexecuted.trans (hx.quiet h)
  connected := fun h => by
    rcases hconn with hc | ⟨hc, hne⟩
    · exact hc
    · exact hc.trans (hx.connected (Or.inr (h.resolve_left hne)))
  waits     := fun h => absurd (hx.waits h) hwait
  unsent    := hpipe

/-- The call that runs the statement. -/
theorem Worker.Ok.executes (hx : x.Ok seat) (hpc : x.pc = .execute) (hplace : x'.pc.seat? = some .passed)
    (hcount : x'.pc.runs? = some 1) (hexecuted : x'.executed = x.executed + 1) (hconn : x'.connected = x.connected)
    (hpipe : x'.pipe = []) : x'.Ok seat := by
  have hpassed : seat = .passed := hx.place .passed (by rw [hpc]; rfl)
  have hone : x'.executed = 1 := by rw [hexecuted, hx.count 0 (by rw [hpc]; rfl)]
  have hne : x'.pc ≠ .arrive := fun h => by rw [h] at hplace; cases hplace
  subst hpassed
  exact {
    place     := fun y h => Option.some.inj (hplace.symm.trans h)
    count     := fun n h => hone.trans (Option.some.inj (hcount.symm.trans h))
    once      := Nat.le_of_eq hone
    quiet     := fun h => absurd rfl h
    connected := fun h => hconn.trans (hx.connected (Or.inr (h.resolve_left hne)))
    waits     := (nomatch ·)
    unsent    := fun _ => hpipe }

/-- **A call of a worker**, but for the barrier: it leaves the seat alone, and the last one sends what came. -/
theorem Worker.Ok.step (hx : x.Ok seat) (h : x.step hasResult a = some x') :
    x'.Ok seat ∧ x.pc ≠ .ended ∧ (x'.pc = .ended → x'.pipe = [x'.came]) := by
  obtain ⟨pc, connected, executed, result, exception, pipe⟩ := x
  have hpipe : pc ≠ .ended → pipe = [] := hx.unsent
  cases a with
  | timesOut => cases h
  | returns =>
    cases pc with
    | connect =>
      cases h
      exact ⟨hx.moves (nomatch ·) (fun _ h => h) (fun _ h => h) rfl (Or.inl rfl) (fun _ => hpipe (nomatch ·)),
        (nomatch ·), (nomatch ·)⟩
    | sleep =>
      cases h
      exact ⟨hx.moves (nomatch ·) (fun _ h => h) (fun _ h => h) rfl (Or.inr ⟨rfl, (nomatch ·)⟩)
        (fun _ => hpipe (nomatch ·)), (nomatch ·), (nomatch ·)⟩
    | execute =>
      cases h
      refine ⟨hx.executes rfl ?_ ?_ rfl rfl (hpipe (nomatch ·)), (nomatch ·), ?_⟩
      · cases hasResult <;> rfl
      · cases hasResult <;> rfl
      · cases hasResult <;> exact (nomatch ·)
    | commit =>
      cases h
      exact ⟨hx.moves (nomatch ·) (fun _ h => h) (fun _ h => h) rfl (Or.inr ⟨rfl, (nomatch ·)⟩)
        (fun _ => hpipe (nomatch ·)), (nomatch ·), (nomatch ·)⟩
    | close =>
      cases h
      exact ⟨hx.moves (nomatch ·) (fun _ h => h) (fun _ h => h) rfl (Or.inr ⟨rfl, (nomatch ·)⟩)
        (fun _ => hpipe (nomatch ·)), (nomatch ·), (nomatch ·)⟩
    | send =>
      cases h
      refine ⟨hx.moves (nomatch ·) (fun _ h => h) (fun _ h => h) rfl (Or.inr ⟨rfl, (nomatch ·)⟩)
        (fun h => absurd rfl h), (nomatch ·), fun _ => ?_⟩
      rw [hpipe (nomatch ·), List.nil_append]
      rfl
    | _ => cases h
  | rows r =>
    cases pc with
    | fetchall =>
      cases h
      exact ⟨hx.moves (nomatch ·) (fun _ h => h) (fun _ h => h) rfl (Or.inr ⟨rfl, (nomatch ·)⟩)
        (fun _ => hpipe (nomatch ·)), (nomatch ·), (nomatch ·)⟩
    | _ => cases h
  | raises ex =>
    have hdied : pc ≠ .wait → pc ≠ .ended → Worker.Ok ⟨.died, connected, executed, result, exception, pipe⟩ seat :=
      fun hwait hend => hx.moves hwait (fun _ h => (nomatch h)) (fun _ h => (nomatch h)) rfl (Or.inr ⟨rfl, (nomatch ·)⟩)
        (fun _ => hpipe hend)
    cases pc with
    | execute => cases h; exact ⟨hx.executes rfl rfl rfl rfl rfl (hpipe (nomatch ·)), (nomatch ·), (nomatch ·)⟩
    | fetchall =>
      cases h
      exact ⟨hx.moves (nomatch ·) (fun _ h => h) (fun _ h => h) rfl (Or.inr ⟨rfl, (nomatch ·)⟩)
        (fun _ => hpipe (nomatch ·)), (nomatch ·), (nomatch ·)⟩
    | commit =>
      cases h
      exact ⟨hx.moves (nomatch ·) (fun _ h => h) (fun _ h => h) rfl (Or.inr ⟨rfl, (nomatch ·)⟩)
        (fun _ => hpipe (nomatch ·)), (nomatch ·), (nomatch ·)⟩
    | connect => cases h; exact ⟨hdied (nomatch ·) (nomatch ·), (nomatch ·), (nomatch ·)⟩
    | sleep => cases h; exact ⟨hdied (nomatch ·) (nomatch ·), (nomatch ·), (nomatch ·)⟩
    | close => cases h; exact ⟨hdied (nomatch ·) (nomatch ·), (nomatch ·), (nomatch ·)⟩
    | send => cases h; exact ⟨hdied (nomatch ·) (nomatch ·), (nomatch ·), (nomatch ·)⟩
    | _ => cases h

/-- **A worker at the barrier** takes the seat it is given and goes on, or is refused and dies. -/
theorem Worker.Ok.takes {seat' : Seat} {pc : WorkerPc} (hx : x.Ok seat) (hat : x.pc = .arrive ∨ x.pc = .wait)
    (hgoes : pc.seat? = some seat' ∧ pc.runs? = some 0 ∧ (seat' = .inside → pc = .wait) ∨
      pc = .died ∧ seat' = .refused) : Worker.Ok { x with pc := pc } seat' := by
  have hseat : x.pc = .arrive ∧ seat = .outside ∨ x.pc = .wait ∧ seat = .inside := by
    rcases hat with hpc | hpc
    · exact Or.inl ⟨hpc, hx.place .outside (by rw [hpc]; rfl)⟩
    · exact Or.inr ⟨hpc, hx.place .inside (by rw [hpc]; rfl)⟩
  have h0 : x.executed = 0 := hx.quiet (by rcases hseat with ⟨-, rfl⟩ | ⟨-, rfl⟩ <;> rintro ⟨⟩)
  have hconn : x.connected = true :=
    hx.connected (hseat.imp And.left (fun ⟨_, hin⟩ => by rw [hin]; rintro ⟨⟩))
  have hpipe : x.pipe = [] := hx.unsent (by rcases hat with hpc | hpc <;> rw [hpc] <;> rintro ⟨⟩)
  rcases hgoes with ⟨hplace, hruns, hwaits⟩ | ⟨rfl, rfl⟩
  · exact ⟨fun _ h => Option.some.inj (hplace.symm.trans h), fun _ h => h0.trans (Option.some.inj (hruns.symm.trans h)),
      hx.once, fun _ => h0, fun _ => hconn, hwaits, fun _ => hpipe⟩
  · exact ⟨fun _ h => (nomatch h), fun _ h => (nomatch h), hx.once, fun _ => h0, fun _ => hconn, (nomatch ·),
      fun _ => hpipe⟩

/-! ## The steps -/

theorem MainPc.Reports.nil {done : List Runner} {pc : MainPc} (h : pc.Reports done)
    (hw : w ∈ pc.pending ∨ pc = .raised) :
    done = [] := by
  cases pc with
  | report left => rcases hw with hw | hw <;> cases hw
  | ended => rcases hw with hw | hw <;> cases hw
  | _ => exact h

/-- **A step of a worker** that is running. -/
theorem Inv.worker_step (hi : Inv config s) (hunstarted : (s.worker w).pc ≠ .unstarted)
    (hended : (s.worker w).pc ≠ .ended)
    {m : Meeting Party} (hm : m.AllOrNone) (hseat : ∀ p, p ≠ some w → m.seat p = s.meeting.seat p)
    (hx : x'.Ok (m.seat (some w))) (hsent : x'.pc = .ended → x'.pipe = [x'.came]) (hne : x'.pc ≠ .unstarted) :
    Inv config { s.set w x' with meeting := m } := by
  have hself : (s.set w x').worker w = x' := Function.update_self ..
  have hother : ∀ {v}, v ≠ w → (s.set w x').worker v = s.worker v := fun hv => Function.update_of_ne hv ..
  have hpending : w ∈ s.main.pending ∨ s.main = .raised := by
    by_contra hnot
    rw [not_or] at hnot
    exact hended (hi.read w hnot.1 hnot.2).1
  refine ⟨hm, hi.todo, fun v hv => ?_, fun v hv => ?_, fun y hy => ?_, fun v => ?_, fun v hv hpc => ?_,
    fun v hv hr => ?_, ?_⟩
  · have hvw : v ≠ w := fun h => hunstarted (by rw [← h]; exact hi.fresh v hv)
    exact (congrArg Worker.pc (hother hvw)).trans (hi.fresh v hv)
  · by_cases hvw : v = w
    · subst hvw; exact absurd ((congrArg Worker.pc hself).symm.trans hv) hne
    · exact hi.started v ((congrArg Worker.pc (hother hvw)).symm.trans hv)
  · exact (hseat none (nomatch ·)).trans (hi.main y hy)
  · by_cases hvw : v = w
    · subst hvw
      show Worker.Ok ((s.set v x').worker v) _
      rw [hself]; exact hx
    · show Worker.Ok ((s.set w x').worker v) (m.seat (some v))
      rw [hother hvw, hseat (some v) (fun h => hvw (Option.some.inj h))]
      exact hi.worker v
  · by_cases hvw : v = w
    · subst hvw
      show ((s.set v x').worker v).pipe = [((s.set v x').worker v).came]
      rw [hself]; exact hsent ((congrArg Worker.pc hself).symm.trans hpc)
    · show ((s.set w x').worker v).pipe = [((s.set w x').worker v).came]
      rw [hother hvw]; exact hi.sent v hv ((congrArg Worker.pc (hother hvw)).symm.trans hpc)
  · obtain ⟨hpc, hout⟩ := hi.read v hv hr
    have hvw : v ≠ w := fun h => hended (by rw [← h]; exact hpc)
    exact ⟨(congrArg Worker.pc (hother hvw)).trans hpc, hout.trans (congrArg Worker.came (hother hvw)).symm⟩
  · obtain ⟨done, hdone, hprinted⟩ := hi.printed
    have hnil := hdone.nil hpending
    subst hnil
    exact ⟨[], hdone, hprinted⟩

/-- **What a worker can do**: come to the barrier, leave it, or make its next call. -/
theorem workerStep_cases (h : s.workerStep config w a = some s') :
    ((s.worker w).pc = .arrive ∧ ∃ r, s.meeting.enter parties (some w) = some r ∧ s' = s.workerWaits w r .wait) ∨
    ((s.worker w).pc = .wait ∧ ∃ t r, s.meeting.leave (some w) t = some r ∧ s' = s.workerWaits w r .sleep) ∨
    ∃ x', (s.worker w).step (config w).hasResult a = some x' ∧ s' = s.set w x' := by
  unfold State.workerStep at h
  split at h
  · rename_i hpc
    obtain ⟨r, hr, rfl⟩ := Option.map_eq_some_iff.1 h
    exact Or.inl ⟨hpc, r, hr, rfl⟩
  · rename_i hpc
    obtain ⟨r, hr, rfl⟩ := Option.map_eq_some_iff.1 h
    exact Or.inr (Or.inl ⟨hpc, false, r, hr, rfl⟩)
  · rename_i hpc
    obtain ⟨r, hr, rfl⟩ := Option.map_eq_some_iff.1 h
    exact Or.inr (Or.inl ⟨hpc, true, r, hr, rfl⟩)
  · obtain ⟨x', hx', rfl⟩ := Option.map_eq_some_iff.1 h
    exact Or.inr (Or.inr ⟨x', hx', rfl⟩)

theorem Worker.step_pc (h : x.step hasResult a = some x') : x.pc ≠ .unstarted ∧ x'.pc ≠ .unstarted := by
  obtain ⟨pc, connected, executed, result, exception, pipe⟩ := x
  cases a with
  | timesOut => cases h
  | rows r =>
    cases pc with
    | fetchall => cases h; exact ⟨(nomatch ·), (nomatch ·)⟩
    | _ => cases h
  | raises ex => cases pc <;> cases h <;> exact ⟨(nomatch ·), (nomatch ·)⟩
  | returns =>
    cases pc with
    | execute => cases h; cases hasResult <;> exact ⟨(nomatch ·), (nomatch ·)⟩
    | _ => cases h <;> exact ⟨(nomatch ·), (nomatch ·)⟩

theorem inv_worker (hi : Inv config s) (h : s.workerStep config w a = some s') : Inv config s' := by
  have hx := hi.worker w
  rcases workerStep_cases h with ⟨hpc, ⟨m, through⟩, hr, rfl⟩ | ⟨hpc, t, ⟨m, through⟩, hr, rfl⟩ | ⟨x', hx', rfl⟩
  · obtain ⟨-, hcase⟩ := Meeting.enter_eq_some hr
    have hseats : m.seat = Function.update s.meeting.seat (some w) (if through then .inside else .refused) := by
      rcases hcase with ⟨-, rfl, rfl⟩ | ⟨-, rfl, rfl⟩ <;> rfl
    refine hi.worker_step (by rw [hpc]; exact (nomatch ·)) (by rw [hpc]; exact (nomatch ·)) (hi.meeting.enter hr)
      (fun p hp => by rw [hseats, Function.update_of_ne hp]) ?_ ?_ ?_
    · rw [hseats, Function.update_self]
      refine hx.takes (Or.inl hpc) ?_
      cases through
      · exact Or.inr ⟨rfl, rfl⟩
      · exact Or.inl ⟨rfl, rfl, fun _ => rfl⟩
    · cases through <;> exact (nomatch ·)
    · cases through <;> exact (nomatch ·)
  · obtain ⟨-, hcase⟩ := Meeting.leave_eq_some hr
    have hseats : m.seat = Function.update s.meeting.seat (some w) (if through then .passed else .refused) := by
      rcases hcase with ⟨-, rfl, rfl⟩ | ⟨-, rfl, rfl⟩ <;> rfl
    refine hi.worker_step (by rw [hpc]; exact (nomatch ·)) (by rw [hpc]; exact (nomatch ·)) (hi.meeting.leave hr)
      (fun p hp => by rw [hseats, Function.update_of_ne hp]) ?_ ?_ ?_
    · rw [hseats, Function.update_self]
      refine hx.takes (Or.inr hpc) ?_
      cases through
      · exact Or.inr ⟨rfl, rfl⟩
      · exact Or.inl ⟨rfl, rfl, (nomatch ·)⟩
    · cases through <;> exact (nomatch ·)
    · cases through <;> exact (nomatch ·)
  · obtain ⟨hok, hended, hsent⟩ := hx.step hx'
    obtain ⟨hunstarted, hne⟩ := Worker.step_pc hx'
    exact hi.worker_step hunstarted hended hi.meeting (fun _ _ => rfl) hok hsent hne

/-- The parent goes on to another call, and that is all. -/
theorem Inv.goto (hi : Inv config s) (hr : s.main ≠ .raised) {pc : MainPc} (htodo : pc.todo <:+ workers)
    (hstart : ∀ w, w ∈ pc.toStart ↔ w ∈ s.main.toStart) (hseat : ∀ y, pc.seat? = some y → s.main.seat? = some y)
    (hpending : ∀ w, w ∈ pc.pending ↔ w ∈ s.main.pending) (hreports : ∀ done, s.main.Reports done → pc.Reports done) :
    Inv config (s.goto pc) where
  meeting := hi.meeting
  todo    := htodo
  fresh   := fun w hw => hi.fresh w ((hstart w).1 hw)
  started := fun w hw => Or.inl ((hstart w).2 ((hi.started w hw).resolve_right hr))
  main    := fun y hy => hi.main y (hseat y hy)
  worker  := hi.worker
  sent    := fun w hw => hi.sent w ((hpending w).1 hw)
  read    := fun w hw _ => hi.read w (fun h => hw ((hpending w).2 h)) hr
  printed := by
    obtain ⟨done, hdone, hprinted⟩ := hi.printed
    exact ⟨done, hreports done hdone, hprinted⟩

/-- The parent gives up, whatever becomes of the barrier and of the pipes. -/
theorem Inv.raise (hi : Inv config s) (hreports : ∀ done, s.main.Reports done → done = []) {m : Meeting Party}
    (hm : m.AllOrNone) {worker : Runner → Worker} (hworker : ∀ w, (worker w).Ok (m.seat (some w))) :
    Inv config { s with meeting := m, worker := worker, main := .raised } where
  meeting := hm
  todo    := List.nil_suffix
  fresh   := fun _ hw => nomatch hw
  started := fun _ _ => Or.inr rfl
  main    := fun _ hy => nomatch hy
  worker  := hworker
  sent    := fun _ hw => nomatch hw
  read    := fun _ _ hr => absurd rfl hr
  printed := by
    obtain ⟨done, hdone, hprinted⟩ := hi.printed
    rw [hreports done hdone] at hprinted
    exact ⟨[], rfl, hprinted⟩

theorem notMem_of_suffix {left : List Runner} (h : w :: left <:+ workers) : w ∉ left := by
  have hnodup : (w :: left).Nodup := h.sublist.nodup (by decide)
  exact (List.nodup_cons.1 hnodup).1

/-- The parent starts a worker. -/
theorem Inv.start {left : List Runner} (hi : Inv config s) (hpc : s.main = .start (w :: left)) :
    Inv config ((s.set w { s.worker w with pc := .connect }).goto (.start left)) := by
  have hsuf : w :: left <:+ workers := by have h := hi.todo; rwa [hpc] at h
  have hunstarted : (s.worker w).pc = .unstarted := hi.fresh w (by rw [hpc]; exact List.mem_cons_self)
  have hother : ∀ {v}, v ≠ w → (s.set w { s.worker w with pc := .connect }).worker v = s.worker v :=
    fun hv => Function.update_of_ne hv ..
  have hself : (s.set w { s.worker w with pc := .connect }).worker w = { s.worker w with pc := .connect } :=
    Function.update_self ..
  refine ⟨hi.meeting, (List.suffix_cons w left).trans hsuf, fun v hv => ?_, fun v hv => ?_, fun y hy => ?_, fun v => ?_,
    fun v hv hended => ?_, fun v hv _ => absurd (mem_workers v) hv, ?_⟩
  · have hvw : v ≠ w := fun h => notMem_of_suffix hsuf (by rw [← h]; exact hv)
    exact (congrArg Worker.pc (hother hvw)).trans (hi.fresh v (by rw [hpc]; exact List.mem_cons_of_mem w hv))
  · by_cases hvw : v = w
    · subst hvw; exact nomatch (congrArg Worker.pc hself).symm.trans hv
    · have h := hi.started v ((congrArg Worker.pc (hother hvw)).symm.trans hv)
      rw [hpc] at h
      exact Or.inl ((List.mem_cons.1 (h.resolve_right (nomatch ·))).resolve_left hvw)
  · exact hi.main y (by rw [hpc]; exact hy)
  · by_cases hvw : v = w
    · subst hvw
      have hx := hi.worker v
      have hmoves : Worker.Ok { s.worker v with pc := .connect } (s.meeting.seat (some v)) :=
        hx.moves (by rw [hunstarted]; exact (nomatch ·)) (fun _ h => by rw [hunstarted]; exact h)
          (fun _ h => by rw [hunstarted]; exact h) rfl (Or.inr ⟨rfl, (nomatch ·)⟩)
          (fun _ => hx.unsent (by rw [hunstarted]; exact (nomatch ·)))
      rw [← hself] at hmoves
      exact hmoves
    · have hx := hi.worker v
      rw [← hother hvw] at hx
      exact hx
  · by_cases hvw : v = w
    · subst hvw; exact nomatch (congrArg Worker.pc hself).symm.trans hended
    · have h := hi.sent v (by rw [hpc]; exact mem_workers v) ((congrArg Worker.pc (hother hvw)).symm.trans hended)
      rw [← hother hvw] at h
      exact h
  · obtain ⟨done, hdone, hprinted⟩ := hi.printed
    rw [hpc] at hdone
    rw [show done = [] from hdone] at hprinted
    exact ⟨[], rfl, hprinted⟩

/-- A worker whose pipe has something in it has ended, and stays as it is when that is read. -/
theorem Worker.Ok.read (hx : x.Ok seat) {o : Outcome} {rest : List Outcome} (hpipe : x.pipe = o :: rest) :
    x.pc = .ended ∧ Worker.Ok { x with pipe := rest } seat := by
  have hended : x.pc = .ended := by
    by_contra hne
    rw [hx.unsent hne] at hpipe
    cases hpipe
  exact ⟨hended, hx.moves (by rw [hended]; rintro ⟨⟩) (fun _ h => h) (fun _ h => h) rfl
    (Or.inr ⟨rfl, by dsimp only; rw [hended]; rintro ⟨⟩⟩) (fun h => absurd hended h)⟩

/-- The parent reads the outcome of a worker, which has ended. -/
theorem Inv.getResult {left : List Runner} (hi : Inv config s) (hpc : s.main = .getResult (w :: left)) {o : Outcome}
    {rest : List Outcome} (hpipe : (s.worker w).pipe = o :: rest) :
    Inv config { (s.set w { s.worker w with pipe := rest }).goto (.getResult left) with
      outcome := Function.update s.outcome w o } := by
  have hsuf : w :: left <:+ workers := by have h := hi.todo; rwa [hpc] at h
  obtain ⟨hended, hread⟩ := (hi.worker w).read hpipe
  have hcame := hi.sent w (by rw [hpc]; exact List.mem_cons_self) hended
  rw [hpipe, List.cons.injEq] at hcame
  obtain ⟨rfl, rfl⟩ := hcame
  have hother : ∀ {v}, v ≠ w → (s.set w { s.worker w with pipe := [] }).worker v = s.worker v :=
    fun hv => Function.update_of_ne hv ..
  have hself : (s.set w { s.worker w with pipe := [] }).worker w = { s.worker w with pipe := [] } :=
    Function.update_self ..
  have hpcs : ∀ v, ((s.set w { s.worker w with pipe := [] }).worker v).pc = (s.worker v).pc := fun v => by
    by_cases hvw : v = w
    · subst hvw; rw [hself]
    · rw [hother hvw]
  refine ⟨hi.meeting, (List.suffix_cons w left).trans hsuf, fun v hv => (nomatch hv), fun v hv => ?_, fun y hy => ?_,
    fun v => ?_, fun v hv hv' => ?_, fun v hv _ => ?_, ?_⟩
  · have h := hi.started v ((hpcs v).symm.trans hv)
    rw [hpc] at h
    exact h.elim (nomatch ·) (nomatch ·)
  · exact hi.main y (by rw [hpc]; exact hy)
  · by_cases hvw : v = w
    · subst hvw
      rw [← hself] at hread
      exact hread
    · have h := hi.worker v
      rw [← hother hvw] at h
      exact h
  · have hvw : v ≠ w := fun h => notMem_of_suffix hsuf (by rw [← h]; exact hv)
    have h := hi.sent v (by rw [hpc]; exact List.mem_cons_of_mem w hv) ((hpcs v).symm.trans hv')
    rw [← hother hvw] at h
    exact h
  · by_cases hvw : v = w
    · subst hvw
      refine ⟨(hpcs v).trans hended, ?_⟩
      show Function.update s.outcome v _ v = ((s.set v { s.worker v with pipe := [] }).worker v).came
      rw [Function.update_self, hself]
      rfl
    · have hnot : v ∉ s.main.pending := by
        rw [hpc]
        exact fun h => ((List.mem_cons.1 h).elim hvw hv)
      obtain ⟨hpc', hout⟩ := hi.read v hnot (by rw [hpc]; exact (nomatch ·))
      refine ⟨(hpcs v).trans hpc', ?_⟩
      show Function.update s.outcome w _ v = ((s.set w { s.worker w with pipe := [] }).worker v).came
      rw [Function.update_of_ne hvw, hother hvw]
      exact hout
  · obtain ⟨done, hdone, hprinted⟩ := hi.printed
    rw [hpc] at hdone
    rw [show done = [] from hdone] at hprinted
    exact ⟨[], rfl, hprinted⟩

/-- The parent at the barrier. -/
theorem Inv.mainWaits {pc : MainPc} {y : Seat} (hi : Inv config s) {m : Meeting Party} {through : Bool}
    (hpc : s.main = .arrive ∨ s.main = .wait) (hm : m.AllOrNone)
    (hseats : m.seat = Function.update s.meeting.seat none (if through then y else .refused))
    (hy : pc.seat? = some y) (htodo : pc.todo <:+ workers) (hstart : pc.toStart = []) (hpending : pc.pending = workers)
    (hreports : pc.Reports []) : Inv config (s.mainWaits (m, through) pc) := by
  have hother : ∀ w, m.seat (some w) = s.meeting.seat (some w) := fun w => by
    rw [hseats, Function.update_of_ne (Option.some_ne_none w)]
  have hnil : ∀ done, s.main.Reports done → done = [] := fun done hd => by
    rcases hpc with hpc | hpc <;> rw [hpc] at hd <;> exact hd
  cases through with
  | false => exact hi.raise hnil hm (fun w => by rw [hother w]; exact hi.worker w)
  | true =>
    refine ⟨hm, htodo, fun w hw => ?_, fun w hw => ?_, fun z hz => ?_, fun w => ?_, fun w _ hended => ?_,
      fun w hw _ => ?_, ?_⟩
    · exact absurd (show w ∈ pc.toStart from hw) (by rw [hstart]; exact List.not_mem_nil)
    · rcases hpc with hpc | hpc <;> have h := hi.started w hw <;> rw [hpc] at h <;> exact h.elim (nomatch ·) (nomatch ·)
    · show m.seat none = z
      rw [hseats, Function.update_self]
      exact Option.some.inj (hy.symm.trans hz)
    · show (s.worker w).Ok (m.seat (some w))
      rw [hother w]; exact hi.worker w
    · exact hi.sent w (by rcases hpc with hpc | hpc <;> rw [hpc] <;> exact mem_workers w) hended
    · exact absurd (show w ∈ pc.pending by rw [hpending]; exact mem_workers w) hw
    · obtain ⟨done, hdone, hprinted⟩ := hi.printed
      rw [hnil done hdone] at hprinted
      exact ⟨[], hreports, hprinted⟩

theorem inv_mainReturns (hi : Inv config s) (h : s.mainReturns config = some s') : Inv config s' := by
  have htodo := hi.todo
  unfold State.mainReturns at h
  split at h
  · rename_i hpc
    cases h
    exact hi.goto (by rw [hpc]; exact (nomatch ·)) (List.suffix_refl _) (fun _ => by rw [hpc]; rfl)
      (fun _ h => by rw [hpc]; exact h)
      (fun _ => by rw [hpc]; rfl) (fun _ h => by rw [hpc] at h; exact h)
  · rename_i w left hpc
    cases h
    exact hi.start hpc
  · rename_i hpc
    cases h
    exact hi.goto (by rw [hpc]; exact (nomatch ·)) List.nil_suffix (fun _ => by rw [hpc]; rfl)
      (fun _ h => by rw [hpc]; exact h)
      (fun _ => by rw [hpc]; rfl) (fun _ h => by rw [hpc] at h; exact h)
  · rename_i hpc
    obtain ⟨⟨m, through⟩, hr, rfl⟩ := Option.map_eq_some_iff.1 h
    obtain ⟨-, hcase⟩ := Meeting.enter_eq_some hr
    have hseats : m.seat = Function.update s.meeting.seat none (if through then .inside else .refused) := by
      rcases hcase with ⟨-, rfl, rfl⟩ | ⟨-, rfl, rfl⟩ <;> rfl
    exact hi.mainWaits (Or.inl hpc) (hi.meeting.enter hr) hseats rfl List.nil_suffix rfl rfl rfl
  · rename_i hpc
    obtain ⟨⟨m, through⟩, hr, rfl⟩ := Option.map_eq_some_iff.1 h
    obtain ⟨-, hcase⟩ := Meeting.leave_eq_some hr
    have hseats : m.seat = Function.update s.meeting.seat none (if through then .passed else .refused) := by
      rcases hcase with ⟨-, rfl, rfl⟩ | ⟨-, rfl, rfl⟩ <;> rfl
    exact hi.mainWaits (Or.inr hpc) (hi.meeting.leave hr) hseats rfl (List.suffix_refl _) rfl rfl rfl
  · rename_i w left hpc
    split at h
    · cases h
    · rename_i o rest hpipe
      cases h
      exact hi.getResult hpc hpipe
  · rename_i hpc
    cases h
    exact hi.goto (by rw [hpc]; exact (nomatch ·)) (List.suffix_refl _) (fun _ => by rw [hpc]; rfl)
      (fun _ h => by rw [hpc]; exact h)
      (fun _ => by rw [hpc]; rfl) (fun _ h => by rw [hpc] at h; exact h)
  · rename_i w left hpc
    have hgoto : Inv config (s.goto (.join left)) := by
      rw [hpc] at htodo
      exact hi.goto (by rw [hpc]; exact (nomatch ·)) ((List.suffix_cons w left).trans htodo) (fun _ => by rw [hpc]; rfl)
        (fun _ h => by rw [hpc]; exact h) (fun _ => by rw [hpc]; rfl) (fun _ h => by rw [hpc] at h; exact h)
    split at h
    · cases h; exact hgoto
    · cases h; exact hgoto
    · cases h
  · rename_i hpc
    cases h
    refine hi.goto (by rw [hpc]; exact (nomatch ·)) (List.suffix_refl _) (fun _ => by rw [hpc]; rfl)
      (fun _ h => by rw [hpc]; exact h) (fun _ => by rw [hpc]; rfl) (fun done h => ?_)
    rw [hpc] at h
    rw [show done = [] from h]
    rfl
  · rename_i w left hpc
    cases h
    rw [hpc] at htodo
    obtain ⟨-, hout⟩ := hi.read w (by rw [hpc]; exact List.not_mem_nil) (by rw [hpc]; exact (nomatch ·))
    have hgoto : ∀ printed, (∃ done, (MainPc.report left).Reports done ∧
        printed = done.map (fun w => report config w (s.worker w).came)) →
        Inv config { s with main := .report left, printed := printed } := fun printed hprinted =>
      ⟨hi.meeting, (List.suffix_cons w left).trans htodo, fun _ hw => (nomatch hw), fun v hv => by
        have h := hi.started v hv
        rw [hpc] at h
        exact h.elim (nomatch ·) (nomatch ·), fun y hy => hi.main y (by rw [hpc]; exact hy), hi.worker,
      fun _ hv => (nomatch hv),
        fun v _ _ => hi.read v (by rw [hpc]; exact List.not_mem_nil) (by rw [hpc]; exact (nomatch ·)), hprinted⟩
    obtain ⟨done, hdone, hprinted⟩ := hi.printed
    rw [hpc] at hdone
    refine hgoto _ ⟨done ++ [w], ?_, ?_⟩
    · show (done ++ [w]) ++ left = workers
      rw [List.append_assoc]
      exact hdone
    · rw [hprinted, hout, List.map_append, List.map_singleton]
  · rename_i hpc
    cases h
    refine hi.goto (by rw [hpc]; exact (nomatch ·)) List.nil_suffix (fun _ => by rw [hpc]; rfl)
      (fun _ h => by rw [hpc]; exact h) (fun _ => by rw [hpc]; rfl) (fun done h => ?_)
    rw [hpc] at h
    exact (List.append_nil done).symm.trans h
  · cases h
  · cases h

theorem inv_main (hi : Inv config s) (h : s.mainStep config a = some s') : Inv config s' := by
  cases a with
  | returns => exact inv_mainReturns hi h
  | rows r => cases h
  | raises ex =>
    have hnil : ∀ {pc : MainPc}, s.main = pc → (∀ done, pc.Reports done → done = []) →
        ∀ done, s.main.Reports done → done = [] := fun hpc hnil done h => hnil done (by rw [← hpc]; exact h)
    unfold State.mainStep at h
    dsimp only at h
    split at h
    · rename_i hpc; cases h; exact hi.raise (hnil hpc (fun _ h => h)) hi.meeting hi.worker
    · rename_i hpc; cases h; exact hi.raise (hnil hpc (fun _ h => h)) hi.meeting hi.worker
    · rename_i w left hpc
      split at h
      · cases h
      · rename_i o rest hpipe
        cases h
        refine hi.raise (hnil hpc (fun _ h => h)) hi.meeting (fun v => ?_)
        by_cases hvw : v = w
        · subst hvw
          show Worker.Ok (Function.update s.worker v _ v) _
          rw [Function.update_self]
          exact ((hi.worker v).read hpipe).2
        · show Worker.Ok (Function.update s.worker w _ v) _
          rw [Function.update_of_ne hvw]
          exact hi.worker v
    · cases h
  | timesOut =>
    unfold State.mainStep at h
    dsimp only at h
    split at h
    · rename_i hpc
      obtain ⟨⟨m, through⟩, hr, rfl⟩ := Option.map_eq_some_iff.1 h
      obtain ⟨-, hcase⟩ := Meeting.leave_eq_some hr
      have hseats : m.seat = Function.update s.meeting.seat none (if through then .passed else .refused) := by
        rcases hcase with ⟨-, rfl, rfl⟩ | ⟨-, rfl, rfl⟩ <;> rfl
      exact hi.mainWaits (Or.inr hpc) (hi.meeting.leave hr) hseats rfl (List.suffix_refl _) rfl rfl rfl
    · cases h

theorem inv_step (s : State) (e : Event) (s' : State) (hi : Inv config s) (h : s.step config e = some s') :
    Inv config s' := by
  cases e with
  | main a     => exact inv_main hi h
  | worker w a => exact inv_worker hi h

/-! ## In every state -/

theorem executed_of_ended (hx : x.Ok seat) (h : x.pc = .ended) : x.executed = 1 := hx.count 1 (by rw [h]; rfl)

theorem Inv.raced (hi : Inv config s) : Raced config s := by
  have hpassed : ∀ {w}, (s.worker w).executed ≠ 0 → s.meeting.seat (some w) = .passed := fun {w} h => by
    by_contra hne
    exact h ((hi.worker w).quiet hne)
  obtain ⟨done, hdone, hprinted⟩ := hi.printed
  refine ⟨fun w hw => ?_, fun w => (hi.worker w).once, fun p hp w => ?_, ?_, fun hended => ?_⟩
  · have htogether := hi.meeting.together (hpassed hw)
    refine ⟨hpassed hw, fun v => (hi.worker v).connected (Or.inr fun h => ?_), htogether⟩
    rcases htogether (some v) with hv | hv <;> rw [h] at hv <;> cases hv
  · by_contra hne
    rcases hi.meeting.together (hpassed hne) p with h | h <;> rw [hp] at h <;> cases h
  · rw [hprinted]
    refine List.IsPrefix.map _ ?_
    cases hm : s.main with
    | report left => rw [hm] at hdone; exact ⟨left, hdone⟩
    | ended => rw [hm] at hdone; rw [show done = workers from hdone]
    | _ => rw [hm] at hdone; rw [show done = [] from hdone]; exact List.nil_prefix
  · rw [hended] at hdone
    rw [hprinted, show done = workers from hdone]
    exact ⟨rfl, fun w => executed_of_ended (hi.worker w)
      (hi.read w (by rw [hended]; exact List.not_mem_nil) (by rw [hended]; exact (nomatch ·))).1⟩

/-- **In every run the race is fair and truly told**, whatever the database answers and whoever fails. -/
theorem raced_always (config : Runner → Config) (es : List Event) :
    Runs.Always (State.step config) (Raced config) .start es :=
  Runs.always_of_invariant (fun _ h => h.raced) inv_step es (inv_start config)

/-! ## Its end -/

def WorkerPc.work : WorkerPc → Nat
  | .unstarted     => 0
  | .connect       => 10
  | .arrive        => 9
  | .wait          => 8
  | .sleep         => 7
  | .execute       => 6
  | .fetchall      => 5
  | .commit        => 4
  | .close         => 3
  | .send          => 2
  | .ended | .died => 0

/-- A worker that is started has its calls to make, so they count for the parent until then. -/
def MainPc.work : MainPc → Nat
  | .setup          => 36
  | .start left     => 13 + 11 * left.length
  | .arrive         => 12
  | .wait           => 11
  | .getResult left => 8 + left.length
  | .join left      => 4 + left.length
  | .report left    => 1 + left.length
  | .ended          => 0
  | .raised         => 0

def State.work (s : State) : Nat :=
  s.main.work + (s.worker .runner1).pc.work + (s.worker .runner2).pc.work

theorem work_set (s : State) (w : Runner) (x : Worker) :
    (s.set w x).work + (s.worker w).pc.work = s.work + x.pc.work := by
  have hself : (s.set w x).worker w = x := Function.update_self ..
  have hother : ∀ {v}, v ≠ w → (s.set w x).worker v = s.worker v := fun hv => Function.update_of_ne hv ..
  have hmain : (s.set w x).main = s.main := rfl
  unfold State.work
  cases w with
  | runner1 => rw [hself, hother (show Runner.runner2 ≠ .runner1 from (nomatch ·)), hmain]; omega
  | runner2 => rw [hself, hother (show Runner.runner1 ≠ .runner2 from (nomatch ·)), hmain]; omega

/-- Reading a pipe is no call of its worker. -/
theorem work_read (s : State) (w : Runner) (rest : List Outcome) :
    (s.set w { s.worker w with pipe := rest }).work = s.work :=
  Nat.add_right_cancel (work_set s w { s.worker w with pipe := rest })

theorem work_goto {s₁ : State} {pc : MainPc} (pc' : MainPc) (hpc : s.main = pc) (hpc' : s₁.main = pc')
    (hlt : pc'.work < pc.work) (hworker : s₁.worker = s.worker) : s₁.work < s.work := by
  unfold State.work
  rw [hpc, hpc', hworker]
  omega

theorem Worker.step_work (h : x.step hasResult a = some x') : x'.pc.work < x.pc.work := by
  obtain ⟨pc, connected, executed, result, exception, pipe⟩ := x
  cases a with
  | timesOut => cases h
  | rows r =>
    cases pc with
    | fetchall => cases h; exact Nat.lt_succ_self 4
    | _ => cases h
  | raises ex => cases pc <;> cases h <;> simp [WorkerPc.work]
  | returns =>
    cases pc with
    | execute => cases h; cases hasResult <;> simp [WorkerPc.work]
    | _ => cases h <;> simp [WorkerPc.work]

theorem workerStep_work (h : s.workerStep config w a = some s') : s'.work < s.work := by
  have hset : ∀ x', x'.pc.work < (s.worker w).pc.work → (s.set w x').work < s.work := fun x' hlt => by
    have := work_set s w x'
    omega
  have hwaits : ∀ (r : Meeting Party × Bool) {pc pc' : WorkerPc},
      (s.worker w).pc = pc → pc'.work < pc.work → 0 < pc.work →
      (s.workerWaits w r pc').work < s.work := fun r pc pc' hpc hlt hpos => by
    refine hset { s.worker w with pc := if r.2 then pc' else .died } ?_
    rw [hpc]
    show (if r.2 then pc' else WorkerPc.died).work < pc.work
    cases r.2
    · exact hpos
    · exact hlt
  rcases workerStep_cases h with ⟨hpc, r, -, rfl⟩ | ⟨hpc, t, r, -, rfl⟩ | ⟨x', hx', rfl⟩
  · exact hwaits r hpc (by decide) (by decide)
  · exact hwaits r hpc (by decide) (by decide)
  · exact hset x' (Worker.step_work hx')

theorem mainWaits_work (r : Meeting Party × Bool) {pc pc' : MainPc} (hpc : s.main = pc) (hlt : pc'.work < pc.work) :
    (s.mainWaits r pc').work < s.work := by
  refine work_goto (if r.2 then pc' else .raised) hpc rfl ?_ rfl
  cases r.2
  · exact Nat.zero_lt_of_lt hlt
  · exact hlt

theorem mainReturns_work (h : s.mainReturns config = some s') : s'.work < s.work := by
  unfold State.mainReturns at h
  split at h
  · rename_i hpc; cases h; exact work_goto (.start workers) hpc rfl (by decide) rfl
  · rename_i w left hpc
    cases h
    -- what is left to start pays for the calls of the worker
    have hset := work_set s w { s.worker w with pc := .connect }
    have hconnect : WorkerPc.work ({ s.worker w with pc := .connect } : Worker).pc = 10 := rfl
    have hmain : s.main.work = 13 + 11 * (left.length + 1) := by rw [hpc]; rfl
    have hgoto : ((s.set w { s.worker w with pc := .connect }).goto (.start left)).work + s.main.work =
        (s.set w { s.worker w with pc := .connect }).work + (13 + 11 * left.length) := by
      simp only [State.work, State.goto, State.set, MainPc.work]
      omega
    omega
  · rename_i hpc; cases h; exact work_goto .arrive hpc rfl (by decide) rfl
  · rename_i hpc
    obtain ⟨r, -, rfl⟩ := Option.map_eq_some_iff.1 h
    exact mainWaits_work r hpc (by decide)
  · rename_i hpc
    obtain ⟨r, -, rfl⟩ := Option.map_eq_some_iff.1 h
    exact mainWaits_work r hpc (by decide)
  · rename_i w left hpc
    split at h
    · cases h
    · rename_i o rest hpipe
      cases h
      have hlt : (MainPc.getResult left).work < (MainPc.getResult (w :: left)).work := Nat.lt_succ_self _
      rw [← work_read s w rest]
      exact work_goto (.getResult left) hpc rfl hlt rfl
  · rename_i hpc; cases h; exact work_goto (.join workers) hpc rfl (by decide) rfl
  · rename_i w left hpc
    have hlt : (MainPc.join left).work < (MainPc.join (w :: left)).work := Nat.lt_succ_self _
    split at h
    · cases h; exact work_goto (.join left) hpc rfl hlt rfl
    · cases h; exact work_goto (.join left) hpc rfl hlt rfl
    · cases h
  · rename_i hpc; cases h; exact work_goto (.report workers) hpc rfl (by decide) rfl
  · rename_i w left hpc; cases h; exact work_goto (.report left) hpc rfl (Nat.lt_succ_self (1 + left.length)) rfl
  · rename_i hpc; cases h; exact work_goto .ended hpc rfl (by decide) rfl
  · cases h
  · cases h

theorem mainStep_work (h : s.mainStep config a = some s') : s'.work < s.work := by
  cases a with
  | returns => exact mainReturns_work h
  | rows r => cases h
  | raises ex =>
    unfold State.mainStep at h
    dsimp only at h
    split at h
    · rename_i hpc; cases h; exact work_goto .raised hpc rfl (by decide) rfl
    · rename_i left hpc; cases h; exact work_goto .raised hpc rfl (show 0 < 13 + 11 * left.length by omega) rfl
    · rename_i w left hpc
      split at h
      · cases h
      · rename_i o rest hpipe
        cases h
        rw [← work_read s w rest]
        exact work_goto .raised hpc rfl (show 0 < 8 + (w :: left).length by omega) rfl
    · cases h
  | timesOut =>
    unfold State.mainStep at h
    dsimp only at h
    split at h
    · rename_i hpc
      obtain ⟨r, -, rfl⟩ := Option.map_eq_some_iff.1 h
      exact mainWaits_work r hpc (by decide)
    · cases h

/-- **Every step is one call nearer to the end.** -/
theorem step_work (s : State) (e : Event) (s' : State) (h : s.step config e = some s') : s'.work < s.work := by
  cases e with
  | main a     => exact mainStep_work h
  | worker w a => exact workerStep_work h

theorem Worker.step_isSome (hx : ∀ a, x.step hasResult a = none) (harrive : x.pc ≠ .arrive) (hwait : x.pc ≠ .wait) :
    x.pc = .unstarted ∨ x.pc = .ended ∨ x.pc = .died := by
  obtain ⟨pc, connected, executed, result, exception, pipe⟩ := x
  cases pc with
  | unstarted => exact Or.inl rfl
  | arrive    => exact absurd rfl harrive
  | wait      => exact absurd rfl hwait
  | ended     => exact Or.inr (Or.inl rfl)
  | died      => exact Or.inr (Or.inr rfl)
  | fetchall  => exact nomatch hx (.rows [])
  | _         => exact nomatch hx .returns

theorem workerStep_of_pc (harrive : (s.worker w).pc ≠ .arrive) (hwait : (s.worker w).pc ≠ .wait) :
    s.workerStep config w a = ((s.worker w).step (config w).hasResult a).map (s.set w) := by
  unfold State.workerStep
  split
  · exact absurd ‹_› harrive
  · exact absurd ‹_› hwait
  · exact absurd ‹_› hwait
  · rfl

/-- **A worker that can do nothing** is not started, or over. -/
theorem worker_stuck (hi : Inv config s) (h : ∀ a, s.workerStep config w a = none) :
    (s.worker w).pc = .unstarted ∨ (s.worker w).pc = .ended ∨ (s.worker w).pc = .died := by
  have hplace := (hi.worker w).place
  by_cases harrive : (s.worker w).pc = .arrive
  · obtain ⟨r, hr⟩ := hi.meeting.enter_isSome (hplace .outside (by rw [harrive]; rfl)) parties
    have hnone := h .returns
    unfold State.workerStep at hnone
    rw [harrive] at hnone
    dsimp only at hnone
    rw [hr] at hnone
    cases hnone
  · by_cases hwait : (s.worker w).pc = .wait
    · obtain ⟨r, hr⟩ := Meeting.leave_isSome (hplace .inside (by rw [hwait]; rfl))
      have hnone := h .timesOut
      unfold State.workerStep at hnone
      rw [hwait] at hnone
      dsimp only at hnone
      rw [hr] at hnone
      cases hnone
    · have hstuck : ∀ a, (s.worker w).step (config w).hasResult a = none := fun a => by
        have hnone := h a
        rwa [workerStep_of_pc harrive hwait, Option.map_eq_none_iff] at hnone
      exact Worker.step_isSome hstuck harrive hwait

/-- **A parent that can do nothing** is over, waits for an outcome, or for a worker to be over. -/
theorem main_stuck (hi : Inv config s) (h : ∀ a, s.mainStep config a = none) :
    s.main = .ended ∨ s.main = .raised ∨ (∃ w left, s.main = .getResult (w :: left) ∧ (s.worker w).pipe = []) ∨
    ∃ w left, s.main = .join (w :: left) ∧ (s.worker w).pc ≠ .ended ∧ (s.worker w).pc ≠ .died := by
  have hseat := hi.main
  have hret : s.mainReturns config = none := h .returns
  unfold State.mainReturns at hret
  cases hm : s.main with
  | ended  => exact Or.inl rfl
  | raised => exact Or.inr (Or.inl rfl)
  | setup  => rw [hm] at hret; cases hret
  | start left => rw [hm] at hret; cases left <;> cases hret
  | arrive =>
    obtain ⟨r, hr⟩ := hi.meeting.enter_isSome (hseat .outside (by rw [hm]; rfl)) parties
    rw [hm] at hret
    dsimp only at hret
    rw [hr] at hret
    cases hret
  | wait =>
    obtain ⟨r, hr⟩ := Meeting.leave_isSome (hseat .inside (by rw [hm]; rfl))
    have hnone := h .timesOut
    rw [State.mainStep, hm] at hnone
    dsimp only at hnone
    rw [hr] at hnone
    cases hnone
  | getResult left =>
    rw [hm] at hret
    cases left with
    | nil => cases hret
    | cons w left =>
      cases hpipe : (s.worker w).pipe with
      | nil => exact Or.inr (Or.inr (Or.inl ⟨w, left, rfl, hpipe⟩))
      | cons o rest => dsimp only at hret; rw [hpipe] at hret; cases hret
  | join left =>
    rw [hm] at hret
    cases left with
    | nil => cases hret
    | cons w left =>
      refine Or.inr (Or.inr (Or.inr ⟨w, left, rfl, fun hpc => ?_, fun hpc => ?_⟩))
      · dsimp only at hret; rw [hpc] at hret; cases hret
      · dsimp only at hret; rw [hpc] at hret; cases hret
  | report left => rw [hm] at hret; cases left <;> cases hret

theorem settled_of_stuck (hi : Inv config s) (h : Runs.Stuck (State.step config) s) : Settled s := by
  have hstarted : ∀ {w}, (s.worker w).pc = .unstarted → s.main.toStart = [] → s.main = .raised := fun {w} hw hnil =>
    (hi.started w hw).resolve_left (by rw [hnil]; exact List.not_mem_nil)
  have hworkers : ∀ w, (s.worker w).pc = .unstarted ∨ (s.worker w).pc = .ended ∨ (s.worker w).pc = .died :=
    fun w => worker_stuck hi (fun a => h (.worker w a))
  have hover : ∀ w, s.main.toStart = [] →
      (s.worker w).pc = .ended ∨ (s.worker w).pc = .died ∨ ((s.worker w).pc = .unstarted ∧ s.main = .raised) :=
    fun w hnil => by
      rcases hworkers w with hw | hw | hw
      · exact Or.inr (Or.inr ⟨hw, hstarted hw hnil⟩)
      · exact Or.inl hw
      · exact Or.inr (Or.inl hw)
  rcases main_stuck hi (fun a => h (.main a)) with hm | hm | ⟨w, left, hm, hpipe⟩ | ⟨w, left, hm, hended, hdied⟩
  · exact ⟨Or.inl hm, fun w => hover w (by rw [hm]; rfl)⟩
  · exact ⟨Or.inr (Or.inl hm), fun w => hover w (by rw [hm]; rfl)⟩
  · refine ⟨Or.inr (Or.inr ⟨w, left, hm, ?_⟩), fun w => hover w (by rw [hm]; rfl)⟩
    -- the worker has sent nothing, so it has died, and the parent is through the barrier
    have hdied : (s.worker w).pc = .died := by
      rcases hworkers w with hw | hw | hw
      · have := hstarted hw (by rw [hm]; rfl)
        rw [hm] at this
        cases this
      · have := hi.sent w (by rw [hm]; exact List.mem_cons_self) hw
        rw [hpipe] at this
        cases this
      · exact hw
    refine ⟨hdied, (hi.meeting.together (hi.main .passed (by rw [hm]; rfl)) (some w)).resolve_left fun hin => ?_⟩
    have := (hi.worker w).waits hin
    rw [hdied] at this
    cases this
  · have hread := hi.read w (by rw [hm]; exact List.not_mem_nil) (by rw [hm]; exact (nomatch ·))
    exact absurd hread.1 hended

/-- **Every run comes to its end**: no process waits for ever but the parent, and that only for a worker that died past
the barrier. -/
theorem run_settles (config : Runner → Config) : Runs.Completes (State.step config) Settled .start :=
  Runs.completes_of_decreases inv_step (fun s e s' _ h => step_work s e s' h) (fun _ hi h => settled_of_stuck hi h)
    (inv_start config)

end

end ConcurrentTx
end Scrapcode
