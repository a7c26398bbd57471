import Mathlib.Data.List.Basic
import Scrapcode.Runs
import Scrapcode.LwlockScript
/-!
# LwlockProtocol — the events of processes that follow the LWLock protocol

What one process may do next (`Proc.next`), and the samples its events are worth (`Proc.sample`), both without the
script: an attempt is a start mark, wait-starts on one lock and one completion; `lwlock__acquired` completes it with a
lock that is then held; a release is of a lock that is held, the one acquired last if there are more.  An attempt that
has waited is worth the time from its first wait-start to its completion, and a hold the time from its acquire to its
release.  A process may end at any time, and another may then get its pid.

A run is an interleaving: every process's own events (`ownEvents`) follow the protocol.
-/
namespace Scrapcode
namespace Lwlock

structure Attempt where
  func : AcquireFunc
  waits : List (Lock × Int)
deriving DecidableEq, Repr

structure Hold where
  lock : Lock
  mode : LWLockMode
  since : Int
deriving DecidableEq, Repr

inductive Phase where
  | idle
  | trying (a : Attempt)
  -- between the two handlers of `lwlock__acquired`
  | acquired (a : Attempt) (mode : LWLockMode) (lock : Lock) (trancheId : Nat)
deriving DecidableEq, Repr

structure Proc where
  phase : Phase
  holds : List Hold
  ending : Bool
deriving DecidableEq, Repr

def Proc.start : Proc := ⟨.idle, [], false⟩

def Phase.attempt : Phase → Option Attempt
  | .idle             => none
  | .trying a         => some a
  | .acquired a _ _ _ => some a

def Attempt.on (a : Attempt) (lock : Lock) : Bool := a.waits.all (fun w => w.1 = lock)

/-- The lock a process waits for and since when, once it has waited. -/
def Proc.firstWait (c : Proc) : Option (Lock × Int) := c.phase.attempt.bind (fun a => a.waits.head?)

def Proc.hold? (c : Proc) (lock : Lock) : Option Hold := c.holds.find? (fun h => h.lock = lock)

/-- The attempt of the process, if it may go on with `lock`. -/
def Proc.tryingOn (c : Proc) (lock : Lock) : Option Attempt :=
  match c.ending, c.phase with
  | false, .trying a => if a.on lock then some a else none
  | _, _             => none

def Completion.acquires : Completion → Bool
  | .acquired _ => true
  | _           => false

/-- The attempt of the process may be completed: for an acquired lock, by the other handler of the same mark. -/
def Proc.completes (c : Proc) (how : Completion) (lock : Lock) (trancheId : Nat) : Bool :=
  !c.ending && match c.phase with
    | .idle                               => false
    | .trying a                           => !how.acquires && a.on lock
    | .acquired _ mode lock' trancheId'   => how = .acquired mode && lock' = lock && trancheId' = trancheId

def Proc.isIdle (c : Proc) : Bool := !c.ending && c.phase = .idle

/-- The protocol: what a process is after the handler `p`, run at `now`. -/
def Proc.next (c : Proc) : Int × Probe → Option Proc
  | (_, .acquireStart func)                      =>
    if c.isIdle then some { c with phase := .trying ⟨func, []⟩ } else none
  | (now, .waitStart _ lock)                     =>
    (c.tryingOn lock).map (fun a => { c with phase := .trying ⟨a.func, a.waits ++ [(lock, now)]⟩ })
  | (now, .holdAcquired _ mode lock trancheId)   =>
    if mode = .waitUntilFree then none
    else (c.tryingOn lock).map
      (fun a => { c with phase := .acquired a mode lock trancheId, holds := ⟨lock, mode, now⟩ :: c.holds })
  | (_, .waitDone how lock trancheId)            =>
    if c.completes how lock trancheId then some { c with phase := .idle } else none
  | (_, .acquireFinish _)                        => if c.isIdle then some c else none
  | (_, .release mode lock _)                    =>
    if c.isIdle ∧ (c.hold? lock).map Hold.mode = some mode then
      some { c with holds := c.holds.eraseP (fun h => h.lock = lock) }
    else none
  | (_, .backendType _ _)                        => some c
  | (_, .applicationName _)                      => some c
  | (_, .endStats)                               => if c.ending then none else some { c with ending := true }
  | (_, .endCleanup)                             => if c.ending then some .start else none

/-- The lock a process acquires is not one it holds. -/
def Proc.acquiresFree (c : Proc) : Int × Probe → Bool
  | (_, .holdAcquired _ _ lock _) => (c.hold? lock).isNone
  | _                             => true

structure Sample where
  pid : Pid
  stat : Stat
  mode : LWLockMode
  trancheId : Nat
  us : Int
deriving DecidableEq, Repr

/-- The sample the handler `p` of process `pid` is worth, at `now`. -/
def Proc.sample (c : Proc) (pid : Pid) : Int × Probe → Option Sample
  | (now, .waitDone how _ trancheId)     => c.firstWait.map (fun w => ⟨pid, .wait, how.mode, trancheId, now - w.2⟩)
  | (now, .release mode lock trancheId)  => (c.hold? lock).map (fun h => ⟨pid, .held, mode, trancheId, now - h.since⟩)
  | _                                    => none

/-! ## Interleavings -/

def ownEvent (pid : Pid) : Event → Option (Int × Probe)
  | .probe q now p => if q = pid then some (now, p) else none
  | .timer         => none

/-- What process `pid` does in a run. -/
def ownEvents (pid : Pid) (es : List Event) : List (Int × Probe) := es.filterMap (ownEvent pid)

/-- **Every process follows the protocol**, from what it is in `cs`. -/
def Follows (cs : Pid → Proc) (es : List Event) : Prop :=
  ∀ pid, (Runs.run Proc.next (cs pid) (ownEvents pid es)).isSome

/-- No process acquires a lock it already holds. -/
def AcquireFree (cs : Pid → Proc) (es : List Event) : Prop :=
  ∀ pid, Runs.Meets Proc.next (fun c e => c.acquiresFree e = true) (cs pid) (ownEvents pid es)

/-- The clock never reads 0. -/
def Clocked (es : List Event) : Prop := ∀ pid now p, Event.probe pid now p ∈ es → now ≠ 0

/-- What the processes are after a run. -/
def after (cs : Pid → Proc) (es : List Event) (pid : Pid) : Proc :=
  (Runs.run Proc.next (cs pid) (ownEvents pid es)).getD (cs pid)

def Event.samples (cs : Pid → Proc) : Event → List Sample
  | .probe pid now p => ((cs pid).sample pid (now, p)).toList
  | .timer           => []

/-- The samples of a run, in the order of the events. -/
def samples (cs : Pid → Proc) : List Event → List Sample
  | []      => []
  | e :: es => e.samples cs ++ samples (after cs [e]) es

/-- The samples of process `pid` alone. -/
def ownSamples (pid : Pid) (c : Proc) : List (Int × Probe) → List Sample
  | []      => []
  | e :: es => (c.sample pid e).toList ++ ownSamples pid ((c.next e).getD c) es

/-- The sample counts for a tranche and a mode; the tranche -1 stands for all. -/
def Sample.counts (stat : Stat) (trancheId : Int) (mode : LWLockMode) (x : Sample) : Bool :=
  stat = x.stat && mode = x.mode && (trancheId = -1 || trancheId = x.trancheId)

def durations (stat : Stat) (trancheId : Int) (mode : LWLockMode) (xs : List Sample) : List Int :=
  (xs.filter (Sample.counts stat trancheId mode)).map Sample.us

/-! ### One event -/

variable {cs : Pid → Proc} {pid q : Pid} {now : Int} {p : Probe} {e : Event} {es : List Event} {c y : Proc}

theorem ownEvents_timer (q : Pid) (es : List Event) : ownEvents q (.timer :: es) = ownEvents q es := rfl

theorem ownEvents_self (pid : Pid) (now : Int) (p : Probe) (es : List Event) :
    ownEvents pid (.probe pid now p :: es) = (now, p) :: ownEvents pid es := by
  simp [ownEvents, ownEvent]

theorem ownEvents_ne (h : q ≠ pid) (now : Int) (p : Probe) (es : List Event) :
    ownEvents q (.probe pid now p :: es) = ownEvents q es := by
  simp [ownEvents, ownEvent, h.symm]

@[simp] theorem after_nil (cs : Pid → Proc) : after cs [] = cs := rfl

theorem after_timer (cs : Pid → Proc) : after cs [.timer] = cs := rfl

theorem after_probe (h : (cs pid).next (now, p) = some y) : after cs [.probe pid now p] = Function.update cs pid y := by
  funext q
  unfold after
  by_cases hq : q = pid
  · subst hq
    rw [ownEvents_self, Runs.run_cons_of_step h, Function.update_self]; rfl
  · rw [ownEvents_ne hq, Function.update_of_ne hq]; rfl

theorem Follows.next (h : Follows cs (.probe pid now p :: es)) : ∃ y, (cs pid).next (now, p) = some y := by
  obtain ⟨z, hz⟩ := Option.isSome_iff_exists.1 (h pid)
  rw [ownEvents_self] at hz
  obtain ⟨y, hy, -⟩ := Runs.run_cons_eq_some hz
  exact ⟨y, hy⟩

/-- The events after the first one, of each process from what it then is. -/
theorem run_ownEvents_cons (h : Follows cs (e :: es)) (q : Pid) :
    Runs.run Proc.next (cs q) (ownEvents q (e :: es)) = Runs.run Proc.next (after cs [e] q) (ownEvents q es) := by
  cases e with
  | timer => rw [after_timer, ownEvents_timer]
  | probe pid now p =>
    obtain ⟨y, hy⟩ := h.next
    rw [after_probe hy]
    by_cases hq : q = pid
    · subst hq
      rw [ownEvents_self, Runs.run_cons_of_step hy, Function.update_self]
    · rw [ownEvents_ne hq, Function.update_of_ne hq]

theorem Follows.cons (h : Follows cs (e :: es)) : Follows (after cs [e]) es := fun q =>
  run_ownEvents_cons h q ▸ h q

theorem after_cons (h : Follows cs (e :: es)) : after cs (e :: es) = after (after cs [e]) es := by
  funext q
  obtain ⟨y, hy⟩ := Option.isSome_iff_exists.1 (h q)
  unfold after
  rw [hy]
  rw [run_ownEvents_cons h q] at hy
  unfold after at hy
  rw [hy]; rfl

theorem AcquireFree.first (h : AcquireFree cs (.probe pid now p :: es)) (hy : (cs pid).next (now, p) = some y) :
    (cs pid).acquiresFree (now, p) = true := by
  have hp := h pid
  rw [ownEvents_self] at hp
  exact (hp y hy).1

theorem AcquireFree.single (hf : Follows cs (e :: es)) (h : AcquireFree cs (e :: es)) : AcquireFree cs [e] := by
  intro q
  cases e with
  | timer => exact trivial
  | probe pid now p =>
    obtain ⟨y, hy⟩ := hf.next
    by_cases hq : q = pid
    · subst hq
      rw [ownEvents_self]
      exact fun z hz => ⟨h.first hy, trivial⟩
    · rw [ownEvents_ne hq]; exact trivial

theorem AcquireFree.cons (hf : Follows cs (e :: es)) (h : AcquireFree cs (e :: es)) :
    AcquireFree (after cs [e]) es := by
  intro q
  have hq := h q
  cases e with
  | timer => exact hq
  | probe pid now p =>
    obtain ⟨y, hy⟩ := hf.next
    rw [after_probe hy]
    by_cases hpid : q = pid
    · subst hpid
      rw [ownEvents_self] at hq
      rw [Function.update_self]
      exact (hq y hy).2
    · rw [ownEvents_ne hpid] at hq
      rw [Function.update_of_ne hpid]
      exact hq

theorem ownEvents_append (q : Pid) (pre es : List Event) : ownEvents q (pre ++ es) = ownEvents q pre ++ ownEvents q es :=
  List.filterMap_append

theorem run_ownEvents_append (q : Pid) (pre es : List Event) : Runs.run Proc.next (cs q) (ownEvents q (pre ++ es)) =
    (Runs.run Proc.next (cs q) (ownEvents q pre)).bind (fun c => Runs.run Proc.next c (ownEvents q es)) := by
  rw [ownEvents_append, Runs.run_append]

theorem after_of_run {pre : List Event} (h : Follows cs pre) (q : Pid) :
    Runs.run Proc.next (cs q) (ownEvents q pre) = some (after cs pre q) := by
  obtain ⟨c, hc⟩ := Option.isSome_iff_exists.1 (h q)
  unfold after
  rw [hc]; rfl

theorem follows_append {pre : List Event} : Follows cs (pre ++ es) ↔ Follows cs pre ∧ Follows (after cs pre) es := by
  constructor
  · intro h
    have hpre : Follows cs pre := fun q => by
      have hq := h q
      rw [run_ownEvents_append] at hq
      exact Option.isSome_of_isSome_bind hq
    refine ⟨hpre, fun q => ?_⟩
    have hq := h q
    rwa [run_ownEvents_append, after_of_run hpre] at hq
  · rintro ⟨hpre, hes⟩ q
    rw [run_ownEvents_append, after_of_run hpre]
    exact hes q

theorem acquireFree_append {pre : List Event} (hpre : Follows cs pre) :
    AcquireFree cs (pre ++ es) ↔ AcquireFree cs pre ∧ AcquireFree (after cs pre) es := by
  have hq : ∀ q, Runs.Meets Proc.next (fun c e => c.acquiresFree e = true) (cs q) (ownEvents q (pre ++ es)) ↔
      Runs.Meets Proc.next (fun c e => c.acquiresFree e = true) (cs q) (ownEvents q pre) ∧
        Runs.Meets Proc.next (fun c e => c.acquiresFree e = true) (after cs pre q) (ownEvents q es) := fun q => by
    rw [ownEvents_append, Runs.meets_append, after_of_run hpre q]
    exact and_congr_right (fun _ => ⟨fun h => h _ rfl, fun h t ht => Option.some.inj ht ▸ h⟩)
  exact ⟨fun h => ⟨fun q => ((hq q).1 (h q)).1, fun q => ((hq q).1 (h q)).2⟩, fun h q => (hq q).2 ⟨h.1 q, h.2 q⟩⟩

theorem samples_append : ∀ (pre : List Event) {cs : Pid → Proc}, Follows cs pre →
    samples cs (pre ++ es) = samples cs pre ++ samples (after cs pre) es
  | [], _, _       => rfl
  | e :: pre, cs, h => by
    show e.samples cs ++ samples (after cs [e]) (pre ++ es) = (e.samples cs ++ samples (after cs [e]) pre) ++ _
    rw [samples_append pre h.cons, ← after_cons h, List.append_assoc]

theorem Proc.sample_pid {d : Int × Probe} {x : Sample} (h : c.sample pid d = some x) : x.pid = pid := by
  unfold Proc.sample at h
  split at h
  · obtain ⟨w, -, rfl⟩ := Option.map_eq_some_iff.1 h; rfl
  · obtain ⟨hold, -, rfl⟩ := Option.map_eq_some_iff.1 h; rfl
  · cases h

/-- **The samples of a process are those of its own events**, whatever they are interleaved with. -/
theorem samples_filter (pid : Pid) : ∀ (es : List Event) (cs : Pid → Proc), Follows cs es →
    (samples cs es).filter (fun x => x.pid = pid) = ownSamples pid (cs pid) (ownEvents pid es)
  | [], _, _       => rfl
  | e :: es, cs, h => by
    unfold samples
    rw [List.filter_append, samples_filter pid es _ h.cons]
    cases e with
    | timer => rw [after_timer, ownEvents_timer]; rfl
    | probe q now p =>
      obtain ⟨y, hy⟩ := h.next
      have hown : ∀ x ∈ ((cs q).sample q (now, p)).toList, x.pid = q :=
        fun x hx => Proc.sample_pid (Option.mem_toList.1 hx)
      rw [after_probe hy]
      by_cases hq : pid = q
      · subst hq
        rw [ownEvents_self, Function.update_self, ownSamples, hy, Option.getD_some]
        exact congrArg (· ++ _) (List.filter_eq_self.2 (fun x hx => decide_eq_true (hown x hx)))
      · rw [ownEvents_ne hq, Function.update_of_ne hq]
        exact congrArg (· ++ _) (List.filter_eq_nil_iff.2 (fun x hx he =>
          hq ((of_decide_eq_true he).symm.trans (hown x hx))))

end Lwlock
end Scrapcode
