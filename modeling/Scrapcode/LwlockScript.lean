import Mathlib.Logic.Function.Basic
import Scrapcode.BoundedMaps
import Scrapcode.Programs
/-!
# LwlockScript — `lwlock_hold_durations.stp`

The script's global arrays and its probe handlers.  An array has the room its declaration gives it, or
`maxMapEntries` (`MAXMAPENTRIES`); a new key that finds no room ends the script, and so does an assertion.  A handler
runs without another one in between, so an event of a run is one handler of one process: `lwlock__acquired` has two,
in the order of the script (`holdAcquired`, then `waitDone`), and other processes' handlers may come between them.
Each reads the clock once at most.  `@SANITY_CHECKS` and `@TRACK_STATS` are 1, as the script defines them.

A read of a key that is not there gives 0, or the empty string.  What the script prints is kept as the values it
prints, without the layout.
-/
namespace Scrapcode
namespace Lwlock

abbrev Pid := Nat

/-- The address of an `LWLock`. -/
abbrev Lock := Nat

inductive LWLockMode where
  | exclusive
  | shared
  | waitUntilFree
deriving DecidableEq, Repr

def LWLockMode.toNat : LWLockMode → Nat
  | .exclusive     => 0
  | .shared        => 1
  | .waitUntilFree => 2

structure Options where
  trackHolds : Bool := true
  periodicSummary : Bool := true
  trackPerProcess : Bool := true
  cumulative : Bool := true
  logWaitsLongerThanUs : Int := 0
  logHoldsLongerThanUs : Int := 0
  trackBlockers : Bool := false
  trackApplicationNames : Bool := true
  hideWaitTotalSummaryLtUs : Int := 0
  hideHeldTotalSummaryLtUs : Int := 0
  hideWaitTotalPidLtUs : Int := 0
  hideHeldTotalPidLtUs : Int := 0

/-! ## The arrays -/

inductive ArrayName where
  | locksHeldByPid
  | lockWaitStartUs
  | lockWaitLwlockP
  | lockWaitBlocker
  | lockWaitBlockerMode
  | lockWaitBlockerAppname
  | acquireFunc
  | applicationNames
  | backendTypes
  | heldDurationsAllprocs
  | waitDurationsAllprocs
  | heldDurationsPid
  | waitDurationsPid
  | trancheNames
deriving DecidableEq, Repr

inductive ScriptError where
  | assertion (text : String)
  | overflow (array : ArrayName)
deriving DecidableEq, Repr

inductive Stat where
  | held
  | wait
deriving DecidableEq, Repr

structure StatsRow where
  stat : Stat
  pid : Option Pid
  tranche : String
  mode : LWLockMode
  samples : List Int
deriving DecidableEq, Repr

inductive Report where
  | longHold (pid : Pid) (backendType : Int) (tranche : String) (mode : LWLockMode) (heldUs : Int) (appname : String)
  | longWait (pid : Pid) (backendType : Int) (tranche : String) (mode : LWLockMode) (waitedUs : Int)
      (func appname : String) (blocker : Option (Pid × LWLockMode)) (blockerAppname : String)
  | leaked (pid : Pid) (lock : Lock) (mode : LWLockMode)
  | exited (pid : Pid) (backendType : Int) (description : String) (rows : List StatsRow)
  | summary (rows : List StatsRow)
deriving DecidableEq, Repr

structure State (maxMapEntries : Nat) where
  locksHeldByPid : BoundedMap (Pid × Lock × LWLockMode) Int maxMapEntries := .empty
  lockWaitStartUs : BoundedMap Pid Int maxMapEntries := .empty
  lockWaitLwlockP : BoundedMap Pid Lock maxMapEntries := .empty
  lockWaitBlocker : BoundedMap Pid Pid maxMapEntries := .empty
  lockWaitBlockerMode : BoundedMap Pid LWLockMode maxMapEntries := .empty
  lockWaitBlockerAppname : BoundedMap Pid String maxMapEntries := .empty
  acquireFunc : BoundedMap Pid String maxMapEntries := .empty
  applicationNames : BoundedMap Pid String maxMapEntries := .empty
  backendTypes : BoundedMap Pid Int maxMapEntries := .empty
  heldDurationsAllprocs : BoundedMap (Int × LWLockMode) (List Int) 1000 := .empty
  waitDurationsAllprocs : BoundedMap (Int × LWLockMode) (List Int) 1000 := .empty
  heldDurationsPid : BoundedMap (Pid × Int × LWLockMode) (List Int) 5000 := .empty
  waitDurationsPid : BoundedMap (Pid × Int × LWLockMode) (List Int) 5000 := .empty
  trancheNames : BoundedMap Nat String maxMapEntries := .empty
  printed : List Report := []

/-- A global array: where it stands in the state. -/
structure Global (M : Nat) (κ ν : Type) where
  name : ArrayName
  cap : Nat
  table : State M → BoundedMap κ ν cap
  put : BoundedMap κ ν cap → State M → State M
  table_put : ∀ t s, table (put t s) = t := by intros; rfl
  put_put : ∀ t t' s, put t' (put t s) = put t' s := by intros; rfl

variable {M : Nat} {κ ν : Type}

def locksHeldByPid : Global M (Pid × Lock × LWLockMode) Int where
  name := .locksHeldByPid
  cap := M
  table := State.locksHeldByPid
  put t s := { s with locksHeldByPid := t }

def lockWaitStartUs : Global M Pid Int where
  name := .lockWaitStartUs
  cap := M
  table := State.lockWaitStartUs
  put t s := { s with lockWaitStartUs := t }

def lockWaitLwlockP : Global M Pid Lock where
  name := .lockWaitLwlockP
  cap := M
  table := State.lockWaitLwlockP
  put t s := { s with lockWaitLwlockP := t }

def lockWaitBlocker : Global M Pid Pid where
  name := .lockWaitBlocker
  cap := M
  table := State.lockWaitBlocker
  put t s := { s with lockWaitBlocker := t }

def lockWaitBlockerMode : Global M Pid LWLockMode where
  name := .lockWaitBlockerMode
  cap := M
  table := State.lockWaitBlockerMode
  put t s := { s with lockWaitBlockerMode := t }

def lockWaitBlockerAppname : Global M Pid String where
  name := .lockWaitBlockerAppname
  cap := M
  table := State.lockWaitBlockerAppname
  put t s := { s with lockWaitBlockerAppname := t }

def acquireFunc : Global M Pid String where
  name := .acquireFunc
  cap := M
  table := State.acquireFunc
  put t s := { s with acquireFunc := t }

def applicationNames : Global M Pid String where
  name := .applicationNames
  cap := M
  table := State.applicationNames
  put t s := { s with applicationNames := t }

def backendTypes : Global M Pid Int where
  name := .backendTypes
  cap := M
  table := State.backendTypes
  put t s := { s with backendTypes := t }

def trancheNames : Global M Nat String where
  name := .trancheNames
  cap := M
  table := State.trancheNames
  put t s := { s with trancheNames := t }

def durationsAllprocs : Stat → Global M (Int × LWLockMode) (List Int)
  | .held =>
    { name := .heldDurationsAllprocs, cap := 1000, table := State.heldDurationsAllprocs,
      put := fun t s => { s with heldDurationsAllprocs := t } }
  | .wait =>
    { name := .waitDurationsAllprocs, cap := 1000, table := State.waitDurationsAllprocs,
      put := fun t s => { s with waitDurationsAllprocs := t } }

def durationsPid : Stat → Global M (Pid × Int × LWLockMode) (List Int)
  | .held =>
    { name := .heldDurationsPid, cap := 5000, table := State.heldDurationsPid,
      put := fun t s => { s with heldDurationsPid := t } }
  | .wait =>
    { name := .waitDurationsPid, cap := 5000, table := State.waitDurationsPid,
      put := fun t s => { s with waitDurationsPid := t } }

/-! ## The language -/

abbrev Script (M : Nat) (α : Type) := EStateM ScriptError (State M) α

def whenever (b : Bool) (p : Script M Unit) : Script M Unit := if b then p else pure ()

def assertThat (b : Bool) (text : String) : Script M Unit := if b then pure () else throw (.assertion text)

def print (r : Report) : Script M Unit := modify (fun s => { s with printed := s.printed ++ [r] })

section
variable [DecidableEq κ]

def Global.lookup? (a : Global M κ ν) (k : κ) : Script M (Option ν) := do return (a.table (← get)).get? k

def Global.read (a : Global M κ ν) (k : κ) (absent : ν) : Script M ν := do return ((← a.lookup? k).getD absent)

def Global.assign (a : Global M κ ν) (k : κ) (v : ν) : Script M Unit := do
  match (a.table (← get)).insert? k v with
  | some t => modify (a.put t)
  | none   => throw (.overflow a.name)

def Global.delete (a : Global M κ ν) (k : κ) : Script M Unit := modify (fun s => a.put ((a.table s).erase k) s)

/-- `<<<`. -/
def Global.push (a : Global M κ (List Int)) (k : κ) (v : Int) : Script M Unit := do
  a.assign k ((← a.read k []) ++ [v])

end

/-- A delete with wildcards. -/
def Global.deleteAll (a : Global M κ ν) (p : κ → Bool) : Script M Unit :=
  modify (fun s => a.put ((a.table s).keep (fun k => !p k)) s)

/-! ## Reports -/

def trancheIdStr (trancheId : Int) : Script M String := do
  let n ← trancheNames.read trancheId.toNat ""
  return if n ≠ "" then n else s!"<tranche_id {trancheId}>"

def reportLongHolds (o : Options) (pid : Pid) (heldUs : Int) (mode : LWLockMode) (trancheId : Nat) : Script M Unit :=
  whenever (o.logHoldsLongerThanUs > 0 && heldUs > o.logHoldsLongerThanUs) do
    let appname ← applicationNames.read pid ""
    let backendType ← backendTypes.read pid 0
    let tranche ← trancheIdStr trancheId
    print (.longHold pid backendType tranche mode heldUs appname)

def reportLongWaits (o : Options) (pid : Pid) (waitedUs : Int) (mode : LWLockMode) (trancheId : Nat) : Script M Unit :=
  whenever (o.logWaitsLongerThanUs > 0 && waitedUs > o.logWaitsLongerThanUs) do
    let func ← acquireFunc.read pid ""
    let backendType ← backendTypes.read pid 0
    let tranche ← trancheIdStr trancheId
    let appname ← applicationNames.read pid ""
    let blockedBy ← lockWaitBlocker.read pid 0
    let blockerMode ← lockWaitBlockerMode.read pid .exclusive
    let blockerAppname ← lockWaitBlockerAppname.read pid ""
    print (.longWait pid backendType tranche mode waitedUs func appname
      (if o.trackBlockers && blockedBy ≠ 0 then some (blockedBy, blockerMode) else none)
      (if o.trackBlockers then blockerAppname else ""))

/-! ## Statistics -/

/-- The macro `append_stats`, on the arrays of `stat`. -/
def appendStats (o : Options) (pid : Pid) (stat : Stat) (us : Int) (mode : LWLockMode) (trancheId : Nat) :
    Script M Unit := do
  (durationsAllprocs stat).push (-1, mode) us
  (durationsAllprocs stat).push (trancheId, mode) us
  whenever o.trackPerProcess do
    (durationsPid stat).push (pid, trancheId, mode) us
    (durationsPid stat).push (pid, -1, mode) us

def appendHeldStats (o : Options) (pid : Pid) (heldUs : Int) (mode : LWLockMode) (trancheId : Nat) : Script M Unit :=
  appendStats o pid .held heldUs mode trancheId

def appendWaitStats (o : Options) (pid : Pid) (waitedUs : Int) (mode : LWLockMode) (trancheId : Nat) : Script M Unit :=
  appendStats o pid .wait waitedUs mode trancheId

def trancheLabel (trancheId : Int) : Script M String :=
  if trancheId = -1 then pure "(all)" else trancheIdStr trancheId

/-- The macro `PRINT_STATS_ENTRY`. -/
def statsEntry (stat : Stat) (pid : Option Pid) (trancheId : Int) (mode : LWLockMode) (hideTotal : Int)
    (samples : List Int) : Script M (List StatsRow) := do
  let tranche ← trancheLabel trancheId
  let total := samples.foldl (· + ·) 0
  return if !samples.isEmpty && (hideTotal == 0 || hideTotal < total) then [⟨stat, pid, tranche, mode, samples⟩]
    else []

def statsSummary (o : Options) (stat : Stat) (trancheId : Int) (mode : LWLockMode) : Script M (List StatsRow) := do
  let samples ← (durationsAllprocs stat).read (trancheId, mode) []
  statsEntry stat none trancheId mode
    (match stat with | .held => o.hideHeldTotalSummaryLtUs | .wait => o.hideWaitTotalSummaryLtUs) samples

def statsPid (o : Options) (forpid : Pid) (trancheId : Int) (mode : LWLockMode) : Script M (List StatsRow) := do
  let held ← (durationsPid .held).read (forpid, trancheId, mode) []
  let wait ← (durationsPid .wait).read (forpid, trancheId, mode) []
  return (← statsEntry .held forpid trancheId mode o.hideHeldTotalPidLtUs held) ++
    (← statsEntry .wait forpid trancheId mode o.hideWaitTotalPidLtUs wait)

/-- The rows of `keys`, in the order of the tranches. -/
def statsRows (row : Int → LWLockMode → Script M (List StatsRow)) (keys : List (Int × LWLockMode)) :
    Script M (List StatsRow) :=
  (keys.mergeSort (fun a b => a.1 ≤ b.1)).foldlM
    (fun (rows : List StatsRow) k => do return rows ++ (← row k.1 k.2)) []

def printStats (o : Options) (stat : Stat) : Script M Unit := do
  let keys := ((durationsAllprocs stat).table (← get)).keys
  whenever (!keys.isEmpty) do
    let exclusive ← statsSummary o stat (-1) .exclusive
    let shared ← statsSummary o stat (-1) .shared
    let rows ← statsRows (statsSummary o stat) keys
    print (.summary (exclusive ++ shared ++ rows))

/-! ## The handlers -/

def rememberTrancheName (trancheId : Nat) (name : String) : Script M Unit := do
  let known ← trancheNames.lookup? trancheId
  whenever known.isNone (trancheNames.assign trancheId name)

/-- `lwlock__acquired`, for the holds. -/
def holdAcquired (o : Options) (pid : Pid) (now : Int) (trancheName : String) (mode : LWLockMode) (lock : Lock)
    (trancheId : Nat) : Script M Unit :=
  whenever (o.trackHolds || o.trackBlockers) do
    assertThat (mode = .exclusive || mode = .shared) s!"invalid lockmode {mode.toNat}"
    rememberTrancheName trancheId trancheName
    locksHeldByPid.assign (pid, lock, mode) now

/-- `lwlock__release`. -/
def release (o : Options) (pid : Pid) (now : Int) (mode : LWLockMode) (lock : Lock) (trancheId : Nat) :
    Script M Unit :=
  whenever (o.trackHolds || o.trackBlockers) do
    assertThat (mode = .exclusive || mode = .shared) s!"invalid lockmode {mode.toNat}"
    let acquiredUs ← locksHeldByPid.read (pid, lock, mode) 0
    whenever (acquiredUs ≠ 0) do
      whenever o.trackHolds do
        appendHeldStats o pid (now - acquiredUs) mode trancheId
        reportLongHolds o pid (now - acquiredUs) mode trancheId
    locksHeldByPid.deleteAll (fun k => k.1 = pid && k.2.1 = lock)

/-- The pid and the mode the loop over the held locks ends with: those of the first entry for `lock`, or of the last
entry. -/
def scanHolders (lock : Lock) : Pid × LWLockMode → List (Pid × Lock × LWLockMode) → Pid × LWLockMode
  | last, []                   => last
  | _, (pid, entry, mode) :: ks => if entry = lock then (pid, mode) else scanHolders lock (pid, mode) ks

def trackBlockerInfoForWait (pid : Pid) (lock : Lock) (mode : LWLockMode) : Script M Unit := do
  let held := (locksHeldByPid.table (← get)).keys
  let blocker := scanHolders lock (0, .exclusive)
    (if mode = .shared then held.filter (fun k => k.2.2 = .exclusive) else held)
  lockWaitBlocker.assign pid blocker.1
  lockWaitBlockerMode.assign pid blocker.2
  lockWaitBlockerAppname.assign pid (← applicationNames.read blocker.1 "")

def pointerStr (p : Lock) : String := "0x" ++ String.ofList (Nat.toDigits 16 p)

/-- `lwlock__wait__start`. -/
def waitStart (o : Options) (pid : Pid) (now : Int) (mode : LWLockMode) (lock : Lock) : Script M Unit := do
  let started ← lockWaitStartUs.lookup? pid
  if started.isNone then do
    lockWaitStartUs.assign pid now
    lockWaitLwlockP.assign pid lock
    whenever o.trackBlockers (trackBlockerInfoForWait pid lock mode)
  else do
    let waiting ← lockWaitLwlockP.read pid 0
    let got := pointerStr waiting
    let expected := pointerStr lock
    assertThat (waiting = lock) s!"wait resume lwlock ptr mismatch: got {got} expected {expected}"

/-- Why an attempt is over, with the mode its mark carries. -/
inductive Completion where
  | acquired (mode : LWLockMode)
  | condacquireFail (mode : LWLockMode)
  | acquireOrWaitFail (mode : LWLockMode)
  | waitforvarDone
deriving DecidableEq, Repr

def Completion.mode : Completion → LWLockMode
  | .acquired mode          => mode
  | .condacquireFail mode   => mode
  | .acquireOrWaitFail mode => mode
  | .waitforvarDone         => .exclusive

/-- `lwlock_acquired`, `lwlock_waitforvar_done` and `lwlock_condacquire_fail`, for the waits. -/
def waitDone (o : Options) (pid : Pid) (now : Int) (mode : LWLockMode) (lock : Lock) (trancheId : Nat) :
    Script M Unit := do
  let waitStartUs ← lockWaitStartUs.read pid 0
  whenever (waitStartUs ≠ 0) do
    let waiting ← lockWaitLwlockP.read pid 0
    let func ← acquireFunc.read pid ""
    let got := pointerStr waiting
    let expected := pointerStr lock
    assertThat (waiting = lock) s!"mismatched lwlock pointer in acquired: got {got} expected {expected} (in {func})"
    appendWaitStats o pid (now - waitStartUs) mode trancheId
    reportLongWaits o pid (now - waitStartUs) mode trancheId
  lockWaitStartUs.delete pid
  whenever o.trackBlockers do
    lockWaitBlocker.delete pid
    lockWaitBlockerMode.delete pid
    lockWaitBlockerAppname.delete pid
  acquireFunc.delete pid
  lockWaitLwlockP.delete pid

inductive AcquireFunc where
  | acquire
  | condacquire
  | acquireOrWait
  | waitforvar
deriving DecidableEq, Repr

/-- The start mark of the function, where the script has a probe for it. -/
def AcquireFunc.startMark : AcquireFunc → Option String
  | .acquire       => some "lwlock__acquire__start"
  | .condacquire   => some "lwlock__condacquire__start"
  | .waitforvar    => some "lwlock__waitforvar__start"
  | .acquireOrWait => none

/-- The mark at the function's end, where the script has a probe for it. -/
def AcquireFunc.finishMark : AcquireFunc → Option String
  | .acquire       => some "lwlock__acquire"
  | .condacquire   => some "lwlock__condacquire"
  | .acquireOrWait => some "lwlock__acquire__or__wait"
  | .waitforvar    => none

def acquireStart (o : Options) (pid : Pid) (func : AcquireFunc) : Script M Unit :=
  match func.startMark with
  | none      => pure ()
  | some name => do
    let inFunc ← acquireFunc.lookup? pid
    let was := inFunc.getD ""
    assertThat inFunc.isNone s!"already in acquire func {was} when entering {name}"
    let started ← lockWaitStartUs.lookup? pid
    assertThat started.isNone s!"already waiting when entering {name}"
    let waiting ← lockWaitLwlockP.lookup? pid
    let lock := pointerStr (waiting.getD 0)
    assertThat waiting.isNone s!"already have lwlock ptr {lock} when entering {name}"
    whenever o.trackBlockers do
      let blocker ← lockWaitBlocker.lookup? pid
      assertThat blocker.isNone s!"already have blocker when entering {name}"
      let appname ← lockWaitBlockerAppname.lookup? pid
      assertThat appname.isNone s!"already have blocker appname when entering {name}"
    acquireFunc.assign pid name

def acquireFinish (pid : Pid) (func : AcquireFunc) : Script M Unit :=
  match func.finishMark with
  | none      => pure ()
  | some name => do
    let inFunc ← acquireFunc.lookup? pid
    let was := inFunc.getD ""
    assertThat inFunc.isNone s!"expected empty acquire_func in {name} but got {was}"

/-- `backend__type`: a description that is a null pointer is `none`. -/
def backendType (o : Options) (pid : Pid) (type : Int) (description : Option String) : Script M Unit :=
  whenever o.trackApplicationNames do
    backendTypes.assign pid type
    match description with
    | some name => applicationNames.assign pid name
    | none      => pure ()

/-- `guc__application__name__assigned`. -/
def applicationName (o : Options) (pid : Pid) (name : Option String) : Script M Unit :=
  whenever o.trackApplicationNames
    (match name with
    | some name => applicationNames.assign pid name
    | none      => pure ())

/-- `postgres.end`, for the statistics of the process. -/
def endStats (o : Options) (pid : Pid) : Script M Unit :=
  whenever o.trackPerProcess do
    let keys := ((durationsPid .held).table (← get)).keys.filter (fun k => k.1 = pid)
    whenever (!keys.isEmpty) do
      let type ← backendTypes.read pid 0
      let description ← applicationNames.read pid ""
      let rows ← statsRows (statsPid o pid) (keys.map Prod.snd)
      print (.exited pid type description rows)
      (durationsPid .held).deleteAll (fun k => k.1 = pid)

def deletePerPidEntries (o : Options) (pid : Pid) : Script M Unit := do
  whenever (o.trackHolds || o.trackBlockers) do
    let held := (locksHeldByPid.table (← get)).keys.filter (fun k => k.1 = pid)
    modify (fun s => { s with printed := s.printed ++ held.map (fun k => .leaked k.1 k.2.1 k.2.2) })
    locksHeldByPid.deleteAll (fun k => k.1 = pid)
  whenever o.trackBlockers do
    lockWaitBlocker.delete pid
    lockWaitBlockerMode.delete pid
    lockWaitBlockerAppname.delete pid
  whenever o.trackApplicationNames do
    applicationNames.delete pid
    backendTypes.delete pid
  lockWaitStartUs.delete pid
  acquireFunc.delete pid
  lockWaitLwlockP.delete pid

/-- `timer.ms(5000)`. -/
def periodic (o : Options) : Script M Unit :=
  whenever o.periodicSummary do
    printStats o .held
    printStats o .wait
    whenever (!o.cumulative) do
      (durationsAllprocs .held).deleteAll (fun _ => true)
      (durationsAllprocs .wait).deleteAll (fun _ => true)

/-! ## Runs -/

/-- A handler of a process's probes, with what its mark carries. -/
inductive Probe where
  | acquireStart (func : AcquireFunc)
  | waitStart (mode : LWLockMode) (lock : Lock)
  | holdAcquired (trancheName : String) (mode : LWLockMode) (lock : Lock) (trancheId : Nat)
  | waitDone (how : Completion) (lock : Lock) (trancheId : Nat)
  | acquireFinish (func : AcquireFunc)
  | release (mode : LWLockMode) (lock : Lock) (trancheId : Nat)
  | backendType (type : Int) (description : Option String)
  | applicationName (name : Option String)
  | endStats
  | endCleanup
deriving DecidableEq, Repr

inductive Event where
  | probe (pid : Pid) (now : Int) (probe : Probe)
  | timer
deriving DecidableEq, Repr

def fire (o : Options) (pid : Pid) (now : Int) : Probe → Script M Unit
  | .acquireStart func                           => acquireStart o pid func
  | .waitStart mode lock                         => waitStart o pid now mode lock
  | .holdAcquired trancheName mode lock trancheId => holdAcquired o pid now trancheName mode lock trancheId
  | .waitDone how lock trancheId                 => waitDone o pid now how.mode lock trancheId
  | .acquireFinish func                          => acquireFinish pid func
  | .release mode lock trancheId                 => release o pid now mode lock trancheId
  | .backendType type description                => backendType o pid type description
  | .applicationName name                        => applicationName o pid name
  | .endStats                                    => endStats o pid
  | .endCleanup                                  => deletePerPidEntries o pid

def handle (o : Options) : Event → Script M Unit
  | .probe pid now p => fire o pid now p
  | .timer           => periodic o

/-- The script on the events of a run. -/
def script (o : Options) : List Event → Script M Unit
  | []      => pure ()
  | e :: es => do
    handle o e
    script o es

end Lwlock
end Scrapcode
