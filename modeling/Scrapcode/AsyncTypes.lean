import Mathlib.Logic.Function.Basic
import Scrapcode.Programs
/-!
# AsyncTypes — the data of the libpq event-loop sample

`async_sample.c` as it reads once its slips of syntax are set right: the brace missing after `if (session->queue_head
== 0)`, `session->send_cb` and `session->result_cb` for the queue head's callbacks, `QUERY_SENT` for `SESSION_QUEUED`,
a bare `session_state` for the session's own.

Memory is a partial map from addresses to queue items; storage that was never initialised holds any item at all.  A
pointer is an address or `none` for `NULL`.  The callbacks of an item are functions of its private storage, as their
typedefs allow.  A program that ends early (an assert, a wild pointer, `error_die`) keeps the state it had then, with
what it had done so far in `log`.
-/
namespace Scrapcode
namespace Async

open Programs

abbrev Addr := Nat

abbrev Ptr := Option Addr

inductive Fault where
  | assertFailed (text : String)
  | badAddress
  | errorDie (message : String)
deriving DecidableEq, Repr

inductive SessionState where
  | idle
  | queued
  | flushed
deriving DecidableEq, Repr

inductive ExecStatus where
  | commandOk
  | tuplesOk
  | fatalError
  | other
deriving DecidableEq, Repr

structure PGresult where
  query   : Nat
  status  : ExecStatus
  nfields : Nat
  ntuples : Nat
deriving DecidableEq, Repr

/-! ## Queue items -/

/-- What a send callback does before its one `PQsendQuery`: the private storage it leaves, or the end of the run. -/
abbrev SendCb := UInt64 → Except Fault UInt64

abbrev ResultCb := UInt64 → Option PGresult → Except Fault UInt64

/-- The free callbacks: one that leaves the item alone, one that frees it, and one that pushes it again. -/
inductive FreeCb where
  | doNothing
  | simpleCommandFree
  | insertQueryFree
deriving DecidableEq, Repr

structure QueryQueueItem where
  next      : Ptr
  sendCb    : Option SendCb
  resultCb  : Option ResultCb
  freeCb    : Option FreeCb
  cbPrivate : UInt64
  comment   : List Char

def queryQueueItemCommentMaxlen : Nat := 63

/-! ## Connections and sessions -/

/-- What libpq keeps for a connection: the query in flight, its results that were read from the socket, whether its end
was read too, the bytes `PQflush` has not handed to the socket yet, and the notifications not asked for yet. -/
structure PGconn where
  inFlight  : Option Nat
  arrived   : List PGresult
  complete  : Bool
  unsent    : Nat
  notifies  : List Nat
  nextQuery : Nat
deriving DecidableEq, Repr

structure AppSession where
  conn         : PGconn
  sessionState : SessionState
  queueHead    : Ptr
  queueTail    : Ptr
  notifyCb     : Bool
deriving DecidableEq, Repr

/-! ## The state of a run -/

inductive Event where
  | pushed (a : Addr)
  | popped (a : Addr)
  | sent (a : Addr) (query : Nat)
  | gotResult (a : Addr) (res : Option PGresult)
  | notified (notification : Nat)
  | notifyFreed (notification : Nat)
deriving DecidableEq, Repr

/-- The state of a run: memory, the session, whether its poll mask has `POLLOUT`, whether control is at the test of
the loop that drains results, the fault that ended the run, and what the run has done (`log`, a history the code does
not keep). -/
structure World where
  heap    : Addr → Option QueryQueueItem
  session : AppSession
  pollout : Bool
  inDrain : Bool
  halted  : Option Fault
  log     : List Event

def pendingStep : List Addr → Event → List Addr
  | l, .pushed a => l ++ [a]
  | l, .popped a => l.erase a
  | l, _         => l

def pending (log : List Event) : List Addr := log.foldl pendingStep []

def World.next (w : World) (a : Addr) : Option Ptr := (w.heap a).map QueryQueueItem.next

/-! ## Programs -/

abbrev Prog (α : Type) := EStateM Fault World α

def exec (p : Prog Unit) (w : World) : World :=
  match p w with
  | .ok _ w'    => w'
  | .error f w' => { w' with halted := some f }

def assertThat (b : Bool) (text : String) : Prog Unit :=
  if b then pure () else throw (.assertFailed text)

def deref (p : Ptr) : Prog Addr :=
  match p with
  | some a => pure a
  | none   => throw .badAddress

def loadItem (a : Addr) : Prog QueryQueueItem := do
  match (← get).heap a with
  | some it => pure it
  | none    => throw .badAddress

def storeItem (a : Addr) (it : QueryQueueItem) : Prog Unit :=
  modify (fun w => { w with heap := Function.update w.heap a (some it) })

def setHead (p : Ptr) : Prog Unit := modify (fun w => { w with session := { w.session with queueHead := p } })

def setTail (p : Ptr) : Prog Unit := modify (fun w => { w with session := { w.session with queueTail := p } })

def setConn (c : PGconn) : Prog Unit := modify (fun w => { w with session := { w.session with conn := c } })

def setState (st : SessionState) : Prog Unit :=
  modify (fun w => { w with session := { w.session with sessionState := st } })

def pollForWrite : Prog Unit := modify (fun w => { w with pollout := true })

def setInDrain (b : Bool) : Prog Unit := modify (fun w => { w with inDrain := b })

def record (e : Event) : Prog Unit := modify (fun w => { w with log := w.log ++ [e] })

def callback (r : Except Fault UInt64) : Prog UInt64 :=
  match r with
  | .ok v    => pure v
  | .error f => throw f

/-! ## What the primitives do to a state -/

variable {α β : Type} {w : World} {a : Addr} {it : QueryQueueItem}

@[simp] theorem assertThat_true (text : String) : assertThat true text w = .ok () w := rfl

@[simp] theorem assertThat_false (text : String) : assertThat false text w = .error (.assertFailed text) w := rfl

@[simp] theorem storeItem_run (a : Addr) (it : QueryQueueItem) (w : World) :
    storeItem a it w = .ok () { w with heap := Function.update w.heap a (some it) } := rfl

@[simp] theorem setHead_run (p : Ptr) (w : World) :
    setHead p w = .ok () { w with session := { w.session with queueHead := p } } := rfl

@[simp] theorem setTail_run (p : Ptr) (w : World) :
    setTail p w = .ok () { w with session := { w.session with queueTail := p } } := rfl

@[simp] theorem setConn_run (c : PGconn) (w : World) :
    setConn c w = .ok () { w with session := { w.session with conn := c } } := rfl

@[simp] theorem setState_run (st : SessionState) (w : World) :
    setState st w = .ok () { w with session := { w.session with sessionState := st } } := rfl

@[simp] theorem pollForWrite_run (w : World) : pollForWrite w = .ok () { w with pollout := true } := rfl

@[simp] theorem setInDrain_run (b : Bool) (w : World) : setInDrain b w = .ok () { w with inDrain := b } := rfl

@[simp] theorem record_run (e : Event) (w : World) : record e w = .ok () { w with log := w.log ++ [e] } := rfl

@[simp] theorem callback_ok (v : UInt64) (w : World) : callback (.ok v) w = .ok v w := rfl

@[simp] theorem callback_error (f : Fault) (w : World) : callback (.error f) w = .error f w := rfl

@[simp] theorem deref_some : deref (some a) w = .ok a w := rfl

@[simp] theorem deref_none : deref none w = .error .badAddress w := rfl

@[simp] theorem loadItem_run (a : Addr) (w : World) : loadItem a w =
    match w.heap a with
    | some it => .ok it w
    | none    => .error .badAddress w := by
  simp only [loadItem, bind_run, get_run]
  cases w.heap a <;> rfl

theorem exec_of_ok {p : Prog Unit} {w w' : World} (h : p w = .ok () w') : exec p w = w' := by
  simp only [exec, h]

theorem exec_of_error {p : Prog Unit} {w w' : World} {f : Fault} (h : p w = .error f w') :
    exec p w = { w' with halted := some f } := by
  simp only [exec, h]

end Async
end Scrapcode
