import Scrapcode.AsyncQueue
/-!
# AsyncService — `service_session`, over libpq's own query state

What libpq does is in the functions named after its calls; what the server and the socket do is in the arguments of a
call.  While no query is in flight `PQisBusy` is 0 and `PQgetResult` is `NULL`; a query's results are those that were
read from the socket while it was in flight.

The loop that drains results need not end, so a run takes it one test at a time: `serviceSession` in `SESSION_FLUSHED`
leaves control at the test (`inDrain`), and each `drainResult` is one test and, if it passes, one pass of the body.
-/
namespace Scrapcode
namespace Async

/-! ## libpq -/

/-- A result as it comes from the server; the query it answers is the one in flight. -/
structure Reply where
  status  : ExecStatus
  nfields : Nat
  ntuples : Nat
deriving DecidableEq, Repr

/-- What a `PQconsumeInput` finds: an error or not, the bytes of the send buffer the socket takes meanwhile, the
results read, whether the query's end was read, the notifications read. -/
structure Input where
  ok       : Bool
  flushed  : Nat
  replies  : List Reply
  complete : Bool
  notifies : List Nat
deriving DecidableEq, Repr

def Reply.result (query : Nat) (r : Reply) : PGresult :=
  { query := query, status := r.status, nfields := r.nfields, ntuples := r.ntuples }

def PGconn.consumeInput (c : PGconn) (input : Input) : Int × PGconn :=
  if input.ok then
    let c := { c with unsent := c.unsent - input.flushed, notifies := c.notifies ++ input.notifies }
    match c.inFlight with
    | none       => (1, c)
    | some query =>
      if c.complete then (1, c)
      else (1, { c with arrived := c.arrived ++ input.replies.map (Reply.result query), complete := input.complete })
  else (0, c)

def PGconn.popNotify (c : PGconn) : Option Nat × PGconn :=
  match c.notifies with
  | []      => (none, c)
  | n :: ns => (some n, { c with notifies := ns })

/-- `PQsendQuery`, given whether it can and the bytes it leaves in the send buffer. -/
def PGconn.sendQuery (c : PGconn) (ok : Bool) (bytes : Nat) : Int × PGconn :=
  if ok && c.inFlight.isNone then
    (1, { c with inFlight := some c.nextQuery, nextQuery := c.nextQuery + 1, arrived := [], complete := false
                 unsent := c.unsent + bytes })
  else (0, c)

/-- `PQflush`, given the bytes the socket takes (`none` for an error): 0 when the send buffer was emptied, 1 when data
is left unsent, -1 for an error. -/
def PGconn.flush (c : PGconn) (socket : Option Nat) : Int × PGconn :=
  match socket with
  | none   => (-1, c)
  | some n => (if c.unsent ≤ n then 0 else 1, { c with unsent := c.unsent - n })

def PGconn.isBusy (c : PGconn) : Bool := c.inFlight.isSome && c.arrived.isEmpty && !c.complete

def PGconn.getResult (c : PGconn) : Option PGresult × PGconn :=
  match c.inFlight with
  | none   => (none, c)
  | some _ =>
    match c.arrived with
    | r :: rs => (some r, { c with arrived := rs })
    | []      =>
      -- busy, it would block; the callers test that first
      if c.complete then (none, { c with inFlight := none, complete := false }) else (none, c)

/-! ## The code -/

/-- What the world outside does during a call of `service_session`. -/
structure Env where
  input     : Input
  sendOk    : Bool
  sendBytes : Nat
  socket    : Option Nat
deriving DecidableEq, Repr

def readSocket (readable : Bool) (input : Input) : Prog Unit := do
  if readable then
    let (ok, conn) := (← get).session.conn.consumeInput input
    setConn conn
    if ok ≠ 1 then throw (.errorDie "could not read from socket")

def dispatchNotification : Prog Unit := do
  let (notification, conn) := (← get).session.conn.popNotify
  setConn conn
  match notification with
  | none   => pure ()
  | some n =>
    if (← get).session.notifyCb then record (.notified n)
    record (.notifyFreed n)

/-- `case SESSION_IDLE`, up to the fall through: put the head's query on the internal libpq send buffer. -/
def sendHead (env : Env) : Prog Unit := do
  match (← get).session.queueHead with
  | none           => pure ()
  | some queueitem =>
    let it ← loadItem queueitem
    match it.sendCb with
    | none    => throw .badAddress
    | some cb =>
      let cbPrivate ← callback (cb it.cbPrivate)
      storeItem queueitem { it with cbPrivate := cbPrivate }
      let query := (← get).session.conn.nextQuery
      let (sendRes, conn) := (← get).session.conn.sendQuery env.sendOk env.sendBytes
      setConn conn
      if sendRes ≠ 1 then throw (.errorDie "could not add query to libpq send buffer")
      record (.sent queueitem query)
      setState .queued

/-- `case QUERY_SENT`. -/
def flushQuery (env : Env) : Prog Unit := do
  let (flushret, conn) := (← get).session.conn.flush env.socket
  setConn conn
  if flushret = -1 then throw (.errorDie "socket error while flushing libpq send buffer")
  else if flushret = 1 then
    -- "it's in flight as far as we're concerned, wait for results now"
    setState .flushed
  else
    assertThat (flushret == 0) "flushret == 0"
    pollForWrite

def serviceSession (readable : Bool) (env : Env) : Prog Unit := do
  readSocket readable env.input
  dispatchNotification
  match (← get).session.sessionState with
  | .idle    => do
    sendHead env
    flushQuery env
  | .queued  => flushQuery env
  | .flushed => setInDrain true

/-- One test of `while (!PQisBusy(conn))`, and the loop's body when it passes. -/
def drainResult : Prog Unit := do
  if (← get).session.conn.isBusy then setInDrain false
  else
    let (res, conn) := (← get).session.conn.getResult
    setConn conn
    let head ← deref (← get).session.queueHead
    let it ← loadItem head
    match it.resultCb with
    | none    => throw .badAddress
    | some cb =>
      record (.gotResult head res)
      let cbPrivate ← callback (cb it.cbPrivate res)
      storeItem head { it with cbPrivate := cbPrivate }
      if res.isNone then
        popQueryQueueItem
        setState .idle
        pollForWrite

/-! ## Runs of calls -/

inductive ServiceEvent where
  | call (readable : Bool) (env : Env)
  | drain
deriving DecidableEq, Repr

def serviceStep (w : World) : ServiceEvent → Option World
  | .call readable env =>
    if w.halted.isNone && !w.inDrain then some (exec (serviceSession readable env) w) else none
  | .drain => if w.halted.isNone && w.inDrain then some (exec drainResult w) else none

end Async
end Scrapcode
