import Mathlib.Data.List.Induction
import Scrapcode.AsyncService
/-!
# AsyncPairing — which results reach which queue items

The law of a session's history (`Paired`): an item gets a result only between its own send and its final `NULL`, the
result is one of its own query, and it is popped only after exactly one final `NULL`.

The loop that drains results does not stop when the query in flight is done: `PQisBusy` is 0 then, `PQgetResult` is
`NULL`, and the loop's next pass gives that `NULL` to the next item, which was never sent, and pops it.  So the law
holds in the runs where no such pass finds an item (`EndsAlone`), and a call that is not such breaks it.
-/
namespace Scrapcode
namespace Async

open Programs

/-! ## The law -/

/-- Where an item is in its life, as the history tells. -/
inductive Phase where
  | outside
  | queued
  | sent (query : Nat)
  | finished
deriving DecidableEq, Repr

def phaseStep (a : Addr) (p : Phase) : Event → Phase
  | .pushed b         => if b = a then .queued else p
  | .sent b query     => if b = a then .sent query else p
  | .gotResult b none => if b = a then .finished else p
  | .popped b         => if b = a then .outside else p
  | _                 => p

def phase (log : List Event) (a : Addr) : Phase := log.foldl (phaseStep a) .outside

/-- **What may come next in a history.** -/
def Allowed (past : List Event) : Event → Prop
  | .gotResult a (some r) => phase past a = .sent r.query
  | .gotResult a none     => ∃ query, phase past a = .sent query
  | .popped a             => phase past a = .finished
  | _                     => True

def Paired (log : List Event) : Prop := ∀ past e rest, log = past ++ e :: rest → Allowed past e

@[simp] theorem phase_append (log : List Event) (e : Event) (a : Addr) :
    phase (log ++ [e]) a = phaseStep a (phase log a) e := by
  unfold phase; rw [List.foldl_append]; rfl

theorem paired_append (log : List Event) (e : Event) : Paired (log ++ [e]) ↔ Paired log ∧ Allowed log e := by
  constructor
  · exact fun h => ⟨fun past e' rest he => h past e' (rest ++ [e]) (by rw [he]; simp), h log e [] rfl⟩
  · rintro ⟨h, he⟩ past e' rest hs
    rcases List.eq_nil_or_concat rest with rfl | ⟨rest', x, rfl⟩
    · obtain ⟨rfl, hx⟩ := List.append_inj' hs rfl
      cases hx; exact he
    · rw [List.concat_eq_append, ← List.cons_append, ← List.append_assoc] at hs
      exact h past e' rest' (List.append_inj' hs rfl).1

/-! ## What may come before a result reaches its item -/

/-- The callback returns on each of the results and on the final `NULL`, each time with the storage it left before. -/
def Returns (cb : ResultCb) : UInt64 → List PGresult → Bool
  | v, []      => (cb v none).isOk
  | v, r :: rs =>
    match cb v (some r) with
    | .ok v'   => Returns cb v' rs
    | .error _ => false

/-- **The drained end finds no further item**: the head is alone and its free callback does not push it again, or its
result callback ends the program before the end is drained. -/
def LastItem (w : World) (arrived : List PGresult) : Prop :=
  ∀ h it cb, w.session.queueHead = some h → w.heap h = some it → it.resultCb = some cb →
    (it.next = none ∧ it.freeCb ≠ some .insertQueryFree) ∨ Returns cb it.cbPrivate arrived = false

/-- What libpq has once a call has read its input. -/
def received (c : PGconn) (readable : Bool) (input : Input) : PGconn :=
  if readable then (c.consumeInput input).2 else c

/-- **What keeps the law**: in `SESSION_FLUSHED`, once the end of the query in flight was read, there is no further item
for the loop to find. -/
def EndsAlone (w : World) : ServiceEvent → Prop
  | .call readable env =>
    w.session.sessionState = .flushed → (readable = true → env.input.ok = true) →
      (received w.session.conn readable env.input).complete = true →
        LastItem w (received w.session.conn readable env.input).arrived
  | .drain => True

/-! ## The invariant -/

/-- A query of the head is in flight; the other items wait. -/
structure InFlight (w : World) (h : Addr) (rest : List Addr) (query : Nat) : Prop where
  items   : pending w.log = h :: rest
  conn    : w.session.conn.inFlight = some query
  own     : ∀ r ∈ w.session.conn.arrived, r.query = query
  sent    : phase w.log h = .sent query
  waiting : ∀ x ∈ rest, phase w.log x = .queued

structure Resting (w : World) : Prop where
  items  : ∀ x ∈ pending w.log, phase w.log x = .queued
  conn   : w.session.conn.inFlight = none
  unsent : w.session.conn.unsent = 0

/-- What holds at each point of control of a program that has not ended. -/
def AtControl (w : World) : Prop :=
  match w.session.sessionState, w.inDrain with
  | .idle, false    => Resting w
  | .idle, true     => pending w.log = [] ∧ w.session.conn.inFlight = none
  | .queued, false  => ∃ h rest query, InFlight w h rest query
  | .queued, true   => False
  | .flushed, false => ∃ h rest query, InFlight w h rest query
  | .flushed, true  => (∃ h rest query, InFlight w h rest query) ∧
      (w.session.conn.complete = true → LastItem w w.session.conn.arrived)

structure Law (w : World) : Prop where
  paired  : Paired w.log
  queue   : w.halted = none → QueueOk w
  control : w.halted = none → AtControl w

abbrev Ends {α : Type} (r : EStateM.Result Fault World α) (Q : α → World → Prop) : Prop :=
  Programs.Ends r Q (fun _ w => Paired w.log)

theorem law_exec {p : Prog Unit} {w : World} (h : Ends (p w) (fun _ w' => Law w')) : Law (exec p w) := by
  unfold exec
  cases hp : p w with
  | ok x w'    => rw [hp] at h; exact h
  | error e w' => rw [hp] at h; exact ⟨h, (nomatch ·), (nomatch ·)⟩

/-! ## Reading the socket and the notification -/

variable {w w' : World} {a h : Addr} {rest : List Addr} {query : Nat}

/-- The queue, the control state and what the history says of the items are as before. -/
structure Untouched (w w' : World) : Prop where
  heap    : w'.heap = w.heap
  session : w'.session = { w.session with conn := w'.session.conn }
  halted  : w'.halted = w.halted
  inDrain : w'.inDrain = w.inDrain
  pending : pending w'.log = pending w.log
  phase   : ∀ a, phase w'.log a = phase w.log a
  paired  : Paired w.log → Paired w'.log

theorem Untouched.of_log {w w' : World} (hheap : w'.heap = w.heap)
    (hsession : w'.session = { w.session with conn := w'.session.conn }) (hhalted : w'.halted = w.halted)
    (hdrain : w'.inDrain = w.inDrain) (hlog : w'.log = w.log) : Untouched w w' :=
  ⟨hheap, hsession, hhalted, hdrain, by rw [hlog], fun _ => by rw [hlog], fun hp => by rw [hlog]; exact hp⟩

theorem Untouched.trans {w₁ w₂ w₃ : World} (h₁ : Untouched w₁ w₂) (h₂ : Untouched w₂ w₃) : Untouched w₁ w₃ :=
  ⟨h₂.heap.trans h₁.heap, by rw [h₂.session, h₁.session], h₂.halted.trans h₁.halted, h₂.inDrain.trans h₁.inDrain,
    h₂.pending.trans h₁.pending, fun a => (h₂.phase a).trans (h₁.phase a), fun hp => h₂.paired (h₁.paired hp)⟩

/-- A history event that is about no item. -/
def Event.isNotice : Event → Bool
  | .notified _    => true
  | .notifyFreed _ => true
  | _              => false

theorem Untouched.notice {w : World} {e : Event} (he : e.isNotice = true) :
    Untouched w { w with log := w.log ++ [e] } := by
  have hall : Allowed w.log e := by
    cases e with
    | notified n => trivial
    | notifyFreed n => trivial
    | _ => cases he
  refine ⟨rfl, rfl, rfl, rfl, ?_, fun a => ?_, fun hp => (paired_append _ _).2 ⟨hp, hall⟩⟩
  · rw [pending_append]; cases e <;> first | rfl | cases he
  · rw [phase_append]; cases e <;> first | rfl | cases he

theorem QueueOk.congr (hok : QueueOk w) (hh : w'.halted = w.halted)
    (hhd : w'.session.queueHead = w.session.queueHead) (htl : w'.session.queueTail = w.session.queueTail)
    (hn : ∀ x, w'.next x = w.next x) (hp : Async.pending w'.log = Async.pending w.log) : QueueOk w' := by
  refine ⟨hh.trans hok.running, ?_, ?_, ?_, ?_, ?_⟩
  · rw [hhd, htl]; exact hok.null_iff
  · rw [hhd, hp]; exact hok.visits.congr (fun x _ => hn x)
  · rw [hp]; exact hok.distinct
  · rw [htl, hp]; exact hok.tail
  · intro t ht
    rw [htl] at ht
    rw [hn]; exact hok.tailNull t ht

theorem QueueOk.untouched (hok : QueueOk w) (hu : Untouched w w') : QueueOk w' :=
  hok.congr hu.halted (by rw [hu.session]) (by rw [hu.session]) (fun x => by simp only [World.next, hu.heap]) hu.pending

/-- Writing an item's private storage moves no link. -/
theorem next_store {it it' : QueryQueueItem} (hit : w.heap h = some it) (hn : it'.next = it.next) (x : Addr) :
    (Function.update w.heap h (some it') x).map QueryQueueItem.next = w.next x := by
  by_cases hx : x = h
  · subst hx; simp [World.next, hit, hn]
  · simp [World.next, hx]

theorem readSocket_ends (w : World) (readable : Bool) (input : Input) :
    Programs.Ends (readSocket readable input w) (fun _ w' => Untouched w w' ∧ (readable = true → input.ok = true) ∧
      w'.session.conn = received w.session.conn readable input) (fun _ w' => w'.log = w.log) := by
  cases readable with
  | false => exact ⟨Untouched.of_log rfl rfl rfl rfl rfl, (nomatch ·), rfl⟩
  | true =>
    cases hok : input.ok with
    | false => simp [readSocket, PGconn.consumeInput, hok, Programs.Ends]
    | true =>
      have h1 : (w.session.conn.consumeInput input).1 = 1 := by
        simp only [PGconn.consumeInput, hok, if_true]
        cases w.session.conn.inFlight with
        | none   => rfl
        | some q => dsimp only; split <;> rfl
      refine Programs.Ends.of_ok (x := ()) (t := { w with session :=
        { w.session with conn := (w.session.conn.consumeInput input).2 } }) ?_ ?_
      · simp [readSocket, h1]
      · exact ⟨Untouched.of_log rfl rfl rfl rfl rfl, fun _ => rfl, rfl⟩

theorem dispatchNotification_ends (w : World) :
    Programs.Ends (dispatchNotification w) (fun _ w' => Untouched w w' ∧
      ∃ ns, w'.session.conn = { w.session.conn with notifies := ns }) (fun _ _ => False) := by
  cases hn : w.session.conn.notifies with
  | nil =>
    refine Programs.Ends.of_ok (x := ()) (t := w) ?_ ⟨Untouched.of_log rfl rfl rfl rfl rfl, _, rfl⟩
    simp [dispatchNotification, PGconn.popNotify, hn]
  | cons n ns =>
    let w₁ : World := { w with session := { w.session with conn := { w.session.conn with notifies := ns } } }
    have h₁ : Untouched w w₁ := Untouched.of_log rfl rfl rfl rfl rfl
    cases hcb : w.session.notifyCb with
    | false =>
      refine Programs.Ends.of_ok (x := ()) (t := { w₁ with log := w₁.log ++ [.notifyFreed n] }) ?_
        ⟨h₁.trans (Untouched.notice rfl), ns, rfl⟩
      simp [dispatchNotification, PGconn.popNotify, hn, hcb, w₁]
    | true =>
      let w₂ : World := { w₁ with log := w₁.log ++ [.notified n] }
      have h₂ : Untouched w w₂ := h₁.trans (Untouched.notice rfl)
      refine Programs.Ends.of_ok (x := ()) (t := { w₂ with log := w₂.log ++ [.notifyFreed n] }) ?_
        ⟨h₂.trans (Untouched.notice rfl), ns, rfl⟩
      simp [dispatchNotification, PGconn.popNotify, hn, hcb, w₁, w₂]

/-! ## The invariant along the input -/

theorem received_inFlight (c : PGconn) (readable : Bool) (input : Input) :
    (received c readable input).inFlight = c.inFlight := by
  unfold received PGconn.consumeInput
  cases hq : c.inFlight <;> cases readable <;> cases input.ok <;> cases c.complete <;> simp [hq]

theorem received_arrived {c : PGconn} {readable : Bool} {input : Input} {r : PGresult}
    (h : r ∈ (received c readable input).arrived) : r ∈ c.arrived ∨ c.inFlight = some r.query := by
  unfold received PGconn.consumeInput at h
  cases hq : c.inFlight <;> cases readable <;> cases hok : input.ok <;> cases hc : c.complete <;>
    simp only [hq, hok, hc, if_true, if_false, Bool.false_eq_true] at h <;> try exact Or.inl h
  rcases List.mem_append.1 h with h | h
  · exact Or.inl h
  · obtain ⟨x, -, rfl⟩ := List.mem_map.1 h
    exact Or.inr rfl

theorem received_unsent_le (c : PGconn) (readable : Bool) (input : Input) :
    (received c readable input).unsent ≤ c.unsent := by
  unfold received PGconn.consumeInput
  cases c.inFlight <;> cases readable <;> cases input.ok <;> cases c.complete <;> simp

theorem InFlight.received (hf : InFlight w h rest query) (hu : Untouched w w') {readable : Bool} {input : Input}
    {ns : List Nat} (hc : w'.session.conn = { received w.session.conn readable input with notifies := ns }) :
    InFlight w' h rest query := by
  refine ⟨hu.pending.trans hf.items, ?_, fun r hr => ?_, (hu.phase h).trans hf.sent,
    fun x hx => (hu.phase x).trans (hf.waiting x hx)⟩
  · rw [hc]; exact (received_inFlight _ _ _).trans hf.conn
  · rw [hc] at hr
    rcases received_arrived hr with hr | hr
    · exact hf.own r hr
    · rw [hf.conn] at hr; cases hr; rfl

theorem Resting.received (hr : Resting w) (hu : Untouched w w') {readable : Bool} {input : Input}
    {ns : List Nat} (hc : w'.session.conn = { received w.session.conn readable input with notifies := ns }) :
    Resting w' := by
  refine ⟨fun x hx => (hu.phase x).trans (hr.items x (hu.pending ▸ hx)), ?_, ?_⟩
  · rw [hc]; exact (received_inFlight _ _ _).trans hr.conn
  · have := received_unsent_le w.session.conn readable input
    rw [hr.unsent] at this
    rw [hc]; exact Nat.le_zero.1 this

/-! ## The calls that send and flush -/

theorem flushQuery_ends (w : World) (env : Env) :
    Programs.Ends (flushQuery env w) (fun _ w' => ∃ unsent pollout state,
      w' = { w with
        session := { w.session with conn := { w.session.conn with unsent := unsent }, sessionState := state }
        pollout := pollout } ∧
      (∃ n, env.socket = some n ∧ unsent = w.session.conn.unsent - n) ∧
      (state = w.session.sessionState ∨ (state = .flushed ∧ unsent ≠ 0))) (fun _ w' => w'.log = w.log) := by
  cases hs : env.socket with
  | none => simp [flushQuery, PGconn.flush, hs, Programs.Ends]
  | some n =>
    have hrun : flushQuery env w = .ok () { w with
        session := { w.session with
          conn := { w.session.conn with unsent := w.session.conn.unsent - n }
          sessionState := if n < w.session.conn.unsent then .flushed else w.session.sessionState }
        pollout := if n < w.session.conn.unsent then w.pollout else true } := by
      by_cases hlt : n < w.session.conn.unsent
      · simp [flushQuery, PGconn.flush, hs, hlt, Nat.not_le.2 hlt]
      · simp [flushQuery, PGconn.flush, hs, hlt, Nat.not_lt.1 hlt]
    refine Programs.Ends.of_ok hrun ⟨_, _, _, rfl, ⟨n, rfl, rfl⟩, ?_⟩
    split
    · exact Or.inr ⟨rfl, by omega⟩
    · exact Or.inl rfl

theorem law_flushQuery (hp : Paired w.log) (hok : QueueOk w) (hd : w.inDrain = false) (env : Env)
    (hc : (w.session.sessionState = .idle ∧ Resting w) ∨
      (w.session.sessionState = .queued ∧ ∃ h rest query, InFlight w h rest query)) :
    Ends (flushQuery env w) (fun _ w' => Law w') := by
  refine (flushQuery_ends w env).mono ?_ (fun _ _ h => h ▸ hp)
  rintro _ _ ⟨unsent, pollout, state, rfl, ⟨n, -, hn⟩, hst⟩
  refine ⟨hp, fun _ => ⟨hok.running, hok.null_iff, hok.visits, hok.distinct, hok.tail, hok.tailNull⟩, fun _ => ?_⟩
  unfold AtControl
  rcases hc with ⟨hidle, hr⟩ | ⟨hqueued, h, rest, query, hf⟩
  · have h0 : unsent = 0 := by rw [hn, hr.unsent, Nat.zero_sub]
    rcases hst with rfl | ⟨-, hne⟩
    · simp only [hidle, hd]
      exact ⟨hr.items, hr.conn, h0⟩
    · exact absurd h0 hne
  · rcases hst with rfl | ⟨rfl, -⟩
    · simp only [hqueued, hd]
      exact ⟨h, rest, query, hf.items, hf.conn, hf.own, hf.sent, hf.waiting⟩
    · simp only [hd]
      exact ⟨h, rest, query, hf.items, hf.conn, hf.own, hf.sent, hf.waiting⟩

/-- **Sending the head's query** puts it in flight; with an empty queue nothing happens. -/
theorem sendHead_ends (hp : Paired w.log) (hok : QueueOk w) (hr : Resting w)
    (hidle : w.session.sessionState = .idle) (env : Env) :
    Ends (sendHead env w) (fun _ w' => Paired w'.log ∧ QueueOk w' ∧ w'.inDrain = w.inDrain ∧
      ((w'.session.sessionState = .idle ∧ Resting w') ∨
        (w'.session.sessionState = .queued ∧ ∃ h rest query, InFlight w' h rest query))) := by
  cases hh : w.session.queueHead with
  | none =>
    refine Programs.Ends.of_ok (x := ()) (t := w) (by simp [sendHead, hh]) ?_
    exact ⟨hp, hok, rfl, Or.inl ⟨hidle, hr⟩⟩
  | some h =>
    obtain ⟨it, hit⟩ := hok.cell (List.mem_of_head? (hok.head ▸ hh))
    cases hcb : it.sendCb with
    | none => simpa [sendHead, hh, hit, hcb, Ends, Programs.Ends] using hp
    | some cb =>
      cases hv : cb it.cbPrivate with
      | error f => simpa [sendHead, hh, hit, hcb, hv, Ends, Programs.Ends] using hp
      | ok v =>
        cases hs : env.sendOk with
        | false => simpa [sendHead, hh, hit, hcb, hv, PGconn.sendQuery, hs, Ends, Programs.Ends] using hp
        | true =>
          refine Programs.Ends.of_ok (x := ()) (t := { w with
            heap := Function.update w.heap h (some { it with cbPrivate := v })
            session := { w.session with
              conn := { w.session.conn with
                inFlight := some w.session.conn.nextQuery, nextQuery := w.session.conn.nextQuery + 1, arrived := []
                complete := false, unsent := w.session.conn.unsent + env.sendBytes }
              sessionState := .queued }
            log := w.log ++ [.sent h w.session.conn.nextQuery] })
            (by simp [sendHead, hh, hit, hcb, hv, PGconn.sendQuery, hs, hr.conn]) ?_
          have hhd := hok.head
          rw [hh] at hhd
          obtain ⟨rest, hrest⟩ := List.head?_eq_some_iff.1 hhd.symm
          have hnd := hok.distinct
          rw [hrest] at hnd
          refine ⟨(paired_append _ _).2 ⟨hp, trivial⟩, ?_, rfl, Or.inr ⟨rfl, h, rest, w.session.conn.nextQuery, ?_⟩⟩
          · exact hok.congr rfl rfl rfl (next_store hit rfl) (pending_append _ _)
          · refine ⟨?_, rfl, fun r hr => (nomatch hr), ?_, fun x hx => ?_⟩
            · rw [pending_append]; exact hrest
            · rw [phase_append]; simp [phaseStep]
            · have hxh : ¬ h = x := fun e => (List.nodup_cons.1 hnd).1 (e ▸ hx)
              rw [phase_append]
              simp only [phaseStep, if_neg hxh]
              exact hr.items x (by rw [hrest]; simp [hx])

/-! ## One pass of the loop that drains results -/

theorem lastItem_iff {it : QueryQueueItem} {cb : ResultCb} (hh : w.session.queueHead = some h)
    (hit : w.heap h = some it) (hcb : it.resultCb = some cb) (rs : List PGresult) :
    LastItem w rs ↔ (it.next = none ∧ it.freeCb ≠ some .insertQueryFree) ∨ Returns cb it.cbPrivate rs = false := by
  constructor
  · exact fun hl => hl h it cb hh hit hcb
  · intro hl h' it' cb' hh' hit' hcb'
    rw [hh] at hh'; cases hh'
    rw [hit] at hit'; cases hit'
    rw [hcb] at hcb'; cases hcb'
    exact hl

/-- The queue's head while its query is in flight. -/
theorem InFlight.head (hf : InFlight w h rest query) (hok : QueueOk w) :
    w.session.queueHead = some h ∧ ∃ it, w.heap h = some it := by
  refine ⟨by rw [hok.head, hf.items]; rfl, hok.cell (by rw [hf.items]; simp)⟩

/-- The state once the head's callback has returned from a result. -/
def World.gotResult (w : World) (conn : PGconn) (head : Addr) (it : QueryQueueItem) (cbPrivate : UInt64)
    (res : Option PGresult) : World :=
  { w with
    heap := Function.update w.heap head (some { it with cbPrivate := cbPrivate })
    session := { w.session with conn := conn }
    log := w.log ++ [.gotResult head res] }

theorem drain_run {it : QueryQueueItem} {cb : ResultCb} {res : Option PGresult} {conn : PGconn}
    (hbusy : w.session.conn.isBusy = false) (hget : w.session.conn.getResult = (res, conn))
    (hh : w.session.queueHead = some h) (hit : w.heap h = some it) (hcb : it.resultCb = some cb) :
    drainResult w =
      match cb it.cbPrivate res with
      | .error f => .error f { w with
          session := { w.session with conn := conn }, log := w.log ++ [.gotResult h res] }
      | .ok v    =>
        if res.isNone then (do popQueryQueueItem; setState .idle; pollForWrite : Prog Unit) (w.gotResult conn h it v res)
        else .ok () (w.gotResult conn h it v res) := by
  cases hv : cb it.cbPrivate res with
  | error f => simp [drainResult, hbusy, hget, hh, hit, hcb, hv]
  | ok v => cases res <;> simp [drainResult, hbusy, hget, hh, hit, hcb, hv, World.gotResult]

theorem QueueOk.gotResult (hok : QueueOk w) {it : QueryQueueItem} (hit : w.heap h = some it) (conn : PGconn)
    (v : UInt64) (res : Option PGresult) : QueueOk (w.gotResult conn h it v res) :=
  hok.congr rfl rfl rfl (next_store hit rfl) (pending_append _ _)

/-- **A result of the query in flight goes to the item that sent it.** -/
theorem drain_result {r : PGresult} {rs : List PGresult} (hp : Paired w.log) (hok : QueueOk w)
    (hst : w.session.sessionState = .flushed) (hd : w.inDrain = true) (hf : InFlight w h rest query)
    (hl : w.session.conn.complete = true → LastItem w w.session.conn.arrived) (ha : w.session.conn.arrived = r :: rs) :
    Ends (drainResult w) (fun _ w' => Law w') := by
  obtain ⟨hh, it, hit⟩ := hf.head hok
  have hbusy : w.session.conn.isBusy = false := by simp [PGconn.isBusy, ha]
  have hget : w.session.conn.getResult = (some r, { w.session.conn with arrived := rs }) := by
    simp [PGconn.getResult, hf.conn, ha]
  have hall : Allowed w.log (.gotResult h (some r)) := by
    show phase w.log h = .sent r.query
    rw [hf.sent, hf.own r (by simp [ha])]
  have hp' := (paired_append _ _).2 ⟨hp, hall⟩
  cases hcb : it.resultCb with
  | none => simpa [drainResult, hbusy, hget, hh, hit, hcb, Ends, Programs.Ends] using hp
  | some cb =>
    rw [drain_run hbusy hget hh hit hcb]
    cases hv : cb it.cbPrivate (some r) with
    | error f => exact hp'
    | ok v =>
      refine ⟨hp', fun _ => hok.gotResult hit _ v _, fun _ => ?_⟩
      have hphase : ∀ x, phase (w.log ++ [.gotResult h (some r)]) x = phase w.log x := fun x => phase_append _ _ _
      unfold AtControl
      simp only [World.gotResult, hst, hd]
      refine ⟨⟨h, rest, query, (pending_append _ _).trans hf.items, hf.conn, fun x hx => ?_,
        (hphase h).trans hf.sent, fun x hx => (hphase x).trans (hf.waiting x hx)⟩, fun hc => ?_⟩
      · exact hf.own x (by rw [ha]; exact List.mem_cons_of_mem _ hx)
      · have hl := (lastItem_iff hh hit hcb _).1 (hl hc)
        rw [ha] at hl
        let conn' : PGconn := { w.session.conn with arrived := rs }
        have hit' : (w.gotResult conn' h it v (some r)).heap h = some { it with cbPrivate := v } :=
          Function.update_self ..
        have hcb' : ({ it with cbPrivate := v } : QueryQueueItem).resultCb = some cb := hcb
        have hh' : (w.gotResult conn' h it v (some r)).session.queueHead = some h := hh
        exact (lastItem_iff hh' hit' hcb' rs).2 (by simpa only [Returns, hv] using hl)

/-- **The end of the query in flight goes to the item that sent it**, which is popped; no item is left. -/
theorem drain_end (hp : Paired w.log) (hok : QueueOk w) (hd : w.inDrain = true) (hf : InFlight w h rest query)
    (hl : w.session.conn.complete = true → LastItem w w.session.conn.arrived) (ha : w.session.conn.arrived = [])
    (hc : w.session.conn.complete = true) : Ends (drainResult w) (fun _ w' => Law w') := by
  obtain ⟨hh, it, hit⟩ := hf.head hok
  have hbusy : w.session.conn.isBusy = false := by simp [PGconn.isBusy, hc]
  obtain ⟨conn, hget, hconn⟩ : ∃ conn, w.session.conn.getResult = (none, conn) ∧ conn.inFlight = none :=
    ⟨_, by simp [PGconn.getResult, hf.conn, ha, hc]; rfl, rfl⟩
  have hp' := (paired_append w.log (.gotResult h none)).2 ⟨hp, query, hf.sent⟩
  cases hcb : it.resultCb with
  | none => simpa [drainResult, hbusy, hget, hh, hit, hcb, Ends, Programs.Ends] using hp
  | some cb =>
    rw [drain_run hbusy hget hh hit hcb]
    cases hv : cb it.cbPrivate none with
    | error f => exact hp'
    | ok v =>
      have hlast := (lastItem_iff hh hit hcb _).1 (hl hc)
      rw [ha] at hlast
      obtain ⟨hnext, hfree⟩ := hlast.resolve_right (by simp [Returns, hv, Except.isOk, Except.toBool])
      have hok₁ := hok.gotResult hit conn v none
      simp only [Option.isNone_none, if_true, bind_run, setState_run, pollForWrite_run]
      generalize hw₁ : w.gotResult conn h it v none = w₁ at hok₁ ⊢
      have hh₁ : w₁.session.queueHead = some h := by rw [← hw₁]; exact hh
      have hit₁ : w₁.heap h = some { it with cbPrivate := v } := by rw [← hw₁]; exact Function.update_self ..
      have hlog₁ : w₁.log = w.log ++ [.gotResult h none] := by rw [← hw₁]; rfl
      obtain ⟨heap, hrun, hok₂⟩ := pop_frees hok₁ hh₁ hit₁ hfree
      obtain ⟨rest', -, hp₂, hok₃⟩ := hok₁.unlinked hh₁ hit₁
      have hnil : rest' = [] := by
        have hv' := hok₃.visits
        rw [hp₂] at hv'
        exact (hv'.null_iff).1 hnext
      rw [hrun]
      have hfin : phase w₁.log h = .finished := by rw [hlog₁, phase_append]; simp [phaseStep]
      refine ⟨(paired_append _ _).2 ⟨hlog₁ ▸ hp', hfin⟩, fun _ => hok₂.congr rfl rfl rfl (fun _ => rfl) rfl, fun _ => ?_⟩
      have hd₁ : w₁.inDrain = true := by rw [← hw₁]; exact hd
      have hc₁ : w₁.session.conn.inFlight = none := by rw [← hw₁]; exact hconn
      unfold AtControl
      simp only [unlinked, hd₁]
      exact ⟨hp₂.trans hnil, hc₁⟩

theorem law_drain (hlaw : Law w) (hrun : w.halted = none) (hd : w.inDrain = true) :
    Ends (drainResult w) (fun _ w' => Law w') := by
  have hok := hlaw.queue hrun
  have hctl := hlaw.control hrun
  unfold AtControl at hctl
  cases hst : w.session.sessionState with
  | idle =>
    -- the loop goes on with no query in flight and an empty queue: the head it reads is null
    simp only [hst, hd] at hctl
    have hh : w.session.queueHead = none := by rw [hok.head, hctl.1]; rfl
    simpa [drainResult, PGconn.isBusy, PGconn.getResult, hctl.2, hh, Ends, Programs.Ends] using hlaw.paired
  | queued => simp only [hst, hd] at hctl
  | flushed =>
    simp only [hst, hd] at hctl
    obtain ⟨⟨h, rest, query, hf⟩, hl⟩ := hctl
    cases ha : w.session.conn.arrived with
    | cons r rs => exact drain_result hlaw.paired hok hst hd hf hl ha
    | nil =>
      cases hc : w.session.conn.complete with
      | true => exact drain_end hlaw.paired hok hd hf hl ha hc
      | false =>
        refine Programs.Ends.of_ok (x := ()) (t := { w with inDrain := false }) ?_ ?_
        · simp [drainResult, PGconn.isBusy, hf.conn, ha, hc]
        · refine ⟨hlaw.paired, fun _ => hok.congr rfl rfl rfl (fun _ => rfl) rfl, fun _ => ?_⟩
          unfold AtControl
          simp only [hst]
          exact ⟨h, rest, query, hf.items, hf.conn, hf.own, hf.sent, hf.waiting⟩

/-! ## Calls and runs -/

theorem law_call (hlaw : Law w) (hrun : w.halted = none) (hd : w.inDrain = false) {readable : Bool} {env : Env}
    (hC : EndsAlone w (.call readable env)) : Ends (serviceSession readable env w) (fun _ w' => Law w') := by
  have hok := hlaw.queue hrun
  have hctl := hlaw.control hrun
  unfold serviceSession
  refine ((readSocket_ends w readable env.input).mono_fault (fun _ _ h => h ▸ hlaw.paired)).bind ?_
  rintro - w₁ ⟨hu₁, hread, hc₁⟩
  refine ((dispatchNotification_ends w₁).mono_fault (fun _ _ h => h.elim)).bind ?_
  rintro - w₂ ⟨hu₂, ns, hc₂⟩
  have hu := hu₁.trans hu₂
  rw [hc₁] at hc₂
  have hp₂ := hu.paired hlaw.paired
  have hok₂ := hok.untouched hu
  have hst₂ : w₂.session.sessionState = w.session.sessionState := by rw [hu.session]
  have hd₂ : w₂.inDrain = false := hu.inDrain.trans hd
  unfold AtControl at hctl
  simp only [bind_run, get_run]
  cases hst : w.session.sessionState with
  | idle =>
    simp only [hst, hd] at hctl
    rw [hst₂, hst]
    refine (sendHead_ends hp₂ hok₂ (hctl.received hu hc₂) (hst₂.trans hst) env).bind ?_
    rintro - w₃ ⟨hp₃, hok₃, hd₃, hcase⟩
    exact law_flushQuery hp₃ hok₃ (hd₃.trans hd₂) env hcase
  | queued =>
    simp only [hst, hd] at hctl
    obtain ⟨h, rest, query, hf⟩ := hctl
    rw [hst₂, hst]
    exact law_flushQuery hp₂ hok₂ hd₂ env (Or.inr ⟨hst₂.trans hst, h, rest, query, hf.received hu hc₂⟩)
  | flushed =>
    simp only [hst, hd] at hctl
    obtain ⟨h, rest, query, hf⟩ := hctl
    rw [hst₂, hst]
    refine ⟨hp₂, fun _ => hok₂.congr rfl rfl rfl (fun _ => rfl) rfl, fun _ => ?_⟩
    have hf₂ := hf.received hu hc₂
    unfold AtControl
    simp only [hst₂, hst]
    refine ⟨⟨h, rest, query, hf₂.items, hf₂.conn, hf₂.own, hf₂.sent, hf₂.waiting⟩, fun hc => ?_⟩
    rw [hc₂] at hc
    have hl := hC hst hread hc
    intro h' it' cb' hh' hit' hcb'
    have hhd : w₂.session.queueHead = w.session.queueHead := by rw [hu.session]
    have := hl h' it' cb' (hhd.symm.trans hh') (hu.heap ▸ hit') hcb'
    rw [hc₂]; exact this

/-- **A step that meets `EndsAlone` keeps the law.** -/
theorem serviceStep_law (w : World) (e : ServiceEvent) (w' : World) (hlaw : Law w) (hC : EndsAlone w e)
    (h : serviceStep w e = some w') : Law w' := by
  cases e with
  | call readable env =>
    simp only [serviceStep, Option.ite_none_right_eq_some, Bool.and_eq_true, Option.isNone_iff_eq_none,
      Bool.not_eq_true'] at h
    obtain ⟨⟨hrun, hd⟩, h⟩ := h
    cases h
    exact law_exec (law_call hlaw hrun hd hC)
  | drain =>
    simp only [serviceStep, Option.ite_none_right_eq_some, Bool.and_eq_true, Option.isNone_iff_eq_none] at h
    obtain ⟨⟨hrun, hd⟩, h⟩ := h
    cases h
    exact law_exec (law_drain hlaw hrun hd)

/-- A session as the caller of `service_session` hands it over: items were pushed, and nothing else was done. -/
structure Loaded (w : World) : Prop where
  queue    : QueueOk w
  idle     : w.session.sessionState = .idle
  inDrain  : w.inDrain = false
  inFlight : w.session.conn.inFlight = none
  unsent   : w.session.conn.unsent = 0
  log      : ∃ items : List Addr, w.log = items.map Event.pushed

theorem phase_pushed (items : List Addr) : ∀ x ∈ items, phase (items.map Event.pushed) x = .queued := by
  induction items using List.reverseRecOn with
  | nil => exact fun _ h => nomatch h
  | append_singleton items a ih =>
    intro x hx
    rw [List.map_append, List.map_singleton, phase_append]
    by_cases hax : a = x
    · simp [phaseStep, hax]
    · simp only [phaseStep, if_neg hax]
      exact ih x (by simpa [Ne.symm hax] using hx)

theorem pending_pushed (items : List Addr) : pending (items.map Event.pushed) = items := by
  induction items using List.reverseRecOn with
  | nil => rfl
  | append_singleton items a ih => rw [List.map_append, List.map_singleton, pending_append, ih]; rfl

theorem Loaded.law (hw : Loaded w) : Law w := by
  obtain ⟨items, hlog⟩ := hw.log
  refine ⟨?_, fun _ => hw.queue, fun _ => ?_⟩
  · rintro past e tail hs
    rw [hlog] at hs
    have he : e ∈ items.map Event.pushed := by rw [hs]; simp
    obtain ⟨a, -, rfl⟩ := List.mem_map.1 he
    trivial
  · unfold AtControl
    simp only [hw.idle, hw.inDrain]
    refine ⟨fun x hx => ?_, hw.inFlight, hw.unsent⟩
    rw [hlog, pending_pushed] at hx
    rw [hlog]; exact phase_pushed items x hx

/-- **In every run of `service_session` whose calls end alone, results and items are paired**: every result and every
`NULL` reaches the item whose query it ends, between its send and its pop. -/
theorem paired_always (hw : Loaded w) (es : List ServiceEvent) (hC : Runs.Meets serviceStep EndsAlone w es) :
    Runs.Always serviceStep (fun w => Paired w.log) w es :=
  Runs.always_of_meets (I := Law) (fun _ h => h.paired) serviceStep_law es hw.law hC

/-! ## Two commands in a queue -/

def commandItem (next : Ptr) : QueryQueueItem :=
  { next := next, sendCb := some simpleCommandSend, resultCb := some simpleCommandResult
    freeCb := some .simpleCommandFree, cbPrivate := 0, comment := [] }

def twoCommands : World :=
  { World.start (fun a => if a = 1 then some (commandItem (some 2)) else if a = 2 then some (commandItem none) else none)
    with
    session := { (World.start fun _ => none).session with queueHead := some 1, queueTail := some 2 }
    log := [.pushed 1, .pushed 2] }

theorem loaded_twoCommands : Loaded twoCommands := by
  refine ⟨⟨rfl, by decide, ⟨rfl, some 2, rfl, rfl, none, rfl, rfl⟩, by decide, rfl, ?_⟩, rfl, rfl, rfl, rfl, [1, 2], rfl⟩
  rintro t ⟨⟩
  rfl

/-- The first call sends the first command, of which the socket takes 4 of 10 bytes. -/
def sendCall : ServiceEvent :=
  .call false { input := ⟨true, 0, [], false, []⟩, sendOk := true, sendBytes := 10, socket := some 4 }

/-- The next call reads one result of it, and its end (`complete`) or not. -/
def replyCall (complete : Bool) : ServiceEvent :=
  .call true { input := ⟨true, 6, [⟨.commandOk, 0, 0⟩], complete, []⟩, sendOk := true, sendBytes := 0, socket := none }

/-- `paired_always` on a run that stops between the result and the end of the query. -/
theorem paired_always_twoCommands :
    Runs.Always serviceStep (fun w => Paired w.log) twoCommands [sendCall, replyCall false, .drain, .drain] :=
  paired_always loaded_twoCommands _ (fun _ h₁ => ⟨(nomatch ·), fun _ _ =>
    ⟨fun _ _ hc => by cases h₁; exact absurd hc (by decide), fun _ _ => ⟨trivial, fun _ _ => ⟨trivial, trivial⟩⟩⟩⟩)

/-- **The law fails**: the loop hands the second command, never sent, the `NULL` of a connection with no query. -/
theorem paired_not_always :
    Loaded twoCommands ∧ ¬ Runs.Always serviceStep (fun w => Paired w.log) twoCommands
      [sendCall, replyCall true, .drain, .drain, .drain] := by
  refine ⟨loaded_twoCommands, fun h => ?_⟩
  have hr : (Runs.run serviceStep twoCommands [sendCall, replyCall true, .drain, .drain, .drain]).map World.log =
      some ([.pushed 1, .pushed 2, .sent 1 0, .gotResult 1 (some ⟨0, .commandOk, 0, 0⟩), .gotResult 1 none, .popped 1] ++
        .gotResult 2 none :: [.popped 2]) := by decide
  obtain ⟨w, hw, hlog⟩ := Option.map_eq_some_iff.1 hr
  obtain ⟨query, hq⟩ := Runs.Always.reached _ h hw _ _ _ hlog
  revert hq
  simp [phase, phaseStep]

end Async
end Scrapcode
