import Scrapcode.AsyncLoop
import Scrapcode.AsyncNotify
/-!
# AsyncSends — how much the main loop ever sends

The loop that drains results does not leave on the `NULL` that ends a query, and `sample_mainloop` services its sessions
from one thread.  So once the end of one query has been read, of any session, the program is in that loop for good: no
session is serviced again, and the loop never sleeps again.  Over every run of `sample_mainloop`, whatever the server,
the sockets and the callbacks do, each session sends at most one query (`sendsOnce_always`).

Where the socket takes all of the send buffer at every flush, a session that has sent its query only ever flushes, and
no result is asked for (`silent_always`).
-/
namespace Scrapcode
namespace Async

open Programs

/-! ## What a history says was sent and answered -/

/-- A history event that is a send or a result. -/
def Event.isAnswer : Event → Bool
  | .sent _ _      => true
  | .gotResult _ _ => true
  | _              => false

def Event.isSent : Event → Bool
  | .sent _ _ => true
  | _         => false

/-- **One query**, and every result is one of it, and goes to the item that sent it. -/
structure OneQuery (log : List Event) : Prop where
  once : log.countP Event.isSent ≤ 1
  own  : ∀ a r, Event.gotResult a (some r) ∈ log → Event.sent a r.query ∈ log

/-- **Each session has sent one query at most**; where one has popped an item, the program has ended or is in the loop
that drains its results. -/
def SendsOnce (l : MainLoop) : Prop :=
  ∀ k w, l.sessions[k]? = some w → OneQuery w.log ∧
    ((∃ a, Event.popped a ∈ w.log) → l.halted ≠ none ∨ (l.next = k ∧ w.inDrain = true ∧ l.asleep = false))

/-- No session has asked for a result. -/
def Silent (l : MainLoop) : Prop := ∀ w ∈ l.sessions, ∀ a res, Event.gotResult a res ∉ w.log

/-! ## What pushing and popping add to a history -/

/-- An observation that the queue functions do not change. -/
structure Blind {τ : Type} (obs : World → τ) : Prop where
  heap : ∀ w h, obs { w with heap := h } = obs w
  head : ∀ w p, obs { w with session := { w.session with queueHead := p } } = obs w
  tail : ∀ w p, obs { w with session := { w.session with queueTail := p } } = obs w
  push : ∀ w a, obs { w with log := w.log ++ [.pushed a] } = obs w
  pop  : ∀ w a, obs { w with log := w.log ++ [.popped a] } = obs w

namespace Blind

variable {τ : Type} {obs : World → τ}

theorem pushItem (hb : Blind obs) (p : Ptr) (s : Option SendCb) (r : Option ResultCb) (f : Option FreeCb) (c : UInt64)
    (m : Option (List Char)) : Preserves obs (pushQueryQueueItem p s r f c m) := by
  unfold pushQueryQueueItem
  refine .bind (assertThat_preserves _ _) fun _ => .bind (assertThat_preserves _ _) fun _ =>
    .bind (deref_preserves _) fun item => .bind (loadItem_preserves _) fun it =>
    .bind (.modify fun w => hb.heap w _) fun _ => .bind .get fun w => ?_
  have hlink : Preserves obs (do setTail (some item); record (.pushed item) : Prog Unit) :=
    .bind (.modify fun w => hb.tail w _) fun _ => .modify fun w => hb.push w _
  refine .ite ?_ ?_
  · exact .bind (assertThat_preserves _ _) fun _ => .bind (.modify fun w => hb.head w _) fun _ => hlink
  · exact .bind (assertThat_preserves _ _) fun _ => .bind (deref_preserves _) fun tail =>
      .bind (loadItem_preserves _) fun t => .bind (assertThat_preserves _ _) fun _ =>
      .bind (.modify fun w => hb.heap w _) fun _ => hlink

theorem freeCb (hb : Blind obs) (cb : FreeCb) (a : Addr) : Preserves obs (cb.call a) := by
  cases cb with
  | doNothing         => exact .pure _
  | simpleCommandFree => exact .bind (loadItem_preserves _) fun _ => .modify fun w => hb.heap w _
  | insertQueryFree   =>
    exact .bind .get fun w => .bind (assertThat_preserves _ _) fun _ => .bind (assertThat_preserves _ _) fun _ =>
      .bind (loadItem_preserves _) fun _ => hb.pushItem _ _ _ _ _ _

theorem popItem (hb : Blind obs) : Preserves obs popQueryQueueItem := by
  unfold popQueryQueueItem
  refine .bind .get fun w => .bind (assertThat_preserves _ _) fun _ => .bind (deref_preserves _) fun oldHead =>
    .bind (loadItem_preserves _) fun it => .bind (.modify fun w => hb.head w _) fun _ => ?_
  have hpop : ∀ {p : Prog Unit}, Preserves obs p → Preserves obs (do record (.popped oldHead); p) := fun hp =>
    .bind (.modify fun w => hb.pop w _) fun _ => hp
  refine .ite (.bind (.modify fun w => hb.tail w _) fun _ => hpop ?_) (hpop ?_)
  all_goals
    cases it.freeCb with
    | some cb => exact hb.freeCb cb oldHead
    | none    => exact .pure _

end Blind

def World.answers (w : World) : List Event := w.log.filter Event.isAnswer

theorem answers_blind : Blind World.answers where
  heap := fun _ _ => rfl
  head := fun _ _ => rfl
  tail := fun _ _ => rfl
  push := fun w a => by simp [World.answers, Event.isAnswer]
  pop  := fun w a => by simp [World.answers, Event.isAnswer]

variable {w w' : World} {log log' : List Event} {l l' : MainLoop}

/-- The law is about the sends and the results. -/
theorem oneQuery_answers (log : List Event) : OneQuery (log.filter Event.isAnswer) ↔ OneQuery log := by
  have hcount : (log.filter Event.isAnswer).countP Event.isSent = log.countP Event.isSent := by
    rw [List.countP_filter]
    refine List.countP_congr fun e _ => ?_
    cases e <;> simp [Event.isSent, Event.isAnswer]
  have hsent : ∀ a q, Event.sent a q ∈ log.filter Event.isAnswer ↔ Event.sent a q ∈ log := fun a q => by
    rw [List.mem_filter]
    exact and_iff_left rfl
  have hgot : ∀ a r, Event.gotResult a r ∈ log.filter Event.isAnswer ↔ Event.gotResult a r ∈ log := fun a r => by
    rw [List.mem_filter]
    exact and_iff_left rfl
  constructor
  · intro h
    exact ⟨hcount ▸ h.once, fun a r hr => (hsent a r.query).1 (h.own a r ((hgot a r).2 hr))⟩
  · intro h
    exact ⟨hcount.symm ▸ h.once, fun a r hr => (hsent a r.query).2 (h.own a r ((hgot a r).1 hr))⟩

theorem OneQuery.congr (h : OneQuery log) (heq : log'.filter Event.isAnswer = log.filter Event.isAnswer) :
    OneQuery log' :=
  (oneQuery_answers log').1 (heq ▸ (oneQuery_answers log).2 h)

/-! ## Where a session is -/

/-- Nothing was sent, answered or popped. -/
def Event.isQuiet : Event → Bool
  | .pushed _      => true
  | .notified _    => true
  | .notifyFreed _ => true
  | _              => false

/-- The query of the head is out. -/
structure Out (w : World) : Prop where
  head   : ∃ h query, w.session.queueHead = some h ∧ w.session.conn.inFlight = some query ∧
    Event.sent h query ∈ w.log ∧ ∀ r ∈ w.session.conn.arrived, r.query = query
  popped : ∀ a, Event.popped a ∉ w.log

structure Unsent (w : World) : Prop where
  quiet  : ∀ e ∈ w.log, e.isQuiet = true
  conn   : w.session.conn.inFlight = none
  unsent : w.session.conn.unsent = 0

def Turn (w : World) : Prop :=
  match w.session.sessionState, w.inDrain with
  | .idle, false   => Unsent w
  | .idle, true    => w.session.conn.inFlight = none
  | .queued, false => Out w
  | .queued, true  => False
  | .flushed, _    => Out w

theorem Unsent.count (h : Unsent w) : w.log.countP Event.isSent = 0 :=
  List.countP_eq_zero.2 fun e he hs => by
    have hq := h.quiet e he
    cases e with
    | sent a query => cases hq
    | _            => cases hs

theorem Unsent.oneQuery (h : Unsent w) : OneQuery w.log where
  once := h.count ▸ Nat.zero_le 1
  own  := fun _ _ hr => nomatch h.quiet _ hr

theorem Turn.not_popped (h : Turn w) (hd : w.inDrain = false) (a : Addr) : Event.popped a ∉ w.log := by
  unfold Turn at h
  rw [hd] at h
  cases hst : w.session.sessionState with
  | idle    => rw [hst] at h; exact fun ha => nomatch h.quiet _ ha
  | queued  => rw [hst] at h; exact h.popped a
  | flushed => rw [hst] at h; exact h.popped a

theorem Turn.preparePoll (h : Turn w) : Turn (preparePoll w) := by
  unfold Turn at h ⊢
  unfold Async.preparePoll
  cases hst : w.session.sessionState <;> cases hd : w.inDrain <;> simp only [hst, hd] at h ⊢
  · exact ⟨h.quiet, h.conn, h.unsent⟩
  · exact h
  · exact ⟨h.head, h.popped⟩
  · exact ⟨h.head, h.popped⟩
  · exact ⟨h.head, h.popped⟩

/-- A log that grew by notices says the same of the items. -/
theorem mem_notices {e : Event} {ns : List Event} (hns : ∀ x ∈ ns, x.isNotice = true) (he : e.isNotice = false) :
    e ∈ log ++ ns ↔ e ∈ log := by
  rw [List.mem_append]
  refine or_iff_left fun hm => ?_
  rw [hns e hm] at he
  cases he

theorem filter_notices {ns : List Event} (hns : ∀ x ∈ ns, x.isNotice = true) :
    (log ++ ns).filter Event.isAnswer = log.filter Event.isAnswer := by
  have hnil : ns.filter Event.isAnswer = [] := List.filter_eq_nil_iff.2 fun e he => by
    have hn := hns e he
    cases e with
    | notified n | notifyFreed n => exact Bool.false_ne_true
    | _                          => cases hn
  rw [List.filter_append, hnil, List.append_nil]

/-! ## A call -/

/-- What reading the socket and taking a notification leave: more results of the query in flight, more notices. -/
structure Read (w w' : World) : Prop where
  session  : w'.session = { w.session with conn := w'.session.conn }
  inDrain  : w'.inDrain = w.inDrain
  inFlight : w'.session.conn.inFlight = w.session.conn.inFlight
  arrived  : ∀ r ∈ w'.session.conn.arrived, r ∈ w.session.conn.arrived ∨ w.session.conn.inFlight = some r.query
  unsent   : w'.session.conn.unsent ≤ w.session.conn.unsent
  log      : ∃ ns, (∀ x ∈ ns, x.isNotice = true) ∧ w'.log = w.log ++ ns

theorem Read.oneQuery (hr : Read w w') (h : OneQuery w.log) : OneQuery w'.log := by
  obtain ⟨ns, hns, hlog⟩ := hr.log
  exact h.congr (by rw [hlog, filter_notices hns])

theorem Read.out (hr : Read w w') (h : Out w) : Out w' := by
  obtain ⟨ns, hns, hlog⟩ := hr.log
  obtain ⟨a, query, hh, hq, hsent, harr⟩ := h.head
  refine ⟨⟨a, query, by rw [hr.session]; exact hh, hr.inFlight.trans hq, ?_, fun r hm => ?_⟩, fun a => ?_⟩
  · rw [hlog, mem_notices hns rfl]; exact hsent
  · rcases hr.arrived r hm with hm | hm
    · exact harr r hm
    · rw [hq] at hm; cases hm; rfl
  · rw [hlog, mem_notices hns rfl]; exact h.popped a

theorem Read.notSent (hr : Read w w') (h : Unsent w) : Unsent w' := by
  obtain ⟨ns, hns, hlog⟩ := hr.log
  refine ⟨fun e he => ?_, hr.inFlight.trans h.conn, Nat.le_zero.1 (h.unsent ▸ hr.unsent)⟩
  rw [hlog, List.mem_append] at he
  rcases he with he | he
  · exact h.quiet e he
  · have := hns e he
    cases e <;> first | rfl | cases this

theorem read_ends (w : World) (readable : Bool) (env : Env) :
    Programs.Ends ((do readSocket readable env.input; dispatchNotification : Prog Unit) w) (fun _ w' => Read w w')
      (fun _ w' => w'.log = w.log) := by
  rw [bind_run, readSocket_run]
  by_cases herr : readable = true ∧ env.input.ok = false
  · rw [if_pos herr]
    exact rfl
  · rw [if_neg herr]
    dsimp only
    rw [dispatchNotification_run]
    dsimp only
    have hc := received_inFlight w.session.conn readable env.input
    have ha : ∀ r ∈ (received w.session.conn readable env.input).arrived, _ := fun r hr => received_arrived hr
    have hu := received_unsent_le w.session.conn readable env.input
    cases hn : (received w.session.conn readable env.input).notifies with
    | nil => exact ⟨rfl, rfl, hc, ha, hu, [], fun _ hx => (nomatch hx), (List.append_nil _).symm⟩
    | cons n ns =>
      refine ⟨rfl, rfl, hc, ha, hu,
        (if w.session.notifyCb = true then [.notified n] else []) ++ [.notifyFreed n], ?_, ?_⟩
      · intro x hx
        cases hcb : w.session.notifyCb <;> simp [hcb] at hx <;> rcases hx with rfl | rfl <;> rfl
      · cases w.session.notifyCb <;> simp

theorem serviceSession_read (readable : Bool) (env : Env) : serviceSession readable env =
    (do readSocket readable env.input; dispatchNotification : Prog Unit) >>= fun _ => serviceRest env := by
  rw [serviceSession_eq]
  exact (bind_assoc _ _ _).symm

/-- **The head is sent**, or nothing is. -/
theorem sendHead_turn (hidle : w.session.sessionState = .idle) (hd : w.inDrain = false) (h : Unsent w) (env : Env) :
    Programs.Ends (sendHead env w) (fun _ w' => OneQuery w'.log ∧ w'.inDrain = false ∧
      ((w'.session.sessionState = .idle ∧ Unsent w') ∨ (w'.session.sessionState = .queued ∧ Out w')))
      (fun _ w' => OneQuery w'.log) := by
  cases hh : w.session.queueHead with
  | none =>
    exact Programs.Ends.of_ok (x := ()) (t := w) (by simp [sendHead, hh]) ⟨h.oneQuery, hd, Or.inl ⟨hidle, h⟩⟩
  | some a =>
    cases hit : w.heap a with
    | none => simpa [sendHead, hh, hit, Programs.Ends] using h.oneQuery
    | some it =>
      cases hcb : it.sendCb with
      | none => simpa [sendHead, hh, hit, hcb, Programs.Ends] using h.oneQuery
      | some cb =>
        cases hv : cb it.cbPrivate with
        | error f => simpa [sendHead, hh, hit, hcb, hv, Programs.Ends] using h.oneQuery
        | ok v =>
          cases hs : env.sendOk with
          | false => simpa [sendHead, hh, hit, hcb, hv, PGconn.sendQuery, hs, Programs.Ends] using h.oneQuery
          | true =>
            refine Programs.Ends.of_ok (x := ()) (t := { w with
              heap := Function.update w.heap a (some { it with cbPrivate := v })
              session := { w.session with
                conn := { w.session.conn with
                  inFlight := some w.session.conn.nextQuery, nextQuery := w.session.conn.nextQuery + 1, arrived := []
                  complete := false, unsent := w.session.conn.unsent + env.sendBytes }
                sessionState := .queued }
              log := w.log ++ [.sent a w.session.conn.nextQuery] })
              (by simp [sendHead, hh, hit, hcb, hv, PGconn.sendQuery, hs, h.conn]) ?_
            refine ⟨⟨?_, fun b r hr => ?_⟩, hd,
              Or.inr ⟨rfl, ⟨a, _, hh, rfl, by simp, fun r hr => by cases hr⟩, fun b hb => ?_⟩⟩
            · rw [List.countP_append]
              rw [h.count]
              exact Nat.le_refl 1
            · rcases List.mem_append.1 hr with hr | hr
              · cases h.quiet _ hr
              · cases List.mem_singleton.1 hr
            · rcases List.mem_append.1 hb with hb | hb
              · cases h.quiet _ hb
              · cases List.mem_singleton.1 hb

theorem flushQuery_turn (hd : w.inDrain = false) (ho : OneQuery w.log)
    (h : (w.session.sessionState = .idle ∧ Unsent w) ∨ (w.session.sessionState = .queued ∧ Out w)) (env : Env) :
    Programs.Ends (flushQuery env w) (fun _ w' => OneQuery w'.log ∧ Turn w') (fun _ w' => OneQuery w'.log) := by
  refine (flushQuery_ends w env).mono ?_ (fun _ _ hl => hl ▸ ho)
  rintro _ _ ⟨unsent, pollout, state, rfl, ⟨n, -, hn⟩, hst⟩
  refine ⟨ho, ?_⟩
  unfold Turn
  rcases h with ⟨hidle, hu⟩ | ⟨hqueued, hout⟩
  · have h0 : unsent = 0 := by rw [hn, hu.unsent, Nat.zero_sub]
    rcases hst with rfl | ⟨-, hne⟩
    · simp only [hidle, hd]
      exact ⟨hu.quiet, hu.conn, h0⟩
    · exact absurd h0 hne
  · rcases hst with rfl | ⟨rfl, -⟩
    · simp only [hqueued, hd]
      exact ⟨hout.head, hout.popped⟩
    · simp only [hd]
      exact ⟨hout.head, hout.popped⟩

/-- **A call of `service_session`.** -/
theorem call_turn (ho : OneQuery w.log) (h : Turn w) (hd : w.inDrain = false) (readable : Bool) (env : Env) :
    Programs.Ends (serviceSession readable env w) (fun _ w' => OneQuery w'.log ∧ Turn w')
        (fun _ w' => OneQuery w'.log) := by
  rw [serviceSession_read]
  refine ((read_ends w readable env).mono_fault (fun _ _ hl => hl ▸ ho)).bind ?_
  rintro - w₁ hread
  have ho₁ := hread.oneQuery ho
  have hst₁ : w₁.session.sessionState = w.session.sessionState := by rw [hread.session]
  have hd₁ : w₁.inDrain = false := hread.inDrain.trans hd
  unfold serviceRest
  simp only [bind_run, get_run]
  unfold Turn at h
  rw [hd] at h
  cases hst : w.session.sessionState with
  | idle =>
    rw [hst] at h
    rw [hst₁, hst]
    refine (sendHead_turn (hst₁.trans hst) hd₁ (hread.notSent h) env).bind ?_
    rintro - w₂ ⟨ho₂, hd₂, h₂⟩
    exact flushQuery_turn hd₂ ho₂ h₂ env
  | queued =>
    rw [hst] at h
    rw [hst₁, hst]
    exact flushQuery_turn hd₁ ho₁ (Or.inr ⟨hst₁.trans hst, hread.out h⟩) env
  | flushed =>
    rw [hst] at h
    rw [hst₁, hst]
    refine ⟨ho₁, ?_⟩
    unfold Turn
    simp only [hst₁, hst]
    exact ⟨(hread.out h).head, (hread.out h).popped⟩

/-! ## A pass of the loop -/

theorem getResult_cases {c : PGconn} (hbusy : c.isBusy = false) :
    (∃ r rs, c.inFlight ≠ none ∧ c.arrived = r :: rs ∧ c.getResult = (some r, { c with arrived := rs })) ∨
    ∃ conn, c.getResult = (none, conn) ∧ conn.inFlight = none := by
  cases hq : c.inFlight with
  | none => exact Or.inr ⟨c, by simp [PGconn.getResult, hq], hq⟩
  | some query =>
    cases ha : c.arrived with
    | cons r rs => exact Or.inl ⟨r, rs, Option.some_ne_none _, rfl, by simp [PGconn.getResult, hq, ha]⟩
    | nil =>
      have hc : c.complete = true := by simpa [PGconn.isBusy, hq, ha] using hbusy
      exact Or.inr ⟨_, by simp [PGconn.getResult, hq, ha, hc]; rfl, rfl⟩

/-- The results that a session has been given. -/
theorem OneQuery.result (ho : OneQuery w.log) {a : Addr} {res : Option PGresult}
    (hres : ∀ r, res = some r → Event.sent a r.query ∈ w.log) : OneQuery (w.log ++ [.gotResult a res]) where
  once := by rw [List.countP_append]; exact ho.once
  own  := fun b r hr => by
    rw [List.mem_append] at hr ⊢
    rcases hr with hr | hr
    · exact Or.inl (ho.own b r hr)
    · cases List.mem_singleton.1 hr
      exact Or.inl (hres r rfl)

/-- **The `NULL` that ends a query**: control stays in the loop, with no query in flight. -/
theorem null_turn {conn : PGconn} {a : Addr} {it : QueryQueueItem} {v : UInt64}
    (ho : OneQuery (w.log ++ [.gotResult a none])) (hconn : conn.inFlight = none) (hd : w.inDrain = true) :
    Programs.Ends ((do popQueryQueueItem; setState .idle; pollForWrite : Prog Unit) (w.gotResult conn a it v none))
      (fun _ w' => OneQuery w'.log ∧ Turn w' ∧ w'.inDrain = true) (fun _ w' => OneQuery w'.log) := by
  have hanswers : Preserves World.answers (do popQueryQueueItem; setState .idle; pollForWrite : Prog Unit) :=
    .bind answers_blind.popItem fun _ => .bind (.modify fun _ => rfl) fun _ => .modify fun _ => rfl
  have ha := hanswers (w.gotResult conn a it v none)
  have hs := idle_preserves (w.gotResult conn a it v none)
  have hst : Programs.Ends
      ((do popQueryQueueItem; setState .idle; pollForWrite : Prog Unit) (w.gotResult conn a it v none))
      (fun _ w' => w'.session.sessionState = .idle) (fun _ _ => True) := by
    rw [bind_run]
    cases popQueryQueueItem (w.gotResult conn a it v none) with
    | ok x w'    => rfl
    | error f w' => trivial
  cases hr : (do popQueryQueueItem; setState .idle; pollForWrite : Prog Unit) (w.gotResult conn a it v none) with
  | error f w' =>
    rw [hr] at ha
    exact ho.congr ha
  | ok x w' =>
    rw [hr] at ha hs hst
    have hc : w'.session.conn = conn := congrArg (fun o => o.1) hs
    have hd' : w'.inDrain = true := (congrArg (fun o => o.2.2.1) hs).trans hd
    refine ⟨ho.congr ha, ?_, hd'⟩
    unfold Turn
    rw [show w'.session.sessionState = .idle from hst, hd', hc]
    exact hconn

/-- **A pass of the loop that drains results.** -/
theorem drain_turn (ho : OneQuery w.log) (h : Turn w) (hd : w.inDrain = true) :
    Programs.Ends (drainResult w) (fun _ w' => OneQuery w'.log ∧ Turn w') (fun _ w' => OneQuery w'.log) := by
  cases hbusy : w.session.conn.isBusy with
  | true =>
    refine Programs.Ends.of_ok (x := ()) (t := { w with inDrain := false }) (by simp [drainResult, hbusy]) ⟨ho, ?_⟩
    unfold Turn at h ⊢
    rw [hd] at h
    cases hst : w.session.sessionState with
    | idle    =>
      rw [hst] at h
      have hq : w.session.conn.inFlight = none := h
      simp [PGconn.isBusy, hq] at hbusy
    | queued  => rw [hst] at h; exact h.elim
    | flushed => rw [hst] at h; exact ⟨h.head, h.popped⟩
  | false =>
    have hout : w.session.conn.inFlight ≠ none → w.session.sessionState = .flushed ∧ Out w := fun hq => by
      unfold Turn at h
      rw [hd] at h
      cases hst : w.session.sessionState with
      | idle    => rw [hst] at h; exact absurd h hq
      | queued  => rw [hst] at h; exact h.elim
      | flushed => rw [hst] at h; exact ⟨rfl, h⟩
    cases hh : w.session.queueHead with
    | none => simpa [drainResult, hbusy, hh, Programs.Ends] using ho
    | some a =>
      cases hit : w.heap a with
      | none => simpa [drainResult, hbusy, hh, hit, Programs.Ends] using ho
      | some it =>
        cases hcb : it.resultCb with
        | none => simpa [drainResult, hbusy, hh, hit, hcb, Programs.Ends] using ho
        | some cb =>
          rcases getResult_cases hbusy with ⟨r, rs, hq, ha, hget⟩ | ⟨conn, hget, hconn⟩
          · obtain ⟨hst, ho', hp⟩ := hout hq
            obtain ⟨a', query, hh', hq', hsent, harr⟩ := ho'
            cases hh.symm.trans hh'
            have hown : ∀ r', some r = some r' → Event.sent a r'.query ∈ w.log := fun r' hr' => by
              cases hr'
              rw [harr r (ha ▸ List.mem_cons_self)]
              exact hsent
            rw [drain_run hbusy hget hh hit hcb]
            cases hv : cb it.cbPrivate (some r) with
            | error f => exact ho.result hown
            | ok v =>
              refine ⟨ho.result hown, ?_⟩
              unfold Turn
              simp only [World.gotResult, hst]
              refine ⟨⟨a, query, hh, hq', List.mem_append_left _ hsent, fun x hx => ?_⟩, fun b hb => ?_⟩
              · exact harr x (ha ▸ List.mem_cons_of_mem r hx)
              · exact hp b (List.mem_append.1 hb |>.elim id fun hb => by cases List.mem_singleton.1 hb)
          · have hnull : OneQuery (w.log ++ [.gotResult a none]) := ho.result (fun r hr => by cases hr)
            rw [drain_run hbusy hget hh hit hcb]
            cases hv : cb it.cbPrivate none with
            | error f => exact hnull
            | ok v => exact (null_turn hnull hconn hd).mono (fun _ _ h => ⟨h.1, h.2.1⟩) (fun _ _ h => h)

/-! ## The main loop -/

/-- A session in its loop is the one that is being serviced. -/
def Serving (l : MainLoop) : Prop := ∀ k w, l.sessions[k]? = some w → OneQuery w.log ∧
  (l.halted = none → Turn w ∧ (w.inDrain = true → l.next = k ∧ l.asleep = false))

theorem Serving.sendsOnce (h : Serving l) : SendsOnce l := by
  intro k w hk
  obtain ⟨ho, hrun⟩ := h k w hk
  refine ⟨ho, fun ⟨a, ha⟩ => ?_⟩
  by_cases hh : l.halted = none
  · obtain ⟨hturn, hserve⟩ := hrun hh
    cases hd : w.inDrain with
    | false => exact absurd ha (hturn.not_popped hd a)
    | true  => exact Or.inr ⟨(hserve hd).1, rfl, (hserve hd).2⟩
  · exact Or.inl hh

/-- **One session was serviced**, and the others wait. -/
theorem Serving.serviced (h : Serving l) (hrun : l.halted = none) (hawake : l.asleep = false) {p : Prog Unit}
    (hp : Programs.Ends (p w) (fun _ w' => OneQuery w'.log ∧ Turn w') (fun _ w' => OneQuery w'.log)) :
    Serving (l.serviced (exec p w)) := by
  intro k x hk
  have hk' : (l.sessions.set l.next (exec p w))[k]? = some x := hk
  rw [List.getElem?_set] at hk'
  split at hk'
  · rename_i hnext
    have hx : exec p w = x := by
      split at hk'
      · exact Option.some.inj hk'
      · cases hk'
    subst hx
    unfold exec
    cases hr : p w with
    | error f w' => rw [hr] at hp; exact ⟨hp, fun hh => nomatch hh⟩
    | ok u w' =>
      rw [hr] at hp
      refine ⟨hp.1, fun _ => ⟨hp.2, fun hd => ⟨?_, hawake⟩⟩⟩
      unfold MainLoop.serviced
      simp only [hd, if_true]
      exact hnext
  · rename_i hne
    obtain ⟨ho, hturn⟩ := h k x hk'
    refine ⟨ho, fun _ => ⟨(hturn hrun).1, fun hd => absurd ((hturn hrun).2 hd).1 hne⟩⟩

theorem loopStep_serving (l : MainLoop) (e : LoopEvent) (l' : MainLoop) (h : Serving l) (hs : loopStep l e = some l') :
    Serving l' := by
  cases e with
  | service readable env =>
    simp only [loopStep] at hs
    cases hw : l.sessions[l.next]? with
    | none => rw [hw] at hs; cases hs
    | some w =>
      simp only [hw, Option.ite_none_right_eq_some, Bool.and_eq_true, Option.isNone_iff_eq_none,
        Bool.not_eq_true'] at hs
      obtain ⟨⟨⟨hrun, hawake⟩, hd⟩, hs⟩ := hs
      cases hs
      obtain ⟨ho, hturn⟩ := h l.next w hw
      exact h.serviced hrun hawake (call_turn ho (hturn hrun).1 hd readable env)
  | drain =>
    simp only [loopStep] at hs
    cases hw : l.sessions[l.next]? with
    | none => rw [hw] at hs; cases hs
    | some w =>
      simp only [hw, Option.ite_none_right_eq_some, Bool.and_eq_true, Option.isNone_iff_eq_none,
        Bool.not_eq_true'] at hs
      obtain ⟨⟨⟨hrun, hawake⟩, hd⟩, hs⟩ := hs
      cases hs
      obtain ⟨ho, hturn⟩ := h l.next w hw
      exact h.serviced hrun hawake (drain_turn ho (hturn hrun).1 hd)
  | sleep =>
    simp only [loopStep, Option.ite_none_right_eq_some, Bool.and_eq_true, Option.isNone_iff_eq_none,
      decide_eq_true_eq] at hs
    obtain ⟨⟨⟨hrun, -⟩, hlen⟩, hs⟩ := hs
    cases hs
    intro k x hk
    have hk' : (l.sessions.map preparePoll)[k]? = some x := hk
    rw [List.getElem?_map] at hk'
    obtain ⟨w, hw, rfl⟩ := Option.map_eq_some_iff.1 hk'
    obtain ⟨ho, hturn⟩ := h k w hw
    obtain ⟨ht, hserve⟩ := hturn hrun
    have hlt : k < l.sessions.length := (List.getElem?_eq_some_iff.1 hw).1
    -- every session has been serviced, so none is in its loop
    exact ⟨ho, fun _ => ⟨ht.preparePoll, fun hd => absurd ((hserve hd).1 ▸ hlen) (Nat.not_le.2 hlt)⟩⟩
  | wake ok =>
    simp only [loopStep, Option.ite_none_right_eq_some, Bool.and_eq_true, Option.isNone_iff_eq_none] at hs
    obtain ⟨⟨hrun, hasleep⟩, hs⟩ := hs
    cases ok with
    | false => cases hs; exact fun k w hk => ⟨(h k w hk).1, fun hh => by cases hh⟩
    | true =>
      cases hs
      intro k w hk
      obtain ⟨ho, hturn⟩ := h k w hk
      obtain ⟨ht, hserve⟩ := hturn hrun
      exact ⟨ho, fun _ => ⟨ht, fun hd => by cases hasleep.symm.trans (hserve hd).2⟩⟩

/-- The loop as `main` enters it: items were pushed to its sessions, and nothing else was done. -/
structure Ready (l : MainLoop) : Prop extends Entered l where
  fresh : ∀ w ∈ l.sessions, w.session.conn.inFlight = none ∧ ∃ items : List Addr, w.log = items.map Event.pushed

theorem Ready.unsent (hl : Ready l) (hw : w ∈ l.sessions) : Unsent w := by
  obtain ⟨hq, items, hlog⟩ := hl.fresh w hw
  refine ⟨fun e he => ?_, hq, (hl.sessions w hw).2.2⟩
  rw [hlog, List.mem_map] at he
  obtain ⟨a, -, rfl⟩ := he
  rfl

theorem Ready.serving (hl : Ready l) : Serving l := by
  intro k w hk
  have hw := List.mem_of_getElem? hk
  obtain ⟨hst, hd, -⟩ := hl.sessions w hw
  have hu := hl.unsent hw
  refine ⟨hu.oneQuery, fun _ => ⟨?_, fun hd' => nomatch hd.symm.trans hd'⟩⟩
  unfold Turn
  rw [hst, hd]
  exact hu

/-- **In every run of the main loop, each session sends at most one query**; once a session has popped an item the
program has ended, or is in that session's loop. -/
theorem sendsOnce_always {l : MainLoop} (hl : Ready l) (es : List LoopEvent) :
    Runs.Always loopStep SendsOnce l es :=
  Runs.always_of_invariant (I := Serving) (fun _ h => h.sendsOnce) loopStep_serving es hl.serving

/-! ## Sockets that take everything -/

theorem sendHead_got (env : Env) (w : World) (a : Addr) (res : Option PGresult) :
    Programs.Ends (sendHead env w) (fun _ w' => Event.gotResult a res ∈ w'.log ↔ Event.gotResult a res ∈ w.log)
      (fun _ w' => Event.gotResult a res ∈ w'.log ↔ Event.gotResult a res ∈ w.log) := by
  cases hh : w.session.queueHead with
  | none => simp [sendHead, hh, Programs.Ends]
  | some h =>
    cases hit : w.heap h with
    | none => simp [sendHead, hh, hit, Programs.Ends]
    | some it =>
      cases hcb : it.sendCb with
      | none => simp [sendHead, hh, hit, hcb, Programs.Ends]
      | some cb =>
        cases hv : cb it.cbPrivate with
        | error f => simp [sendHead, hh, hit, hcb, hv, Programs.Ends]
        | ok v =>
          by_cases hs : env.sendOk = true ∧ w.session.conn.inFlight = none <;>
            simp [sendHead, hh, hit, hcb, hv, PGconn.sendQuery, hs, Programs.Ends]

/-- **A call asks for no result**: that is left to the loop. -/
theorem call_got (w : World) (readable : Bool) (env : Env) (a : Addr) (res : Option PGresult) :
    Event.gotResult a res ∈ (exec (serviceSession readable env) w).log ↔ Event.gotResult a res ∈ w.log := by
  have hflush : ∀ w₁ : World, Programs.Ends (flushQuery env w₁) (fun _ w' => w'.log = w₁.log)
      (fun _ w' => w'.log = w₁.log) := fun w₁ => (flushQuery_ends w₁ env).mono
    (fun _ _ ⟨_, _, _, h, _⟩ => by rw [h]) (fun _ _ h => h)
  have hrest : ∀ w₁ : World, Programs.Ends (serviceRest env w₁)
      (fun _ w' => Event.gotResult a res ∈ w'.log ↔ Event.gotResult a res ∈ w₁.log)
      (fun _ w' => Event.gotResult a res ∈ w'.log ↔ Event.gotResult a res ∈ w₁.log) := fun w₁ => by
    unfold serviceRest
    simp only [bind_run, get_run]
    cases w₁.session.sessionState with
    | idle =>
      refine (sendHead_got env w₁ a res).bind fun _ w₂ h₂ => ?_
      exact (hflush w₂).mono (fun _ _ h => by rw [h]; exact h₂) (fun _ _ h => by rw [h]; exact h₂)
    | queued  => exact (hflush w₁).mono (fun _ _ h => by rw [h]) (fun _ _ h => by rw [h])
    | flushed => exact Iff.rfl
  have hcall : Programs.Ends (serviceSession readable env w)
      (fun _ w' => Event.gotResult a res ∈ w'.log ↔ Event.gotResult a res ∈ w.log)
      (fun _ w' => Event.gotResult a res ∈ w'.log ↔ Event.gotResult a res ∈ w.log) := by
    rw [serviceSession_read]
    refine ((read_ends w readable env).mono_fault (fun _ _ h => by rw [h])).bind fun _ w₁ hread => ?_
    obtain ⟨ns, hns, hlog⟩ := hread.log
    have hread' : Event.gotResult a res ∈ w₁.log ↔ Event.gotResult a res ∈ w.log := by
      rw [hlog, mem_notices hns rfl]
    exact (hrest w₁).mono (fun _ _ h => h.trans hread') (fun _ _ h => h.trans hread')
  unfold exec
  cases hr : serviceSession readable env w with
  | ok x w'    => rw [hr] at hcall; exact hcall
  | error f w' => rw [hr] at hcall; exact hcall

theorem silent_set {w' : World} (h : Silent l) (hw : ∀ a res, Event.gotResult a res ∉ w'.log) :
    Silent (l.serviced w') := by
  intro x hx
  rcases List.mem_or_eq_of_mem_set hx with hx | rfl
  · exact h x hx
  · exact hw

theorem loopStep_silent (l : MainLoop) (e : LoopEvent) (l' : MainLoop) (h : AllUnblocked l ∧ Silent l)
    (hC : TakesAll l e) (hs : loopStep l e = some l') : AllUnblocked l' ∧ Silent l' := by
  refine ⟨loopStep_unblocked l e l' h.1 hC hs, ?_⟩
  cases e with
  | service readable env =>
    simp only [loopStep] at hs
    cases hw : l.sessions[l.next]? with
    | none => rw [hw] at hs; cases hs
    | some w =>
      rw [hw] at hs
      obtain ⟨-, hs⟩ := Option.ite_none_right_eq_some.1 hs
      cases hs
      refine silent_set h.2 fun a res => ?_
      rw [call_got]
      exact h.2 w (List.mem_of_getElem? hw) a res
  | drain =>
    -- no session is in its loop
    simp only [loopStep] at hs
    cases hw : l.sessions[l.next]? with
    | none => rw [hw] at hs; cases hs
    | some w =>
      simp only [hw, Option.ite_none_right_eq_some, Bool.and_eq_true, Option.isNone_iff_eq_none] at hs
      obtain ⟨⟨⟨hrun, -⟩, hd⟩, -⟩ := hs
      cases (h.1 (Or.inl hrun) w (List.mem_of_getElem? hw)).inDrain.symm.trans hd
  | sleep =>
    obtain ⟨-, hs⟩ := Option.ite_none_right_eq_some.1 hs
    cases hs
    intro x hx
    obtain ⟨w, hw, rfl⟩ := List.mem_map.1 hx
    exact h.2 w hw
  | wake ok =>
    obtain ⟨-, hs⟩ := Option.ite_none_right_eq_some.1 hs
    cases ok <;> cases hs <;> exact h.2

/-- **Where the sockets take all that is flushed, no result is ever asked for.** -/
theorem silent_always {l : MainLoop} (hl : Ready l) (es : List LoopEvent)
    (hC : Runs.Meets loopStep TakesAll l es) : Runs.Always loopStep Silent l es := by
  refine Runs.always_of_meets (I := fun l => AllUnblocked l ∧ Silent l) (fun _ h => h.2) loopStep_silent es
    ⟨hl.toEntered.unblocked, fun w hw a res ha => ?_⟩ hC
  exact nomatch (hl.unsent hw).quiet _ ha

theorem ready_oneSession : Ready oneSession where
  toEntered := entered_oneSession
  fresh     := fun w hw => by rw [List.mem_singleton.1 hw]; exact ⟨rfl, [1, 2], rfl⟩

theorem sendsOnce_always_oneSession : Runs.Always loopStep SendsOnce oneSession (firstPass 4) :=
  sendsOnce_always ready_oneSession _

theorem silent_always_oneSession : Runs.Always loopStep Silent oneSession (firstPass 10) :=
  silent_always ready_oneSession _ (fun _ _ => ⟨fun w hw _ n hn => by cases hw; cases hn; decide,
    fun _ _ => ⟨trivial, trivial⟩⟩)

end Async
end Scrapcode
