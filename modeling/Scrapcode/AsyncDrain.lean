import Scrapcode.AsyncPairing
/-!
# AsyncDrain — the loop that drains results, whether it ends

A call of `service_session` in `SESSION_FLUSHED` tests and passes the loop `while (!PQisBusy(conn))` until the test
fails.  The loop does not leave on the `NULL` that ends a query: no query is in flight then, `PQisBusy` is 0 from there
on, and the passes go on until a fault ends the program, if one does.

So the call returns (`CallReturns`) exactly where the end of the query in flight has not been read and the callback of
the queue's head takes each result that has (`StillBusy`).
-/
namespace Scrapcode
namespace Async

open Programs

/-! ## What pushing and popping leave alone -/

/-- All that the queue functions do not touch. -/
def World.aside (w : World) : PGconn × Bool × Bool × List Event :=
  (w.session.conn, w.session.notifyCb, w.inDrain, w.log.filter Event.isNotice)

variable {w w' : World} {a : Addr}

theorem assertThat_preserves {τ : Type} {obs : World → τ} (b : Bool) (text : String) :
    Preserves obs (assertThat b text) := by
  cases b with
  | true  => exact .pure _
  | false => exact .throw _

theorem deref_preserves {τ : Type} {obs : World → τ} (p : Ptr) : Preserves obs (deref p) := by
  cases p with
  | none   => exact .throw _
  | some a => exact .pure _

theorem loadItem_preserves {τ : Type} {obs : World → τ} (a : Addr) : Preserves obs (loadItem a) := by
  refine Preserves.bind .get fun w => ?_
  cases w.heap a with
  | none    => exact .throw _
  | some it => exact .pure _

theorem notices_append {e : Event} (he : e.isNotice = false) (log : List Event) :
    (log ++ [e]).filter Event.isNotice = log.filter Event.isNotice := by
  rw [List.filter_append, List.filter_cons_of_neg (by rw [he]; decide), List.filter_nil, List.append_nil]

theorem record_preserves {e : Event} (he : e.isNotice = false) : Preserves World.aside (record e) :=
  .modify fun w => by
    show (_, _, _, List.filter _ (w.log ++ [e])) = _
    rw [notices_append he]
    rfl

theorem storeItem_preserves (a : Addr) (it : QueryQueueItem) : Preserves World.aside (storeItem a it) :=
  .modify fun _ => rfl

theorem setHead_preserves (p : Ptr) : Preserves World.aside (setHead p) := .modify fun _ => rfl

theorem setTail_preserves (p : Ptr) : Preserves World.aside (setTail p) := .modify fun _ => rfl

theorem push_preserves (p : Ptr) (s : Option SendCb) (r : Option ResultCb) (f : Option FreeCb) (c : UInt64)
    (m : Option (List Char)) : Preserves World.aside (pushQueryQueueItem p s r f c m) := by
  unfold pushQueryQueueItem
  refine .bind (assertThat_preserves _ _) fun _ => .bind (assertThat_preserves _ _) fun _ =>
    .bind (deref_preserves _) fun item => .bind (loadItem_preserves _) fun it => .bind (storeItem_preserves _ _) fun _ =>
    .bind .get fun w => .ite ?_ ?_
  · exact .bind (assertThat_preserves _ _) fun _ => .bind (setHead_preserves _) fun _ =>
      .bind (setTail_preserves _) fun _ => record_preserves rfl
  · exact .bind (assertThat_preserves _ _) fun _ => .bind (deref_preserves _) fun tail =>
      .bind (loadItem_preserves _) fun t => .bind (assertThat_preserves _ _) fun _ =>
      .bind (storeItem_preserves _ _) fun _ => .bind (setTail_preserves _) fun _ => record_preserves rfl

theorem freeCb_preserves (cb : FreeCb) (a : Addr) : Preserves World.aside (cb.call a) := by
  cases cb with
  | doNothing         => exact .pure _
  | simpleCommandFree => exact .bind (loadItem_preserves _) fun _ => .modify fun _ => rfl
  | insertQueryFree   =>
    exact .bind .get fun w => .bind (assertThat_preserves _ _) fun _ => .bind (assertThat_preserves _ _) fun _ =>
      .bind (loadItem_preserves _) fun _ => push_preserves _ _ _ _ _ _

theorem pop_preserves : Preserves World.aside popQueryQueueItem := by
  unfold popQueryQueueItem
  refine .bind .get fun w => .bind (assertThat_preserves _ _) fun _ => .bind (deref_preserves _) fun oldHead =>
    .bind (loadItem_preserves _) fun it => .bind (setHead_preserves _) fun _ => ?_
  refine .ite (.bind (setTail_preserves _) fun _ => .bind (record_preserves rfl) fun _ => ?_)
    (.bind (record_preserves rfl) fun _ => ?_)
  · cases it.freeCb with
    | some cb => exact freeCb_preserves cb oldHead
    | none    => exact .pure _
  · cases it.freeCb with
    | some cb => exact freeCb_preserves cb oldHead
    | none    => exact .pure _

/-! ## The loop without a query in flight -/

/-- The end of the query was read, or there was none, and the loop goes on. -/
def NoQuery (w : World) : Prop := w.session.conn.inFlight = none ∧ w.inDrain = true

theorem idle_preserves : Preserves World.aside (do popQueryQueueItem; setState .idle; pollForWrite : Prog Unit) :=
  .bind pop_preserves fun _ => .bind (.modify fun _ => rfl) fun _ => .modify fun _ => rfl

/-- **A pass that gets `NULL`** does not leave the loop. -/
theorem drain_null {conn : PGconn} (hbusy : w.session.conn.isBusy = false)
    (hget : w.session.conn.getResult = (none, conn)) (hconn : conn.inFlight = none) (hd : w.inDrain = true) :
    (exec drainResult w).halted ≠ none ∨ NoQuery (exec drainResult w) := by
  cases hr : drainResult w with
  | error f w' => rw [exec_of_error hr]; exact Or.inl (nomatch ·)
  | ok x w' =>
    rw [exec_of_ok hr]
    right
    cases hh : w.session.queueHead with
    | none => simp [drainResult, hbusy, hget, hh] at hr
    | some h =>
      cases hit : w.heap h with
      | none => simp [drainResult, hbusy, hget, hh, hit] at hr
      | some it =>
        cases hcb : it.resultCb with
        | none => simp [drainResult, hbusy, hget, hh, hit, hcb] at hr
        | some cb =>
          rw [drain_run hbusy hget hh hit hcb] at hr
          cases hv : cb it.cbPrivate none with
          | error f => rw [hv] at hr; cases hr
          | ok v =>
            rw [hv] at hr
            have haside := idle_preserves.of_ok hr
            have hc : w'.session.conn = conn := congrArg (fun o => o.1) haside
            have hdrain : w'.inDrain = w.inDrain := congrArg (fun o => o.2.2.1) haside
            exact ⟨by rw [hc]; exact hconn, hdrain.trans hd⟩

theorem NoQuery.drain (h : NoQuery w) : (exec drainResult w).halted ≠ none ∨ NoQuery (exec drainResult w) :=
  drain_null (by simp [PGconn.isBusy, h.1]) (by simp [PGconn.getResult, h.1]) h.1 h.2

/-- The loop ends, and the call returns. -/
def DrainEnds (w : World) : Prop :=
  ∃ n w', Runs.run serviceStep w (List.replicate n .drain) = some w' ∧ w'.halted = none ∧ w'.inDrain = false

theorem drainStep (hrun : w.halted = none) (hd : w.inDrain = true) :
    serviceStep w .drain = some (exec drainResult w) := by
  simp [serviceStep, hrun, hd]

/-- The loop ends where the rest of it does. -/
theorem drainEnds_iff_next (hrun : w.halted = none) (hd : w.inDrain = true) :
    DrainEnds w ↔ DrainEnds (exec drainResult w) := by
  constructor
  · rintro ⟨n, w', hr, hh, hd'⟩
    cases n with
    | zero => cases hr; rw [hd] at hd'; cases hd'
    | succ n =>
      rw [List.replicate_succ, Runs.run_cons_of_step (drainStep hrun hd)] at hr
      exact ⟨n, w', hr, hh, hd'⟩
  · rintro ⟨n, w', hr, h⟩
    exact ⟨n + 1, w', by rw [List.replicate_succ, Runs.run_cons_of_step (drainStep hrun hd)]; exact hr, h⟩

theorem not_drainEnds_of_halted (h : w.halted ≠ none) : ¬ DrainEnds w := by
  rintro ⟨n, w', hr, hh, -⟩
  cases n with
  | zero   => cases hr; exact h hh
  | succ n =>
    obtain ⟨w₁, hs, -⟩ := Runs.run_cons_eq_some hr
    have hnone : w.halted.isNone = false := by
      cases hw : w.halted with
      | none   => exact absurd hw h
      | some f => rfl
    simp [serviceStep, hnone] at hs

theorem not_drainEnds_of_noQuery (h : NoQuery w) : ¬ DrainEnds w := by
  rintro ⟨n, hn⟩
  induction n generalizing w with
  | zero =>
    obtain ⟨w', hr, -, hd⟩ := hn
    cases hr
    rw [h.2] at hd; cases hd
  | succ n ih =>
    obtain ⟨w', hr, hh, hd⟩ := hn
    by_cases hrun : w.halted = none
    · rw [List.replicate_succ, Runs.run_cons_of_step (drainStep hrun h.2)] at hr
      rcases h.drain with hhalt | hnext
      · exact not_drainEnds_of_halted hhalt ⟨n, w', hr, hh, hd⟩
      · exact ih hnext ⟨w', hr, hh, hd⟩
    · exact not_drainEnds_of_halted hrun ⟨n + 1, w', hr, hh, hd⟩

/-! ## The loop with a query in flight -/

/-- The callback returns on each of these results, each time with the storage it left before. -/
def Accepts (cb : ResultCb) : UInt64 → List PGresult → Bool
  | _, []      => true
  | v, r :: rs =>
    match cb v (some r) with
    | .ok v'   => Accepts cb v' rs
    | .error _ => false

/-- The head of the queue is an item whose callback accepts these results. -/
def HeadAccepts (heap : Addr → Option QueryQueueItem) (head : Ptr) (rs : List PGresult) : Prop :=
  ∃ h it cb, head = some h ∧ heap h = some it ∧ it.resultCb = some cb ∧ Accepts cb it.cbPrivate rs = true

/-- **The query is not done** with what was read, and its results are accepted. -/
structure InProgress (heap : Addr → Option QueryQueueItem) (head : Ptr) (c : PGconn) : Prop where
  inFlight : c.inFlight ≠ none
  complete : c.complete = false
  accepts  : c.arrived ≠ [] → HeadAccepts heap head c.arrived

theorem headAccepts_iff {heap : Addr → Option QueryQueueItem} {h : Addr} {it : QueryQueueItem} {cb : ResultCb}
    (hit : heap h = some it) (hcb : it.resultCb = some cb) (rs : List PGresult) :
    HeadAccepts heap (some h) rs ↔ Accepts cb it.cbPrivate rs = true := by
  constructor
  · rintro ⟨h', it', cb', hh, hit', hcb', ha⟩
    cases hh
    rw [hit] at hit'; cases hit'
    rw [hcb] at hcb'; cases hcb'
    exact ha
  · exact fun ha => ⟨h, it, cb, rfl, hit, hcb, ha⟩

theorem not_headAccepts {heap : Addr → Option QueryQueueItem} {head : Ptr} {rs : List PGresult}
    (h : ∀ h it cb, head = some h → heap h = some it → it.resultCb = some cb → Accepts cb it.cbPrivate rs = false) :
    ¬ HeadAccepts heap head rs := by
  rintro ⟨a, it, cb, hh, hit, hcb, ha⟩
  rw [h a it cb hh hit hcb] at ha
  cases ha

/-- **A pass that gets a result**: the head takes it, or the program ends. -/
theorem drain_some {r : PGresult} (rs : List PGresult) {conn : PGconn} (hbusy : w.session.conn.isBusy = false)
    (hget : w.session.conn.getResult = (some r, conn)) :
    ((∃ f w', drainResult w = .error f w') ∧ ¬ HeadAccepts w.heap w.session.queueHead (r :: rs)) ∨
    ∃ h it v, drainResult w = .ok () (w.gotResult conn h it v (some r)) ∧
      (HeadAccepts (w.gotResult conn h it v (some r)).heap w.session.queueHead rs ↔
        HeadAccepts w.heap w.session.queueHead (r :: rs)) ∧ HeadAccepts w.heap w.session.queueHead [r] := by
  cases hh : w.session.queueHead with
  | none => exact Or.inl ⟨by simp [drainResult, hbusy, hget, hh], not_headAccepts fun _ _ _ he => nomatch he⟩
  | some h =>
    cases hit : w.heap h with
    | none =>
      refine Or.inl ⟨by simp [drainResult, hbusy, hget, hh, hit], not_headAccepts fun h' it cb he hit' => ?_⟩
      cases he
      rw [hit] at hit'; cases hit'
    | some it =>
      cases hcb : it.resultCb with
      | none =>
        refine Or.inl ⟨by simp [drainResult, hbusy, hget, hh, hit, hcb], ?_⟩
        refine not_headAccepts fun h' it' cb he hit' hcb' => ?_
        cases he
        rw [hit] at hit'; cases hit'
        rw [hcb] at hcb'; cases hcb'
      | some cb =>
        have hr := drain_run hbusy hget hh hit hcb
        cases hv : cb it.cbPrivate (some r) with
        | error f =>
          rw [hv] at hr
          refine Or.inl ⟨⟨_, _, hr⟩, ?_⟩
          rw [headAccepts_iff hit hcb, Accepts, hv]
          exact Bool.false_ne_true
        | ok v =>
          rw [hv] at hr
          have hit' : (w.gotResult conn h it v (some r)).heap h = some { it with cbPrivate := v } :=
            Function.update_self _ _ _
          refine Or.inr ⟨h, it, v, hr, ?_, ?_⟩
          · rw [headAccepts_iff hit' hcb, headAccepts_iff hit hcb, Accepts, hv]
          · rw [headAccepts_iff hit hcb, Accepts, hv]
            rfl

/-- **The loop ends** exactly where the query is not done and its results are accepted. -/
theorem drainEnds_iff : ∀ (rs : List PGresult) {w : World}, w.session.conn.arrived = rs → w.halted = none →
    w.inDrain = true → (DrainEnds w ↔ InProgress w.heap w.session.queueHead w.session.conn)
  | [], w, harr, hrun, hd => by
    cases hq : w.session.conn.inFlight with
    | none => exact iff_of_false (not_drainEnds_of_noQuery ⟨hq, hd⟩) (fun h => h.inFlight hq)
    | some query =>
      cases hc : w.session.conn.complete with
      | false =>
        have hbusy : drainResult w = .ok () { w with inDrain := false } := by
          simp [drainResult, PGconn.isBusy, hq, harr, hc]
        refine iff_of_true ⟨1, { w with inDrain := false }, ?_, hrun, rfl⟩
          ⟨by rw [hq]; exact Option.some_ne_none query, hc, fun hne => absurd harr hne⟩
        rw [List.replicate_one, Runs.run_cons_of_step (drainStep hrun hd), exec_of_ok hbusy]
        rfl
      | true =>
        rw [drainEnds_iff_next hrun hd]
        refine iff_of_false ?_ (fun h => by rw [h.complete] at hc; cases hc)
        have hget : w.session.conn.getResult = (none, { w.session.conn with inFlight := none, complete := false }) := by
          simp [PGconn.getResult, hq, harr, hc]
        rcases drain_null (by simp [PGconn.isBusy, hc]) hget rfl hd with hhalt | hno
        · exact not_drainEnds_of_halted hhalt
        · exact not_drainEnds_of_noQuery hno
  | r :: rs, w, harr, hrun, hd => by
    cases hq : w.session.conn.inFlight with
    | none => exact iff_of_false (not_drainEnds_of_noQuery ⟨hq, hd⟩) (fun h => h.inFlight hq)
    | some query =>
      have hget : w.session.conn.getResult = (some r, { w.session.conn with arrived := rs }) := by
        simp [PGconn.getResult, hq, harr]
      rw [drainEnds_iff_next hrun hd]
      have hbusy : w.session.conn.isBusy = false := by simp [PGconn.isBusy, harr]
      rcases drain_some rs hbusy hget with ⟨⟨f, w', hr⟩, hno⟩ | ⟨h, it, v, hr, hiff, hone⟩
      · rw [exec_of_error hr]
        refine iff_of_false (not_drainEnds_of_halted (Option.some_ne_none f)) fun h => hno ?_
        rw [← harr]
        exact h.accepts (by rw [harr]; exact List.cons_ne_nil r rs)
      · have ih := drainEnds_iff rs (w := w.gotResult { w.session.conn with arrived := rs } h it v (some r)) rfl
          hrun hd
        rw [exec_of_ok hr]
        refine ih.trans ?_
        constructor
        · intro h'
          refine ⟨h'.inFlight, h'.complete, fun _ => ?_⟩
          rw [harr]
          cases rs with
          | nil       => exact hone
          | cons x xs => exact hiff.1 (h'.accepts (List.cons_ne_nil x xs))
        · intro h'
          have := h'.accepts (by rw [harr]; exact List.cons_ne_nil r rs)
          rw [harr] at this
          exact ⟨h'.inFlight, h'.complete, fun _ => hiff.2 this⟩

/-! ## The call -/

theorem readSocket_run (readable : Bool) (input : Input) (w : World) :
    readSocket readable input w =
      if readable = true ∧ input.ok = false then .error (.errorDie "could not read from socket") w
      else .ok () { w with session := { w.session with conn := received w.session.conn readable input } } := by
  cases readable with
  | false => rfl
  | true =>
    cases hok : input.ok with
    | false => simp [readSocket, PGconn.consumeInput, hok]
    | true =>
      have h1 : (w.session.conn.consumeInput input).1 = 1 := by
        simp only [PGconn.consumeInput, hok, if_true]
        cases w.session.conn.inFlight with
        | none   => rfl
        | some q => dsimp only; split <;> rfl
      simp [readSocket, received, h1]

/-- The call in `SESSION_FLUSHED`, up to the first test of the loop. -/
theorem call_flushed (hst : w.session.sessionState = .flushed) {readable : Bool} {env : Env}
    (hread : readable = true → env.input.ok = true) :
    ∃ w' ns, serviceSession readable env w = .ok () w' ∧ w'.heap = w.heap ∧ w'.halted = w.halted ∧ w'.inDrain = true ∧
      w'.session = { w.session with conn := { received w.session.conn readable env.input with notifies := ns } } := by
  have hsock := readSocket_run readable env.input w
  rw [if_neg (fun h => by rw [hread h.1] at h; cases h.2)] at hsock
  have hdisp := dispatchNotification_ends
    { w with session := { w.session with conn := received w.session.conn readable env.input } }
  unfold serviceSession
  rw [bind_run, hsock]
  dsimp only
  rw [bind_run]
  cases hd : dispatchNotification
      { w with session := { w.session with conn := received w.session.conn readable env.input } } with
  | error f w₁ => rw [hd] at hdisp; exact hdisp.elim
  | ok x w₁ =>
    rw [hd] at hdisp
    obtain ⟨hu, ns, hconn⟩ := hdisp
    have hst₁ : w₁.session.sessionState = .flushed := by rw [hu.session]; exact hst
    refine ⟨{ w₁ with inDrain := true }, ns, by simp [hst₁], hu.heap, hu.halted, rfl, ?_⟩
    show w₁.session = _
    rw [hu.session, hconn]

/-- One call of `service_session` returns, after some number of tests of its loop. -/
def CallReturns (w : World) (readable : Bool) (env : Env) : Prop :=
  ∃ n w', Runs.run serviceStep w (.call readable env :: List.replicate n .drain) = some w' ∧
    w'.halted = none ∧ w'.inDrain = false

/-- **The end of the query in flight is not read**: the socket is read without an error where it is, the query has
more to come, and the callback of the queue's head accepts what has arrived. -/
structure StillBusy (w : World) (readable : Bool) (env : Env) : Prop where
  read       : readable = true → env.input.ok = true
  inProgress : InProgress w.heap w.session.queueHead (received w.session.conn readable env.input)

theorem callReturns_iff_drainEnds (readable : Bool) (env : Env) (hrun : w.halted = none) (hd : w.inDrain = false) :
    CallReturns w readable env ↔ DrainEnds (exec (serviceSession readable env) w) := by
  have hstep : serviceStep w (.call readable env) = some (exec (serviceSession readable env) w) := by
    simp [serviceStep, hrun, hd]
  unfold CallReturns DrainEnds
  simp only [Runs.run_cons_of_step hstep]

/-- **A call in `SESSION_FLUSHED` returns** exactly where the end of the query in flight is not read. -/
theorem callReturns_iff_stillBusy (w : World) (readable : Bool) (env : Env) (hrun : w.halted = none)
    (hd : w.inDrain = false) (hst : w.session.sessionState = .flushed) :
    CallReturns w readable env ↔ StillBusy w readable env := by
  rw [callReturns_iff_drainEnds readable env hrun hd]
  by_cases hread : readable = true → env.input.ok = true
  · obtain ⟨w', ns, hrun', hheap, hhalt, hdrain, hsess⟩ := call_flushed hst hread
    rw [exec_of_ok hrun', drainEnds_iff _ rfl (hhalt.trans hrun) hdrain, hheap, hsess]
    exact ⟨fun h => ⟨hread, h.inFlight, h.complete, h.accepts⟩,
      fun h => ⟨h.inProgress.inFlight, h.inProgress.complete, h.inProgress.accepts⟩⟩
  · refine iff_of_false ?_ (fun h => hread h.read)
    have hsock := readSocket_run readable env.input w
    have herr : readable = true ∧ env.input.ok = false := by
      rw [Classical.not_imp] at hread
      exact ⟨hread.1, Bool.eq_false_iff.2 hread.2⟩
    rw [if_pos herr] at hsock
    have : serviceSession readable env w = .error (.errorDie "could not read from socket") w := by
      unfold serviceSession
      rw [bind_run, hsock]
    rw [exec_of_error this]
    exact not_drainEnds_of_halted (nomatch ·)

/-- The first of two commands is in flight. -/
def midQuery : World :=
  { twoCommands with
    session := { twoCommands.session with
      sessionState := .flushed, conn := { twoCommands.session.conn with inFlight := some 0, nextQuery := 1 } } }

/-- One result is read, and the end of its query (`complete`) or not. -/
def oneReply (complete : Bool) : Env :=
  { input := ⟨true, 0, [⟨.commandOk, 0, 0⟩], complete, []⟩, sendOk := true, sendBytes := 0, socket := none }

theorem callReturns_midQuery : CallReturns midQuery true (oneReply false) :=
  (callReturns_iff_stillBusy midQuery true (oneReply false) rfl rfl rfl).2
    ⟨fun _ => rfl, (nomatch ·), rfl, fun _ => ⟨1, _, _, rfl, rfl, rfl, by decide⟩⟩

/-- **The end of the query is read** as well, and the call does not return. -/
theorem call_not_returns : ¬ CallReturns midQuery true (oneReply true) := by
  rw [callReturns_iff_drainEnds _ _ rfl rfl, drainEnds_iff _ rfl rfl rfl]
  exact fun h => absurd h.complete (by decide)

end Async
end Scrapcode
