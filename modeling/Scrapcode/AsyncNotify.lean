import Scrapcode.AsyncDrain
/-!
# AsyncNotify — the notifications of a session

Each `PQconsumeInput` may make any number of notifications available, and each call of `service_session` takes one of
them from libpq, hands it to `notify_cb` and frees it.  `poll` does not wake for the ones that are left.

`PassedOn` is what the calls are to keep: every notification read is handed on and freed once, in the order of arrival,
and none is left when a call returns.  It holds in every run in which no `PQconsumeInput` makes two of them available
(`OneAtMost`).
-/
namespace Scrapcode
namespace Async

open Programs

/-! ## The law -/

/-- The notifications that were freed, in order. -/
def freedNotices (log : List Event) : List Nat :=
  log.filterMap (fun e =>
    match e with
    | .notifyFreed n => some n
    | _              => none)

/-- The notifications that `notify_cb` was called with, in order. -/
def notifiedNotices (log : List Event) : List Nat :=
  log.filterMap (fun e =>
    match e with
    | .notified n => some n
    | _           => none)

/-- What a call reads from the socket. -/
def ServiceEvent.notifies : ServiceEvent → List Nat
  | .call readable env => if readable = true ∧ env.input.ok = true then env.input.notifies else []
  | .drain             => []

/-- A step, with the notifications that have arrived so far. -/
def noticeStep (s : World × List Nat) (e : ServiceEvent) : Option (World × List Nat) :=
  (serviceStep s.1 e).map (fun w => (w, s.2 ++ e.notifies))

/-- **Every notification is handed on and freed**, in the order of arrival, and none is left when a call returns. -/
structure PassedOn (s : World × List Nat) : Prop where
  freed    : freedNotices s.1.log ++ s.1.session.conn.notifies = s.2
  notified : notifiedNotices s.1.log = if s.1.session.notifyCb = true then freedNotices s.1.log else []
  returned : s.1.halted = none → s.1.inDrain = false → s.1.session.conn.notifies = []

/-- A `PQconsumeInput` makes one notification available at most. -/
def OneAtMost (_ : World × List Nat) (e : ServiceEvent) : Prop := e.notifies.length ≤ 1

/-! ## What the rest of a call leaves alone -/

/-- The notifications of a session and what was done with them. -/
def World.notices (w : World) : List Nat × Bool × List Event :=
  (w.session.conn.notifies, w.session.notifyCb, w.log.filter Event.isNotice)

variable {w w' : World} {a : Addr}

theorem freedNotices_filter (log : List Event) : freedNotices (log.filter Event.isNotice) = freedNotices log := by
  unfold freedNotices
  rw [List.filterMap_filter]
  congr 1
  funext e
  cases e <;> rfl

theorem notifiedNotices_filter (log : List Event) :
    notifiedNotices (log.filter Event.isNotice) = notifiedNotices log := by
  unfold notifiedNotices
  rw [List.filterMap_filter]
  congr 1
  funext e
  cases e <;> rfl

theorem sendHead_notices (env : Env) : Preserves World.notices (sendHead env) := by
  intro w
  cases hh : w.session.queueHead with
  | none => simp [sendHead, hh, Programs.Ends]
  | some h =>
    cases hit : w.heap h with
    | none => simp [sendHead, hh, hit, Programs.Ends]
    | some it =>
      cases hcb : it.sendCb with
      | none => simp [sendHead, hh, hit, hcb, Programs.Ends]
      | some cb =>
        cases hv : cb it.cbPrivate with
        | error f => simp [sendHead, hh, hit, hcb, hv, Programs.Ends]
        | ok v =>
          cases hs : env.sendOk with
          | false => simp [sendHead, hh, hit, hcb, hv, PGconn.sendQuery, hs, Programs.Ends, World.notices]
          | true =>
            cases hq : w.session.conn.inFlight with
            | none =>
              simp [sendHead, hh, hit, hcb, hv, PGconn.sendQuery, hs, hq, Programs.Ends, World.notices, Event.isNotice]
            | some q => simp [sendHead, hh, hit, hcb, hv, PGconn.sendQuery, hs, hq, Programs.Ends, World.notices]

theorem flushQuery_notices (env : Env) : Preserves World.notices (flushQuery env) := by
  intro w
  cases hs : env.socket with
  | none => simp [flushQuery, PGconn.flush, hs, Programs.Ends, World.notices]
  | some n =>
    by_cases hlt : n < w.session.conn.unsent
    · simp [flushQuery, PGconn.flush, hs, hlt, Nat.not_le.2 hlt, Programs.Ends, World.notices]
    · simp [flushQuery, PGconn.flush, hs, hlt, Nat.not_lt.1 hlt, Programs.Ends, World.notices]

theorem getResult_notifies (c : PGconn) : c.getResult.2.notifies = c.notifies := by
  unfold PGconn.getResult
  cases c.inFlight with
  | none   => rfl
  | some q =>
    cases c.arrived with
    | cons r rs => rfl
    | nil       => dsimp only; split <;> rfl

/-- A pass of the loop that got `res`. -/
theorem drain_notices {res : Option PGresult} {conn : PGconn} (hbusy : w.session.conn.isBusy = false)
    (hget : w.session.conn.getResult = (res, conn)) :
    Programs.Ends (drainResult w) (fun _ w' => w'.notices = w.notices) (fun _ w' => w'.notices = w.notices) := by
  have hn : conn.notifies = w.session.conn.notifies := by
    have := getResult_notifies w.session.conn
    rwa [hget] at this
  cases hh : w.session.queueHead with
  | none => simp [drainResult, hbusy, hget, hh, Programs.Ends, World.notices, hn]
  | some h =>
    cases hit : w.heap h with
    | none => simp [drainResult, hbusy, hget, hh, hit, Programs.Ends, World.notices, hn]
    | some it =>
      cases hcb : it.resultCb with
      | none => simp [drainResult, hbusy, hget, hh, hit, hcb, Programs.Ends, World.notices, hn]
      | some cb =>
        rw [drain_run hbusy hget hh hit hcb]
        cases cb it.cbPrivate res with
        | error f => simp [Programs.Ends, World.notices, hn, Event.isNotice]
        | ok v =>
          have hgot : (w.gotResult conn h it v res).notices = w.notices := by
            simp [World.gotResult, World.notices, hn, Event.isNotice]
          cases res with
          | some r => exact hgot
          | none =>
            have hidle := idle_preserves.comp (fun o => (o.1.notifies, o.2.1, o.2.2.2)) (w.gotResult conn h it v none)
            exact hidle.mono (fun _ _ h => h.trans hgot) (fun _ _ h => h.trans hgot)

theorem drainResult_notices : Preserves World.notices drainResult := by
  intro w
  cases hbusy : w.session.conn.isBusy with
  | true  => simp [drainResult, hbusy, Programs.Ends, World.notices]
  | false => exact drain_notices hbusy rfl

/-! ## One step -/

theorem received_notifies (c : PGconn) (readable : Bool) (env : Env) :
    (received c readable env.input).notifies = c.notifies ++ (ServiceEvent.call readable env).notifies := by
  unfold received PGconn.consumeInput ServiceEvent.notifies
  cases readable with
  | false => simp
  | true =>
    cases hok : env.input.ok with
    | false => simp [hok]
    | true =>
      cases c.inFlight with
      | none   => simp [hok]
      | some q => cases c.complete <;> simp [hok]

/-- **One notification is taken**, handed on and freed. -/
theorem dispatchNotification_run (w : World) : dispatchNotification w =
    match w.session.conn.notifies with
    | []      => .ok () w
    | n :: ns => .ok () { w with
        session := { w.session with conn := { w.session.conn with notifies := ns } }
        log     := (if w.session.notifyCb = true then w.log ++ [.notified n] else w.log) ++ [.notifyFreed n] } := by
  cases hn : w.session.conn.notifies with
  | nil => simp [dispatchNotification, PGconn.popNotify, hn]
  | cons n ns =>
    cases hcb : w.session.notifyCb with
    | false => simp [dispatchNotification, PGconn.popNotify, hn, hcb]
    | true  => simp [dispatchNotification, PGconn.popNotify, hn, hcb]

/-- The rest of a call, once the notification was taken. -/
def serviceRest (env : Env) : Prog Unit := do
  match (← get).session.sessionState with
  | .idle    => do
    sendHead env
    flushQuery env
  | .queued  => flushQuery env
  | .flushed => setInDrain true

theorem serviceRest_notices (env : Env) : Preserves World.notices (serviceRest env) := by
  refine Preserves.bind .get fun w => ?_
  cases w.session.sessionState with
  | idle    => exact .bind (sendHead_notices env) fun _ => flushQuery_notices env
  | queued  => exact flushQuery_notices env
  | flushed => exact .modify fun _ => rfl

/-- The notifications of a session, as the law reads them. -/
structure Holds (w : World) (arrived : List Nat) : Prop where
  freed    : freedNotices w.log ++ w.session.conn.notifies = arrived
  notified : notifiedNotices w.log = if w.session.notifyCb = true then freedNotices w.log else []

theorem Holds.congr {arrived : List Nat} (h : Holds w arrived) (hn : w'.notices = w.notices) : Holds w' arrived := by
  have h₁ : w'.session.conn.notifies = w.session.conn.notifies := congrArg (fun o => o.1) hn
  have h₂ : w'.session.notifyCb = w.session.notifyCb := congrArg (fun o => o.2.1) hn
  have h₃ : w'.log.filter Event.isNotice = w.log.filter Event.isNotice := congrArg (fun o => o.2.2) hn
  have hf : freedNotices w'.log = freedNotices w.log := by
    rw [← freedNotices_filter, h₃, freedNotices_filter]
  have hc : notifiedNotices w'.log = notifiedNotices w.log := by
    rw [← notifiedNotices_filter, h₃, notifiedNotices_filter]
  exact ⟨by rw [hf, h₁]; exact h.freed, by rw [hc, h₂, hf]; exact h.notified⟩

/-- The invariant: nothing is left in libpq between two steps of a program that has not ended. -/
structure NoneLeft (s : World × List Nat) : Prop where
  holds : Holds s.1 s.2
  empty : s.1.halted = none → s.1.session.conn.notifies = []

theorem NoneLeft.passedOn {s : World × List Nat} (h : NoneLeft s) : PassedOn s :=
  ⟨h.holds.freed, h.holds.notified, fun hrun _ => h.empty hrun⟩

theorem noneLeft_exec {p : Prog Unit} {arrived : List Nat} (hp : Preserves World.notices p) (h : Holds w arrived)
    (hempty : w.session.conn.notifies = []) : NoneLeft (exec p w, arrived) := by
  cases hr : p w with
  | ok x w' =>
    rw [exec_of_ok hr]
    have hn := hp.of_ok hr
    exact ⟨h.congr hn, fun _ => (congrArg (fun o => o.1) hn : w'.session.conn.notifies = _).trans hempty⟩
  | error f w' =>
    rw [exec_of_error hr]
    have hn := hp.of_error hr
    have h' : Holds { w' with halted := some f } arrived := h.congr hn
    exact ⟨h', fun h => nomatch h⟩

theorem freedNotices_append (log : List Event) (n : Nat) :
    freedNotices (log ++ [.notifyFreed n]) = freedNotices log ++ [n] := List.filterMap_append

theorem freedNotices_notified (log : List Event) (n : Nat) :
    freedNotices (log ++ [.notified n]) = freedNotices log := by
  simp [freedNotices]

theorem notifiedNotices_append (log : List Event) (n : Nat) :
    notifiedNotices (log ++ [.notified n]) = notifiedNotices log ++ [n] := List.filterMap_append

theorem notifiedNotices_freed (log : List Event) (n : Nat) :
    notifiedNotices (log ++ [.notifyFreed n]) = notifiedNotices log := by
  simp [notifiedNotices]

/-- **One notification or none** is taken as it arrives. -/
theorem dispatch_holds {arrived : List Nat} (h : Holds w arrived) (hle : w.session.conn.notifies.length ≤ 1) :
    ∃ w', dispatchNotification w = .ok () w' ∧ Holds w' arrived ∧ w'.session.conn.notifies = [] ∧
      w'.halted = w.halted := by
  rw [dispatchNotification_run]
  cases hn : w.session.conn.notifies with
  | nil => exact ⟨w, rfl, h, hn, rfl⟩
  | cons n ns =>
    have hns : ns = [] := by
      rw [hn, List.length_cons] at hle
      exact List.length_eq_zero_iff.1 (Nat.le_zero.1 (Nat.le_of_succ_le_succ hle))
    subst hns
    have hfreed := h.freed
    have hnotified := h.notified
    rw [hn] at hfreed
    refine ⟨_, rfl, ?_, rfl, rfl⟩
    cases hcb : w.session.notifyCb with
    | false =>
      rw [hcb] at hnotified
      refine ⟨?_, ?_⟩
      · simp only [Bool.false_eq_true, if_false, freedNotices_append, List.append_nil]
        exact hfreed
      · simp only [Bool.false_eq_true, if_false, notifiedNotices_freed]
        simpa [hcb] using hnotified
    | true =>
      rw [hcb, if_pos rfl] at hnotified
      refine ⟨?_, ?_⟩
      · simp only [if_true, freedNotices_append, freedNotices_notified, List.append_nil]
        exact hfreed
      · simp only [if_true, notifiedNotices_freed, notifiedNotices_append, freedNotices_append, freedNotices_notified,
          hnotified, hcb]

theorem serviceSession_eq (readable : Bool) (env : Env) :
    serviceSession readable env = (do readSocket readable env.input; dispatchNotification; serviceRest env) := rfl

/-- A call that is to read one notification at most. -/
theorem call_noneLeft {arrived : List Nat} {readable : Bool} {env : Env} (h : Holds w arrived)
    (hempty : w.session.conn.notifies = []) (hle : (ServiceEvent.call readable env).notifies.length ≤ 1) :
    NoneLeft (exec (serviceSession readable env) w, arrived ++ (ServiceEvent.call readable env).notifies) := by
  have hsock := readSocket_run readable env.input w
  rw [serviceSession_eq]
  by_cases herr : readable = true ∧ env.input.ok = false
  · rw [if_pos herr] at hsock
    have hno : (ServiceEvent.call readable env).notifies = [] := if_neg (by rw [herr.2]; simp)
    have hrun : (do readSocket readable env.input; dispatchNotification; serviceRest env : Prog Unit) w =
        .error (.errorDie "could not read from socket") w := by rw [bind_run, hsock]
    rw [exec_of_error hrun, hno, List.append_nil]
    have h' : Holds { w with halted := some (.errorDie "could not read from socket") } arrived := h.congr rfl
    exact ⟨h', fun h => nomatch h⟩
  · rw [if_neg herr] at hsock
    let w₁ : World := { w with session := { w.session with conn := received w.session.conn readable env.input } }
    have hrecv : w₁.session.conn.notifies = (ServiceEvent.call readable env).notifies := by
      rw [← List.nil_append (ServiceEvent.call readable env).notifies, ← hempty]
      exact received_notifies w.session.conn readable env
    have hfreed := h.freed
    rw [hempty, List.append_nil] at hfreed
    have h₁ : Holds w₁ (arrived ++ (ServiceEvent.call readable env).notifies) :=
      ⟨by rw [hrecv, ← hfreed], h.notified⟩
    obtain ⟨w₂, hdisp, h₂, hempty₂, -⟩ := dispatch_holds h₁ (by rw [hrecv]; exact hle)
    have hrun : (do readSocket readable env.input; dispatchNotification; serviceRest env : Prog Unit) w =
        serviceRest env w₂ := by rw [bind_run, hsock]; dsimp only; rw [bind_run, hdisp]
    have hexec : exec (do readSocket readable env.input; dispatchNotification; serviceRest env) w =
        exec (serviceRest env) w₂ := by unfold exec; rw [hrun]
    rw [hexec]
    exact noneLeft_exec (serviceRest_notices env) h₂ hempty₂

/-- **A step that makes one notification available at most** leaves none behind. -/
theorem noticeStep_noneLeft (s : World × List Nat) (e : ServiceEvent) (s' : World × List Nat) (h : NoneLeft s)
    (hC : OneAtMost s e) (hs : noticeStep s e = some s') : NoneLeft s' := by
  obtain ⟨w, hw, rfl⟩ := Option.map_eq_some_iff.1 hs
  cases e with
  | drain =>
    simp only [serviceStep, Option.ite_none_right_eq_some] at hw
    obtain ⟨hgo, hw⟩ := hw
    cases hw
    rw [Bool.and_eq_true, Option.isNone_iff_eq_none] at hgo
    have harr : s.2 ++ ServiceEvent.drain.notifies = s.2 := List.append_nil _
    rw [harr]
    exact noneLeft_exec drainResult_notices h.holds (h.empty hgo.1)
  | call readable env =>
    simp only [serviceStep, Option.ite_none_right_eq_some] at hw
    obtain ⟨hgo, hw⟩ := hw
    cases hw
    rw [Bool.and_eq_true, Option.isNone_iff_eq_none] at hgo
    exact call_noneLeft h.holds (h.empty hgo.1) hC

/-! ## Runs -/

/-- A session before its first call: no notification was read. -/
structure Connected (w : World) : Prop where
  notifies : w.session.conn.notifies = []
  log      : w.log.filter Event.isNotice = []

theorem Connected.noneLeft (h : Connected w) : NoneLeft (w, []) := by
  have hf : freedNotices w.log = [] := by rw [← freedNotices_filter, h.log]; rfl
  have hc : notifiedNotices w.log = [] := by rw [← notifiedNotices_filter, h.log]; rfl
  exact ⟨⟨by rw [hf, h.notifies]; rfl, by rw [hc, hf, ite_self]⟩, fun _ => h.notifies⟩

/-- **In every run** in which a `PQconsumeInput` makes one notification available at most, every notification is handed
on and freed once, in the order of arrival, and none is left when a call returns. -/
theorem passedOn_always (hw : Connected w) (es : List ServiceEvent)
    (hC : Runs.Meets noticeStep OneAtMost (w, []) es) : Runs.Always noticeStep PassedOn (w, []) es :=
  Runs.always_of_meets (fun _ h => h.passedOn) noticeStep_noneLeft es hw.noneLeft hC

/-- A call that reads these notifications. -/
def noticeCall (ns : List Nat) : ServiceEvent :=
  .call true { input := ⟨true, 0, [], false, ns⟩, sendOk := true, sendBytes := 0, socket := some 0 }

theorem connected_start : Connected (World.start fun _ => none) := ⟨rfl, rfl⟩

theorem passedOn_always_two :
    Runs.Always noticeStep PassedOn (World.start fun _ => none, []) [noticeCall [7], noticeCall [8]] :=
  passedOn_always connected_start _ (fun _ _ => ⟨Nat.le_refl 1, fun _ _ => ⟨Nat.le_refl 1, trivial⟩⟩)

/-- **Two notifications at once**: the call returns and one of them is left in libpq. -/
theorem passedOn_not_always :
    ¬ Runs.Always noticeStep PassedOn (World.start fun _ => none, []) [noticeCall [7, 8]] := by
  intro h
  have hr : (Runs.run noticeStep (World.start fun _ => none, []) [noticeCall [7, 8]]).map
      (fun s => (s.1.halted, s.1.inDrain, s.1.session.conn.notifies)) = some (none, false, [8]) := by decide
  obtain ⟨s, hs, he⟩ := Option.map_eq_some_iff.1 hr
  have hp := Runs.Always.reached _ h hs
  have hleft := hp.returned (congrArg Prod.fst he) (congrArg (fun o => o.2.1) he)
  rw [show s.1.session.conn.notifies = [8] from congrArg (fun o => o.2.2) he] at hleft
  cases hleft

end Async
end Scrapcode
