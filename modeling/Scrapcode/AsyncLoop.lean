import Scrapcode.AsyncPairing
/-!
# AsyncLoop — the main loop, and what it sleeps on

`sample_mainloop` services each session in turn, sets the poll masks, and sleeps.  `PQflush` returns 1 when data is
left unsent; `service_session` takes that 1 for "it's in flight" and goes on to `SESSION_FLUSHED`, for which the loop
polls for input only.  So the masks are right in the runs where the socket takes all of the send buffer at every flush
(`TakesAll`): there no session gets to `SESSION_FLUSHED` at all.

Each session has its own queue items, so a state of the loop holds one `World` for each.
-/
namespace Scrapcode
namespace Async

open Programs

/-! ## The code -/

structure MainLoop where
  sessions : List World
  next     : Nat
  asleep   : Bool
  halted   : Option Fault

inductive LoopEvent where
  | service (readable : Bool) (env : Env)
  | drain
  | sleep
  | wake (ok : Bool)
deriving DecidableEq, Repr

/-- The second inner loop, for one session. -/
def preparePoll (w : World) : World :=
  { w with pollout := w.session.sessionState == .queued ||
      (w.session.sessionState == .idle && w.session.queueHead.isSome) }

/-- Session `next` was serviced up to `w`; a loop that drains its results may still be at work. -/
def MainLoop.serviced (l : MainLoop) (w : World) : MainLoop :=
  { l with
    sessions := l.sessions.set l.next w
    next     := if w.inDrain then l.next else l.next + 1
    halted   := w.halted }

def loopStep (l : MainLoop) : LoopEvent → Option MainLoop
  | .service readable env =>
    match l.sessions[l.next]? with
    | some w =>
      if l.halted.isNone && !l.asleep && !w.inDrain then some (l.serviced (exec (serviceSession readable env) w))
      else none
    | none   => none
  | .drain =>
    match l.sessions[l.next]? with
    | some w => if l.halted.isNone && !l.asleep && w.inDrain then some (l.serviced (exec drainResult w)) else none
    | none   => none
  | .sleep =>
    if l.halted.isNone && !l.asleep && decide (l.sessions.length ≤ l.next) then
      some { l with sessions := l.sessions.map preparePoll, asleep := true }
    else none
  | .wake ok =>
    if l.halted.isNone && l.asleep then
      if ok then some { l with asleep := false, next := 0 }
      else some { l with halted := some (.errorDie "error poll()ing for socket events") }
    else none

/-! ## The law and its condition -/

/-- `poll(connpoll, 1, -1)` is given one descriptor, the first session's. -/
def MainLoop.pollsForWrite (k : Nat) (w : World) : Prop := k < 1 ∧ w.pollout = true

/-- **What the loop sleeps on**: a session with unsent data polls for `POLLOUT`, and a session is in `SESSION_FLUSHED`
only if its send buffer is empty and its head's query was sent. -/
def SleepsWell (l : MainLoop) : Prop :=
  l.asleep = true → ∀ k w, l.sessions[k]? = some w →
    (0 < w.session.conn.unsent → MainLoop.pollsForWrite k w) ∧
    (w.session.sessionState = .flushed → w.session.conn.unsent = 0 ∧
      ∃ h query, w.session.queueHead = some h ∧ phase w.log h = .sent query)

/-- The bytes a call's `PQflush` finds in the send buffer. -/
def buffered (w : World) (readable : Bool) (env : Env) : Nat :=
  (received w.session.conn readable env.input).unsent +
    if w.session.sessionState = .idle ∧ w.session.queueHead.isSome then env.sendBytes else 0

/-- **What keeps the law**: a socket that does not fail takes all of the send buffer. -/
def TakesAll (l : MainLoop) : LoopEvent → Prop
  | .service readable env => ∀ w, l.sessions[l.next]? = some w → w.session.sessionState ≠ .flushed →
      ∀ n, env.socket = some n → buffered w readable env ≤ n
  | _ => True

/-! ## Sessions that never wait for results -/

structure Unblocked (w : World) : Prop where
  state   : w.session.sessionState ≠ .flushed
  inDrain : w.inDrain = false
  unsent  : w.session.conn.unsent = 0

theorem sendHead_unsent (w : World) (env : Env) (hidle : w.session.sessionState = .idle) :
    Programs.Ends (sendHead env w) (fun _ w' => w'.session.sessionState ≠ .flushed ∧ w'.inDrain = w.inDrain ∧
      w'.session.conn.unsent = w.session.conn.unsent + if w.session.queueHead.isSome then env.sendBytes else 0)
      (fun _ _ => True) := by
  cases hh : w.session.queueHead with
  | none =>
    have hrun : sendHead env w = .ok () w := by simp [sendHead, hh]
    exact Ends.of_ok hrun ⟨by simp [hidle], rfl, by simp⟩
  | some h =>
    cases hit : w.heap h with
    | none => simp [sendHead, hh, hit, Programs.Ends]
    | some it =>
      cases hcb : it.sendCb with
      | none => simp [sendHead, hh, hit, hcb, Programs.Ends]
      | some cb =>
        cases hv : cb it.cbPrivate with
        | error f => simp [sendHead, hh, hit, hcb, hv, Programs.Ends]
        | ok v =>
          by_cases hs : env.sendOk = true ∧ w.session.conn.inFlight = none <;>
            simp [sendHead, hh, hit, hcb, hv, PGconn.sendQuery, hs, Programs.Ends]

/-- **A call whose flush empties the send buffer** leaves the session unblocked. -/
theorem unblocked_call {w : World} (hw : Unblocked w) {readable : Bool} {env : Env}
    (hall : ∀ n, env.socket = some n → buffered w readable env ≤ n) :
    Programs.Ends (serviceSession readable env w) (fun _ w' => Unblocked w') (fun _ _ => True) := by
  -- what the last flush leaves, from a state whose buffer the socket takes
  have hflush : ∀ w₁ : World, w₁.session.sessionState ≠ .flushed → w₁.inDrain = false →
      w₁.session.conn.unsent = buffered w readable env →
      Programs.Ends (flushQuery env w₁) (fun _ w' => Unblocked w') (fun _ _ => True) := by
    intro w₁ hst hd hbuf
    refine (flushQuery_ends w₁ env).mono ?_ (fun _ _ _ => trivial)
    rintro - w₂ ⟨unsent, pollout, state, rfl, ⟨n, hn, hun⟩, hcase⟩
    have h0 : unsent = 0 := by have := hall n hn; omega
    rcases hcase with rfl | ⟨-, hne⟩
    · exact ⟨hst, hd, h0⟩
    · exact absurd h0 hne
  unfold serviceSession
  refine ((readSocket_ends w readable env.input).mono_fault (fun _ _ _ => trivial)).bind ?_
  rintro - w₁ ⟨hu₁, -, hc₁⟩
  refine ((dispatchNotification_ends w₁).mono_fault (fun _ _ h => h.elim)).bind ?_
  rintro - w₂ ⟨hu₂, ns, hc₂⟩
  have hu := hu₁.trans hu₂
  have hst₂ : w₂.session.sessionState = w.session.sessionState := by rw [hu.session]
  have hun₂ : w₂.session.conn.unsent = (received w.session.conn readable env.input).unsent := by rw [hc₂, hc₁]
  have hhd₂ : w₂.session.queueHead = w.session.queueHead := by rw [hu.session]
  have hd₂ : w₂.inDrain = false := hu.inDrain.trans hw.inDrain
  simp only [bind_run, get_run]
  cases hst : w.session.sessionState with
  | idle =>
    rw [hst₂, hst]
    refine (sendHead_unsent w₂ env (hst₂.trans hst)).bind ?_
    rintro - w₃ ⟨hst₃, hd₃, hun₃⟩
    refine hflush w₃ hst₃ (hd₃.trans hd₂) ?_
    rw [hun₃, hun₂, hhd₂]
    simp [buffered, hst]
  | queued =>
    rw [hst₂, hst]
    refine hflush w₂ (by rw [hst₂, hst]; exact (nomatch ·)) hd₂ ?_
    simp [hun₂, buffered, hst]
  | flushed => exact absurd hst hw.state

/-! ## Runs of the loop -/

/-- While the program runs, and when it has died asleep. -/
def AllUnblocked (l : MainLoop) : Prop := l.halted = none ∨ l.asleep = true → ∀ w ∈ l.sessions, Unblocked w

theorem AllUnblocked.sleepsWell {l : MainLoop} (h : AllUnblocked l) : SleepsWell l := by
  intro hasleep k w hk
  have hw := h (Or.inr hasleep) w (List.mem_of_getElem? hk)
  exact ⟨fun hpos => absurd hw.unsent (Nat.ne_of_gt hpos), fun hst => absurd hst hw.state⟩

theorem loopStep_unblocked (l : MainLoop) (e : LoopEvent) (l' : MainLoop) (hl : AllUnblocked l) (hC : TakesAll l e)
    (h : loopStep l e = some l') : AllUnblocked l' := by
  cases e with
  | service readable env =>
    simp only [loopStep] at h
    cases hw : l.sessions[l.next]? with
    | none => rw [hw] at h; cases h
    | some w =>
      simp only [hw, Option.ite_none_right_eq_some, Bool.and_eq_true, Option.isNone_iff_eq_none,
        Bool.not_eq_true'] at h
      obtain ⟨⟨⟨hrun, hawake⟩, -⟩, h⟩ := h
      cases h
      have hall := hl (Or.inl hrun)
      have hwu := hall w (List.mem_of_getElem? hw)
      rintro (hh | hh) x hx
      · rcases List.mem_or_eq_of_mem_set hx with hx | rfl
        · exact hall x hx
        · have hends := unblocked_call hwu (hC w hw hwu.state)
          unfold exec at hh ⊢
          cases hp : serviceSession readable env w with
          | ok u w' => rw [hp] at hends; exact hends
          | error f w' => simp [MainLoop.serviced, hp] at hh
      · exact absurd (hawake.symm.trans hh) (by decide)
  | drain =>
    simp only [loopStep] at h
    cases hw : l.sessions[l.next]? with
    | none => rw [hw] at h; cases h
    | some w =>
      simp only [hw, Option.ite_none_right_eq_some, Bool.and_eq_true, Option.isNone_iff_eq_none] at h
      obtain ⟨⟨⟨hrun, -⟩, hd⟩, -⟩ := h
      rw [(hl (Or.inl hrun) w (List.mem_of_getElem? hw)).inDrain] at hd
      cases hd
  | sleep =>
    simp only [loopStep, Option.ite_none_right_eq_some, Bool.and_eq_true, Option.isNone_iff_eq_none] at h
    obtain ⟨⟨⟨hrun, -⟩, -⟩, h⟩ := h
    cases h
    intro _ x hx
    obtain ⟨w, hw, rfl⟩ := List.mem_map.1 hx
    have hwu := hl (Or.inl hrun) w hw
    exact ⟨hwu.state, hwu.inDrain, hwu.unsent⟩
  | wake ok =>
    simp only [loopStep, Option.ite_none_right_eq_some, Bool.and_eq_true, Option.isNone_iff_eq_none] at h
    obtain ⟨⟨hrun, -⟩, h⟩ := h
    cases ok <;> cases h <;> exact fun _ => hl (Or.inl hrun)

/-- The loop as `main` enters it, over sessions that `dbconnect` left idle, with any items in their queues. -/
structure Entered (l : MainLoop) : Prop where
  running  : l.halted = none
  awake    : l.asleep = false
  sessions : ∀ w ∈ l.sessions, w.session.sessionState = .idle ∧ w.inDrain = false ∧ w.session.conn.unsent = 0

theorem Entered.unblocked {l : MainLoop} (h : Entered l) : AllUnblocked l := by
  intro _ w hw
  obtain ⟨hst, hd, hun⟩ := h.sessions w hw
  exact ⟨by rw [hst]; exact (nomatch ·), hd, hun⟩

/-- **In every run of the main loop whose flushes empty the send buffers, the loop sleeps well.** -/
theorem sleepsWell_always {l : MainLoop} (hl : Entered l) (es : List LoopEvent)
    (hC : Runs.Meets loopStep TakesAll l es) : Runs.Always loopStep SleepsWell l es :=
  Runs.always_of_meets (I := AllUnblocked) (fun _ h => h.sleepsWell) loopStep_unblocked es hl.unblocked hC

/-! ## One session with two commands -/

def oneSession : MainLoop := { sessions := [twoCommands], next := 0, asleep := false, halted := none }

theorem entered_oneSession : Entered oneSession :=
  ⟨rfl, rfl, fun w hw => by rw [List.mem_singleton.1 hw]; exact ⟨rfl, rfl, rfl⟩⟩

/-- A first pass over the session, whose socket takes `n` of the query's 10 bytes. -/
def firstPass (n : Nat) : List LoopEvent :=
  [.service false { input := ⟨true, 0, [], false, []⟩, sendOk := true, sendBytes := 10, socket := some n }, .sleep]

theorem sleepsWell_always_firstPass : Runs.Always loopStep SleepsWell oneSession (firstPass 10) :=
  sleepsWell_always entered_oneSession _ (fun _ _ => ⟨fun w hw _ n hn => by cases hw; cases hn; decide,
    fun _ _ => ⟨trivial, trivial⟩⟩)

/-- **The law fails** when the socket takes 4 of the 10 bytes: the loop sleeps for input only, with 6 bytes unsent. -/
theorem sleepsWell_not_always :
    Entered oneSession ∧ ¬ Runs.Always loopStep SleepsWell oneSession (firstPass 4) := by
  refine ⟨entered_oneSession, fun h => ?_⟩
  have hr : (Runs.run loopStep oneSession (firstPass 4)).map (fun l =>
      (l.asleep, l.sessions.map (fun w => (w.session.sessionState, w.session.conn.unsent, w.pollout)))) =
      some (true, [(.flushed, 6, false)]) := by decide
  obtain ⟨l, hl, hlog⟩ := Option.map_eq_some_iff.1 hr
  have hsleep := Runs.Always.reached _ h hl
  simp only [Prod.mk.injEq, List.map_eq_singleton_iff] at hlog
  obtain ⟨hasleep, w, hw, hst, hun, hpoll⟩ := hlog
  obtain ⟨-, hpolls⟩ := (hsleep hasleep 0 w (by rw [hw]; rfl)).1 (by rw [hun]; decide)
  rw [hpoll] at hpolls; cases hpolls

end Async
end Scrapcode
