import Scrapcode.ScribdMultipart
/-!
# ScribdSend — `post_multipart`

The body is sent in blocks, up to where an exception comes.  What is sent is a part of the text that the encoder left in
the buffer (`takes_request`), and all of it where no exception comes; then the last call of the callback reports the
whole length (`encoder_agrees`).
-/
namespace Scrapcode
namespace ScribdMultipart

open ByteText (Str str)
open FileBuffer (Buffer)
open Interrupts
open Programs

variable {ι : Type} {w : World ι}

/-- What went over the connection is a part of the body from its beginning, and the header has the length of all of
it. -/
def Connection.Sends (body : Str) (h : Connection) : Prop :=
  h.sent.flatten <+: body ∧ (h.headed = true → h.headers.lookup contentLength = some (str body.length))

structure Carries (body : Str) (w w' : World ι) : Prop where
  files : w'.files = w.files
  sends : ∃ h, w'.conn = some h ∧ h.Sends body

instance (body : Str) : IsTrans (World ι) (Carries body) := ⟨fun _ _ _ h h' => ⟨h'.files.trans h.files, h'.sends⟩⟩

theorem lookup_setItem (k v : Str) : ∀ d : List (Str × Str), (setItem k v d).lookup k = some v
  | []          => by rw [setItem, List.lookup_cons_self]
  | (k', v') :: d => by
    by_cases hk : k' = k
    · rw [setItem, if_pos hk, List.lookup_cons_self]
    · rw [setItem, if_neg hk, List.lookup_cons, beq_false_of_ne (Ne.symm hk)]
      exact lookup_setItem k v d

theorem takes_onConn {body : Str} {f : Connection → Connection} {h : Connection} (hw : w.conn = some h)
    (hh : h.Sends body) (hf : (f h).Sends body) :
    Takes (Carries body) (onConn f) w [w] () { w with conn := some (f h) } := by
  have hop : Takes (Carries body) (onConn f) w [w] () { w with conn := w.conn.map f } := by
    have hstart : Carries body w w := ⟨rfl, h, hw, hh⟩
    refine Takes.op (f := fun w => ((), { w with conn := w.conn.map f })) hstart ⟨rfl, f h, ?_, hf⟩
    rw [hw]; rfl
  rw [hw] at hop
  exact hop

theorem Connection.Sends.of_not_headed {h : Connection} (hh : h.headed = false) (hs : h.sent = []) (body : Str) :
    h.Sends body :=
  ⟨by rw [hs]; exact List.nil_prefix, fun hc => by rw [hh] at hc; cases hc⟩

theorem takes_putheaders (body : Str) : ∀ (d : List (Str × Str)) {w : World ι} {h : Connection}, w.conn = some h →
    h.headed = false → h.sent = [] →
      ∃ tr, Takes (Carries body) (putheaders d) w tr () { w with conn := some { h with headers := h.headers ++ d } }
  | [], w, h, hw, hh, hs     => by
    refine ⟨[], ?_⟩
    rw [List.append_nil, ← hw]
    exact Takes.pure ⟨rfl, h, hw, .of_not_headed hh hs body⟩ ()
  | p :: d, w, h, hw, hh, hs => by
    have hhead := takes_onConn (f := fun h => { h with headers := h.headers ++ [p] }) hw
      (.of_not_headed hh hs body) (.of_not_headed (h := { h with headers := h.headers ++ [p] }) hh hs body)
    obtain ⟨tr, hrest⟩ := takes_putheaders body d (w := { w with conn := some { h with headers := h.headers ++ [p] } })
      rfl hh hs
    refine ⟨[w] ++ tr, ?_⟩
    rw [List.append_assoc] at hrest
    exact hhead.bind hrest

/-- The loop of `post_multipart` between two rounds. -/
structure Sending (progressCallback : Bool) (body : Str) (w : World ι) (h : Connection) : Prop where
  conn     : w.conn = some h
  content  : w.reqBuffer.content = body
  le       : w.reqBuffer.pos ≤ body.length
  sent     : h.sent.flatten = body.take w.reqBuffer.pos
  headed   : h.headed = true
  length   : h.headers.lookup contentLength = some (str body.length)
  notClosed : h.closed = false
  progress : progressCallback = true → 0 < w.reqBuffer.pos →
    w.progress.getLast? = some (w.reqBuffer.pos, body.length)

theorem Sending.sends {progressCallback : Bool} {body : Str} {h : Connection}
    (hw : Sending progressCallback body w h) : h.Sends body :=
  ⟨by rw [hw.sent]; exact List.take_prefix _ _, fun _ => hw.length⟩

theorem takes_report (progressCallback : Bool) (body : Str) (hw : Carries body w w) : ∃ tr,
    Takes (Carries body) (report progressCallback body.length) w tr () { w with
      progress := if progressCallback = true then w.progress ++ [(w.reqBuffer.pos, body.length)] else w.progress } := by
  unfold report
  cases progressCallback with
  | false => exact ⟨[], Takes.pure hw ()⟩
  | true  =>
    refine ⟨[w], Takes.op (f := fun w : World ι => ((), { w with
      progress := w.progress ++ [(w.reqBuffer.pos, body.length)] })) hw ?_⟩
    exact ⟨rfl, hw.sends⟩

/-- **A run of the loop** sends all of the body that is left. -/
theorem takes_sendBlocks {progressCallback : Bool} {body : Str} : ∀ (fuel : Nat) {w : World ι} {h : Connection},
    Sending progressCallback body w h → body.length - w.reqBuffer.pos < fuel → ∃ tr w' h',
      Takes (Carries body) (sendBlocks progressCallback body.length fuel) w tr () w' ∧
        Sending progressCallback body w' h' ∧ w'.reqBuffer.pos = body.length
  | 0, _, _, _, hlt          => absurd hlt (Nat.not_lt_zero _)
  | fuel + 1, w, h, hw, hlt => by
    have hcarries : Carries body w w := ⟨rfl, h, hw.conn, hw.sends⟩
    let b := w.reqBuffer.read uploadBlockSize
    have hread : Takes (Carries body) (readBuffer uploadBlockSize) w [w] b.1 { w with reqBuffer := b.2 } := by
      refine Takes.op (f := fun w : World ι => ((w.reqBuffer.read uploadBlockSize).1,
        { w with reqBuffer := (w.reqBuffer.read uploadBlockSize).2 })) hcarries ?_
      exact ⟨rfl, h, hw.conn, hw.sends⟩
    let next : Str → Prog ι Unit := fun nextblock => if nextblock = [] then pure () else
      send nextblock >>= fun _ => report progressCallback body.length >>= fun _ =>
        sendBlocks progressCallback body.length fuel
    by_cases hb : b.1 = []
    · have hend : body.length ≤ w.reqBuffer.pos := by
        have := Buffer.length_le_of_read_nil (by decide) hb
        rwa [hw.content] at this
      have hsame : b.2 = w.reqBuffer := Buffer.read_eq_self hb
      rw [hsame] at hread
      have hnext : Takes (Carries body) (next b.1) w [] () w := by
        show Takes (Carries body) (if b.1 = [] then _ else _) w [] () w
        rw [if_pos hb]
        exact Takes.pure hcarries ()
      exact ⟨[w] ++ [], w, h, hread.bind (f := next) hnext, hw, Nat.le_antisymm hw.le hend⟩
    · let w₁ : World ι := { w with reqBuffer := b.2 }
      let h₂ : Connection := { h with sent := h.sent ++ [b.1] }
      have hsent : h₂.sent.flatten = body.take b.2.pos := by
        show (h.sent ++ [b.1]).flatten = _
        rw [List.flatten_append, List.flatten_singleton, hw.sent, ← hw.content]
        exact Buffer.take_read _ _
      have hsends : h₂.Sends body := ⟨by rw [hsent]; exact List.take_prefix _ _, fun _ => hw.length⟩
      have hsend := takes_onConn (w := w₁) (f := fun h => { h with sent := h.sent ++ [b.1] }) hw.conn hw.sends hsends
      obtain ⟨tr, hreport⟩ := takes_report progressCallback body (w := { w₁ with conn := some h₂ })
        ⟨rfl, h₂, rfl, hsends⟩
      have hpos : b.2.pos = w.reqBuffer.pos + b.1.length := rfl
      have hlen : 0 < b.1.length := List.length_pos_of_ne_nil hb
      have hle : b.2.pos ≤ body.length := by
        have := Buffer.read_pos_le (n := uploadBlockSize) (b := w.reqBuffer) (by rw [hw.content]; exact hw.le)
        rwa [hw.content] at this
      have hround : Sending progressCallback body { w₁ with
          conn     := some h₂
          progress := if progressCallback = true then w.progress ++ [(b.2.pos, body.length)] else w.progress } h₂ :=
        { conn := rfl, content := hw.content, le := hle, sent := hsent, headed := hw.headed, length := hw.length
          notClosed := hw.notClosed
          progress := fun hc _ => by
            show (if progressCallback = true then _ else _ : List (Nat × Nat)).getLast? = _
            rw [if_pos hc, List.getLast?_append, List.getLast?_singleton]
            rfl }
      obtain ⟨tr', w', h', hloop, hsending, hend⟩ := takes_sendBlocks fuel hround
        (show body.length - b.2.pos < fuel by omega)
      have hnext : Takes (Carries body) (next b.1) w₁ ([w₁] ++ (tr ++ tr')) () w' := by
        show Takes (Carries body) (if b.1 = [] then _ else _) w₁ _ () w'
        rw [if_neg hb]
        exact hsend.bind (hreport.bind hloop)
      exact ⟨[w] ++ ([w₁] ++ (tr ++ tr')), w', h', hread.bind (f := next) hnext, hsending, hend⟩

/-- **The request** carries the body, and all of it at its end. -/
theorem takes_request (c : Call) {body : Str} (boundary : Str) (hbuffer : w.reqBuffer = ⟨body, 0⟩)
    (hconn : w.conn = some {}) : ∃ tr w' h', Takes (Carries body) (request c boundary body.length) w tr () w' ∧
      Sending c.progressCallback body w' h' ∧ w'.reqBuffer.pos = body.length := by
  let d : List (Str × Str) := setItem contentLength (str body.length)
    (setItem "Content-Type".toList ("multipart/form-data; boundary=".toList ++ boundary) w.headers)
  let w₁ : World ι := { w with conn := some {}, headers := d }
  let h₂ : Connection := { headers := d }
  let h₃ : Connection := { headers := d, headed := true }
  have hlength : d.lookup contentLength = some (str body.length) := lookup_setItem _ _ _
  have hsends : ({} : Connection).Sends body := .of_not_headed rfl rfl body
  have hput := takes_onConn (f := id) hconn hsends hsends
  have hset : Takes (Carries body) (setHeaders boundary body.length) { w with conn := some {} } [] () w₁ :=
    Takes.change _ ⟨rfl, {}, rfl, hsends⟩
  obtain ⟨tr, hheaders⟩ := takes_putheaders body d (w := w₁) rfl rfl rfl
  have hend : Takes (Carries body) endheaders { w₁ with conn := some h₂ } [{ w₁ with conn := some h₂ }] ()
      { w₁ with conn := some h₃ } :=
    takes_onConn (f := fun h => { h with headed := true }) (h := h₂) rfl (.of_not_headed rfl rfl body)
      ⟨List.nil_prefix, fun _ => hlength⟩
  have hstart : Sending c.progressCallback body { w₁ with conn := some h₃ } h₃ :=
    { conn := rfl, content := congrArg Buffer.content hbuffer
      le        := (congrArg Buffer.pos hbuffer).trans_le (Nat.zero_le _)
      sent      := by
        show [] = body.take w.reqBuffer.pos
        rw [hbuffer, List.take_zero]
      headed    := rfl
      length    := hlength
      notClosed := rfl
      progress  := fun _ hpos => absurd (congrArg Buffer.pos hbuffer) (Nat.ne_of_gt hpos) }
  obtain ⟨tr', w', h', hloop, hsending, hpos⟩ := takes_sendBlocks (w.reqBuffer.content.length + 1) hstart (by
    rw [hbuffer]
    exact Nat.lt_succ_of_le (Nat.sub_le _ _))
  have hrest : Takes (Carries body) (look >>= fun w => putheaders w.headers >>= fun _ => endheaders >>= fun _ =>
      sendBlocks c.progressCallback body.length (w.reqBuffer.content.length + 1)) w₁ _ () w' :=
    Takes.look_bind (hheaders.bind (hend.bind hloop))
  exact ⟨_, w', h', hput.bind (hset.bind hrest), hsending, hpos⟩

/-! ## A call without an exception -/

section Post

variable [DecidableEq ι]

/-- The text that the encoder leaves in the buffer. -/
def body (c : Call) (files : ι → FileLike) (fields : List (Str × Value (Data ι))) (boundary : Str) : Str :=
  bodyText c.guessType (resolve files fields) boundary

def World.encoded (c : Call) (fields : List (Str × Value (Data ι))) (boundary : Str) (w : World ι) : World ι :=
  { w.begun c with
    reqBuffer := ⟨body c w.files fields boundary, 0⟩
    files     := readOut w.files fields }

/-- **A call that is not interrupted** sends the whole body. -/
theorem postMultipart_whole {fields : List (Str × Value (Data ι))} (henc : ∀ f ∈ fields, f.2.Encodable) (c : Call)
    (boundary : Str) (answers : Bool) (w : World ι) : ∃ w' h, Sending c.progressCallback
      (body c w.files fields boundary) w' h ∧ w'.reqBuffer.pos = (body c w.files fields boundary).length ∧
        postMultipart c fields boundary answers ⟨none, w⟩ =
          if answers = true then .ok () ⟨none, w'⟩ else .error .exception ⟨none, w'⟩ := by
  obtain ⟨n, tr, -, htakes, -⟩ := steps_encode henc c.guessType boundary
    (w.begun c)
  have hencode : encodeMultipartFormdata c.guessType fields boundary ⟨none, w.begun c⟩ =
      .ok (body c w.files fields boundary).length ⟨none, w.encoded c fields boundary⟩ := htakes.whole
  obtain ⟨tr', w', h, hrequest, hsending, hpos⟩ := takes_request c boundary
    (w := (w.encoded c fields boundary).connected) rfl rfl
  refine ⟨w', h, hsending, hpos, ?_⟩
  unfold postMultipart
  simp only [bind_run, change_run, hencode, tryCatch_run, hrequest.whole]
  unfold getresponse
  simp only [bind_run, look_run, hsending.conn, Option.all_some, hsending.notClosed]
  cases answers <;> rfl

/-- **The encoders agree**: what is in the buffer, and what is sent, is the text of the old encoder and a line end. -/
theorem encoder_agrees {fields : List (Str × Value (Data ι))} (henc : ∀ f ∈ fields, f.2.Encodable) (c : Call)
    (boundary : Str) (w : World ι) :
    ∃ old, oldEncodeMultipartFormdata c.guessType (resolve w.files fields) boundary = .ok old ∧
      (∃ w', encodeMultipartFormdata c.guessType fields boundary ⟨none, w⟩ = .ok (old ++ crlf).length ⟨none, w'⟩ ∧
        w'.reqBuffer = ⟨old ++ crlf, 0⟩) ∧
      ∃ w' h, postMultipart c fields boundary true ⟨none, w⟩ = .ok () ⟨none, w'⟩ ∧ w'.conn = some h ∧
        h.sent.flatten = old ++ crlf ∧ (c.progressCallback = true →
          w'.progress.getLast? = some ((old ++ crlf).length, (old ++ crlf).length)) := by
  obtain ⟨old, hold, htext⟩ := oldEncode_ok (encodable_resolve w.files henc) c.guessType boundary
  obtain ⟨n, tr, -, htakes, -⟩ := steps_encode henc c.guessType boundary w
  obtain ⟨w', h, hsending, hpos, hpost⟩ := postMultipart_whole henc c boundary true w
  refine ⟨old, hold, ?_⟩
  rw [htext]
  refine ⟨⟨_, htakes.whole, rfl⟩, w', h, hpost, hsending.conn, ?_, fun hc => ?_⟩
  · rw [hsending.sent, hpos]
    exact List.take_length
  · have hpositive : 0 < (body c w.files fields boundary).length := by
      unfold body
      rw [← htext, List.length_append]
      exact Nat.add_pos_right _ (by decide)
    rw [hsending.progress hc (hpos ▸ hpositive), hpos]
    rfl

end Post

/-- A form with a title and a file of two blocks. -/
def form : List (Str × Value (Data Unit)) :=
  [("title".toList, .str "x".toList), ("file".toList, .file (.fileLike ()) "a.txt".toList)]

def upload : Call := ⟨fun _ => none, true, true, true⟩

/-- The buffer was used before. -/
def formWorld : World Unit where
  reqBuffer := ⟨"used".toList, 2⟩
  files     := fun _ => ⟨["ab".toList, "c".toList], by decide⟩
  headers   := []
  conn      := none
  progress  := []

theorem encodable_form : ∀ f ∈ form, f.2.Encodable :=
  List.forall_mem_cons.2 ⟨trivial, List.forall_mem_cons.2 ⟨trivial, fun _ h => absurd h List.not_mem_nil⟩⟩

theorem encoder_agrees_form :
    ∃ old, oldEncodeMultipartFormdata upload.guessType (resolve formWorld.files form) "b".toList = .ok old ∧
      (∃ w', encodeMultipartFormdata upload.guessType form "b".toList ⟨none, formWorld⟩ =
        .ok (old ++ crlf).length ⟨none, w'⟩ ∧ w'.reqBuffer = ⟨old ++ crlf, 0⟩) ∧
      ∃ w' h, postMultipart upload form "b".toList true ⟨none, formWorld⟩ = .ok () ⟨none, w'⟩ ∧ w'.conn = some h ∧
        h.sent.flatten = old ++ crlf ∧ (upload.progressCallback = true →
          w'.progress.getLast? = some ((old ++ crlf).length, (old ++ crlf).length)) :=
  encoder_agrees encodable_form upload "b".toList formWorld

end ScribdMultipart
end Scrapcode
