import Scrapcode.ByteText
/-!
# SpoolHandshake — the first message of the spool protocol

`_send_fixed_msg` and `_recv_fixed_msg` are the same in client and server.  The sender gives the socket what is left
until all of it is accepted; the receiver asks for what is missing until it has it.  What the network makes of the
stream is a list of fragments, of which one `recv` gives one piece at most.

The client's handshake is a format with minimum widths, the server's slices are at fixed offsets.  So a handshake is
read back exactly where each field fits its width (`roundTrips_iff`): a longer one shifts what follows it, and the
server leaves its end in the stream.
-/
namespace Scrapcode
namespace Spool

open ByteText

inductive Exn where
  | exception (text : String)
  | valueError
  | socketError
deriving DecidableEq, Repr

/-! ## Fixed-size messages -/

/-- `_send_fixed_msg`: what each `send` accepts is given; the result is what has gone out. -/
def sendFixedMsg : List Nat → Str → Except Exn Unit × Str
  | accepts, msg =>
    match accepts, msg with
    | _, []           => (.ok (), [])
    | [], _           => (.error .socketError, [])
    | k :: accepts, c :: cs =>
      let sent := min k (c :: cs).length
      if sent = 0 then (.error (.exception "Unexpected EOF in fixed msg send"), [])
      else
        let (res, out) := sendFixedMsg accepts ((c :: cs).drop sent)
        (res, (c :: cs).take sent ++ out)

/-- `_recv_fixed_msg`: the loop, with what it still asks for and what it has. -/
def recvFixedMsg : List Str → Int → Str → Except Exn Str × List Str
  | [], bytesRemaining, msg =>
    if 0 < bytesRemaining then (.error (.exception "Unexpected EOF in fixed msg recv"), []) else (.ok msg, [])
  | f :: fs, bytesRemaining, msg =>
    if 0 < bytesRemaining then
      let frag := f.take bytesRemaining.toNat
      let left := f.drop bytesRemaining.toNat
      if frag = [] then (.error (.exception "Unexpected EOF in fixed msg recv"), f :: fs)
      else if left = [] then recvFixedMsg fs (bytesRemaining - frag.length) (msg ++ frag)
      else (.ok (msg ++ frag), left :: fs)
    else (.ok msg, f :: fs)

/-! ## The handshake -/

/-- The text `"SPOOL%30s%10s" % (queue, jobsize)`. -/
def handshake (queue : Str) (jobsize : Nat) : Str := "SPOOL".toList ++ rjust 30 queue ++ rjust 10 (str jobsize)

def sendHandshake (queue : Str) (jobsize : Nat) (accepts : List Nat) : Except Exn Unit × Str :=
  sendFixedMsg accepts (handshake queue jobsize)

/-- What the server reads in the 45 bytes: queue name and job size. -/
def parseHandshake (msg : Str) : Except Exn (Str × Int) :=
  if "SPOOL".toList <+: msg then
    let queuename := strip ((msg.drop 5).take 30)
    let jobsizeStr := strip ((msg.drop 35).take 10)
    match int jobsizeStr with
    | none         => .error .valueError
    | some jobsize => if jobsize = 0 then .error (.exception "Zero sized job proposed") else .ok (queuename, jobsize)
  else .error (.exception "Invalid handshake")

def expectHandshake (stream : List Str) : Except Exn (Str × Int) × List Str :=
  match recvFixedMsg stream 45 [] with
  | (.ok msg, rest)  => (parseHandshake msg, rest)
  | (.error e, rest) => (.error e, rest)

/-- **The round trip**: the client raises, or the server reads queue and size, and next the first byte of the data. -/
def RoundTrips (queue : Str) (jobsize : Nat) : Prop :=
  ∀ accepts, (∃ e, (sendHandshake queue jobsize accepts).1 = .error e) ∨
    ∀ (data : Str) (stream : List Str), (∀ f ∈ stream, f ≠ []) →
      stream.flatten = (sendHandshake queue jobsize accepts).2 ++ data →
      ∃ rest, expectHandshake stream = (.ok (queue, (jobsize : Int)), rest) ∧ rest.flatten = data

/-! ## The loops -/

variable {queue msg : Str} {jobsize : Nat}

theorem sendFixedMsg_ok : ∀ (accepts : List Nat) (msg : Str), (sendFixedMsg accepts msg).1 = .ok () →
    (sendFixedMsg accepts msg).2 = msg
  | _, [], _                => by simp [sendFixedMsg]
  | [], _ :: _, h           => by simp [sendFixedMsg] at h
  | k :: accepts, c :: cs, h => by
    simp only [sendFixedMsg] at h ⊢
    by_cases hk : min k (c :: cs).length = 0
    · rw [if_pos hk] at h; cases h
    · rw [if_neg hk] at h ⊢
      rw [sendFixedMsg_ok accepts _ h, List.take_append_drop]

theorem sendFixedMsg_whole (msg : Str) : (sendFixedMsg [msg.length] msg).1 = .ok () := by
  cases msg with
  | nil       => simp [sendFixedMsg]
  | cons c cs => simp [sendFixedMsg]

/-- **A receiver that is not short of bytes** gets the first `n` of the stream and leaves the rest, however it is cut. -/
theorem recvFixedMsg_ok : ∀ (stream : List Str) (n : Nat) (msg : Str), (∀ f ∈ stream, f ≠ []) →
    n ≤ stream.flatten.length → ∃ rest, recvFixedMsg stream n msg = (.ok (msg ++ stream.flatten.take n), rest) ∧
      rest.flatten = stream.flatten.drop n
  | [], n, msg, _, hn => by
    have h0 : n = 0 := by simpa using hn
    subst h0
    exact ⟨[], by simp [recvFixedMsg], rfl⟩
  | f :: fs, n, msg, hne, hn => by
    by_cases h0 : n = 0
    · subst h0
      exact ⟨f :: fs, by simp [recvFixedMsg], by simp⟩
    · have hpos : (0 : Int) < n := by omega
      have hf : f ≠ [] := hne f (by simp)
      have hfrag : f.take n ≠ [] := by
        intro h
        rcases List.take_eq_nil_iff.1 h with h | h
        · exact h0 h
        · exact hf h
      simp only [recvFixedMsg, if_pos hpos, Int.toNat_natCast, if_neg hfrag]
      rw [List.flatten_cons] at hn ⊢
      by_cases hleft : f.drop n = []
      · have hlen : f.length ≤ n := List.drop_eq_nil_iff.1 hleft
        rw [if_pos hleft, List.take_of_length_le hlen]
        have hcast : ((n : Int) - f.length) = ((n - f.length : Nat) : Int) := by omega
        rw [List.length_append] at hn
        obtain ⟨rest, hr, hrest⟩ := recvFixedMsg_ok fs (n - f.length) (msg ++ f) (fun g hg => hne g (by simp [hg]))
          (by omega)
        refine ⟨rest, ?_, ?_⟩
        · rw [hcast, hr, List.take_append, List.take_of_length_le hlen, List.append_assoc]
        · rw [hrest, List.drop_append, hleft, List.nil_append]
      · have hlen : n < f.length := by
          by_contra h
          exact hleft (List.drop_eq_nil_iff.2 (by omega))
        rw [if_neg hleft]
        refine ⟨f.drop n :: fs, ?_, ?_⟩
        · rw [List.take_append_of_le_length (by omega)]
        · rw [List.drop_append_of_le_length (by omega), List.flatten_cons]

/-- **A receiver that is short of bytes** raises. -/
theorem recvFixedMsg_short : ∀ (stream : List Str) (n : Nat) (msg : Str), stream.flatten.length < n →
    ∃ rest, recvFixedMsg stream n msg = (.error (.exception "Unexpected EOF in fixed msg recv"), rest)
  | [], n, msg, hn => by
    have hpos : (0 : Int) < n := by simp at hn; omega
    exact ⟨[], by simp only [recvFixedMsg, if_pos hpos]⟩
  | f :: fs, n, msg, hn => by
    rw [List.flatten_cons, List.length_append] at hn
    have hpos : (0 : Int) < n := by omega
    have hleft : f.drop n = [] := List.drop_eq_nil_iff.2 (by omega)
    have hcast : ((n : Int) - f.length) = ((n - f.length : Nat) : Int) := by omega
    simp only [recvFixedMsg, if_pos hpos, Int.toNat_natCast, hleft, if_true]
    by_cases hfrag : f.take n = []
    · rw [if_pos hfrag]; exact ⟨_, rfl⟩
    · rw [if_neg hfrag, List.take_of_length_le (by omega), hcast]
      exact recvFixedMsg_short fs _ _ (by omega)

/-! ## The two ends -/

theorem length_handshake (queue : Str) (jobsize : Nat) :
    (handshake queue jobsize).length = 5 + max 30 queue.length + max 10 (str jobsize).length := by
  unfold handshake
  rw [List.length_append, List.length_append, length_rjust, length_rjust]; rfl

/-- **Fields that fit are read back.** -/
theorem parseHandshake_handshake (hq : Trimmed queue) (hs : 1 ≤ jobsize) (hqueue : queue.length ≤ 30)
    (hsize : (str jobsize).length ≤ 10) : parseHandshake (handshake queue jobsize) = .ok (queue, (jobsize : Int)) := by
  have hlq : (rjust 30 queue).length = 30 := by rw [length_rjust]; omega
  have hls : (rjust 10 (str jobsize)).length = 10 := by rw [length_rjust]; omega
  have hspool : "SPOOL".toList.length = 5 := rfl
  have hqueuename : ((handshake queue jobsize).drop 5).take 30 = rjust 30 queue := by
    unfold handshake
    rw [List.append_assoc, List.drop_left' hspool, List.take_left' hlq]
  have hjobsize : ((handshake queue jobsize).drop 35).take 10 = rjust 10 (str jobsize) := by
    unfold handshake
    rw [List.drop_left' (by rw [List.length_append, hlq, hspool]), List.take_of_length_le (by omega)]
  have hprefix : "SPOOL".toList <+: handshake queue jobsize := by
    unfold handshake; rw [List.append_assoc]; exact List.prefix_append _ _
  have hne : (jobsize : Int) ≠ 0 := by omega
  unfold parseHandshake
  rw [if_pos hprefix]
  simp only [hqueuename, hjobsize, strip_rjust hq, strip_rjust (trimmed_str jobsize), int_str, if_neg hne]

theorem roundTrips_of_fits (hq : Trimmed queue) (hs : 1 ≤ jobsize) (hqueue : queue.length ≤ 30)
    (hsize : (str jobsize).length ≤ 10) : RoundTrips queue jobsize := by
  intro accepts
  cases hsend : (sendHandshake queue jobsize accepts).1 with
  | error e => exact Or.inl ⟨e, rfl⟩
  | ok u =>
    refine Or.inr (fun data stream hne hstream => ?_)
    rw [show (sendHandshake queue jobsize accepts).2 = _ from sendFixedMsg_ok _ _ hsend] at hstream
    have hlen : (handshake queue jobsize).length = 45 := by rw [length_handshake]; omega
    obtain ⟨rest, hrecv, hrest⟩ := recvFixedMsg_ok stream 45 [] hne (by rw [hstream, List.length_append]; omega)
    refine ⟨rest, ?_, ?_⟩
    · have hrecv' : recvFixedMsg stream 45 [] = (.ok (handshake queue jobsize), rest) := by
        rw [show (45 : Int) = ((45 : Nat) : Int) from rfl, hrecv, hstream, List.nil_append, List.take_left' hlen]
      simp only [expectHandshake, hrecv', parseHandshake_handshake hq hs hqueue hsize]
    · rw [hrest, hstream, List.drop_left' hlen]

/-- **A server that has read the handshake has consumed 45 bytes.** -/
theorem expectHandshake_rest {stream rest : List Str} {res : Str × Int} (hne : ∀ f ∈ stream, f ≠ [])
    (h : expectHandshake stream = (.ok res, rest)) : 45 ≤ stream.flatten.length ∧ rest.flatten = stream.flatten.drop 45 := by
  by_cases hlen : 45 ≤ stream.flatten.length
  · obtain ⟨rest', hrecv, hrest⟩ := recvFixedMsg_ok stream 45 [] hne hlen
    have hrecv' : recvFixedMsg stream 45 [] = (.ok (stream.flatten.take 45), rest') := hrecv
    simp only [expectHandshake, hrecv', Prod.mk.injEq] at h
    exact ⟨hlen, h.2 ▸ hrest⟩
  · obtain ⟨rest', hrecv⟩ := recvFixedMsg_short stream 45 [] (by omega)
    have hrecv' : recvFixedMsg stream 45 [] = (.error _, rest') := hrecv
    simp only [expectHandshake, hrecv', Prod.mk.injEq, reduceCtorEq, false_and] at h

theorem not_roundTrips_of_misfit (h : (handshake queue jobsize).length ≠ 45) : ¬ RoundTrips queue jobsize := by
  intro hrt
  rcases hrt [(handshake queue jobsize).length] with ⟨e, he⟩ | hrecv
  · have hok := sendFixedMsg_whole (handshake queue jobsize)
    unfold sendHandshake at he
    rw [hok] at he; cases he
  · have hsent : (sendHandshake queue jobsize [(handshake queue jobsize).length]).2 = handshake queue jobsize :=
      sendFixedMsg_ok _ _ (sendFixedMsg_whole _)
    have hne : handshake queue jobsize ≠ [] := by unfold handshake; exact (nomatch ·)
    obtain ⟨rest, hexp, hrest⟩ := hrecv [] [handshake queue jobsize] (by simp [hne]) (by rw [hsent]; simp)
    obtain ⟨hlen, hflat⟩ := expectHandshake_rest (by simp [hne]) hexp
    have := congrArg List.length (hrest.symm.trans hflat)
    simp only [List.flatten_cons, List.flatten_nil, List.append_nil, List.length_drop, List.length_nil] at this hlen
    omega

/-- **The handshake round trip** holds exactly where the queue name has at most 30 bytes and the size at most 10 digits. -/
theorem roundTrips_iff (hq : Trimmed queue) (hs : 1 ≤ jobsize) :
    RoundTrips queue jobsize ↔ queue.length ≤ 30 ∧ jobsize < 10 ^ 10 := by
  rw [← length_str_le (by decide)]
  constructor
  · intro h
    by_contra hfit
    refine not_roundTrips_of_misfit ?_ h
    rw [length_handshake]; omega
  · rintro ⟨hqueue, hsize⟩
    exact roundTrips_of_fits hq hs hqueue hsize

theorem roundTrips_iff_iprint :
    RoundTrips "iprint".toList 1234 ↔ "iprint".toList.length ≤ 30 ∧ 1234 < 10 ^ 10 :=
  roundTrips_iff (by decide) (by decide)

/-- **A queue name of 31 bytes** is not read back. -/
theorem not_roundTrips_longName : Trimmed (List.replicate 31 'q') ∧ ¬ RoundTrips (List.replicate 31 'q') 1 :=
  ⟨by decide, not_roundTrips_of_misfit (by rw [length_handshake]; decide)⟩

end Spool
end Scrapcode
