import Scrapcode.SpoolHandshake
/-!
# SpoolFraming — messages over a stream that is cut anywhere

Messages go out one after the other, each in as many pieces as the socket makes of it; the other end asks for one
length after the other, and gets each in as many pieces as the network makes of it.  Whatever the two cuts are, every
call has exactly the bytes that come next, or raises where the stream ends before (`framing`).
-/
namespace Scrapcode
namespace Spool

open ByteText

/-- The messages one after the other, each with what the socket accepts of it at each `send`. -/
def sendMsgs : List (List Nat × Str) → Except Exn Unit × Str
  | []                     => (.ok (), [])
  | (accepts, msg) :: msgs =>
    match sendFixedMsg accepts msg with
    | (.ok (), out)  => ((sendMsgs msgs).1, out ++ (sendMsgs msgs).2)
    | (.error e, out) => (.error e, out)

/-- A call of `_recv_fixed_msg`, with the stream as it found it and as it left it. -/
structure Call where
  lengthBytes : Nat
  stream : List Str
  result : Except Exn Str
  rest : List Str

def recvMsgs : List Str → List Nat → List Call
  | _, []           => []
  | stream, n :: ns =>
    match recvFixedMsg stream n [] with
    | (.ok msg, rest)  => ⟨n, stream, .ok msg, rest⟩ :: recvMsgs rest ns
    | (.error e, rest) => [⟨n, stream, .error e, rest⟩]

def received (calls : List Call) : Str := calls.flatMap (fun c => c.result.toOption.getD [])

/-- **A call is exact**: it takes its bytes off the stream and no other, or the stream has not got them and it raises.
It is done after as many pieces of the stream as it has bytes to read. -/
structure Call.Exact (c : Call) : Prop where
  returned : ∀ msg, c.result = .ok msg → msg.length = c.lengthBytes ∧ c.stream.flatten = msg ++ c.rest.flatten
  raised   : ∀ e, c.result = .error e →
    e = .exception "Unexpected EOF in fixed msg recv" ∧ c.stream.flatten.length < c.lengthBytes
  ended    : c.stream.length ≤ c.rest.length + c.lengthBytes

structure Framed (sent : Str) (ns : List Nat) (calls : List Call) : Prop where
  exact   : ∀ c ∈ calls, c.Exact
  inOrder : received calls <+: sent
  made    : calls.map (·.lengthBytes) <+: ns
  all     : (∀ c ∈ calls, ∃ msg, c.result = .ok msg) → calls.map (·.lengthBytes) = ns

/-- The socket accepts something at each `send`, as often as there can be one. -/
def Accepted (accepts : List Nat) (msg : Str) : Prop := (∀ k ∈ accepts, 0 < k) ∧ msg.length ≤ accepts.length

instance (accepts : List Nat) (msg : Str) : Decidable (Accepted accepts msg) :=
  inferInstanceAs (Decidable ((∀ k ∈ accepts, 0 < k) ∧ msg.length ≤ accepts.length))

variable {accepts : List Nat} {msg sent : Str} {msgs : List (List Nat × Str)} {stream rest : List Str} {n : Nat}
  {ns : List Nat}

/-! ## The sender -/

theorem sendFixedMsg_accepted : ∀ (accepts : List Nat) (msg : Str), Accepted accepts msg →
    sendFixedMsg accepts msg = (.ok (), msg)
  | _, [], _                      => by simp [sendFixedMsg]
  | [], c :: cs, ⟨_, hlen⟩        => by simp at hlen
  | k :: accepts, c :: cs, ⟨hpos, hlen⟩ => by
    rw [List.forall_mem_cons] at hpos
    have hsent : ¬ min k (c :: cs).length = 0 := by rw [List.length_cons]; omega
    have hleft : Accepted accepts ((c :: cs).drop (min k (c :: cs).length)) := by
      refine ⟨hpos.2, ?_⟩
      rw [List.length_drop]
      simp only [List.length_cons] at hlen ⊢
      omega
    simp only [sendFixedMsg, if_neg hsent]
    rw [sendFixedMsg_accepted accepts _ hleft, List.take_append_drop]

theorem sendMsgs_accepted (h : ∀ m ∈ msgs, Accepted m.1 m.2) :
    sendMsgs msgs = (.ok (), (msgs.map Prod.snd).flatten) := by
  induction msgs with
  | nil => rfl
  | cons m msgs ih =>
    rw [List.forall_mem_cons] at h
    obtain ⟨accepts, msg⟩ := m
    simp only [sendMsgs, sendFixedMsg_accepted accepts msg h.1, ih h.2]
    rfl

/-! ## The receiver -/

/-- Each piece of the stream that a call uses up has a byte at least; what it leaves is pieces again. -/
theorem recvFixedMsg_rest : ∀ (stream : List Str) (n : Nat) (msg : Str), (∀ f ∈ stream, f ≠ []) →
    (∀ f ∈ (recvFixedMsg stream n msg).2, f ≠ []) ∧ stream.length ≤ (recvFixedMsg stream n msg).2.length + n
  | [], n, msg, _ => by
    unfold recvFixedMsg
    split <;> exact ⟨fun f hf => absurd hf List.not_mem_nil, Nat.zero_le _⟩
  | f :: fs, n, msg, hne => by
    have hf : f ≠ [] := hne f List.mem_cons_self
    have hlen : 0 < f.length := List.length_pos_iff.2 hf
    unfold recvFixedMsg
    split
    · next hpos =>
      dsimp only
      rw [Int.toNat_natCast]
      split
      · exact ⟨hne, Nat.le_add_right _ _⟩
      · split
        · next hleft =>
          have hle : f.length ≤ n := List.drop_eq_nil_iff.1 hleft
          have hcast : ((n : Int) - f.length) = ((n - f.length : Nat) : Int) := by omega
          rw [List.take_of_length_le hle, hcast]
          obtain ⟨hrest, hcount⟩ := recvFixedMsg_rest fs (n - f.length) (msg ++ f) (List.forall_mem_cons.1 hne).2
          exact ⟨hrest, by rw [List.length_cons]; omega⟩
        · next hleft =>
          exact ⟨List.forall_mem_cons.2 ⟨hleft, (List.forall_mem_cons.1 hne).2⟩, Nat.le_add_right _ _⟩
    · exact ⟨hne, Nat.le_add_right _ _⟩

theorem recvFixedMsg_exact (hne : ∀ f ∈ stream, f ≠ []) (n : Nat) :
    Call.Exact ⟨n, stream, (recvFixedMsg stream n []).1, (recvFixedMsg stream n []).2⟩ := by
  have hended := (recvFixedMsg_rest stream n [] hne).2
  by_cases hn : n ≤ stream.flatten.length
  · obtain ⟨rest, hrecv, hrest⟩ := recvFixedMsg_ok stream n [] hne hn
    rw [hrecv] at hended ⊢
    refine ⟨fun msg hmsg => ?_, fun e he => (nomatch he), hended⟩
    cases hmsg
    exact ⟨by rw [List.nil_append, List.length_take, Nat.min_eq_left hn], by
      rw [hrest, List.nil_append, List.take_append_drop]⟩
  · obtain ⟨rest, hrecv⟩ := recvFixedMsg_short stream n [] (Nat.lt_of_not_le hn)
    rw [hrecv] at hended ⊢
    refine ⟨fun msg hmsg => (nomatch hmsg), fun e he => ?_, hended⟩
    cases he
    exact ⟨rfl, Nat.lt_of_not_le hn⟩

theorem recvMsgs_framed (hne : ∀ f ∈ stream, f ≠ []) (ns : List Nat) :
    Framed stream.flatten ns (recvMsgs stream ns) := by
  induction ns generalizing stream with
  | nil => exact ⟨fun c hc => (nomatch hc), List.nil_prefix, List.nil_prefix, fun _ => rfl⟩
  | cons n ns ih =>
    have hexact := recvFixedMsg_exact hne n
    have hrest := (recvFixedMsg_rest stream n [] hne).1
    unfold recvMsgs
    split
    · next msg rest hrecv =>
      rw [hrecv] at hexact hrest
      have hcalls := ih hrest
      obtain ⟨hlen, hbytes⟩ := hexact.returned msg rfl
      refine ⟨List.forall_mem_cons.2 ⟨hexact, hcalls.exact⟩, ?_, ?_, fun hall => ?_⟩
      · show msg ++ received (recvMsgs rest ns) <+: stream.flatten
        have hbytes : stream.flatten = msg ++ rest.flatten := hbytes
        rw [hbytes]
        exact (List.prefix_append_right_inj msg).2 hcalls.inOrder
      · exact List.cons_prefix_cons.2 ⟨rfl, hcalls.made⟩
      · rw [List.map_cons, hcalls.all (List.forall_mem_cons.1 hall).2]
    · next e rest hrecv =>
      rw [hrecv] at hexact
      refine ⟨List.forall_mem_singleton.2 hexact, List.nil_prefix, ?_, fun hall => ?_⟩
      · exact List.cons_prefix_cons.2 ⟨rfl, List.nil_prefix⟩
      · obtain ⟨msg, hmsg⟩ := List.forall_mem_singleton.1 hall
        cases hmsg

/-- **Messages are framed** however the sender's socket and the network cut them, and also where the stream ends early:
all of them go out, and the other end's calls return the bytes in order, each its own. -/
theorem framing (msgs : List (List Nat × Str)) (hacc : ∀ m ∈ msgs, Accepted m.1 m.2) (hne : ∀ f ∈ stream, f ≠ [])
    (hstream : stream.flatten <+: (sendMsgs msgs).2) (ns : List Nat) :
    sendMsgs msgs = (.ok (), (msgs.map Prod.snd).flatten) ∧
    Framed (msgs.map Prod.snd).flatten ns (recvMsgs stream ns) := by
  have hsent := sendMsgs_accepted hacc
  have hcalls := recvMsgs_framed hne ns
  rw [hsent] at hstream
  exact ⟨hsent, hcalls.exact, hcalls.inOrder.trans hstream, hcalls.made, hcalls.all⟩

theorem framing_answers :
    sendMsgs [([1, 7, 1, 1, 1], "READY".toList), ([3, 2, 9, 9, 9, 9, 9], "SUCCESS".toList)] =
      (.ok (), "READYSUCCESS".toList) ∧
    Framed "READYSUCCESS".toList [5, 7, 1] (recvMsgs ["RE".toList, "ADYSU".toList, "CCESS".toList] [5, 7, 1]) :=
  framing [([1, 7, 1, 1, 1], "READY".toList), ([3, 2, 9, 9, 9, 9, 9], "SUCCESS".toList)] (by decide) (by decide)
    (by decide) _

end Spool
end Scrapcode
