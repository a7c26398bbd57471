import Mathlib.Data.List.Basic
/-!
# Endpoint — one end of a byte stream in each direction

A program that talks over a connection has a control state, the bytes on their way to it, and the bytes on their way to
its peer.  A message of fixed size goes out in the pieces the connection accepts (`sends`) and comes in in the pieces it
delivers (`receives`), so a run of such steps sees every fragmentation.  Where a program fails, its outgoing stream is
closed with it or stays open, as `shut` says.  What a step did is read off `sends_cases` and `receives_cases`.
-/
namespace Scrapcode

structure Channel (α : Type) where
  bytes  : List α
  closed : Bool
deriving DecidableEq, Repr

structure Endpoint (α π : Type) where
  pc  : π
  inp : Channel α
  out : Channel α

namespace Endpoint

variable {α π : Type}

def goes (e : Endpoint α π) (pc : π) : Endpoint α π := { e with pc := pc }

def closes (e : Endpoint α π) (pc : π) : Endpoint α π := { e with pc := pc, out := { e.out with closed := true } }

def fails (e : Endpoint α π) (dead : π) (shut : Bool) : Endpoint α π := bif shut then e.closes dead else e.goes dead

/-- One `send` of `rest`, of which `k` bytes are accepted. -/
def sends (e : Endpoint α π) (rest : List α) (k : Nat) (more : List α → π) (next dead : π) (shut : Bool) :
    Option (Endpoint α π) :=
  if k = 0 then some (e.fails dead shut)
  else if k ≤ rest.length then
    some { e with
      pc  := match rest.drop k with
        | []    => next
        | c::cs => more (c :: cs)
      out := { e.out with bytes := e.out.bytes ++ rest.take k } }
  else none

/-- One `recv` for what is missing to `n` bytes, of which `k` bytes come; none come at the end of the stream only. -/
def receives (e : Endpoint α π) (n : Nat) (msg : List α) (k : Nat) (more : List α → π) (whole : List α → Option π)
    (dead : π) (shut : Bool) : Option (Endpoint α π) :=
  if k = 0 then if e.inp.bytes.isEmpty && e.inp.closed then some (e.fails dead shut) else none
  else if k ≤ n - msg.length ∧ k ≤ e.inp.bytes.length then
    let e' : Endpoint α π := { e with inp := { e.inp with bytes := e.inp.bytes.drop k } }
    let msg' := msg ++ e.inp.bytes.take k
    if msg'.length < n then some (e'.goes (more msg'))
    else
      match whole msg' with
      | some pc => some (e'.goes pc)
      | none    => some (e'.fails dead shut)
  else none

variable {e e' : Endpoint α π} {rest msg : List α} {k n : Nat} {more : List α → π} {next dead : π}
  {whole : List α → Option π} {shut : Bool}

/-- **What a `send` did**: nothing is accepted, or all of `rest`, or some bytes of it. -/
theorem sends_cases (h : e.sends rest k more next dead shut = some e') :
    (k = 0 ∧ e' = e.fails dead shut) ∨
    (rest ≠ [] ∧ rest.length = k ∧ e' = ⟨next, e.inp, ⟨e.out.bytes ++ rest, e.out.closed⟩⟩) ∨
    ∃ sent rest', sent ≠ [] ∧ rest' ≠ [] ∧ sent.length = k ∧ rest = sent ++ rest' ∧
      e' = ⟨more rest', e.inp, ⟨e.out.bytes ++ sent, e.out.closed⟩⟩ := by
  unfold sends at h
  by_cases hk : k = 0
  · rw [if_pos hk] at h; exact Or.inl ⟨hk, (Option.some.inj h).symm⟩
  · rw [if_neg hk] at h
    by_cases hle : k ≤ rest.length
    · rw [if_pos hle] at h
      have hlen : (rest.take k).length = k := by rw [List.length_take]; omega
      have hne : rest.take k ≠ [] := fun hnil => hk (by rw [← hlen, hnil, List.length_nil])
      have hrest : rest.take k ++ rest.drop k = rest := List.take_append_drop k rest
      refine Or.inr ?_
      cases hd : rest.drop k with
      | nil =>
        rw [hd, List.append_nil] at hrest
        rw [hd, hrest] at h
        rw [hrest] at hne hlen
        exact Or.inl ⟨hne, hlen, (Option.some.inj h).symm⟩
      | cons c cs =>
        rw [hd] at h hrest
        exact Or.inr ⟨rest.take k, c :: cs, hne, List.cons_ne_nil c cs, hlen, hrest.symm, (Option.some.inj h).symm⟩
    · rw [if_neg hle] at h; cases h

/-- **What a `recv` did**: the stream has ended, or some bytes of it are added to the message. -/
theorem receives_cases (h : e.receives n msg k more whole dead shut = some e') :
    (k = 0 ∧ e.inp = ⟨[], true⟩ ∧ e' = e.fails dead shut) ∨
    ∃ frag left, frag ≠ [] ∧ e.inp = ⟨frag ++ left, e.inp.closed⟩ ∧
      (((msg ++ frag).length < n ∧ e' = ⟨more (msg ++ frag), ⟨left, e.inp.closed⟩, e.out⟩) ∨
        ((msg ++ frag).length = n ∧ ∃ pc, whole (msg ++ frag) = some pc ∧ e' = ⟨pc, ⟨left, e.inp.closed⟩, e.out⟩) ∨
        ((msg ++ frag).length = n ∧ whole (msg ++ frag) = none ∧
          e' = ⟨dead, ⟨left, e.inp.closed⟩, ⟨e.out.bytes, e.out.closed || shut⟩⟩)) := by
  obtain ⟨pc, ⟨bytes, closed⟩, out⟩ := e
  unfold receives at h
  dsimp only at h ⊢
  by_cases hk : k = 0
  · rw [if_pos hk] at h
    by_cases he : (bytes.isEmpty && closed) = true
    · rw [if_pos he] at h
      rw [Bool.and_eq_true, List.isEmpty_iff] at he
      exact Or.inl ⟨hk, by rw [he.1, he.2], (Option.some.inj h).symm⟩
    · rw [if_neg he] at h; cases h
  · rw [if_neg hk] at h
    by_cases hle : k ≤ n - msg.length ∧ k ≤ bytes.length
    · rw [if_pos hle] at h
      have hfrag : (bytes.take k).length = k := by rw [List.length_take]; omega
      have hlen : (msg ++ bytes.take k).length ≤ n := by rw [List.length_append]; omega
      have hne : bytes.take k ≠ [] := fun hnil => hk (by rw [← hfrag, hnil, List.length_nil])
      refine Or.inr ⟨bytes.take k, bytes.drop k, hne, by rw [List.take_append_drop], ?_⟩
      by_cases hn : (msg ++ bytes.take k).length < n
      · rw [if_pos hn] at h
        exact Or.inl ⟨hn, (Option.some.inj h).symm⟩
      · rw [if_neg hn] at h
        have heq := Nat.le_antisymm hlen (Nat.le_of_not_lt hn)
        cases hw : whole (msg ++ bytes.take k) with
        | none =>
          rw [hw] at h
          refine Or.inr (Or.inr ⟨heq, rfl, (Option.some.inj h).symm.trans ?_⟩)
          cases shut
          · rw [Bool.or_false]; rfl
          · rw [Bool.or_true]; rfl
        | some pc => rw [hw] at h; exact Or.inr (Or.inl ⟨heq, pc, rfl, (Option.some.inj h).symm⟩)
    · rw [if_neg hle] at h; cases h

/-- A byte that is left can be accepted. -/
theorem sends_one (hrest : rest ≠ []) : ∃ e', e.sends rest 1 more next dead shut = some e' := by
  have hlen : 1 ≤ rest.length := List.length_pos_iff.2 hrest
  exact ⟨_, by rw [sends, if_neg (by decide), if_pos hlen]⟩

/-- A byte that is there can be read, and so can the end of the stream. -/
theorem receives_one (hmsg : msg.length < n) (h : e.inp.bytes ≠ [] ∨ e.inp.closed = true) :
    ∃ k e', e.receives n msg k more whole dead shut = some e' := by
  by_cases hbytes : e.inp.bytes = []
  · have hclosed : e.inp.closed = true := h.resolve_left (not_not_intro hbytes)
    exact ⟨0, _, by rw [receives, if_pos rfl, if_pos (by rw [hbytes, hclosed]; rfl)]⟩
  · have hlen : 1 ≤ e.inp.bytes.length := List.length_pos_iff.2 hbytes
    refine ⟨1, ?_⟩
    rw [receives, if_neg (by decide), if_pos ⟨by omega, hlen⟩]
    dsimp only
    split
    · exact ⟨_, rfl⟩
    · split
      · exact ⟨_, rfl⟩
      · exact ⟨_, rfl⟩

/-- A message that goes out whole. -/
theorem sends_whole (hrest : rest ≠ []) : e.sends rest rest.length more next dead shut =
    some { e with pc := next, out := { e.out with bytes := e.out.bytes ++ rest } } := by
  unfold sends
  rw [if_neg (fun h => hrest (List.length_eq_zero_iff.1 h)), if_pos (Nat.le_refl _), List.drop_length, List.take_length]

/-- A message that comes in whole. -/
theorem receives_whole (whole : List α → Option π) {left : List α} (hn : n ≠ 0)
    (hbytes : e.inp.bytes = msg ++ left) (hlen : msg.length = n)
    {pc : π} (hwhole : whole msg = some pc) : e.receives n [] n more whole dead shut =
      some { e with pc := pc, inp := { e.inp with bytes := left } } := by
  unfold receives
  have htake : e.inp.bytes.take n = msg := by rw [hbytes, List.take_left' hlen]
  have hdrop : e.inp.bytes.drop n = left := by rw [hbytes, List.drop_left' hlen]
  rw [if_neg hn, if_pos ⟨Nat.le_refl _, by rw [hbytes, List.length_append]; omega⟩]
  simp only [htake, hdrop, List.nil_append, hlen, Nat.lt_irrefl, if_false, hwhole]
  rfl

end Endpoint
end Scrapcode
