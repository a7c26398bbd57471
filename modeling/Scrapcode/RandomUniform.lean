import Mathlib.Data.FinEnum
import Scrapcode.Draws
import Scrapcode.RandomBytea
/-!
# RandomUniform — where the bytes of `random_bytea` come from

`remaining` is a stand-in for the bits that are left.  It is shifted with the value drawn, and after three bytes it is
below 256, whatever the value was.  So byte `k` is byte `k % 3` of value `k / 3` (`passes_mem`), no bit is used twice, and
every string of bytes comes from equally many choices of the values (`output_uniform`).
-/
namespace Scrapcode
namespace RandomBytea

open Draws

variable {random : Nat → BitVec 31} {lastrand : BitVec 64} {mem : Nat → BitVec 8}
variable {n : BitVec 32} {s : Locals} {j : Nat}

/-- Three bytes for each value drawn, the low ones first. -/
def byteOf (random : Nat → BitVec 31) (k : Nat) : BitVec 8 := (random (k / 3)).extractLsb' (8 * (k % 3)) 8

/-- What the loop has in its variables when it stores byte `j`. -/
structure Filled (random : Nat → BitVec 31) (j : Nat) (s : Locals) : Prop where
  drawn     : s.drawn = j / 3 + 1
  remaining : s.remaining = randMax.sshiftRight (8 * (j % 3))
  lastrand  : s.lastrand = ((random (j / 3)).setWidth 64).sshiftRight (8 * (j % 3))

/-- What it has in them when `j` bytes are stored. -/
def Stored (random : Nat → BitVec 31) : Nat → Locals → Prop
  | 0,     s => s.drawn = 0 ∧ s.remaining = 0
  | j + 1, s => Filled random j s

/-- How many values `n` bytes take. -/
def values (n : Nat) : Nat := (n + 2) / 3

/-- The bytes that come back. -/
def output (lastrand : BitVec 64) (mem : Nat → BitVec 8) (n : BitVec 32) (random : Nat → BitVec 31) :
    Option (List (BitVec 8)) :=
  match randomBytea random lastrand mem n with
  | .error _ => none
  | .ok s    => some s.block.data

/-- **The source is used uniformly**: the call returns `n` bytes, each of them from its own bits of the values drawn, of
which there are no more than it takes, and each string of `n` bytes comes from the same number of choices of these. -/
structure UsesUniformly (n : BitVec 32) : Prop where
  returns : ∀ random lastrand mem, ∃ s, randomBytea random lastrand mem n = .ok s ∧
    (s.block.data.length : Int) = n.toInt ∧ (∀ k < n.toInt.toNat, s.block.data[k]? = some (byteOf random k)) ∧
    s.drawn = values n.toInt.toNat
  uniform : ∀ lastrand mem,
    Uniform (values n.toInt.toNat) (output lastrand mem n) {o | ∃ s, o = some s ∧ (s.length : Int) = n.toInt}

/-! ## One pass -/

/-- Three bytes, and `remaining` is used up. -/
theorem remaining_slt {p : Nat} (hp : p ≤ 3) : (randMax.sshiftRight (8 * p)).slt 256 = decide (p = 3) := by
  interval_cases p <;> decide

/-- A new value, and its first byte. -/
theorem filled_of_slt (h : s.remaining.slt 256 = true) (hdrawn : s.drawn = j / 3) (hj : j % 3 = 0) :
    Filled random j (s.refill random) := by
  rw [Locals.refill, if_pos h]
  constructor
  · exact congrArg (· + 1) hdrawn
  · rw [hj]
    rfl
  · rw [hj, ← hdrawn]
    exact BitVec.sshiftRight_zero.symm

theorem refill_of_not_slt (h : s.remaining.slt 256 = false) : s.refill random = s :=
  if_neg (fun ht => Bool.false_ne_true (h.symm.trans ht))

theorem Filled.refill_shift (h : Filled random j s) : Filled random (j + 1) (s.shift.refill random) := by
  obtain ⟨hdrawn, hremaining, hlastrand⟩ := h
  have hnext : s.shift.remaining = randMax.sshiftRight (8 * (j % 3 + 1)) := by
    rw [Nat.mul_succ, BitVec.sshiftRight_add, ← hremaining]
    rfl
  have hslt : s.shift.remaining.slt 256 = decide (j % 3 + 1 = 3) := by
    rw [hnext, remaining_slt (by omega)]
  by_cases hlast : j % 3 + 1 = 3
  · have hdiv : (j + 1) / 3 = j / 3 + 1 := by omega
    exact filled_of_slt (hslt.trans (decide_eq_true hlast)) (hdrawn.trans hdiv.symm) (by omega)
  · have hdiv : (j + 1) / 3 = j / 3 := by omega
    have hmod : (j + 1) % 3 = j % 3 + 1 := by omega
    rw [refill_of_not_slt (hslt.trans (decide_eq_false hlast))]
    constructor
    · rw [hdiv]
      exact hdrawn
    · rw [hmod, hnext]
    · rw [hmod, hdiv, Nat.mul_succ, BitVec.sshiftRight_add, ← hlastrand]
      rfl

theorem Stored.refill_shift (h : Stored random j s) : Filled random j (s.shift.refill random) := by
  cases j with
  | zero =>
    obtain ⟨hdrawn, hremaining⟩ := h
    have hslt : s.shift.remaining.slt 256 = true := by
      change (s.remaining.sshiftRight 8).slt 256 = true
      rw [hremaining]
      decide
    exact filled_of_slt hslt hdrawn rfl
  | succ j => exact Filled.refill_shift h

/-- The low byte is the next one. -/
theorem Filled.low_byte (h : Filled random j s) : s.lastrand.setWidth 8 = byteOf random j := by
  rw [h.lastrand, byteOf]
  have hlt : j % 3 < 3 := Nat.mod_lt j (by decide)
  generalize random (j / 3) = v at *
  generalize j % 3 = p at *
  apply BitVec.eq_of_getLsbD_eq
  intro i hi
  rw [BitVec.getLsbD_setWidth, BitVec.getLsbD_sshiftRight, BitVec.getLsbD_extractLsb', BitVec.getLsbD_setWidth]
  have h1 : 8 * p + i < 64 := by omega
  have h2 : ¬ 64 ≤ i := by omega
  simp [h1, h2, hi]

theorem body_stored (h : Stored random j s) : Stored random (j + 1) (body random s) := by
  obtain ⟨hdrawn, hremaining, hlastrand⟩ := h.refill_shift
  exact ⟨hdrawn, hremaining, hlastrand⟩

/-! ## The run -/

theorem passes_stored (h : Stored random 0 s) (n : Nat) : Stored random n ((body random)^[n] s) := by
  induction n with
  | zero      => exact h
  | succ n ih =>
    rw [Function.iterate_succ_apply']
    exact body_stored ih

/-- **Byte `k` of the output.** -/
theorem passes_mem (h : Stored random 0 s) {n k : Nat} (hk : k < n) :
    ((body random)^[n] s).block.mem (s.curDataPtr + k) = byteOf random k := by
  induction n with
  | zero      => omega
  | succ n ih =>
    rw [Function.iterate_succ_apply', body_block, passes_curDataPtr, (passes_stored h n).refill_shift.low_byte]
    by_cases hlast : k = n
    · rw [hlast, Block.write_mem_self]
    · rw [Block.write_mem_of_ne _ (by omega), ih (by omega)]

theorem passes_drawn (h : Stored random 0 s) (n : Nat) : ((body random)^[n] s).drawn = values n := by
  have hn := passes_stored h n
  unfold values
  cases n with
  | zero   => exact hn.1
  | succ n =>
    have hdrawn : _ = n / 3 + 1 := Filled.drawn hn
    rw [hdrawn]
    omega

theorem randomBytea_data (h : Fits n) (hs : randomBytea random lastrand mem n = .ok s) :
    s.block.data = (List.range n.toInt.toNat).map (byteOf random) := by
  have hlen : s.block.varsize - 4 = n.toInt.toNat := by
    rw [randomBytea_varsize h hs]
    omega
  rw [Block.data, hlen]
  apply List.map_congr_left
  intro k hk
  rw [eq_passes h hs]
  exact passes_mem ⟨rfl, rfl⟩ (List.mem_range.1 hk)

theorem output_of_fits (h : Fits n) :
    output lastrand mem n random = some ((List.range n.toInt.toNat).map (byteOf random)) := by
  have hok := randomBytea_of_fits random lastrand mem h
  rw [← randomBytea_data h hok, output, hok]

/-! ## The count -/

/-- The bits that change a byte of each place. -/
def difference (d : Nat → BitVec 8) (i : Nat) : BitVec 31 := (d (3 * i + 2) ++ d (3 * i + 1) ++ d (3 * i)).setWidth 31

theorem difference_byte (d : Nat → BitVec 8) (k : Nat) : byteOf (difference d) k = d k := by
  have hlt : k % 3 < 3 := Nat.mod_lt k (by decide)
  unfold byteOf difference
  rw [BitVec.extractLsb'_setWidth_of_le (by omega)]
  interval_cases hp : k % 3
  · have hk : 3 * (k / 3) = k := by omega
    rw [hk]
    exact BitVec.extractLsb'_append_eq_right
  · have hk : 3 * (k / 3) + 1 = k := by omega
    rw [BitVec.extractLsb'_append_eq_of_le (by decide), hk]
    exact BitVec.extractLsb'_append_eq_right
  · have hk : 3 * (k / 3) + 2 = k := by omega
    rw [BitVec.extractLsb'_append_eq_of_le (by decide), BitVec.extractLsb'_append_eq_of_le (by decide), hk]
    exact BitVec.extractLsb'_eq_self

theorem byteOf_xor (random δ : Nat → BitVec 31) (k : Nat) :
    byteOf (fun i => random i ^^^ δ i) k = byteOf random k ^^^ byteOf δ k := BitVec.extractLsb'_xor

/-- One string is turned into another by changing the bits in which they differ. -/
theorem bytes_relabels {s t : List (BitVec 8)} {m : Nat} (hs : s.length = m) (ht : t.length = m) :
    Relabels (fun random => some ((List.range m).map (byteOf random))) (some s) (some t) := by
  refine ⟨fun i v => v ^^^ difference (fun k => s.getD k 0 ^^^ t.getD k 0) i, ?_, ?_⟩
  · intro i v w hvw
    exact (BitVec.xor_left_inj _).1 hvw
  · intro random hrandom
    rw [Option.some.injEq] at hrandom ⊢
    apply List.ext_getElem
    · rw [List.length_map, List.length_range, ht]
    · intro k hk hkt
      have hks : k < s.length := by omega
      have hbyte : byteOf random k = s[k] := by
        simp only [← hrandom, List.getElem_map, List.getElem_range]
      have hgets : s.getD k 0 = s[k] := (List.getElem_eq_getD 0).symm
      have hgett : t.getD k 0 = t[k] := (List.getElem_eq_getD 0).symm
      rw [List.getElem_map, List.getElem_range, byteOf_xor, difference_byte, hbyte, hgets, hgett, ← BitVec.xor_assoc,
        BitVec.xor_self, BitVec.zero_xor]

theorem bytes_readsFirst (m : Nat) :
    ReadsFirst (values m) (fun random => some ((List.range m).map (byteOf random))) := by
  intro r r' hsame
  rw [Option.some.injEq]
  apply List.map_congr_left
  intro k hk
  have hk3 : k / 3 < values m := by
    have hlt : k < m := List.mem_range.1 hk
    unfold values
    omega
  rw [byteOf, hsame _ hk3, byteOf]

theorem output_uniform (h : Fits n) (lastrand : BitVec 64) (mem : Nat → BitVec 8) :
    Uniform (values n.toInt.toNat) (output lastrand mem n) {o | ∃ s, o = some s ∧ (s.length : Int) = n.toInt} := by
  have hout : output lastrand mem n = fun random => some ((List.range n.toInt.toNat).map (byteOf random)) :=
    funext (fun _ => output_of_fits h)
  rw [hout]
  apply uniform_of_relabel (bytes_readsFirst _)
  rintro _ ⟨s, rfl, hs⟩ _ ⟨t, rfl, ht⟩
  exact bytes_relabels (by omega) (by omega)

/-- **Up to the greatest size that can be allocated, the source is used uniformly.** -/
theorem usesUniformly (h0 : 0 ≤ n.toInt) (hmax : n.toInt ≤ 0x3ffffffb) : UsesUniformly n := by
  have hfits : Fits n := ⟨by omega, hmax⟩
  constructor
  · intro random lastrand mem
    have hok := randomBytea_of_fits random lastrand mem hfits
    refine ⟨_, hok, ?_, ?_, passes_drawn ⟨rfl, rfl⟩ _⟩
    · rw [randomBytea_data hfits hok, List.length_map, List.length_range]
      omega
    · intro k hk
      rw [randomBytea_data hfits hok, List.getElem?_map, List.getElem?_range hk]
      rfl
  · exact output_uniform hfits

theorem usesUniformly_seven : UsesUniformly 7 := usesUniformly (by decide) (by decide)

/-- One byte more, and the allocation is refused. -/
theorem not_usesUniformly_tooLarge : 0 ≤ (0x3ffffffc : BitVec 32).toInt ∧ ¬ UsesUniformly 0x3ffffffc := by
  refine ⟨by decide, fun h => ?_⟩
  obtain ⟨s, hs, -⟩ := h.returns (fun _ => 0) 0 (fun _ => 0)
  have hfits : ¬ Fits 0x3ffffffc := by decide
  rw [randomBytea_of_not_fits hfits] at hs
  cases hs

end RandomBytea
end Scrapcode
