import Scrapcode.Rht03Capture
/-!
# Rht03Decode — what `analyseTimings` makes of a pulse train

Bit `k` of a reading is the low pulse at `5 + 2 k` and the pulse after it (`bitAt`): 16 bits of humidity, 16 bits of
temperature in sign and magnitude, and 8 bits that are the sum of the four bytes before them, the most significant bit
first.  `analyseTimings` accepts a pulse train exactly if it is such a reading (`Decodes`), whatever it holds, and then
gives what the bits say; otherwise the error flag is set and nothing is given.
-/
namespace Scrapcode
namespace Rht03

/-! ## The bits of a pulse train -/

/-- Bit `k`, where its two pulses are within the tolerance. -/
def bitAt (timings : List Int) (k : Nat) : Option Bool :=
  let low := timings.getD (5 + 2 * k) 0
  let pulse := timings.getD (6 + 2 * k) 0
  if 35 < low ∧ low < 75 then
    if 11 ≤ pulse ∧ pulse ≤ 39 then some false
    else if 61 ≤ pulse ∧ pulse ≤ 84 then some true
    else none
  else none

/-- The bits from `k` on; one that is not readable counts as 0. -/
def bits (timings : List Int) : Nat → Nat → List Bool
  | _, 0     => []
  | k, n + 1 => (bitAt timings k).getD false :: bits timings (k + 1) n

/-- A number in binary, the most significant bit first. -/
def value : List Bool → Nat
  | []      => 0
  | b :: bs => b.toNat * 2 ^ bs.length + value bs

def humidityOf (timings : List Int) : Nat := value (bits timings 0 16)

def temperatureOf (timings : List Int) : Nat := value (bits timings 16 16)

def checksumOf (timings : List Int) : Nat := value (bits timings 32 8)

/-- The sum of the four bytes of two 16-bit numbers. -/
def byteSum (h t : Nat) : Nat := h / 256 + h % 256 + t / 256 + t % 256

/-- A 16-bit number as sign and magnitude. -/
def signMagnitude (t : Nat) : Int := if t < 2 ^ 15 then (t : Int) else -((t : Int) - 2 ^ 15)

/-- **The pulse train is a reading**: every bit is there, and the last eight are the sum of the bytes before them. -/
structure Decodes (timings : List Int) : Prop where
  readable : ∀ k < 40, (bitAt timings k).isSome = true
  checksum : checksumOf timings = byteSum (humidityOf timings) (temperatureOf timings) % 256

instance (timings : List Int) : Decidable (Decodes timings) :=
  decidable_of_iff (_ ∧ _) ⟨fun h => ⟨h.1, h.2⟩, fun h => ⟨h.readable, h.checksum⟩⟩

variable {timings : List Int} {k n : Nat} {e : Errors}

@[simp] theorem length_bits (timings : List Int) : ∀ k n, (bits timings k n).length = n
  | _, 0     => rfl
  | k, n + 1 => by rw [bits, List.length_cons, length_bits timings (k + 1) n]

theorem value_lt : ∀ bs : List Bool, value bs < 2 ^ bs.length
  | []      => Nat.one_pos
  | b :: bs => by
    have h := value_lt bs
    have hb := Bool.toNat_le b
    have hmul : b.toNat * 2 ^ bs.length ≤ 1 * 2 ^ bs.length := Nat.mul_le_mul_right _ hb
    rw [value, List.length_cons, Nat.pow_succ]
    omega

theorem bitAt_isSome_iff : (bitAt timings k).isSome = true ↔
    InTolerance (5 + 2 * k) (timings.getD (5 + 2 * k) 0) ∧ InTolerance (6 + 2 * k) (timings.getD (6 + 2 * k) 0) := by
  unfold bitAt InTolerance
  dsimp only
  constructor
  · intro h
    split at h
    · rename_i hlow
      split at h
      · rename_i hp; exact ⟨⟨fun _ => by omega, fun h => by omega⟩, ⟨fun h => by omega, fun _ => Or.inl hp⟩⟩
      · split at h
        · rename_i hp; exact ⟨⟨fun _ => by omega, fun h => by omega⟩, ⟨fun h => by omega, fun _ => Or.inr hp⟩⟩
        · cases h
    · cases h
  · rintro ⟨⟨hlow, -⟩, ⟨-, hpulse⟩⟩
    have hlow := hlow (by omega)
    rw [if_pos ⟨by omega, by omega⟩]
    rcases hpulse (by omega) with hp | hp
    · rw [if_pos hp]; rfl
    · rw [if_neg (by omega), if_pos hp]; rfl

/-! ## Reading bits -/

theorem toNat_shiftZero (r : BitVec 16) : (r <<< 1).toNat = 2 * r.toNat % 2 ^ 16 := by
  rw [BitVec.toNat_shiftLeft, Nat.shiftLeft_eq, Nat.pow_one, Nat.mul_comm]

theorem toNat_shiftOne (r : BitVec 16) : (r <<< 1 ||| 1).toNat = (2 * r.toNat + 1) % 2 ^ 16 := by
  have h : (r <<< 1 ||| 1 : BitVec 16) = (r <<< 1 + 1 : BitVec 16) := by
    apply (BitVec.add_eq_or_of_and_eq_zero _ _ _).symm
    apply BitVec.eq_of_getLsbD_eq
    intro i hi
    simp
    omega
  rw [h, BitVec.toNat_add, toNat_shiftZero]
  simp

theorem checkPreBitLowPulse_run {us : Int} (i : Nat) (h : 35 < us ∧ us < 75) (e : Errors) :
    (checkPreBitLowPulse us i).run e = ((), e) := by
  have : ¬ (us ≤ 35 || us ≥ 75) = true := by simp; omega
  unfold checkPreBitLowPulse
  rw [if_neg this]
  rfl

/-- A readable bit is shifted in. -/
theorem shiftNextBit_run {b : Bool} (h : bitAt timings k = some b) (r : BitVec 16) (i : Nat) (e : Errors) :
    ∃ r' : BitVec 16, (shiftNextBit r (timings.getD (6 + 2 * k) 0) i).run e = (r', e) ∧
      r'.toNat = (2 * r.toNat + b.toNat) % 2 ^ 16 := by
  unfold bitAt at h
  dsimp only at h
  generalize timings.getD (6 + 2 * k) 0 = us at h ⊢
  split at h
  · split at h
    · rename_i hp
      cases h
      have hzero : (us > 10 && us < 40) = true := by simp; omega
      unfold shiftNextBit
      rw [if_pos hzero]
      exact ⟨_, rfl, toNat_shiftZero r⟩
    · split at h
      · rename_i hp
        cases h
        have hzero : ¬ (us > 10 && us < 40) = true := by simp; omega
        have hone : (us > 60 && us < 85) = true := by simp; omega
        unfold shiftNextBit
        rw [if_neg hzero, if_pos hone]
        exact ⟨_, rfl, toNat_shiftOne r⟩
      · cases h
  · cases h

theorem low_of_bitAt {b : Bool} (h : bitAt timings k = some b) :
    35 < timings.getD (5 + 2 * k) 0 ∧ timings.getD (5 + 2 * k) 0 < 75 := by
  unfold bitAt at h
  dsimp only at h
  split at h
  · assumption
  · cases h

/-- **Readable bits** are shifted in one after the other, and nothing is flagged. -/
theorem readnbits_run (e : Errors) : ∀ (n k : Nat) (r : BitVec 16),
    (∀ j, k ≤ j → j < k + n → (bitAt timings j).isSome = true) →
    (readnbits timings (5 + 2 * k) n r).run e =
      (BitVec.ofNat 16 (r.toNat * 2 ^ n + value (bits timings k n)), e)
  | 0, k, r, _ => by
    have : BitVec.ofNat 16 (r.toNat * 2 ^ 0 + value (bits timings k 0)) = r := by simp [bits, value]
    rw [this]
    rfl
  | n + 1, k, r, h => by
    obtain ⟨b, hb⟩ := Option.isSome_iff_exists.1 (h k (Nat.le_refl k) (by omega))
    obtain ⟨r', hr', hnat⟩ := shiftNextBit_run hb r (6 + 2 * k) e
    have ih := readnbits_run e n (k + 1) r' (fun j h₁ h₂ => h j (by omega) (by omega))
    have h₁ : 5 + 2 * k + 1 = 6 + 2 * k := by omega
    have h₂ : 5 + 2 * k + 2 = 5 + 2 * (k + 1) := by omega
    have hvalue : value (bits timings k (n + 1)) = b.toNat * 2 ^ n + value (bits timings (k + 1) n) := by
      rw [bits, value, length_bits, hb]
      rfl
    have hsum : r.toNat * 2 ^ (n + 1) + (b.toNat * 2 ^ n + value (bits timings (k + 1) n)) =
        (2 * r.toNat + b.toNat) * 2 ^ n + value (bits timings (k + 1) n) := by
      rw [Nat.add_mul, Nat.pow_succ, Nat.mul_comm 2, Nat.mul_assoc, Nat.mul_comm 2, Nat.add_assoc]
    unfold readnbits
    rw [run_bind, checkPreBitLowPulse_run _ (low_of_bitAt hb)]
    dsimp only
    rw [run_bind, h₁, hr']
    dsimp only
    rw [h₂, ih]
    congr 1
    apply BitVec.eq_of_toNat_eq
    rw [BitVec.toNat_ofNat, BitVec.toNat_ofNat, hvalue, hsum, hnat, Nat.add_mod, Nat.mul_mod, Nat.mod_mod, ← Nat.mul_mod,
      ← Nat.add_mod]

/-! ## The analysis -/

theorem toNat_checksum {h t : Nat} (hh : h < 2 ^ 16) (ht : t < 2 ^ 16) :
    (checksum (BitVec.ofNat 16 h) (BitVec.ofNat 16 t)).toNat = byteSum h t % 256 := by
  unfold checksum byteSum
  simp [Nat.shiftRight_eq_div_pow]
  omega

theorem toInt_signed {t : Nat} (ht : t < 2 ^ 16) : (signed (BitVec.ofNat 16 t)).toInt = signMagnitude t := by
  have htop : (BitVec.ofNat 16 t).getLsbD 15 = decide (2 ^ 15 ≤ t) := by
    rw [BitVec.getLsbD_ofNat, Nat.testBit_eq_decide_div_mod_eq]
    simp
    omega
  have hnat : (BitVec.ofNat 16 t).toNat = t := by rw [BitVec.toNat_ofNat, Nat.mod_eq_of_lt ht]
  unfold signed signMagnitude
  rw [htop]
  by_cases h : t < 2 ^ 15
  · rw [if_neg (by simpa using h), if_pos h, BitVec.toInt_eq_toNat_of_lt (by rw [hnat]; omega), hnat]
  · have hmag : (BitVec.ofNat 16 t &&& 0x7FFF).toNat = t - 2 ^ 15 := by
      rw [BitVec.toNat_and, hnat]
      show t &&& (2 ^ 15 - 1) = t - 2 ^ 15
      rw [Nat.and_two_pow_sub_one_eq_mod]
      omega
    have hint : (BitVec.ofNat 16 t &&& 0x7FFF).toInt = (t : Int) - 2 ^ 15 := by
      rw [BitVec.toInt_eq_toNat_of_lt (by rw [hmag]; omega), hmag]
      omega
    rw [if_pos (by simpa using h), if_neg h, BitVec.toInt_neg, hint, Int.bmod_eq_of_le (by omega) (by omega)]

theorem humidityOf_lt (timings : List Int) : humidityOf timings < 2 ^ 16 := by
  have := value_lt (bits timings 0 16)
  rwa [length_bits] at this

theorem temperatureOf_lt (timings : List Int) : temperatureOf timings < 2 ^ 16 := by
  have := value_lt (bits timings 16 16)
  rwa [length_bits] at this

theorem checksumOf_lt (timings : List Int) : checksumOf timings < 2 ^ 8 := by
  have := value_lt (bits timings 32 8)
  rwa [length_bits] at this

theorem unlessFlagged_run (text : String) (rest : Checks (Option Reading)) (h : e.errorFlag = false) :
    (unlessFlagged text rest).run e = rest.run e := by
  unfold unlessFlagged
  rw [run_bind, show ((get : Checks Errors).run e).1 = e from rfl, h, if_neg Bool.false_ne_true]
  rfl

/-- **Where every bit is readable** only the checksum is left to check. -/
theorem analyseTimings_readable (h : ∀ k < 40, (bitAt timings k).isSome = true) (he : e.errorFlag = false) :
    (analyseTimings timings).run e = (finish (BitVec.ofNat 16 (humidityOf timings))
      (BitVec.ofNat 16 (temperatureOf timings)) (BitVec.ofNat 16 (checksumOf timings))).run e := by
  have hread : ∀ n k, k + n ≤ 40 → (readnbits timings (5 + 2 * k) n 0).run e =
      (BitVec.ofNat 16 (value (bits timings k n)), e) := fun n k hk => by
    have := readnbits_run e n k 0 (fun j h₁ h₂ => h j (by omega))
    rw [this]
    simp
  unfold analyseTimings
  rw [run_bind, hread 16 0 (by decide), unlessFlagged_run _ _ he, run_bind, hread 16 16 (by decide),
    unlessFlagged_run _ _ he, run_bind, hread 8 32 (by decide), unlessFlagged_run _ _ he]
  rfl

theorem finish_run {h t c : Nat} (hh : h < 2 ^ 16) (ht : t < 2 ^ 16) (hc : c < 2 ^ 8) :
    (c = byteSum h t % 256 → (finish (BitVec.ofNat 16 h) (BitVec.ofNat 16 t) (BitVec.ofNat 16 c)).run e =
      (some ⟨signed (BitVec.ofNat 16 t), BitVec.ofNat 16 h⟩, e)) ∧
    (c ≠ byteSum h t % 256 →
      ((finish (BitVec.ofNat 16 h) (BitVec.ofNat 16 t) (BitVec.ofNat 16 c)).run e).1 = none ∧
      ((finish (BitVec.ofNat 16 h) (BitVec.ofNat 16 t) (BitVec.ofNat 16 c)).run e).2.errorFlag = true) := by
  have hiff : (checksum (BitVec.ofNat 16 h) (BitVec.ofNat 16 t)).setWidth 16 = BitVec.ofNat 16 c ↔
      c = byteSum h t % 256 := by
    rw [← BitVec.toNat_inj, BitVec.toNat_setWidth, toNat_checksum hh ht, BitVec.toNat_ofNat]
    omega
  unfold finish
  constructor
  · intro heq
    rw [if_neg (not_not_intro (hiff.2 heq))]
    rfl
  · intro hne
    rw [if_pos (fun h => hne (hiff.1 h))]
    exact ⟨rfl, rfl⟩

theorem unlessFlagged_some {text : String} {rest : Checks (Option Reading)} {r : Reading}
    (h : ((unlessFlagged text rest).run e).1 = some r) : e.errorFlag = false := by
  cases hflag : e.errorFlag with
  | false => rfl
  | true =>
    unfold unlessFlagged at h
    rw [run_bind, show ((get : Checks Errors).run e).1 = e from rfl, hflag, if_pos rfl] at h
    cases h

theorem finish_some {h t c : BitVec 16} {r : Reading} (hr : ((finish h t c).run e).1 = some r) :
    ((finish h t c).run e).2 = e := by
  unfold finish at hr ⊢
  split at hr
  · cases hr
  · rename_i hc
    rw [if_neg hc]
    rfl

/-- What is given was not flagged. -/
theorem analyseTimings_some {r : Reading} (h : ((analyseTimings timings).run e).1 = some r) :
    ((analyseTimings timings).run e).2.errorFlag = false := by
  unfold analyseTimings at h ⊢
  rw [run_bind] at h ⊢
  have h₁ := unlessFlagged_some h
  rw [unlessFlagged_run _ _ h₁, run_bind] at h ⊢
  have h₂ := unlessFlagged_some h
  rw [unlessFlagged_run _ _ h₂, run_bind] at h ⊢
  have h₃ := unlessFlagged_some h
  rw [unlessFlagged_run _ _ h₃] at h ⊢
  rw [finish_some h]
  exact h₃

/-- The analysis of a pulse train, with no error before it. -/
def analysed (timings : List Int) (printed : List String) : Option Reading × Errors :=
  (analyseTimings timings).run { errorFlag := false, printed := printed }

theorem analysed_decodes (h : Decodes timings) (printed : List String) :
    analysed timings printed = (some ⟨signed (BitVec.ofNat 16 (temperatureOf timings)),
      BitVec.ofNat 16 (humidityOf timings)⟩, { errorFlag := false, printed := printed }) := by
  unfold analysed
  rw [analyseTimings_readable h.readable rfl]
  exact (finish_run (humidityOf_lt _) (temperatureOf_lt _) (checksumOf_lt _)).1 h.checksum

theorem analysed_some {printed : List String} {r : Reading} (h : (analysed timings printed).1 = some r) :
    (analysed timings printed).2.errorFlag = false := by
  unfold analysed at h ⊢
  exact analyseTimings_some h

/-- An analysis that is not flagged is one of a reading. -/
theorem decodes_of_analysed {printed : List String} (h : (analysed timings printed).2.errorFlag = false) :
    Decodes timings := by
  unfold analysed at h
  have hok := analyseTimings_ok h
  have hread : ∀ k < 40, (bitAt timings k).isSome = true := fun k hk =>
    bitAt_isSome_iff.2 ⟨hok _ (by omega) (by omega), hok _ (by omega) (by omega)⟩
  refine ⟨hread, Decidable.byContradiction fun hne => ?_⟩
  rw [analyseTimings_readable hread rfl,
    ((finish_run (humidityOf_lt _) (temperatureOf_lt _) (checksumOf_lt _)).2 hne).2] at h
  cases h

/-- **The decoder**: it flags no error exactly where the pulse train is a reading, and then gives its humidity and its
temperature; otherwise it flags one and gives nothing. -/
theorem analysed_spec (timings : List Int) (printed : List String) :
    ((analysed timings printed).2.errorFlag = false ↔ Decodes timings) ∧
    (Decodes timings → ∃ r, (analysed timings printed).1 = some r ∧ r.humidity.toNat = humidityOf timings ∧
      r.temperature.toInt = signMagnitude (temperatureOf timings)) ∧
    (¬ Decodes timings → (analysed timings printed).2.errorFlag = true ∧ (analysed timings printed).1 = none) := by
  refine ⟨⟨decodes_of_analysed, fun h => by rw [analysed_decodes h]⟩, fun h => ?_, fun h => ?_⟩
  · rw [analysed_decodes h]
    exact ⟨_, rfl, by rw [BitVec.toNat_ofNat, Nat.mod_eq_of_lt (humidityOf_lt _)], toInt_signed (temperatureOf_lt _)⟩
  · have hflag : (analysed timings printed).2.errorFlag = true := by
      cases hf : (analysed timings printed).2.errorFlag with
      | false => exact absurd (decodes_of_analysed hf) h
      | true  => rfl
    refine ⟨hflag, ?_⟩
    cases hr : (analysed timings printed).1 with
    | none   => rfl
    | some r => rw [analysed_some hr] at hflag; cases hflag

end Rht03
end Scrapcode
