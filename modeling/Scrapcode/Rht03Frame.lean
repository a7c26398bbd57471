import Scrapcode.Rht03Decode
import Scrapcode.WeightedSums
/-!
# Rht03Frame — from the sensor to the reading

A frame is what the sensor sends: 40 bits, as a low pulse and a high pulse each, whose length says whether the bit is
set. A read in which the sketch sees a frame sent within its tolerance ends with the humidity and the temperature of
the frame where the checksum is right, and with an error and no reading where it is not, whatever else the sketch has
done before and wherever the clock is (`frame_read`).

The checksum is one by a weighted sum: a bit of the data weighs what it counts in its byte, one of the checksum the
opposite.  So one flipped bit never gets through, and two get through exactly if they are at the same place of their
bytes and change the sum in opposite ways, where the top bits, which weigh half the modulus, need not even do that
(`flipped_read`).
-/
namespace Scrapcode
namespace Rht03

open WeightedSums (sum flip flipAll change changes Passes)

/-- The 40 bits that the sensor sends. -/
structure Frame where
  bits   : List Bool
  length : bits.length = 40
deriving DecidableEq

namespace Frame

def bit (f : Frame) (k : Nat) : Bool := f.bits.getD k false

def byte (f : Frame) (n : Nat) : List Bool := (f.bits.drop (8 * n)).take 8

def humidity (f : Frame) : Nat := value (f.bits.take 16)

def temperature (f : Frame) : Nat := value ((f.bits.drop 16).take 16)

/-- **The last byte is the sum of the others.** -/
def Valid (f : Frame) : Prop :=
  value ((f.bits.drop 32).take 8) = byteSum f.humidity f.temperature % 256

instance (f : Frame) : Decidable f.Valid := inferInstanceAs (Decidable (_ = _))

/-- A pulse that stands for a bit. -/
def Pulse (b : Bool) (us : Nat) : Prop := if b then 61 ≤ us ∧ us ≤ 84 else 11 ≤ us ∧ us ≤ 39

instance (b : Bool) (us : Nat) : Decidable (Pulse b us) := inferInstanceAs (Decidable (ite _ _ _))

/-- **The line changes at `times` send the frame**: three pulses of the sensor's answer, two pulses for each bit and
the end of the last one. -/
structure Sent (f : Frame) (start : Nat) (times : List Nat) : Prop where
  length : times.length = 86
  sorted : (start :: times).Pairwise (· ≤ ·)
  low    : ∀ k < 40, 36 ≤ interval start times (5 + 2 * k) ∧ interval start times (5 + 2 * k) ≤ 74
  pulse  : ∀ k < 40, Pulse (f.bit k) (interval start times (6 + 2 * k))

def flip (f : Frame) (i : Nat) : Frame := ⟨WeightedSums.flip f.bits i, (WeightedSums.length_flip _ _).trans f.length⟩

/-- What a bit weighs in the checksum. -/
def weight (k : Nat) : Int :=
  if k < 32 then ((2 ^ (7 - k % 8) : Nat) : Int) else -((2 ^ (7 - k % 8) : Nat) : Int)

/-- Flipping the bit makes the sum of the bytes larger, or the checksum smaller. -/
def raises (f : Frame) (i : Nat) : Bool := f.bit i == decide (32 ≤ i)

/-- **Two flips that cancel out.** -/
def Cancel (f : Frame) (i j : Nat) : Prop := i % 8 = j % 8 ∧ (i % 8 = 0 ∨ f.raises i ≠ f.raises j)

instance (f : Frame) (i j : Nat) : Decidable (f.Cancel i j) := inferInstanceAs (Decidable (_ ∧ _))

end Frame

variable {f : Frame} {start : Nat} {times : List Nat} {timings : List Int} {s s' : Sketch} {e : Event}

/-! ## The bits of a frame -/

theorem getElem?_bits (f : Frame) {k : Nat} (hk : k < 40) : f.bits[k]? = some (f.bit k) := by
  have hlt : k < f.bits.length := by rw [f.length]; exact hk
  rw [Frame.bit, List.getD_eq_getElem?_getD, List.getElem?_eq_getElem hlt, Option.getD_some]

/-- A short interval is stored as it is. -/
theorem stored_of_lt {n : Nat} (h : n < 2 ^ 15) : stored n = n := by
  rw [stored, BitVec.toInt_eq_toNat_of_lt (by rw [BitVec.toNat_ofNat]; omega), BitVec.toNat_ofNat]
  omega

/-- **What is captured of a frame reads as its bits.** -/
theorem bitAt_sent (hs : Captured start times s) (hf : f.Sent start times) {k : Nat} (hk : k < 40) :
    bitAt s.timings k = some (f.bit k) := by
  obtain ⟨hlow, hlow'⟩ := hf.low k hk
  have hpulse := hf.pulse k hk
  have hlen := hf.length
  have htimings : s.timings.getD (5 + 2 * k) 0 = interval start times (5 + 2 * k) := by
    rw [hs.timings _ (by omega), stored_of_lt (by omega)]
  unfold Frame.Pulse at hpulse
  cases hb : f.bit k with
  | false =>
    rw [hb, if_neg Bool.false_ne_true] at hpulse
    have htimings' : s.timings.getD (6 + 2 * k) 0 = interval start times (6 + 2 * k) := by
      rw [hs.timings _ (by omega), stored_of_lt (by omega)]
    unfold bitAt
    dsimp only
    rw [htimings, htimings', if_pos (by omega), if_pos (by omega)]
  | true =>
    rw [hb, if_pos rfl] at hpulse
    have htimings' : s.timings.getD (6 + 2 * k) 0 = interval start times (6 + 2 * k) := by
      rw [hs.timings _ (by omega), stored_of_lt (by omega)]
    unfold bitAt
    dsimp only
    rw [htimings, htimings', if_pos (by omega), if_neg (by omega), if_pos (by omega)]

theorem bits_of_bitAt (h : ∀ k < 40, bitAt timings k = some (f.bit k)) :
    ∀ n k, k + n ≤ 40 → bits timings k n = (f.bits.drop k).take n
  | 0, k, _ => by rw [bits, List.take_zero]
  | n + 1, k, hk => by
    have hlt : k < f.bits.length := by rw [f.length]; omega
    have hget : f.bits[k] = f.bit k :=
      Option.some.inj ((List.getElem?_eq_getElem hlt).symm.trans (getElem?_bits f (by omega)))
    rw [bits, h k (by omega), bits_of_bitAt h n (k + 1) (by omega), List.drop_eq_getElem_cons hlt,
      List.take_succ_cons, hget]
    rfl

theorem decodes_iff_valid (h : ∀ k < 40, bitAt timings k = some (f.bit k)) : Decodes timings ↔ f.Valid := by
  have hbits := bits_of_bitAt h
  have hiff : checksumOf timings = byteSum (humidityOf timings) (temperatureOf timings) % 256 ↔ f.Valid := by
    unfold checksumOf humidityOf temperatureOf Frame.Valid Frame.humidity Frame.temperature
    rw [hbits 16 0 (by decide), hbits 16 16 (by decide), hbits 8 32 (by decide), List.drop_zero]
  refine ⟨fun hd => hiff.1 hd.checksum, fun hv => ⟨fun k hk => ?_, hiff.2 hv⟩⟩
  rw [h k hk]
  rfl

/-! ## A read -/

/-- While `readSensor` runs nothing is flagged before the analysis. -/
theorem unflagged_step (hin : e.inner = true) (hs : s.pc = .idle ∨ s.errors.errorFlag = false)
    (h : step s e = some s') :
    s'.pc = .idle ∨ s'.errors.errorFlag = false := by
  cases e with
  | call m  => cases hin
  | analyse => cases hin
  | edge m m' =>
    simp only [step] at h
    split at h
    · obtain rfl := Option.some.inj h; exact hs
    · cases h
  | attach =>
    simp only [step] at h
    split at h
    · rename_i hpc
      obtain rfl := Option.some.inj h
      exact Or.inr (hs.resolve_left (by rw [hpc]; rintro ⟨⟩))
    · cases h
  | request high low back m =>
    simp only [step] at h
    split at h
    · rename_i hpc
      split at h
      · rename_i errors hrun
        obtain rfl := Option.some.inj h
        have hok := requestSensorRead_ok high low back s.errors
        rw [hrun] at hok
        obtain ⟨hhigh, hlow, hback⟩ := hok.1 rfl
        have hsame : errors = s.errors := by
          unfold requestSensorRead at hrun
          rw [hhigh, if_neg (by decide), if_neg hlow, if_neg hback] at hrun
          exact (Prod.mk.inj hrun).2.symm
        rw [hsame]
        exact Or.inr (hs.resolve_left (by rw [hpc]; rintro ⟨⟩))
      · obtain rfl := Option.some.inj h; exact Or.inl rfl
    · cases h
  | poll m =>
    simp only [step] at h
    split at h
    · rename_i hpc
      have hflag := hs.resolve_left (by rw [hpc]; rintro ⟨⟩)
      split at h <;> obtain rfl := Option.some.inj h <;> exact Or.inr hflag
    · cases h
  | detach =>
    simp only [step] at h
    split at h
    · rename_i hpc
      obtain rfl := Option.some.inj h
      exact Or.inr (hs.resolve_left (by rw [hpc]; rintro ⟨⟩))
    · cases h

theorem unflagged_run : ∀ {es : List Event} {s s' : Sketch}, (∀ e ∈ es, e.inner = true) →
    s.pc = .idle ∨ s.errors.errorFlag = false → Runs.run step s es = some s' →
      s'.pc = .idle ∨ s'.errors.errorFlag = false
  | [], _, _, _, hs, h => by obtain rfl := Option.some.inj h; exact hs
  | e :: es, s, s', hin, hs, h => by
    obtain ⟨s₁, h₁, h₂⟩ := Runs.run_cons_eq_some h
    exact unflagged_run (fun e he => hin e (List.mem_cons_of_mem _ he))
      (unflagged_step (hin e List.mem_cons_self) hs h₁) h₂

/-- **A read of 86 line changes** ends with the analysis of what it captured. -/
theorem analysed_read {before es : List Event} (hin : ∀ e ∈ es, e.inner = true) (hedges : Edges es times)
    (hsorted : (start :: times).Pairwise (· ≤ ·)) (hlen : times.length = 86)
    (hrun : Runs.run step {} (reads before start es) = some s') :
    ∃ s printed, Captured start times s ∧ (s'.reading, s'.errors) = analysed s.timings printed := by
  unfold reads at hrun
  rw [Runs.run_append] at hrun
  obtain ⟨s₀, hbefore, hrun⟩ := Option.bind_eq_some_iff.1 hrun
  obtain ⟨s₁, hcall, hrun⟩ := Runs.run_cons_eq_some hrun
  rw [Runs.run_append] at hrun
  obtain ⟨s₂, hes, hrun⟩ := Option.bind_eq_some_iff.1 hrun
  obtain ⟨s₃, hanalyse, hrun⟩ := Runs.run_cons_eq_some hrun
  obtain rfl := Option.some.inj hrun
  have hlength : s₀.timings.length = 88 :=
    Runs.run_invariant (I := fun s => s.timings.length = 88) (fun _ _ _ => length_timings) before rfl hbefore
  have hs₁ : s₁ = { initState s₀ (micros start) with pc := .initialised } := by
    simp only [step] at hcall
    split at hcall
    · exact (Option.some.inj hcall).symm
    · cases hcall
  have hcaptured : Captured start [] s₁ := by
    have h := captured_initState hlength start
    rw [hs₁]
    exact ⟨h.count, h.last, h.length, h.timings⟩
  have h₂ : Captured start times s₂ := captured_run hcaptured hin hedges hsorted (by rw [List.nil_append]; omega) hes
  have hflag := unflagged_run hin (Or.inr (by rw [hs₁]; rfl)) hes
  simp only [step] at hanalyse
  split at hanalyse
  · rename_i hpc
    obtain rfl := Option.some.inj hanalyse
    have hcount : ¬s₂.signalLineChanges ≠ 86 := fun hne => hne (by rw [h₂.count, hlen]; rfl)
    refine ⟨s₂, s₂.errors.printed, h₂, ?_⟩
    have herrors : ({ errorFlag := false, printed := s₂.errors.printed } : Errors) = s₂.errors := by
      rw [← hflag.resolve_left (by rw [hpc]; rintro ⟨⟩)]
    have hanalysed : analysed s₂.timings s₂.errors.printed = (collect s₂).run s₂.errors := by
      rw [analysed, herrors, collect, if_neg hcount]
    exact hanalysed.symm
  · cases hanalyse

/-- What a read that sees a frame ends with is the analysis of the bits of the frame. -/
theorem analysed_of_sent {before es : List Event} (hin : ∀ e ∈ es, e.inner = true) (hedges : Edges es times)
    (hsent : f.Sent start times) (hrun : Runs.run step {} (reads before start es) = some s') :
    ∃ timings printed, (∀ k < 40, bitAt timings k = some (f.bit k)) ∧ s'.reading = (analysed timings printed).1 ∧
      s'.errors = (analysed timings printed).2 := by
  obtain ⟨s, printed, hs, hpair⟩ := analysed_read hin hedges hsent.sorted hsent.length hrun
  exact ⟨s.timings, printed, fun k hk => bitAt_sent hs hsent hk, congrArg Prod.fst hpair, congrArg Prod.snd hpair⟩

theorem reading_of_valid {before es : List Event} (hin : ∀ e ∈ es, e.inner = true) (hedges : Edges es times)
    (hsent : f.Sent start times) (hrun : Runs.run step {} (reads before start es) = some s') (hf : f.Valid) :
    s'.errors.errorFlag = false ∧
      s'.reading = some ⟨signed (BitVec.ofNat 16 f.temperature), BitVec.ofNat 16 f.humidity⟩ := by
  obtain ⟨timings, printed, hbit, hreading, herrors⟩ := analysed_of_sent hin hedges hsent hrun
  have hhumidity : humidityOf timings = f.humidity := by
    rw [humidityOf, bits_of_bitAt hbit 16 0 (by decide), List.drop_zero, Frame.humidity]
  have htemperature : temperatureOf timings = f.temperature := by
    rw [temperatureOf, bits_of_bitAt hbit 16 16 (by decide), Frame.temperature]
  have hanalysed := analysed_decodes ((decodes_iff_valid hbit).2 hf) printed
  rw [hhumidity, htemperature] at hanalysed
  exact ⟨by rw [herrors, hanalysed], by rw [hreading, hanalysed]⟩

theorem none_of_not_valid {before es : List Event} (hin : ∀ e ∈ es, e.inner = true) (hedges : Edges es times)
    (hsent : f.Sent start times) (hrun : Runs.run step {} (reads before start es) = some s') (hf : ¬f.Valid) :
    s'.errors.errorFlag = true ∧ s'.reading = none := by
  obtain ⟨timings, printed, hbit, hreading, herrors⟩ := analysed_of_sent hin hedges hsent hrun
  have hflag : (analysed timings printed).2.errorFlag = true := by
    cases h : (analysed timings printed).2.errorFlag with
    | false => exact absurd ((decodes_iff_valid hbit).1 (decodes_of_analysed h)) hf
    | true  => rfl
  refine ⟨by rw [herrors, hflag], ?_⟩
  rw [hreading]
  cases h : (analysed timings printed).1 with
  | none   => rfl
  | some r =>
    rw [analysed_some h] at hflag
    cases hflag

theorem humidity_lt (f : Frame) : f.humidity < 2 ^ 16 := by
  have h := value_lt (f.bits.take 16)
  rwa [List.length_take, f.length] at h

theorem temperature_lt (f : Frame) : f.temperature < 2 ^ 16 := by
  have h := value_lt ((f.bits.drop 16).take 16)
  rwa [List.length_take, List.length_drop, f.length] at h

/-! ## The checksum -/

theorem value_append (as bs : List Bool) : value (as ++ bs) = value as * 2 ^ bs.length + value bs := by
  induction as with
  | nil => rw [List.nil_append, value, Nat.zero_mul, Nat.zero_add]
  | cons a as ih =>
    rw [List.cons_append, value, value, ih, List.length_append, Nat.add_mul, Nat.pow_add, Nat.mul_assoc, Nat.add_assoc]

/-- The weights of a byte make its value, with their sign. -/
theorem sum_eq_value {w : Nat → Int} {c : Int} : ∀ (bs : List Bool) (k : Nat),
    (∀ i < bs.length, w (k + i) = c * ((2 ^ (bs.length - 1 - i) : Nat) : Int)) → sum w k bs = c * value bs
  | [], _, _ => (Int.mul_zero c).symm
  | b :: bs, k, h => by
    have hhead := h 0 (Nat.zero_lt_succ _)
    have htail := sum_eq_value (w := w) (c := c) bs (k + 1) fun i hi => by
      have := h (i + 1) (Nat.succ_lt_succ hi)
      rw [show k + 1 + i = k + (i + 1) by omega, this, show (b :: bs).length - 1 - (i + 1) = bs.length - 1 - i by
        rw [List.length_cons]; omega]
    rw [Nat.add_zero, show (b :: bs).length - 1 - 0 = bs.length by rw [List.length_cons]; omega] at hhead
    rw [sum, htail, hhead, value]
    cases b with
    | false => simp
    | true  => simp [Int.mul_add]

theorem weight_data {k i : Nat} (hk : k % 8 = 0) (hi : i < 8) (hlt : k < 32) :
    Frame.weight (k + i) = 1 * ((2 ^ (8 - 1 - i) : Nat) : Int) := by
  rw [Frame.weight, if_pos (by omega), Int.one_mul, show (k + i) % 8 = i by omega]

theorem weight_check {i : Nat} (hi : i < 8) : Frame.weight (32 + i) = -1 * ((2 ^ (8 - 1 - i) : Nat) : Int) := by
  rw [Frame.weight, if_neg (by omega), show (32 + i) % 8 = i by omega, Int.neg_mul, Int.one_mul]

theorem length_byte (f : Frame) {n : Nat} (hn : n < 5) : (f.byte n).length = 8 := by
  rw [Frame.byte, List.length_take, List.length_drop, f.length]
  omega

theorem value_byte_lt (f : Frame) {n : Nat} (hn : n < 5) : value (f.byte n) < 256 := by
  have := value_lt (f.byte n)
  rwa [length_byte f hn] at this

theorem sum_drop (f : Frame) {n : Nat} (hn : n < 5) :
    sum Frame.weight (8 * n) (f.bits.drop (8 * n)) =
      sum Frame.weight (8 * n) (f.byte n) + sum Frame.weight (8 * (n + 1)) (f.bits.drop (8 * (n + 1))) := by
  have hdrop : f.bits.drop (8 * n) = f.byte n ++ f.bits.drop (8 * (n + 1)) := by
    rw [Frame.byte, Nat.mul_succ, ← List.drop_drop, List.take_append_drop]
  conv => lhs; rw [hdrop, WeightedSums.sum_append, length_byte f hn, ← Nat.mul_succ]

theorem sum_byte (f : Frame) {n : Nat} (hn : n < 4) : sum Frame.weight (8 * n) (f.byte n) = value (f.byte n) := by
  rw [sum_eq_value (c := 1) (f.byte n) (8 * n) fun i hi => ?_, Int.one_mul]
  rw [length_byte f (by omega)] at hi ⊢
  exact weight_data (Nat.mul_mod_right 8 n) hi (by omega)

theorem sum_check (f : Frame) : sum Frame.weight 32 (f.byte 4) = -(value (f.byte 4) : Int) := by
  rw [sum_eq_value (c := -1) (f.byte 4) 32 fun i hi => ?_, Int.neg_mul, Int.one_mul]
  rw [length_byte f (by decide)] at hi ⊢
  exact weight_check hi

theorem value_bytes (f : Frame) {n : Nat} (hn : n < 3) :
    value ((f.bits.drop (8 * n)).take 16) = value (f.byte n) * 2 ^ 8 + value (f.byte (n + 1)) := by
  have hsplit : (f.bits.drop (8 * n)).take 16 = f.byte n ++ f.byte (n + 1) := by
    rw [Frame.byte, Frame.byte, show 16 = 8 + 8 from rfl, List.take_add, List.drop_drop, ← Nat.mul_succ]
  rw [hsplit, value_append, length_byte f (by omega)]

/-- **A frame is valid exactly if it passes the check by its weighted sum.** -/
theorem valid_iff_passes (f : Frame) : f.Valid ↔ Passes 256 Frame.weight f.bits := by
  have hsum : sum Frame.weight 0 f.bits = value (f.byte 0) + (value (f.byte 1) + (value (f.byte 2) + (value (f.byte 3) +
      -(value (f.byte 4) : Int)))) := by
    have h₀ := sum_drop f (n := 0) (by decide)
    have h₁ := sum_drop f (n := 1) (by decide)
    have h₂ := sum_drop f (n := 2) (by decide)
    have h₃ := sum_drop f (n := 3) (by decide)
    have h₄ := sum_drop f (n := 4) (by decide)
    have hend : f.bits.drop 40 = [] := List.drop_eq_nil_of_le (Nat.le_of_eq f.length)
    rw [sum_byte f (by decide)] at h₀ h₁ h₂ h₃
    rw [show sum Frame.weight (8 * 4) (f.byte 4) = -(value (f.byte 4) : Int) from sum_check f,
      show f.bits.drop (8 * (4 + 1)) = [] from hend, WeightedSums.sum, Int.add_zero] at h₄
    rw [h₄] at h₃
    rw [h₃] at h₂
    rw [h₂] at h₁
    rw [h₁] at h₀
    exact h₀
  have hhumidity : f.humidity = value (f.byte 0) * 2 ^ 8 + value (f.byte 1) := value_bytes f (n := 0) (by decide)
  have htemperature : f.temperature = value (f.byte 2) * 2 ^ 8 + value (f.byte 3) := value_bytes f (n := 2) (by decide)
  have h₁ := value_byte_lt f (n := 1) (by decide)
  have h₃ := value_byte_lt f (n := 3) (by decide)
  have h₄ := value_byte_lt f (n := 4) (by decide)
  unfold Frame.Valid Passes byteSum
  rw [hsum, hhumidity, htemperature, show (f.bits.drop 32).take 8 = f.byte 4 from rfl]
  omega

/-! ## Flipped bits -/

theorem valid_flipAll_iff (hf : f.Valid) (is : List Nat) (hnodup : is.Nodup) (hlt : ∀ i ∈ is, i < 40)
    {g : Frame} (hg : g.bits = flipAll f.bits is) : g.Valid ↔ 256 ∣ changes Frame.weight f.bits is := by
  rw [valid_iff_passes, hg]
  exact WeightedSums.passes_flipAll_iff ((valid_iff_passes f).1 hf) hnodup
    (fun i hi => by rw [f.length]; exact hlt i hi)

/-- No weight is a multiple of the modulus. -/
theorem not_dvd_change : ∀ i < 40, ∀ b, ¬(256 : Int) ∣ change Frame.weight i b := by decide +kernel

/-- Two changes make a multiple of the modulus only where they are of one size. -/
theorem dvd_changes_iff : ∀ i < 40, ∀ j < 40, ∀ b c, (256 : Int) ∣ change Frame.weight i b + change Frame.weight j c ↔
    i % 8 = j % 8 ∧ (i % 8 = 0 ∨ (b == decide (32 ≤ i)) ≠ (c == decide (32 ≤ j))) := by decide +kernel

theorem not_valid_flip (hf : f.Valid) {i : Nat} (hi : i < 40) : ¬(f.flip i).Valid := by
  rw [valid_flipAll_iff hf [i] (List.nodup_singleton i) (by simpa using hi) rfl, changes, changes, Int.add_zero]
  exact not_dvd_change i hi _

theorem valid_flip_flip_iff (hf : f.Valid) {i j : Nat} (hi : i < 40) (hj : j < 40) (hij : i ≠ j) :
    ((f.flip i).flip j).Valid ↔ f.Cancel i j := by
  rw [valid_flipAll_iff hf [i, j] (by simpa using hij) (by simpa using ⟨hi, hj⟩) rfl, changes, changes, changes,
    Int.add_zero]
  exact dvd_changes_iff i hi j hj _ _

/-- **From the sensor to the reading**: whatever the sketch did before and wherever its clock is, a read in which it
sees a frame sent ends with the humidity and the temperature of the frame and no error exactly where the checksum is
right, and otherwise with an error and nothing read. -/
theorem frame_read (f : Frame) (before es : List Event) (start : Nat) (times : List Nat) (s' : Sketch)
    (hin : ∀ e ∈ es, e.inner = true) (hedges : Edges es times) (hsent : f.Sent start times)
    (hrun : Runs.run step {} (reads before start es) = some s') :
    (f.Valid → s'.errors.errorFlag = false ∧ ∃ r, s'.reading = some r ∧ r.humidity.toNat = f.humidity ∧
      r.temperature.toInt = signMagnitude f.temperature) ∧
    (¬f.Valid → s'.errors.errorFlag = true ∧ s'.reading = none) := by
  refine ⟨fun hf => ?_, none_of_not_valid hin hedges hsent hrun⟩
  obtain ⟨hflag, hreading⟩ := reading_of_valid hin hedges hsent hrun hf
  refine ⟨hflag, _, hreading, ?_, toInt_signed (temperature_lt f)⟩
  rw [BitVec.toNat_ofNat, Nat.mod_eq_of_lt (humidity_lt f)]

/-- The line changes of a sensor that is on time. -/
def Frame.send (f : Frame) : List Nat :=
  timesFrom 0 ([7000, 30, 40, 80, 80] ++ f.bits.flatMap (fun b => [50, if b then 70 else 26]) ++ [50])

/-- 65.2 percent and 35.1 degrees. -/
def warm : Frame where
  bits   := [false, false, false, false, false, false, true, false, true, false, false, false, true, true, false, false,
    false, false, false, false, false, false, false, true, false, true, false, true, true, true, true, true,
    true, true, true, false, true, true, true, false]
  length := rfl

theorem run_of_isSome (es : List Event) (h : (Runs.run step {} es).isSome = true) :
    ∃ s', Runs.run step {} es = some s' :=
  Option.isSome_iff_exists.1 h

theorem frame_read_warm : ∃ s', Runs.run step {} (reads [] 0 (answered warm.send)) = some s' ∧
    ∃ r, s'.reading = some r ∧ r.humidity.toNat = 652 ∧ r.temperature.toInt = 351 := by
  obtain ⟨s', hrun⟩ := run_of_isSome (reads [] 0 (answered warm.send)) (by decide +kernel)
  have hsent : warm.Sent 0 warm.send :=
    ⟨by decide +kernel, by decide +kernel, by decide +kernel, by decide +kernel⟩
  obtain ⟨-, r, hr, hhumidity, htemperature⟩ :=
    (frame_read warm [] (answered warm.send) 0 warm.send s' (by decide +kernel)
    (by decide +kernel) hsent hrun).1 (by decide +kernel)
  exact ⟨s', hrun, r, hr, hhumidity, htemperature⟩

/-- **What the checksum finds**: of a frame whose checksum is right, a read that sees it with one bit flipped gives
nothing, and one that sees it with two gives something exactly if the two cancel out. -/
theorem flipped_read (f : Frame) (before es : List Event) (start : Nat) (times : List Nat) (s' : Sketch) (i j : Nat)
    (hin : ∀ e ∈ es, e.inner = true) (hedges : Edges es times)
    (hrun : Runs.run step {} (reads before start es) = some s') (hf : f.Valid) (hi : i < 40) (hj : j < 40)
    (hij : i ≠ j) :
    ((f.flip i).Sent start times → s'.errors.errorFlag = true ∧ s'.reading = none) ∧
    (((f.flip i).flip j).Sent start times → (s'.reading.isSome = true ↔ f.Cancel i j)) := by
  refine ⟨fun hsent => none_of_not_valid hin hedges hsent hrun (not_valid_flip hf hi), fun hsent => ?_⟩
  rw [← valid_flip_flip_iff hf hi hj hij]
  constructor
  · intro hread
    by_contra hne
    rw [(none_of_not_valid hin hedges hsent hrun hne).2] at hread
    cases hread
  · intro hv
    rw [(reading_of_valid hin hedges hsent hrun hv).2]
    rfl

/-- With the top bits of its humidity and its temperature flipped it is read as 3342 percent and -35.1 degrees. -/
theorem flipped_read_warm : ∃ s', Runs.run step {} (reads [] 0 (answered ((warm.flip 0).flip 16).send)) = some s' ∧
    s'.reading.isSome = true := by
  obtain ⟨s', hrun⟩ := run_of_isSome (reads [] 0 (answered ((warm.flip 0).flip 16).send)) (by decide +kernel)
  have hsent : ((warm.flip 0).flip 16).Sent 0 ((warm.flip 0).flip 16).send :=
    ⟨by decide +kernel, by decide +kernel, by decide +kernel, by decide +kernel⟩
  exact ⟨s', hrun, ((flipped_read warm [] (answered ((warm.flip 0).flip 16).send) 0 ((warm.flip 0).flip 16).send s' 0 16
    (by decide +kernel) (by decide +kernel) hrun (by decide +kernel) (by decide) (by decide) (by decide)).2 hsent).2
    (by decide +kernel)⟩

end Rht03
end Scrapcode
