import Scrapcode.ByteText
import Scrapcode.Rht03Decode
/-!
# Rht03Print — the line `loop` prints of a reading

The whole part of a temperature is `temperature/10` and its fraction `abs(temperature%10)`, as the comment over
`readSensor` says.  Below one degree the whole part is 0 and the sign is in neither, so a temperature and its opposite
are printed alike; all other readings have lines of their own.
-/
namespace Scrapcode
namespace Rht03

open ByteText

def readingLine (temperature humidity : Int) : Str :=
  "Reading: ".toList ++ (strInt (temperature.tdiv 10) ++ '.' :: (strInt (temperature.tmod 10).natAbs ++
    ' ' :: ("degrees C at ".toList ++ (strInt (humidity.tdiv 10) ++ '.' :: (strInt (humidity.tmod 10) ++
      ' ' :: "relative humidity".toList)))))

/-- What `loop` prints, given what `readSensor` gave. -/
def loop (reading : Option Reading) : List Str :=
  "Reading sensor...".toList :: match reading with
    | some r => [readingLine r.temperature.toInt r.humidity.toInt]
    | none   => []

/-- The temperature and the humidity of a reading. -/
def decoded (timings : List Int) : Int × Nat := (signMagnitude (temperatureOf timings), humidityOf timings)

/-- Opposite temperatures of less than one degree, at the same humidity. -/
def OppositeBelowOne (p q : Int × Nat) : Prop := p.1 = -q.1 ∧ p.1.natAbs < 10 ∧ p.2 = q.2

instance (p q : Int × Nat) : Decidable (OppositeBelowOne p q) :=
  inferInstanceAs (Decidable (p.1 = -q.1 ∧ p.1.natAbs < 10 ∧ p.2 = q.2))

variable {timings timings' : List Int} {t t' h h' : Int}

/-- The four numbers of a line can be read back from it. -/
theorem readingLine_inj (he : readingLine t h = readingLine t' h') :
    t.tdiv 10 = t'.tdiv 10 ∧ (t.tmod 10).natAbs = (t'.tmod 10).natAbs ∧ h.tdiv 10 = h'.tdiv 10 ∧
      h.tmod 10 = h'.tmod 10 := by
  have hdot : ∀ n, '.' ∉ strInt n := notMem_strInt (by decide) (by decide)
  have hblank : ∀ n, ' ' ∉ strInt n := notMem_strInt (by decide) (by decide)
  unfold readingLine at he
  obtain ⟨hwhole, he⟩ := append_cons_inj (hdot _) (hdot _) (List.append_cancel_left he)
  obtain ⟨hfraction, he⟩ := append_cons_inj (hblank _) (hblank _) he
  obtain ⟨hwhole', he⟩ := append_cons_inj (hdot _) (hdot _) (List.append_cancel_left he)
  have hfraction' := (append_cons_inj (hblank _) (hblank _) he).1
  exact ⟨strInt_inj hwhole, Int.ofNat.inj (strInt_inj hfraction), strInt_inj hwhole', strInt_inj hfraction'⟩

/-- A whole part and a fraction are those of one number, or of two opposite ones below one. -/
theorem parts_eq_iff : t.tdiv 10 = t'.tdiv 10 ∧ (t.tmod 10).natAbs = (t'.tmod 10).natAbs ↔
    t = t' ∨ t = -t' ∧ t.natAbs < 10 := by
  have ht := Int.tmod_add_mul_tdiv t 10
  have ht' := Int.tmod_add_mul_tdiv t' 10
  have hm : (t.tmod 10).natAbs = t.natAbs % 10 := Int.natAbs_tmod t 10
  have hm' : (t'.tmod 10).natAbs = t'.natAbs % 10 := Int.natAbs_tmod t' 10
  have hd : (t.tdiv 10).natAbs = t.natAbs / 10 := Int.natAbs_tdiv t 10
  have hd' : (t'.tdiv 10).natAbs = t'.natAbs / 10 := Int.natAbs_tdiv t' 10
  constructor
  · rintro ⟨hwhole, hfraction⟩
    rw [hwhole] at ht
    omega
  · rintro (rfl | ⟨rfl, hlt⟩)
    · exact ⟨rfl, rfl⟩
    · rw [Int.neg_tdiv, Int.neg_tmod, Int.natAbs_neg]
      omega

theorem toInt_humidity (h : humidityOf timings ≤ 1000) :
    (BitVec.ofNat 16 (humidityOf timings)).toInt = humidityOf timings := by
  have hnat : (BitVec.ofNat 16 (humidityOf timings)).toNat = humidityOf timings := by
    rw [BitVec.toNat_ofNat, Nat.mod_eq_of_lt (humidityOf_lt _)]
  rw [BitVec.toInt_eq_toNat_of_lt (by rw [hnat]; omega), hnat]

theorem loop_some (r : Reading) :
    loop (some r) = ["Reading sensor...".toList, readingLine r.temperature.toInt r.humidity.toInt] := rfl

/-- The text of a reading that is accepted. -/
theorem loop_analysed {printed : List String} (h : (analysed timings printed).2.errorFlag = false)
    (hrange : humidityOf timings ≤ 1000) :
    loop (analysed timings printed).1 =
      ["Reading sensor...".toList, readingLine (decoded timings).1 (decoded timings).2] := by
  rw [analysed_decodes (decodes_of_analysed h), loop_some, toInt_signed (temperatureOf_lt _), toInt_humidity hrange,
    decoded]

/-- **Two readings are printed alike** exactly if they are opposite ones below one degree. -/
theorem loop_ne_iff_notOpposite {printed printed' : List String}
    (h : (analysed timings printed).2.errorFlag = false) (h' : (analysed timings' printed').2.errorFlag = false)
    (hrange : humidityOf timings ≤ 1000) (hrange' : humidityOf timings' ≤ 1000)
    (hne : decoded timings ≠ decoded timings') :
    loop (analysed timings printed).1 ≠ loop (analysed timings' printed').1 ↔
      ¬ OppositeBelowOne (decoded timings) (decoded timings') := by
  rw [loop_analysed h hrange, loop_analysed h' hrange']
  refine not_congr ⟨fun he => ?_, fun ⟨ht, hlt, hh⟩ => ?_⟩
  · obtain ⟨ht, hfraction, hwhole', hfraction'⟩ := readingLine_inj (List.cons.inj (List.cons.inj he).2).1
    have hh : (decoded timings).2 = (decoded timings').2 := by
      have := Int.tmod_add_mul_tdiv (decoded timings).2 10
      have := Int.tmod_add_mul_tdiv (decoded timings').2 10
      omega
    rcases parts_eq_iff.1 ⟨ht, hfraction⟩ with heq | ⟨hopposite, hlt⟩
    · exact absurd (Prod.ext heq hh) hne
    · exact ⟨hopposite, hlt, hh⟩
  · obtain ⟨hwhole, hfraction⟩ := parts_eq_iff.2 (Or.inr ⟨ht, hlt⟩)
    unfold readingLine
    rw [hwhole, hfraction, hh]

/-- The pulses of the last bits of a number, the most significant one first. -/
def pulses (n : Nat) : Nat → List Int
  | 0     => []
  | k + 1 => 50 :: (if n.testBit k then 70 else 25) :: pulses n k

/-- A capture as the sensor sends it. -/
def capture (humid16 temp16 : Nat) : List Int :=
  List.replicate 5 80 ++ pulses humid16 16 ++ pulses temp16 16 ++ pulses (byteSum humid16 temp16) 8 ++ [50, 0, 0]

theorem accepted_capture {humid16 temp16 : Nat} (h : Decodes (capture humid16 temp16)) (printed : List String) :
    (analysed (capture humid16 temp16) printed).2.errorFlag = false := by
  rw [analysed_decodes h]

theorem accepted_above : (analysed (capture 534 5) []).2.errorFlag = false := accepted_capture (by decide) []

theorem accepted_below : (analysed (capture 534 0x8005) []).2.errorFlag = false := accepted_capture (by decide) []

theorem loop_ne_iff_notOpposite_half : loop (analysed (capture 534 5) []).1 ≠ loop (analysed (capture 534 0x8005) []).1 ↔
    ¬ OppositeBelowOne (decoded (capture 534 5)) (decoded (capture 534 0x8005)) :=
  loop_ne_iff_notOpposite accepted_above accepted_below (by decide) (by decide) (by decide)

/-- **Half a degree above freezing and half a degree below it** are printed alike. -/
theorem half_printed_alike :
    (analysed (capture 534 5) []).2.errorFlag = false ∧ (analysed (capture 534 0x8005) []).2.errorFlag = false ∧
    decoded (capture 534 5) = (5, 534) ∧ decoded (capture 534 0x8005) = (-5, 534) ∧
    loop (analysed (capture 534 5) []).1 = loop (analysed (capture 534 0x8005) []).1 := by
  have hdec : decoded (capture 534 5) = (5, 534) := by decide
  have hdec' : decoded (capture 534 0x8005) = (-5, 534) := by decide
  refine ⟨accepted_above, accepted_below, hdec, hdec', ?_⟩
  rw [loop_analysed accepted_above (by decide), loop_analysed accepted_below (by decide), hdec, hdec']
  decide

end Rht03
end Scrapcode
