import Scrapcode.HexNumerals
/-!
# Hex2dec — `hex2dec.c`

The function gives a string to `strtol` and raises where something is left, or where the value is the greatest one and
`errno` says that it was out of range.  Two things are missing.  The empty string leaves nothing and is 0, and a value
below the range comes back as the least one (`acceptsNumerals_iff`).  And `errno` is not set to zero before the call, so
after an overflow the greatest value itself is refused (`historyIndependent_iff`).
-/
namespace Scrapcode
namespace Hex2dec

open ByteText HexNumerals

/-- A value of the type `text`, which has no null byte. -/
structure Text where
  bytes  : Str
  noNull : '\x00' ∉ bytes

inductive Error where
  | couldNotDecode (hexstr : Str)
  | overflows (hexstr : Str)
deriving DecidableEq, Repr

def Error.text : Error → Str
  | .couldNotDecode hexstr => "Could not decode input string ".toList ++ hexstr ++ " as hex".toList
  | .overflows hexstr      => "Input hex string ".toList ++ hexstr ++ " overflows int64".toList

/-- The function, with `errno` before and after. -/
def hex2dec (errno : Nat) (hexstr : Text) : Except Error Int × Nat :=
  match strtol errno hexstr.bytes with
  | ⟨decval, endpos, errno⟩ =>
    if endpos ≠ [] then (.error (.couldNotDecode hexstr.bytes), errno)
    else if decval = longMax ∧ errno = erange then (.error (.overflows hexstr.bytes), errno)
    else (.ok decval, errno)

/-- Calls one after the other in a backend. -/
def hex2decs : Nat → List Text → List (Except Error Int)
  | _, []          => []
  | errno, t :: ts => (hex2dec errno t).1 :: hex2decs (hex2dec errno t).2 ts

/-- **Exactly the numerals are accepted**, with their values, as far as these fit in 64 bits. -/
def AcceptsNumerals (t : Text) : Prop :=
  ∀ v, (hex2dec 0 t).1 = .ok v ↔ Numeral t.bytes v ∧ longMin ≤ v ∧ v ≤ longMax

/-- **Each call ends as if it were the first.** -/
def HistoryIndependent (ts : List Text) : Prop := hex2decs 0 ts = ts.map (fun t => (hex2dec 0 t).1)

/-- The numeral at the front of the text is out of range, on either side. -/
def Overflows (t : Text) : Prop := ∃ v rest, scan t.bytes = some (v, rest) ∧ clamp v ≠ v

variable {t : Text} {v : Int} {rest : Str} {errno : Nat}

/-! ## One call -/

theorem hex2dec_of_none (h : scan t.bytes = none) : hex2dec errno t =
    (if t.bytes ≠ [] then .error (.couldNotDecode t.bytes) else .ok 0, errno) := by
  have h0 : ¬ ((0 : Int) = longMax ∧ errno = erange) := fun h => absurd h.1 (by decide)
  simp only [hex2dec, strtol, h, if_neg h0]
  split_ifs <;> rfl

theorem hex2dec_of_rest (h : scan t.bytes = some (v, rest)) (hrest : rest ≠ []) :
    (hex2dec errno t).1 = .error (.couldNotDecode t.bytes) := by
  simp only [hex2dec, strtol, h, if_pos hrest]

/-- **A numeral** comes back as `strtol` has it, or is refused. -/
theorem hex2dec_of_numeral (h : Numeral t.bytes v) : (hex2dec errno t).1 =
    if clamp v = longMax ∧ (clamp v ≠ v ∨ errno = erange) then .error (.overflows t.bytes) else .ok (clamp v) := by
  have herrno : (if clamp v ≠ v then erange else errno) = erange ↔ clamp v ≠ v ∨ errno = erange := by
    by_cases hv : clamp v ≠ v
    · rw [if_pos hv]; exact iff_of_true rfl (Or.inl hv)
    · rw [if_neg hv, or_iff_right hv]
  simp only [hex2dec, strtol, numeral_iff.1 h, herrno, ne_eq, not_true_eq_false, if_false]
  split_ifs <;> rfl

theorem hex2dec_errno (errno : Nat) (t : Text) :
    (Overflows t → (hex2dec errno t).2 = erange) ∧ (¬ Overflows t → (hex2dec errno t).2 = errno) := by
  cases h : scan t.bytes with
  | none =>
    rw [hex2dec_of_none h]
    refine ⟨?_, fun _ => rfl⟩
    rintro ⟨v, rest, hscan, -⟩
    rw [h] at hscan
    cases hscan
  | some r =>
    have hover : Overflows t ↔ clamp r.1 ≠ r.1 := by
      constructor
      · rintro ⟨v, rest, hscan, hv⟩
        rw [h, Option.some.injEq] at hscan
        rw [hscan]
        exact hv
      · exact fun hv => ⟨r.1, r.2, h, hv⟩
    have hsnd : (hex2dec errno t).2 = if clamp r.1 ≠ r.1 then erange else errno := by
      simp only [hex2dec, strtol, h]
      split_ifs <;> rfl
    rw [hsnd, hover]
    exact ⟨fun hv => if_pos hv, fun hv => if_neg hv⟩

/-- What is not a numeral is refused, but for the empty text. -/
theorem hex2dec_of_not_numeral (h : ∀ v, ¬ Numeral t.bytes v) (hne : t.bytes ≠ []) :
    (hex2dec errno t).1 = .error (.couldNotDecode t.bytes) := by
  cases hscan : scan t.bytes with
  | none   => rw [hex2dec_of_none hscan, if_pos hne]
  | some r =>
    by_cases hrest : r.2 = []
    · exact absurd (numeral_iff.2 (hscan.trans (by rw [← hrest]))) (h r.1)
    · exact hex2dec_of_rest hscan hrest

/-! ## What is accepted -/

theorem hex2dec_zero_of_numeral (h : Numeral t.bytes v) :
    (hex2dec 0 t).1 = if longMax < v then .error (.overflows t.bytes) else .ok (clamp v) := by
  have hrange : clamp v = longMax ∧ (clamp v ≠ v ∨ 0 = erange) ↔ longMax < v := by
    have hlimits : longMin < longMax := by decide
    have h0 : ¬ 0 = erange := by decide
    unfold clamp
    split_ifs <;> omega
  rw [hex2dec_of_numeral h]
  simp only [hrange]

theorem acceptsNumerals_iff_of_numeral (hv : Numeral t.bytes v) : AcceptsNumerals t ↔ longMin ≤ v := by
  unfold AcceptsNumerals
  rw [hex2dec_zero_of_numeral hv]
  by_cases hmax : longMax < v
  · rw [if_pos hmax]
    have hmin : longMin ≤ v := Int.le_trans (by decide) (Int.le_of_lt hmax)
    refine iff_of_true (fun w => iff_of_false (fun h => by cases h) ?_) hmin
    rintro ⟨hw, -, hle⟩
    exact absurd (hw.unique hv ▸ hle) (Int.not_le.2 hmax)
  · rw [if_neg hmax]
    constructor
    · intro h
      obtain ⟨hclamp, hmin, -⟩ := (h (clamp v)).1 rfl
      exact hclamp.unique hv ▸ hmin
    · intro hmin w
      have hfits : clamp v = v := clamp_eq_iff.2 ⟨hmin, Int.not_lt.1 hmax⟩
      rw [hfits, Except.ok.injEq]
      constructor
      · rintro rfl
        exact ⟨hv, hmin, Int.not_lt.1 hmax⟩
      · exact fun h => hv.unique h.1

/-- **The numerals that fit are what is accepted** exactly for a text that is not empty and is no numeral below the
range. -/
theorem acceptsNumerals_iff (t : Text) : AcceptsNumerals t ↔ t.bytes ≠ [] ∧ ∀ v, Numeral t.bytes v → longMin ≤ v := by
  by_cases hnum : ∃ v, Numeral t.bytes v
  · obtain ⟨v, hv⟩ := hnum
    have hne : t.bytes ≠ [] := fun h => by
      rw [numeral_iff, h] at hv
      cases hv
    rw [acceptsNumerals_iff_of_numeral hv, and_iff_right hne]
    exact ⟨fun h w hw => hw.unique hv ▸ h, fun h => h v hv⟩
  · have hnone : ∀ v, ¬ Numeral t.bytes v := fun v hv => hnum ⟨v, hv⟩
    rw [and_iff_left (fun v hv => absurd hv (hnone v))]
    constructor
    · intro h hnil
      have hzero : (hex2dec 0 t).1 = .ok 0 := by
        rw [hex2dec_of_none (by rw [hnil]; rfl), hnil]; rfl
      exact hnone 0 ((h 0).1 hzero).1
    · intro hne v
      rw [hex2dec_of_not_numeral hnone hne]
      exact iff_of_false (fun h => by cases h) (fun h => hnone v h.1)

/-- **The empty text** is 0. -/
theorem not_acceptsNumerals_nil : ¬ AcceptsNumerals ⟨[], List.not_mem_nil⟩ := by
  intro h
  obtain ⟨ws, g, pre, ds, -, -, ⟨hne, -⟩, hnil, -⟩ := ((h 0).1 rfl).1
  have happ := (List.append_eq_nil_iff.1 hnil.symm).2
  exact hne (List.append_eq_nil_iff.1 (List.append_eq_nil_iff.1 happ).2).2

/-! ## Calls in a row -/

/-- The text is the greatest value. -/
def IsMax (t : Text) : Prop := Numeral t.bytes longMax

/-- The greatest value fits, and is taken for an overflow after one. -/
theorem hex2dec_of_isMax (h : IsMax t) :
    (hex2dec errno t).1 = if errno = erange then .error (.overflows t.bytes) else .ok longMax := by
  have hfits : clamp longMax = longMax := by decide
  rw [hex2dec_of_numeral h, hfits]
  simp only [ne_eq, not_true_eq_false, false_or, true_and]

/-- Another value comes to `longMax` by an overflow of its own. -/
theorem hex2dec_of_ne_longMax (h : Numeral t.bytes v) (hv : v ≠ longMax) :
    (hex2dec errno t).1 = if clamp v = longMax then .error (.overflows t.bytes) else .ok (clamp v) := by
  have hcond : clamp v = longMax ∧ (clamp v ≠ v ∨ errno = erange) ↔ clamp v = longMax :=
    and_iff_left_of_imp (fun hc => Or.inl (fun hfits => hv (hfits.symm.trans hc)))
  rw [hex2dec_of_numeral h]
  exact if_congr hcond rfl rfl

/-- **`errno` makes a difference** for the greatest value only. -/
theorem hex2dec_errno_eq (errno : Nat) (t : Text) :
    (hex2dec errno t).1 = (hex2dec 0 t).1 ↔ ¬ (errno = erange ∧ IsMax t) := by
  by_cases hnum : ∃ v, Numeral t.bytes v
  · obtain ⟨v, hv⟩ := hnum
    by_cases hmax : v = longMax
    · subst hmax
      have h0 : ¬ 0 = erange := by decide
      rw [hex2dec_of_isMax hv, hex2dec_of_isMax hv, if_neg h0]
      by_cases he : errno = erange
      · rw [if_pos he]
        exact iff_of_false (fun h => by cases h) (fun h => h ⟨he, hv⟩)
      · rw [if_neg he]
        exact iff_of_true rfl (fun h => he h.1)
    · rw [hex2dec_of_ne_longMax hv hmax, hex2dec_of_ne_longMax hv hmax]
      exact iff_of_true rfl (fun h => hmax (hv.unique h.2))
  · have hnone : ∀ v, ¬ Numeral t.bytes v := fun v hv => hnum ⟨v, hv⟩
    refine iff_of_true ?_ (fun h => hnone _ h.2)
    by_cases hne : t.bytes = []
    · have hscan : scan t.bytes = none := by rw [hne]; rfl
      rw [hex2dec_of_none hscan, hex2dec_of_none hscan]
    · rw [hex2dec_of_not_numeral hnone hne, hex2dec_of_not_numeral hnone hne]

theorem errno_after (errno : Nat) (t : Text) : (hex2dec errno t).2 = erange ↔ Overflows t ∨ errno = erange := by
  obtain ⟨hover, hkeep⟩ := hex2dec_errno errno t
  by_cases h : Overflows t
  · exact iff_of_true (hover h) (Or.inl h)
  · rw [hkeep h, or_iff_right h]

theorem hex2decs_eq_map : ∀ (ts : List Text) (errno : Nat), hex2decs errno ts = ts.map (fun t => (hex2dec 0 t).1) ↔
    (errno = erange → ∀ t ∈ ts, ¬ IsMax t) ∧ ts.Pairwise (fun t t' => ¬ (Overflows t ∧ IsMax t'))
  | [], _          => iff_of_true rfl ⟨fun _ _ h => absurd h List.not_mem_nil, .nil⟩
  | t :: ts, errno => by
    rw [hex2decs, List.map_cons, List.cons.injEq, hex2dec_errno_eq, hex2decs_eq_map ts, errno_after,
      List.pairwise_cons, List.forall_mem_cons]
    constructor
    · rintro ⟨hhead, hafter, hpairs⟩
      exact ⟨fun he => ⟨fun hm => hhead ⟨he, hm⟩, hafter (Or.inr he)⟩,
        fun t' ht' h => hafter (Or.inl h.1) t' ht' h.2, hpairs⟩
    · rintro ⟨hstart, hover, hpairs⟩
      refine ⟨fun h => (hstart h.1).1 h.2, fun h t' ht' hm => ?_, hpairs⟩
      rcases h with ho | he
      · exact hover t' ht' ⟨ho, hm⟩
      · exact (hstart he).2 t' ht' hm

/-- **A row of calls does not depend on its history** exactly where no greatest value comes after an overflow. -/
theorem historyIndependent_iff (ts : List Text) :
    HistoryIndependent ts ↔ ts.Pairwise (fun t t' => ¬ (Overflows t ∧ IsMax t')) := by
  unfold HistoryIndependent
  rw [hex2decs_eq_map]
  exact and_iff_right (fun h => absurd h (by decide))

def tooLarge : Text := ⟨"ffffffffffffffff".toList, by decide⟩

def greatest : Text := ⟨"7fffffffffffffff".toList, by decide⟩

/-- **The greatest value after an overflow** is refused; alone it is not. -/
theorem not_historyIndependent_greatest : ¬ HistoryIndependent [tooLarge, greatest] := by
  unfold HistoryIndependent
  decide +kernel

end Hex2dec
end Scrapcode
