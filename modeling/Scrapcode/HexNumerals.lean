import Scrapcode.ByteText
/-!
# HexNumerals — `strtol` in base 16

The C function on a string: whitespace, a sign, `0x` in front of a digit, and digits, as many as there are; what is
left is where its end pointer points.  Without a digit the end pointer is at the beginning.  A value that a `long` does
not hold is replaced by the nearest one, and only then is `errno` set.

`numeral_iff` says which strings are read to their end, and as what number.
-/
namespace Scrapcode
namespace HexNumerals

open ByteText

def isHexDigit (c : Char) : Bool :=
  c.isDigit || (decide ('a' ≤ c) && decide (c ≤ 'f')) || (decide ('A' ≤ c) && decide (c ≤ 'F'))

def hexDigit (c : Char) : Nat :=
  if c.isDigit then c.toNat - '0'.toNat else if 'a' ≤ c then c.toNat - 'a'.toNat + 10 else c.toNat - 'A'.toNat + 10

def hexValue (ds : Str) : Nat := ds.foldl (fun n c => 16 * n + hexDigit c) 0

/-! ## Reading -/

def takeSign : Str → Sign × Str
  | '-' :: s => (.minus, s)
  | '+' :: s => (.plus, s)
  | s        => (.none, s)

/-- `0x` is read over where a digit comes after it. -/
def dropHexPrefix : Str → Str
  | '0' :: x :: d :: s => if (x = 'x' ∨ x = 'X') ∧ isHexDigit d = true then d :: s else '0' :: x :: d :: s
  | s                  => s

def takeDigits (s : Str) : Option (Nat × Str) :=
  if s.takeWhile isHexDigit = [] then none else some (hexValue (s.takeWhile isHexDigit), s.dropWhile isHexDigit)

/-- The numeral at the front of a string: its value and what is left. -/
def scan (s : Str) : Option (Int × Str) :=
  (takeDigits (dropHexPrefix (takeSign (s.dropWhile isSpace)).2)).map
    (fun r => ((takeSign (s.dropWhile isSpace)).1.value r.1, r.2))

def longMax : Int := 0x7fffffffffffffff

def longMin : Int := -0x8000000000000000

def erange : Nat := 34

structure Result where
  value : Int
  rest  : Str
  errno : Nat
deriving DecidableEq, Repr

/-- What a `long` holds of a value. -/
def clamp (v : Int) : Int := if longMax < v then longMax else if v < longMin then longMin else v

/-- `strtol(s, &endptr, 16)`, with `errno` before and after. -/
def strtol (errno : Nat) (s : Str) : Result :=
  match scan s with
  | none           => ⟨0, s, errno⟩
  | some (v, rest) => ⟨clamp v, rest, if clamp v ≠ v then erange else errno⟩

/-! ## What is read to the end -/

/-- **A hexadecimal numeral**: optional whitespace, an optional sign, an optional `0x`, and at least one digit. -/
def Numeral (s : Str) (v : Int) : Prop :=
  ∃ ws g pre ds, (∀ c ∈ ws, isSpace c = true) ∧ (pre = [] ∨ pre = ['0', 'x'] ∨ pre = ['0', 'X']) ∧
    (ds ≠ [] ∧ ∀ c ∈ ds, isHexDigit c = true) ∧ s = ws ++ (Sign.text g ++ (pre ++ ds)) ∧ v = g.value (hexValue ds)

variable {s t : Str} {c : Char} {v : Int}

theorem clamp_eq_iff : clamp v = v ↔ longMin ≤ v ∧ v ≤ longMax := by
  have hlimits : longMin < longMax := by decide
  unfold clamp
  split_ifs <;> omega

theorem ne_of_isHexDigit (h : isHexDigit c = true) : isSpace c = false ∧ c ≠ '-' ∧ c ≠ '+' ∧ c ≠ 'x' ∧ c ≠ 'X' := by
  refine ⟨Bool.eq_false_iff.2 (fun hs => ?_), ?_, ?_, ?_, ?_⟩
  · simp only [isSpace, Bool.or_eq_true, beq_iff_eq] at hs
    rcases hs with ((((rfl | rfl) | rfl) | rfl) | rfl) | rfl <;> exact absurd h (by decide)
  all_goals rintro rfl; exact absurd h (by decide)

/-- The text of a numeral after its sign. -/
def IsBody (t : Str) (n : Nat) : Prop :=
  ∃ pre ds, (pre = [] ∨ pre = ['0', 'x'] ∨ pre = ['0', 'X']) ∧ (ds ≠ [] ∧ ∀ c ∈ ds, isHexDigit c = true) ∧
    t = pre ++ ds ∧ n = hexValue ds

theorem takeDigits_eq_some {n : Nat} : takeDigits t = some (n, []) ↔
    (t ≠ [] ∧ ∀ c ∈ t, isHexDigit c = true) ∧ n = hexValue t := by
  unfold takeDigits
  constructor
  · intro h
    by_cases hnil : t.takeWhile isHexDigit = []
    · rw [if_pos hnil] at h; cases h
    · rw [if_neg hnil, Option.some.injEq, Prod.mk.injEq] at h
      have hall : ∀ c ∈ t, isHexDigit c = true := List.dropWhile_eq_nil_iff.1 h.2
      have htake : t.takeWhile isHexDigit = t := List.takeWhile_eq_self_iff.2 hall
      rw [htake] at hnil h
      exact ⟨⟨hnil, hall⟩, h.1.symm⟩
  · rintro ⟨⟨hne, hall⟩, rfl⟩
    rw [List.takeWhile_eq_self_iff.2 hall, List.dropWhile_eq_nil_iff.2 hall, if_neg hne]

theorem dropHexPrefix_of_digits (h : ∀ c ∈ t, isHexDigit c = true) : dropHexPrefix t = t := by
  unfold dropHexPrefix
  split
  · rename_i x d s
    have hx := ne_of_isHexDigit (h x (by simp))
    exact if_neg (fun hc => hc.1.elim hx.2.2.2.1 hx.2.2.2.2)
  · rfl

theorem isBody_iff {n : Nat} : IsBody t n ↔ takeDigits (dropHexPrefix t) = some (n, []) := by
  rw [takeDigits_eq_some]
  constructor
  · rintro ⟨pre, ds, hpre, ⟨hne, hall⟩, rfl, rfl⟩
    obtain ⟨d, ds, rfl⟩ := List.exists_cons_of_ne_nil hne
    have hd : isHexDigit d = true := hall d List.mem_cons_self
    have hdrop : dropHexPrefix (pre ++ d :: ds) = d :: ds := by
      rcases hpre with rfl | rfl | rfl
      · exact dropHexPrefix_of_digits hall
      · exact if_pos ⟨Or.inl rfl, hd⟩
      · exact if_pos ⟨Or.inr rfl, hd⟩
    rw [hdrop]
    exact ⟨⟨hne, hall⟩, rfl⟩
  · intro h
    unfold dropHexPrefix at h
    split at h
    · rename_i x d s
      split_ifs at h with hx
      · refine ⟨['0', x], d :: s, ?_, h.1, rfl, h.2⟩
        rcases hx.1 with rfl | rfl
        · exact Or.inr (Or.inl rfl)
        · exact Or.inr (Or.inr rfl)
      · exact ⟨[], _, Or.inl rfl, h.1, rfl, h.2⟩
    · exact ⟨[], _, Or.inl rfl, h.1, rfl, h.2⟩

theorem IsBody.exists_cons {n : Nat} (h : IsBody t n) : ∃ c u, t = c :: u ∧ isHexDigit c = true := by
  obtain ⟨pre, ds, hpre, ⟨hne, hall⟩, rfl, -⟩ := h
  obtain ⟨d, ds, rfl⟩ := List.exists_cons_of_ne_nil hne
  rcases hpre with rfl | rfl | rfl
  · exact ⟨d, ds, rfl, hall d List.mem_cons_self⟩
  · exact ⟨'0', _, rfl, by decide⟩
  · exact ⟨'0', _, rfl, by decide⟩

theorem takeSign_eq (s : Str) : s = (takeSign s).1.text ++ (takeSign s).2 := by
  unfold takeSign
  split <;> rfl

theorem takeSign_append (g : Sign) (h : isHexDigit c = true) (u : Str) : takeSign (g.text ++ c :: u) = (g, c :: u) := by
  obtain ⟨-, hminus, hplus, -⟩ := ne_of_isHexDigit h
  cases g with
  | plus  => rfl
  | minus => rfl
  | none  =>
    show takeSign (c :: u) = _
    unfold takeSign
    split
    · rename_i heq; exact absurd (List.cons.inj heq).1 hminus
    · rename_i heq; exact absurd (List.cons.inj heq).1 hplus
    · rfl

theorem dropWhile_sign (g : Sign) (h : isHexDigit c = true) (u : Str) :
    (g.text ++ c :: u).dropWhile isSpace = g.text ++ c :: u := by
  have hc := (ne_of_isHexDigit h).1
  cases g with
  | plus  => rfl
  | minus => rfl
  | none  => exact List.dropWhile_cons_of_neg (by rw [hc]; decide)

/-- **The strings that are read to the end** are the numerals. -/
theorem numeral_iff : Numeral s v ↔ scan s = some (v, []) := by
  unfold scan
  constructor
  · rintro ⟨ws, g, pre, ds, hws, hpre, hds, rfl, rfl⟩
    have hbody : IsBody (pre ++ ds) (hexValue ds) := ⟨pre, ds, hpre, hds, rfl, rfl⟩
    obtain ⟨c, u, hcons, hc⟩ := hbody.exists_cons
    have hdrop : (ws ++ (g.text ++ (pre ++ ds))).dropWhile isSpace = g.text ++ (pre ++ ds) := by
      rw [List.dropWhile_append, List.dropWhile_eq_nil_iff.2 hws, hcons]
      exact dropWhile_sign g hc u
    have hsign : takeSign (g.text ++ (pre ++ ds)) = (g, pre ++ ds) := by rw [hcons]; exact takeSign_append g hc u
    rw [hdrop, hsign, isBody_iff.1 hbody]
    rfl
  · intro h
    obtain ⟨⟨n, rest⟩, hdigits, heq⟩ := Option.map_eq_some_iff.1 h
    obtain ⟨rfl, rfl⟩ := Prod.mk.inj heq
    obtain ⟨pre, ds, hpre, hds, ht, rfl⟩ := isBody_iff.2 hdigits
    refine ⟨s.takeWhile isSpace, (takeSign (s.dropWhile isSpace)).1, pre, ds,
      fun c hc => List.mem_takeWhile_imp hc, hpre, hds, ?_, rfl⟩
    rw [← ht, ← takeSign_eq, List.takeWhile_append_dropWhile]

theorem Numeral.unique {w : Int} (hv : Numeral s v) (hw : Numeral s w) : v = w := by
  rw [numeral_iff] at hv hw
  exact (Prod.mk.inj (Option.some.inj (hv.symm.trans hw))).1

example : strtol 0 " -0x1F".toList = ⟨-31, [], 0⟩ := by decide

end HexNumerals
end Scrapcode
