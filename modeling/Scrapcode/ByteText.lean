import Mathlib.Algebra.Group.Nat.Defs
import Mathlib.Data.List.DropRight
/-!
# ByteText — byte strings as the scripts use them

A byte string is a list of characters, one for each byte.  Here are the operations of the language on them: `strip`,
the `%Ns` conversion (a minimum width, filled with spaces on the left), the lines of a file, `str` and `int` of a
number.

`int` and `str` agree on the natural numbers (`int_str`), and `strip` takes off what `%Ns` put on (`strip_rjust`) and
the end of a line (`strip_concat`).
-/
namespace Scrapcode
namespace ByteText

abbrev Str := List Char

def isSpace (c : Char) : Bool := c == ' ' || c == '\t' || c == '\n' || c == '\r' || c == '\x0b' || c == '\x0c'

def strip (s : Str) : Str := (s.dropWhile isSpace).rdropWhile isSpace

/-- The string neither begins nor ends with whitespace. -/
def Trimmed (s : Str) : Prop := s.head?.any isSpace = false ∧ s.getLast?.any isSpace = false

instance (s : Str) : Decidable (Trimmed s) :=
  inferInstanceAs (Decidable (s.head?.any isSpace = false ∧ s.getLast?.any isSpace = false))

def rjust (width : Nat) (s : Str) : Str := List.replicate (width - s.length) ' ' ++ s

/-- The lines of a file, each with the `\n` that ends it. -/
def fileLines : Str → List Str
  | []      => []
  | c :: cs =>
    if c = '\n' then [c] :: fileLines cs
    else
      match fileLines cs with
      | []      => [[c]]
      | l :: ls => (c :: l) :: ls

def str (n : Nat) : Str := Nat.toDigits 10 n

/-- `%i` of an integer. -/
def strInt (n : Int) : Str := if n < 0 then '-' :: str n.natAbs else str n.natAbs

def digits (s : Str) : Option Nat := if s ≠ [] ∧ s.all Char.isDigit then some (Nat.ofDigitChars 10 s 0) else none

def int (s : Str) : Option Int :=
  match strip s with
  | '-' :: ds => (digits ds).map (fun n => -(n : Int))
  | '+' :: ds => (digits ds).map (fun n => (n : Int))
  | ds        => (digits ds).map (fun n => (n : Int))

/-- The sign a number may have. -/
inductive Sign where
  | none
  | plus
  | minus
deriving DecidableEq, Repr

def Sign.text : Sign → Str
  | .none  => []
  | .plus  => ['+']
  | .minus => ['-']

def Sign.value : Sign → Nat → Int
  | .minus, n => -(n : Int)
  | _, n      => n

variable {s t : Str} {width n : Nat}

theorem Trimmed.dropWhile_append (h : Trimmed s) (hs : s ≠ []) (t : Str) : (s ++ t).dropWhile isSpace = s ++ t := by
  cases s with
  | nil      => exact absurd rfl hs
  | cons c s => exact List.dropWhile_cons_of_neg (by rw [show isSpace c = false from h.1]; decide)

theorem Trimmed.strip_eq (h : Trimmed s) : strip s = s := by
  have hl : s.dropWhile isSpace = s := by
    cases s with
    | nil      => rfl
    | cons c s => exact List.dropWhile_cons_of_neg (by rw [show isSpace c = false from h.1]; decide)
  unfold strip
  rw [hl]
  refine List.rdropWhile_eq_self_iff.2 (fun hne hc => ?_)
  have hlast := h.2
  rw [List.getLast?_eq_some_getLast hne, Option.any_some, hc] at hlast
  cases hlast

/-- **`strip` takes off the whitespace** on both sides of a text. -/
theorem strip_append {l r : Str} (h : Trimmed t) (ht : t ≠ []) (hl : ∀ c ∈ l, isSpace c = true)
    (hr : ∀ c ∈ r, isSpace c = true) : strip (l ++ (t ++ r)) = t := by
  have hleft : (l ++ (t ++ r)).dropWhile isSpace = t ++ r := by
    rw [List.dropWhile_append, List.dropWhile_eq_nil_iff.2 hl]
    exact h.dropWhile_append ht r
  have hright : (t ++ r).rdropWhile isSpace = t.rdropWhile isSpace := by
    simp only [List.rdropWhile, List.reverse_append, List.dropWhile_append]
    rw [List.dropWhile_eq_nil_iff.2 (fun c hc => hr c (List.mem_reverse.1 hc))]
    rfl
  have hd : t.dropWhile isSpace = t := by simpa using h.dropWhile_append ht []
  have hs : (t.dropWhile isSpace).rdropWhile isSpace = t := h.strip_eq
  unfold strip
  rw [hleft, hright]
  rwa [hd] at hs

/-- **`strip` takes off the character that ends a line.** -/
theorem strip_concat (h : Trimmed s) (hs : s ≠ []) {c : Char} (hc : isSpace c = true) : strip (s ++ [c]) = s :=
  strip_append (l := []) h hs (fun _ hm => absurd hm List.not_mem_nil) (fun _ hm => List.mem_singleton.1 hm ▸ hc)

theorem exists_strip (s : Str) : ∃ l r, (∀ c ∈ l, isSpace c = true) ∧ (∀ c ∈ r, isSpace c = true) ∧
    s = l ++ (strip s ++ r) := by
  generalize hd : s.dropWhile isSpace = d
  refine ⟨s.takeWhile isSpace, (d.reverse.takeWhile isSpace).reverse, fun c hc => List.mem_takeWhile_imp hc,
    fun c hc => List.mem_takeWhile_imp (List.mem_reverse.1 hc), ?_⟩
  have hright : strip s ++ (d.reverse.takeWhile isSpace).reverse = d := by
    unfold strip List.rdropWhile
    rw [hd, ← List.reverse_append, List.takeWhile_append_dropWhile, List.reverse_reverse]
  rw [hright, ← hd, List.takeWhile_append_dropWhile]

theorem trimmed_strip (s : Str) : Trimmed (strip s) := by
  refine ⟨?_, ?_⟩
  · cases hs : strip s with
    | nil      => rfl
    | cons c t =>
      obtain ⟨r, hr⟩ := List.rdropWhile_prefix isSpace (s.dropWhile isSpace)
      have hhead := List.head?_dropWhile_not isSpace s
      rw [← hr, show (s.dropWhile isSpace).rdropWhile isSpace = c :: t from hs] at hhead
      simpa using hhead
  · by_cases hs : strip s = []
    · rw [hs]; rfl
    · rw [List.getLast?_eq_some_getLast hs, Option.any_some]
      exact Bool.eq_false_iff.2 (List.rdropWhile_last_not isSpace _ hs)

theorem Trimmed.append (h : Trimmed s) (ht : Trimmed t) (hs : s ≠ []) (hne : t ≠ []) (u : Str) :
    Trimmed (s ++ (u ++ t)) := by
  refine ⟨?_, ?_⟩
  · rw [List.head?_append_of_ne_nil _ hs]; exact h.1
  · rw [← List.append_assoc, List.getLast?_append_of_ne_nil _ hne]; exact ht.2

theorem fileLines_append (h : '\n' ∉ s) (t : Str) : fileLines (s ++ '\n' :: t) = (s ++ ['\n']) :: fileLines t := by
  induction s with
  | nil => rfl
  | cons c s ih =>
    rw [List.mem_cons, not_or] at h
    rw [List.cons_append, fileLines, if_neg (Ne.symm h.1), ih h.2]
    rfl

theorem length_rjust (width : Nat) (s : Str) : (rjust width s).length = max width s.length := by
  rw [rjust, List.length_append, List.length_replicate]; omega

theorem dropWhile_replicate_append (k : Nat) (s : Str) :
    (List.replicate k ' ' ++ s).dropWhile isSpace = s.dropWhile isSpace := by
  induction k with
  | zero      => rfl
  | succ k ih => rw [List.replicate_succ, List.cons_append, List.dropWhile_cons_of_pos (by decide), ih]

/-- **What `%Ns` fills in is whitespace.** -/
theorem strip_rjust (h : Trimmed s) (width : Nat) : strip (rjust width s) = s := by
  unfold strip rjust
  rw [dropWhile_replicate_append]
  exact h.strip_eq

theorem isDigit_of_mem_str {c : Char} (h : c ∈ str n) : c.isDigit = true :=
  Nat.isDigit_of_mem_toDigits (by decide) (by decide) h

theorem isSpace_of_isDigit {c : Char} (h : c.isDigit = true) : isSpace c = false := by
  rw [Bool.eq_false_iff]
  intro hs
  simp only [isSpace, Bool.or_eq_true, beq_iff_eq] at hs
  rcases hs with ((((rfl | rfl) | rfl) | rfl) | rfl) | rfl <;> exact absurd h (by decide)

theorem notMem_str {c : Char} (hc : c.isDigit = false) (n : Nat) : c ∉ str n := by
  intro h
  rw [isDigit_of_mem_str h] at hc
  cases hc

theorem str_ne_nil (n : Nat) : str n ≠ [] := Nat.toDigits_ne_nil

theorem trimmed_str (n : Nat) : Trimmed (str n) := by
  have hany : ∀ o : Option Char, (∀ c ∈ o, c ∈ str n) → o.any isSpace = false := by
    intro o ho
    cases o with
    | none   => rfl
    | some c => exact isSpace_of_isDigit (isDigit_of_mem_str (ho c rfl))
  exact ⟨hany _ (fun _ hc => List.mem_of_mem_head? hc), hany _ (fun _ hc => List.mem_of_mem_getLast? hc)⟩

theorem digits_str (n : Nat) : digits (str n) = some n := by
  unfold digits
  rw [if_pos ⟨Nat.toDigits_ne_nil, List.all_eq_true.2 (fun _ => isDigit_of_mem_str)⟩, str, Nat.ofDigitChars_ten_toDigits]

theorem digits_eq_some : digits s = some n ↔
    (s ≠ [] ∧ ∀ c ∈ s, c.isDigit = true) ∧ Nat.ofDigitChars 10 s 0 = n := by
  unfold digits
  by_cases h : s ≠ [] ∧ s.all Char.isDigit
  · rw [if_pos h, Option.some.injEq]
    exact (and_iff_right ⟨h.1, List.all_eq_true.1 h.2⟩).symm
  · rw [if_neg h]
    exact iff_of_false (Option.some_ne_none n).symm (fun hs => h ⟨hs.1.1, List.all_eq_true.2 hs.1.2⟩)

theorem trimmed_of_digits (g : Sign) (h : digits s = some n) : Trimmed (g.text ++ s) ∧ g.text ++ s ≠ [] := by
  obtain ⟨⟨hne, hdig⟩, -⟩ := digits_eq_some.1 h
  have hlast : (g.text ++ s).getLast?.any isSpace = false := by
    rw [List.getLast?_append_of_ne_nil _ hne, List.getLast?_eq_some_getLast hne]
    exact isSpace_of_isDigit (hdig _ (List.getLast_mem hne))
  cases s with
  | nil      => exact absurd rfl hne
  | cons c s =>
    have hc : isSpace c = false := isSpace_of_isDigit (hdig c List.mem_cons_self)
    cases g with
    | none  => exact ⟨⟨hc, hlast⟩, List.cons_ne_nil _ _⟩
    | plus  => exact ⟨⟨rfl, hlast⟩, List.cons_ne_nil _ _⟩
    | minus => exact ⟨⟨rfl, hlast⟩, List.cons_ne_nil _ _⟩

/-- **What `int` reads**: digits after a sign, which may be missing, with whitespace on both sides. -/
theorem int_eq_some {v : Int} : int s = some v ↔ ∃ l r g ds n, (∀ c ∈ l, isSpace c = true) ∧
    (∀ c ∈ r, isSpace c = true) ∧ s = l ++ (Sign.text g ++ ds ++ r) ∧ digits ds = some n ∧ v = g.value n := by
  constructor
  · intro h
    obtain ⟨l, r, hl, hr, hs⟩ := exists_strip s
    unfold int at h
    split at h
    · rename_i ds heq
      cases hd : digits ds with
      | none   => rw [hd] at h; cases h
      | some n => rw [hd] at h; exact ⟨l, r, .minus, ds, n, hl, hr, by rw [hs, heq]; rfl, hd, (Option.some.inj h).symm⟩
    · rename_i ds heq
      cases hd : digits ds with
      | none   => rw [hd] at h; cases h
      | some n => rw [hd] at h; exact ⟨l, r, .plus, ds, n, hl, hr, by rw [hs, heq]; rfl, hd, (Option.some.inj h).symm⟩
    · cases hd : digits (strip s) with
      | none   => rw [hd] at h; cases h
      | some n => rw [hd] at h; exact ⟨l, r, .none, strip s, n, hl, hr, hs, hd, (Option.some.inj h).symm⟩
  · rintro ⟨l, r, g, ds, n, hl, hr, rfl, hn, rfl⟩
    obtain ⟨htrim, hne⟩ := trimmed_of_digits g hn
    unfold int
    rw [strip_append htrim hne hl hr]
    have hdig := (digits_eq_some.1 hn).1.2
    cases g with
    | plus  => simp only [Sign.text, List.cons_append, List.nil_append, hn]; rfl
    | minus => simp only [Sign.text, List.cons_append, List.nil_append, hn]; rfl
    | none  =>
      rw [show Sign.none.text ++ ds = ds from rfl]
      split
      · exact absurd (hdig '-' List.mem_cons_self) (by decide)
      · exact absurd (hdig '+' List.mem_cons_self) (by decide)
      · rw [hn]; rfl

/-- **`int` reads back what `str` writes.** -/
theorem int_str (n : Nat) : int (str n) = some (n : Int) :=
  int_eq_some.2 ⟨[], [], .none, str n, n, fun _ hm => absurd hm List.not_mem_nil,
    fun _ hm => absurd hm List.not_mem_nil, (List.append_nil _).symm, digits_str n, rfl⟩

theorem int_strip (s : Str) : int (strip s) = int s := by
  unfold int
  rw [(trimmed_strip s).strip_eq]

theorem str_inj {m : Nat} (h : str m = str n) : m = n := by
  have := congrArg digits h
  rw [digits_str, digits_str] at this
  exact Option.some.inj this

theorem notMem_strInt {c : Char} (hc : c.isDigit = false) (hm : c ≠ '-') (n : Int) : c ∉ strInt n := by
  unfold strInt
  split
  · rw [List.mem_cons, not_or]; exact ⟨hm, notMem_str hc _⟩
  · exact notMem_str hc _

theorem strInt_inj {m n : Int} (h : strInt m = strInt n) : m = n := by
  have hminus : ∀ k, '-' ∉ str k := notMem_str (by decide)
  unfold strInt at h
  split at h <;> split at h
  · have := str_inj (List.cons.inj h).2; omega
  · exact absurd (h ▸ List.mem_cons_self) (hminus _)
  · exact absurd (h ▸ List.mem_cons_self) (hminus _)
  · have := str_inj h; omega

/-- **A separator that is in neither field** splits a text in one way. -/
theorem append_cons_inj {c : Char} : ∀ {s s' t t' : Str}, c ∉ s → c ∉ s' → s ++ c :: t = s' ++ c :: t' → s = s' ∧ t = t'
  | [], [], _, _, _, _, h => ⟨rfl, (List.cons.inj h).2⟩
  | [], d :: s', _, _, _, hs', h => absurd (List.mem_cons.2 (Or.inl (List.cons.inj h).1)) hs'
  | d :: s, [], _, _, hs, _, h => absurd (List.mem_cons.2 (Or.inl (List.cons.inj h).1.symm)) hs
  | d :: s, d' :: s', _, _, hs, hs', h => by
    obtain ⟨hd, hrest⟩ := List.cons.inj h
    rw [List.mem_cons, not_or] at hs hs'
    obtain ⟨htail, ht⟩ := append_cons_inj hs.2 hs'.2 hrest
    exact ⟨by rw [hd, htail], ht⟩

theorem length_str_le {k : Nat} (hk : 0 < k) : (str n).length ≤ k ↔ n < 10 ^ k :=
  Nat.length_toDigits_le_iff (by decide) hk

end ByteText
end Scrapcode
