import Mathlib.Logic.Relation
/-!
# Climb — following a chain upwards

`up a` is the next element above `a`, if there is one, or the exception with which the look at it ends.  `climb` tests
each element of the chain in turn; where a depth falls with every step of the chain it is never cut short: it finds
exactly what is on the chain (`climb_iff`), and raises where the chain does with nothing to be found
(`climb_error_iff`).
-/
namespace Scrapcode

variable {ε α : Type}

/-- `b` is on the chain from `a`, which is on it too. -/
def Line (up : α → Except ε (Option α)) : α → α → Prop := Relation.ReflTransGen (fun a b => up a = .ok (some b))

def climb (up : α → Except ε (Option α)) (test : α → Bool) : Nat → α → Except ε Bool
  | 0, _     => .ok false
  | k + 1, a =>
    if test a = true then .ok true
    else match up a with
      | .error x     => .error x
      | .ok none     => .ok false
      | .ok (some b) => climb up test k b

variable {up : α → Except ε (Option α)} {test : α → Bool} {a b : α}

theorem line_cons (h : up a = .ok (some b)) {c : α} : Line up a c ↔ c = a ∨ Line up b c := by
  constructor
  · intro hl
    rcases Relation.ReflTransGen.cases_head hl with rfl | ⟨d, hd, hl⟩
    · exact Or.inl rfl
    · cases h.symm.trans hd; exact Or.inr hl
  · rintro (rfl | hl)
    · exact .refl
    · exact .head h hl

theorem line_top (h : ∀ b, up a ≠ .ok (some b)) {c : α} : Line up a c ↔ c = a := by
  constructor
  · intro hl
    rcases Relation.ReflTransGen.cases_head hl with rfl | ⟨d, hd, -⟩
    · rfl
    · exact absurd hd (h d)
  · rintro rfl; exact .refl

theorem climb_of_test (h : test a = true) (k : Nat) : climb up test (k + 1) a = .ok true := if_pos h

/-- What falls along a chain falls along the chain from the next element. -/
theorem falls_cons {depth : α → Nat} (hd : ∀ b c, Line up a b → up b = .ok (some c) → depth c < depth b)
    (h : up a = .ok (some b)) : ∀ c d, Line up b c → up c = .ok (some d) → depth d < depth c :=
  fun c d hc => hd c d ((line_cons h).2 (Or.inr hc))

/-- **A climb finds what is on the chain**, where it may take more steps than the depth. -/
theorem climb_iff (depth : α → Nat) : ∀ (k : Nat) (a : α),
    (∀ b c, Line up a b → up b = .ok (some c) → depth c < depth b) → depth a < k →
    (climb up test k a = .ok true ↔ ∃ b, Line up a b ∧ test b = true)
  | 0, _, _, h      => absurd h (Nat.not_lt_zero _)
  | k + 1, a, hd, h => by
    by_cases ht : test a = true
    · exact iff_of_true (climb_of_test ht k) ⟨a, .refl, ht⟩
    · rw [climb, if_neg ht]
      cases ha : up a with
      | error x => simp [line_top (fun b => show up a ≠ .ok (some b) by simp [ha]), ht]
      | ok r =>
        cases r with
        | none   => simp [line_top (fun b => show up a ≠ .ok (some b) by simp [ha]), ht]
        | some b =>
          have hb := hd a b .refl ha
          dsimp only
          rw [climb_iff depth k b (falls_cons hd ha) (by omega)]
          constructor
          · rintro ⟨c, hc, hct⟩
            exact ⟨c, (line_cons ha).2 (Or.inr hc), hct⟩
          · rintro ⟨c, hc, hct⟩
            rcases (line_cons ha).1 hc with rfl | hc
            · exact absurd hct ht
            · exact ⟨c, hc, hct⟩

/-- **A climb raises** what the chain ends with, if there is nothing to be found on it. -/
theorem climb_error_iff (depth : α → Nat) {x : ε} : ∀ (k : Nat) (a : α),
    (∀ b c, Line up a b → up b = .ok (some c) → depth c < depth b) → depth a < k →
    (climb up test k a = .error x ↔ (∃ b, Line up a b ∧ up b = .error x) ∧ ∀ b, Line up a b → test b ≠ true)
  | 0, _, _, h      => absurd h (Nat.not_lt_zero _)
  | k + 1, a, hd, h => by
    by_cases ht : test a = true
    · rw [climb_of_test ht]
      exact iff_of_false (fun h => by cases h) (fun h => h.2 a .refl ht)
    · rw [climb, if_neg ht]
      cases ha : up a with
      | error y => simp [line_top (fun b => show up a ≠ .ok (some b) by simp [ha]), ht, ha]
      | ok r =>
        cases r with
        | none   => simp [line_top (fun b => show up a ≠ .ok (some b) by simp [ha]), ha]
        | some b =>
          have hb := hd a b .refl ha
          dsimp only
          rw [climb_error_iff depth k b (falls_cons hd ha) (by omega)]
          constructor
          · rintro ⟨⟨c, hc, hx⟩, hnone⟩
            refine ⟨⟨c, (line_cons ha).2 (Or.inr hc), hx⟩, fun d hl => ?_⟩
            rcases (line_cons ha).1 hl with rfl | hl
            · exact ht
            · exact hnone d hl
          · rintro ⟨⟨c, hc, hx⟩, hnone⟩
            refine ⟨?_, fun d hl => hnone d ((line_cons ha).2 (Or.inr hl))⟩
            rcases (line_cons ha).1 hc with rfl | hc
            · rw [ha] at hx; cases hx
            · exact ⟨c, hc, hx⟩

end Scrapcode
