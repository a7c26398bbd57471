import Mathlib.Algebra.Order.Group.Int
import Mathlib.Data.Set.Card
/-!
# Brackets — matched brackets in a list

One element opens and another closes; all others mean nothing.  A list is `Balanced` if no part at its front closes more
than it opens, and all of it closes as much as it opens.  An opener and a closer are a pair (`IsPair`) if what is between
them is balanced, whatever is around them.  The depth of a pair is the number of pairs around it, itself among them.

`height` counts what is open after so many elements.  Both ends of a pair see the same height (`IsPair.height_eq`), and
in a balanced list it is the depth (`depth_eq_height`).
-/
namespace Scrapcode

structure Brackets (α : Type) where
  opener : α
  closer : α
  ne     : opener ≠ closer

namespace Brackets

variable {α : Type} [DecidableEq α] (B : Brackets α)

def weight (a : α) : Int := if a = B.opener then 1 else if a = B.closer then -1 else 0

/-- What is open after the first `n` elements; it is negative where more was closed. -/
def height : List α → Nat → Int
  | a :: w, n + 1 => B.weight a + height w n
  | _, _          => 0

structure Balanced (w : List α) : Prop where
  noneAhead : ∀ p, p <+: w → p.count B.closer ≤ p.count B.opener
  total     : w.count B.opener = w.count B.closer

structure IsPair (w : List α) (i j : Nat) : Prop where
  lt     : i < j
  opener : w[i]? = some B.opener
  closer : w[j]? = some B.closer
  inside : B.Balanced ((w.drop (i + 1)).take (j - (i + 1)))

/-- The pairs around a pair, with itself. -/
def around (w : List α) (i j : Nat) : Set (Nat × Nat) := {p | B.IsPair w p.1 p.2 ∧ p.1 ≤ i ∧ j ≤ p.2}

/-- How deep a pair is nested; the outermost have depth 1. -/
noncomputable def depth (w : List α) (i j : Nat) : Nat := (B.around w i j).ncard

variable {B} {w : List α} {i j k n : Nat} {l : Int}

/-! ## The height -/

@[simp] theorem weight_opener : B.weight B.opener = 1 := if_pos rfl

@[simp] theorem weight_closer : B.weight B.closer = -1 := by rw [weight, if_neg (Ne.symm B.ne), if_pos rfl]

theorem weight_other {a : α} (ho : a ≠ B.opener) (hc : a ≠ B.closer) : B.weight a = 0 := by
  rw [weight, if_neg ho, if_neg hc]

@[simp] theorem height_zero (w : List α) : B.height w 0 = 0 := by cases w <;> rfl

theorem height_succ {a : α} (h : w[n]? = some a) : B.height w (n + 1) = B.height w n + B.weight a := by
  induction w generalizing n with
  | nil       => cases h
  | cons b w ih =>
    cases n with
    | zero   =>
      obtain rfl : b = a := Option.some.inj h
      simp [height]
    | succ n =>
      have hn : w[n]? = some a := h
      rw [height, ih hn, height, Int.add_assoc]

theorem height_eq_count (w : List α) (n : Nat) :
    B.height w n = ((w.take n).count B.opener : Int) - (w.take n).count B.closer := by
  induction w generalizing n with
  | nil       => cases n <;> rfl
  | cons a w ih =>
    cases n with
    | zero   => rfl
    | succ n =>
      rw [height, ih, List.take_succ_cons, List.count_cons, List.count_cons, weight]
      have hne := B.ne
      by_cases ho : a = B.opener
      · have hc : ¬ a = B.closer := fun hc => hne (ho.symm.trans hc)
        simp only [ho, beq_iff_eq, if_true, hne, if_false]
        omega
      · by_cases hc : a = B.closer
        · simp only [hc, beq_iff_eq, if_true, Ne.symm hne, if_false]
          omega
        · simp only [ho, hc, beq_iff_eq, if_false]
          omega

/-- The height within a part of the list is the gain over its front. -/
theorem height_drop (w : List α) (i n : Nat) : B.height (w.drop i) n = B.height w (i + n) - B.height w i := by
  induction w generalizing i with
  | nil       => cases i <;> cases n <;> simp [height]
  | cons a w ih =>
    cases i with
    | zero   => simp
    | succ i =>
      rw [List.drop_succ_cons, ih, Nat.succ_add, height, height]
      omega

theorem height_take (h : n ≤ k) : B.height (w.take k) n = B.height w n := by
  rw [height_eq_count, height_eq_count, List.take_take, Nat.min_eq_left h]

theorem balanced_iff : B.Balanced w ↔ (∀ n ≤ w.length, 0 ≤ B.height w n) ∧ B.height w w.length = 0 := by
  constructor
  · rintro ⟨hahead, htotal⟩
    constructor
    · intro n _
      have hn := hahead (w.take n) (List.take_prefix n w)
      rw [height_eq_count]
      omega
    · rw [height_eq_count, List.take_length, htotal]
      omega
  · rintro ⟨hahead, htotal⟩
    constructor
    · intro p hp
      have hn := hahead p.length hp.length_le
      rw [height_eq_count, ← List.prefix_iff_eq_take.1 hp] at hn
      omega
    · rw [height_eq_count, List.take_length] at htotal
      omega

/-! ## Pairs -/

theorem balanced_part_iff (hij : i ≤ j) (hj : j ≤ w.length) : B.Balanced ((w.drop i).take (j - i)) ↔
    (∀ k, i ≤ k → k ≤ j → B.height w i ≤ B.height w k) ∧ B.height w j = B.height w i := by
  have hlen : ((w.drop i).take (j - i)).length = j - i := by
    rw [List.length_take, List.length_drop]
    omega
  have hpart : ∀ n ≤ j - i, B.height ((w.drop i).take (j - i)) n = B.height w (i + n) - B.height w i :=
    fun n hn => by rw [height_take hn, height_drop]
  rw [balanced_iff, hlen, hpart _ (le_refl _), Nat.add_sub_cancel' hij, sub_eq_zero]
  refine and_congr_left (fun _ => ⟨fun h k hik hkj => ?_, fun h n hn => ?_⟩)
  · have hk := h (k - i) (by omega)
    rw [hpart _ (by omega), Nat.add_sub_cancel' hik] at hk
    omega
  · have hk := h (i + n) (by omega) (by omega)
    rw [hpart n hn]
    omega

theorem isPair_iff : B.IsPair w i j ↔ (i < j ∧ w[i]? = some B.opener ∧ w[j]? = some B.closer) ∧
    (∀ k, i < k → k ≤ j → B.height w (i + 1) ≤ B.height w k) ∧ B.height w j = B.height w (i + 1) := by
  constructor
  · rintro ⟨hlt, ho, hc, hb⟩
    obtain ⟨hj, -⟩ := List.getElem?_eq_some_iff.1 hc
    exact ⟨⟨hlt, ho, hc⟩, (balanced_part_iff hlt (Nat.le_of_lt hj)).1 hb⟩
  · rintro ⟨⟨hlt, ho, hc⟩, hb⟩
    obtain ⟨hj, -⟩ := List.getElem?_eq_some_iff.1 hc
    exact ⟨hlt, ho, hc, (balanced_part_iff hlt (Nat.le_of_lt hj)).2 hb⟩

namespace IsPair

variable (h : B.IsPair w i j)
include h

theorem above (hik : i < k) (hkj : k ≤ j) : B.height w (i + 1) ≤ B.height w k := (isPair_iff.1 h).2.1 k hik hkj

/-- **Both ends of a pair see the same height.** -/
theorem height_eq : B.height w j = B.height w (i + 1) := (isPair_iff.1 h).2.2

theorem height_opener : B.height w (i + 1) = B.height w i + 1 := by rw [height_succ h.opener, weight_opener]

theorem height_closer : B.height w (j + 1) = B.height w j - 1 := by
  rw [height_succ h.closer, weight_closer]
  rfl

end IsPair

/-- Two pairs around one place at the same height open in the same place. -/
theorem fst_le_of_height {i' j' : Nat} (h : B.IsPair w i j) (h' : B.IsPair w i' j') (hin : i' ≤ j)
    (heq : B.height w (i + 1) = B.height w (i' + 1)) : i' ≤ i := by
  by_contra hlt
  have habove := h.above (Nat.lt_of_not_le hlt) hin
  have hopen := h'.height_opener
  omega

/-- A pair closes where it is closed first. -/
theorem snd_le_of_fst {j' : Nat} (h : B.IsPair w i j) (h' : B.IsPair w i j') : j ≤ j' := by
  by_contra hlt
  have habove := h.above (k := j' + 1) (by have := h'.lt; omega) (by omega)
  have hclose := h'.height_closer
  have heq := h'.height_eq
  omega

/-! ## The depth -/

theorem height_of_length_le (h : w.length ≤ n) : B.height w n = B.height w w.length := by
  rw [height_eq_count, height_eq_count, List.take_of_length_le h, List.take_length]

/-- A level is left upwards at an opener, which it is not below again. -/
theorem exists_opener (hl : 0 ≤ l) : ∀ {n : Nat}, l < B.height w n →
    ∃ m < n, w[m]? = some B.opener ∧ B.height w m = l ∧ ∀ k, m < k → k ≤ n → l < B.height w k
  | 0, h     => by
    rw [height_zero] at h
    omega
  | n + 1, h => by
    by_cases hn : l < B.height w n
    · obtain ⟨m, hm, ho, hlevel, habove⟩ := exists_opener hl hn
      refine ⟨m, Nat.lt_succ_of_lt hm, ho, hlevel, fun k hmk hkn => ?_⟩
      rcases Nat.le_succ_iff.1 hkn with hkn | rfl
      · exact habove k hmk hkn
      · exact h
    · cases ha : w[n]? with
      | none   =>
        have hend := List.getElem?_eq_none_iff.1 ha
        rw [height_of_length_le (Nat.le_succ_of_le hend), ← height_of_length_le hend] at h
        exact absurd h hn
      | some a =>
        rw [height_succ ha, weight] at h
        split_ifs at h with ho hc
        · subst ho
          refine ⟨n, Nat.lt_succ_self n, ha, by omega, fun k hnk hkn => ?_⟩
          obtain rfl : k = n + 1 := by omega
          rw [height_succ ha, weight_opener]
          omega
        · omega
        · omega

/-- It is left downwards at a closer, if it is left in the end. -/
theorem exists_closer (hend : B.height w w.length ≤ l) : ∀ (d : Nat) {n : Nat}, n + d = w.length → l < B.height w n →
    ∃ m, n ≤ m ∧ w[m]? = some B.closer ∧ B.height w (m + 1) = l ∧ ∀ k, n ≤ k → k ≤ m → l < B.height w k
  | 0, n, hn, h     => by
    rw [Nat.add_zero] at hn
    rw [hn] at h
    omega
  | d + 1, n, hn, h => by
    by_cases hs : l < B.height w (n + 1)
    · obtain ⟨m, hm, hc, hlevel, habove⟩ := exists_closer hend d (n := n + 1) (by omega) hs
      refine ⟨m, by omega, hc, hlevel, fun k hnk hkm => ?_⟩
      rcases Nat.eq_or_lt_of_le hnk with rfl | hnk
      · exact h
      · exact habove k hnk hkm
    · have ha : w[n]? = some w[n] := List.getElem?_eq_getElem (by omega)
      rw [height_succ ha, weight] at hs
      split_ifs at hs with ho hc
      · omega
      · rw [hc] at ha
        refine ⟨n, le_refl n, ha, ?_, fun k hnk hkn => ?_⟩
        · rw [height_succ ha, weight_closer]
          omega
        · rw [Nat.le_antisymm hkn hnk]
          exact h
      · omega

/-- Each level up to that of a pair has a pair around it. -/
theorem exists_around (hw : B.Balanced w) (h : B.IsPair w i j) (hl : 0 ≤ l) (hi : l < B.height w (i + 1)) :
    ∃ p ∈ B.around w i j, B.height w p.1 = l := by
  obtain ⟨-, hend⟩ := balanced_iff.1 hw
  obtain ⟨hj, -⟩ := List.getElem?_eq_some_iff.1 h.closer
  obtain ⟨m, hm, ho, hlevel, habove⟩ := exists_opener hl hi
  have hbelow : B.height w w.length ≤ l := by omega
  have hopen : l < B.height w j := by rw [h.height_eq]; exact hi
  obtain ⟨m', hm', hc, hlevel', habove'⟩ := exists_closer hbelow (w.length - j) (by omega) hopen
  have hinside : ∀ k, m < k → k ≤ m' → l < B.height w k := by
    intro k hmk hkm
    rcases Nat.lt_or_ge (i + 1) k with hik | hki
    · rcases Nat.lt_or_ge k j with hkj | hjk
      · have := h.above (k := k) (by omega) (Nat.le_of_lt hkj)
        omega
      · exact habove' k hjk hkm
    · exact habove k hmk hki
  have hup : B.height w (m + 1) = l + 1 := by rw [height_succ ho, weight_opener, hlevel]
  have hdown : B.height w m' = l + 1 := by
    rw [height_succ hc, weight_closer] at hlevel'
    omega
  have hlt := h.lt
  refine ⟨(m, m'), ⟨isPair_iff.2 ⟨⟨by omega, ho, hc⟩, fun k hmk hkm => ?_, hdown.trans hup.symm⟩,
    Nat.lt_succ_iff.1 hm, hm'⟩, hlevel⟩
  have hk := hinside k hmk hkm
  rw [hup]
  omega

theorem fst_inj_around {p q : Nat × Nat} (hlt : i < j) (hp : p ∈ B.around w i j) (hq : q ∈ B.around w i j)
    (heq : B.height w p.1 = B.height w q.1) : p = q := by
  obtain ⟨hp, hpi, hpj⟩ := hp
  obtain ⟨hq, hqi, hqj⟩ := hq
  have heq' : B.height w (p.1 + 1) = B.height w (q.1 + 1) := by rw [hp.height_opener, hq.height_opener, heq]
  have hfst : p.1 = q.1 := Nat.le_antisymm (fst_le_of_height hq hp (by omega) heq'.symm)
    (fst_le_of_height hp hq (by omega) heq')
  rw [hfst] at hp
  exact Prod.ext hfst (Nat.le_antisymm (snd_le_of_fst hp hq) (snd_le_of_fst hq hp))

/-- **In a balanced list the height at a pair is its depth.** -/
theorem depth_eq_height (hw : B.Balanced w) (h : B.IsPair w i j) : (B.depth w i j : Int) = B.height w (i + 1) := by
  obtain ⟨hnonneg, -⟩ := balanced_iff.1 hw
  have hmem : ∀ p ∈ B.around w i j, 0 ≤ B.height w p.1 ∧ B.height w p.1 < B.height w (i + 1) := by
    rintro p ⟨hp, hpi, hpj⟩
    obtain ⟨hlen, -⟩ := List.getElem?_eq_some_iff.1 hp.opener
    have habove := hp.above (k := i + 1) (by omega) (by have := h.lt; omega)
    have hopen := hp.height_opener
    exact ⟨hnonneg p.1 (Nat.le_of_lt hlen), by omega⟩
  have hbij : Set.BijOn (fun p => (B.height w p.1).toNat) (B.around w i j) {l | l < (B.height w (i + 1)).toNat} := by
    refine ⟨fun p hp => ?_, fun p hp q hq heq => ?_, fun l hl => ?_⟩
    · have := hmem p hp
      show (B.height w p.1).toNat < _
      omega
    · have h1 := hmem p hp
      have h2 := hmem q hq
      exact fst_inj_around h.lt hp hq (by simp only at heq; omega)
    · have hl : l < (B.height w (i + 1)).toNat := hl
      obtain ⟨p, hp, hlevel⟩ := exists_around hw h (l := l) (by omega) (by omega)
      exact ⟨p, hp, by simp only [hlevel]; rfl⟩
  have hcard : {l | l < (B.height w (i + 1)).toNat}.ncard = (B.height w (i + 1)).toNat := by
    have hcoe : {l | l < (B.height w (i + 1)).toNat} = ↑(Finset.range (B.height w (i + 1)).toNat) := by
      ext l
      simp
    rw [hcoe, Set.ncard_coe_finset, Finset.card_range]
  have hpos := hmem (i, j) ⟨h, le_refl i, le_refl j⟩
  rw [depth, hbij.ncard_eq, hcard]
  omega

end Brackets
end Scrapcode
