import Mathlib.Data.List.Nodup
import Mathlib.Data.Int.Order.Basic
/-!
# WeightedSums — checks by a weighted sum of bits

Each place has a weight, and a word passes the check if the weights of its set bits add up to a multiple of a modulus.
Checksums of bytes are such checks: the bits of the data weigh what they count, and those of the checksum the opposite.
Flipping a bit adds or takes away its weight, so that which flips go unnoticed is a matter of what these changes add up
to (`passes_flipAll_iff`).
-/
namespace Scrapcode
namespace WeightedSums

/-- The weights of the set bits, added up; the first bit is the one at place `k`. -/
def sum (w : Nat → Int) : Nat → List Bool → Int
  | _, []      => 0
  | k, b :: bs => (if b then w k else 0) + sum w (k + 1) bs

def flip (bs : List Bool) (i : Nat) : List Bool := bs.set i (!bs.getD i false)

def flipAll (bs : List Bool) (is : List Nat) : List Bool := is.foldl flip bs

/-- What it adds to the sum to flip the bit at `i`, which is `b`. -/
def change (w : Nat → Int) (i : Nat) (b : Bool) : Int := if b then -w i else w i

def changes (w : Nat → Int) (bs : List Bool) : List Nat → Int
  | []      => 0
  | i :: is => change w i (bs.getD i false) + changes w bs is

/-- **The word passes the check.** -/
def Passes (m : Int) (w : Nat → Int) (bs : List Bool) : Prop := m ∣ sum w 0 bs

variable {w : Nat → Int} {bs : List Bool} {i j : Nat} {is : List Nat} {m : Int}

theorem sum_append (w : Nat → Int) : ∀ (as bs : List Bool) (k : Nat),
    sum w k (as ++ bs) = sum w k as + sum w (k + as.length) bs
  | [], bs, k => by rw [List.nil_append, sum, Int.zero_add, List.length_nil, Nat.add_zero]
  | a :: as, bs, k => by
    rw [List.cons_append, sum, sum, sum_append w as bs (k + 1), List.length_cons, ← Int.add_assoc]
    congr 2
    omega

@[simp] theorem length_flip (bs : List Bool) (i : Nat) : (flip bs i).length = bs.length := List.length_set

theorem getD_flip_of_ne (hij : i ≠ j) (bs : List Bool) : (flip bs i).getD j false = bs.getD j false := by
  rw [flip, List.getD_eq_getElem?_getD, List.getElem?_set_ne hij, ← List.getD_eq_getElem?_getD]

/-- **One flip** adds or takes away one weight. -/
theorem sum_flip (w : Nat → Int) : ∀ (bs : List Bool) (i k : Nat), i < bs.length →
    sum w k (flip bs i) = sum w k bs + change w (k + i) (bs.getD i false)
  | b :: bs, 0, k, _ => by
    show (if !b then w k else 0) + sum w (k + 1) bs = (if b then w k else 0) + sum w (k + 1) bs + change w k b
    cases b with
    | false => simp only [change, Bool.not_false, Bool.false_eq_true, if_true, if_false]; omega
    | true  => simp only [change, Bool.not_true, Bool.false_eq_true, if_true, if_false]; omega
  | b :: bs, i + 1, k, hi => by
    have ih := sum_flip w bs i (k + 1) (Nat.lt_of_succ_lt_succ hi)
    have hflip : flip (b :: bs) (i + 1) = b :: flip bs i := rfl
    have hget : (b :: bs).getD (i + 1) false = bs.getD i false := rfl
    have hplace : k + 1 + i = k + (i + 1) := by omega
    rw [hflip, hget, sum, sum, ih, hplace, Int.add_assoc]

/-- The changes of other places are what they were. -/
theorem changes_flip (w : Nat → Int) (bs : List Bool) :
    ∀ {is : List Nat}, i ∉ is → changes w (flip bs i) is = changes w bs is
  | [], _ => rfl
  | j :: is, h => by
    obtain ⟨hij, his⟩ := not_or.1 (mt List.mem_cons.2 h)
    rw [changes, changes, getD_flip_of_ne hij, changes_flip w bs his]

/-- **Flips at different places add up.** -/
theorem sum_flipAll (w : Nat → Int) : ∀ (is : List Nat) (bs : List Bool), is.Nodup → (∀ i ∈ is, i < bs.length) →
    sum w 0 (flipAll bs is) = sum w 0 bs + changes w bs is
  | [], bs, _, _ => (Int.add_zero _).symm
  | i :: is, bs, hnodup, hlt => by
    obtain ⟨hi, his⟩ := List.nodup_cons.1 hnodup
    have ih := sum_flipAll w is (flip bs i) his fun j hj => by
      rw [length_flip]
      exact hlt j (List.mem_cons_of_mem i hj)
    have hone := sum_flip w bs i 0 (hlt i List.mem_cons_self)
    rw [Nat.zero_add] at hone
    show sum w 0 (flipAll (flip bs i) is) = _
    rw [ih, hone, changes_flip w bs hi, changes, Int.add_assoc]

/-- **What goes unnoticed**: flips whose changes add up to a multiple of the modulus. -/
theorem passes_flipAll_iff (h : Passes m w bs) (hnodup : is.Nodup) (hlt : ∀ i ∈ is, i < bs.length) :
    Passes m w (flipAll bs is) ↔ m ∣ changes w bs is := by
  rw [Passes, sum_flipAll w is bs hnodup hlt]
  exact Int.dvd_add_right h

end WeightedSums
end Scrapcode
