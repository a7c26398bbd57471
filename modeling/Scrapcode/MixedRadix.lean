import Mathlib.Data.List.Forall2
/-!
# MixedRadix — numbers written in a list of bases

The digits of a number, the lowest first, each below its own base: below the product of the bases, a number and its
digits determine each other (`value_digits`, `digits_value`).
-/
namespace Scrapcode
namespace MixedRadix

def prod (bs : List Nat) : Nat := bs.foldr (· * ·) 1

def digits : List Nat → Nat → List Nat
  | [], _      => []
  | b :: bs, n => n % b :: digits bs (n / b)

def value : List Nat → List Nat → Nat
  | b :: bs, d :: ds => d + b * value bs ds
  | _, _             => 0

def IsDigits (bs ds : List Nat) : Prop := List.Forall₂ (· < ·) ds bs

theorem prod_cons (b : Nat) (bs : List Nat) : prod (b :: bs) = b * prod bs := rfl

theorem isDigits_digits : ∀ {bs : List Nat} (n : Nat), (∀ b ∈ bs, 0 < b) → IsDigits bs (digits bs n)
  | [], _, _      => .nil
  | b :: _, n, h =>
    .cons (Nat.mod_lt n (h b List.mem_cons_self)) (isDigits_digits (n / b) (fun c hc => h c (List.mem_cons_of_mem b hc)))

theorem value_lt : ∀ {bs ds : List Nat}, IsDigits bs ds → value bs ds < prod bs
  | [], _, .nil => Nat.one_pos
  | b :: bs, d :: ds, .cons hd h => by
    have hle : value bs ds + 1 ≤ prod bs := value_lt h
    calc d + b * value bs ds < b + b * value bs ds := Nat.add_lt_add_right hd _
      _ = b * (value bs ds + 1) := by rw [Nat.mul_add, Nat.mul_one, Nat.add_comm]
      _ ≤ b * prod bs := Nat.mul_le_mul_left b hle

/-- **A number is the value of its digits.** -/
theorem value_digits : ∀ {bs : List Nat} {n : Nat}, n < prod bs → value bs (digits bs n) = n
  | [], n, h      => (Nat.lt_one_iff.1 h).symm
  | b :: bs, n, h => by
    show n % b + b * value bs (digits bs (n / b)) = n
    rw [value_digits (Nat.div_lt_of_lt_mul h), Nat.mod_add_div]

/-- **Digits are the digits of their value.** -/
theorem digits_value : ∀ {bs ds : List Nat}, IsDigits bs ds → digits bs (value bs ds) = ds
  | [], _, .nil => rfl
  | b :: bs, d :: ds, .cons hd h => by
    show (d + b * value bs ds) % b :: digits bs ((d + b * value bs ds) / b) = d :: ds
    have hb : 0 < b := Nat.zero_lt_of_lt hd
    rw [Nat.add_mul_mod_self_left, Nat.mod_eq_of_lt hd, Nat.add_mul_div_left d _ hb, Nat.div_eq_of_lt hd, Nat.zero_add,
      digits_value h]

theorem digits_injOn {bs : List Nat} {m n : Nat} (hm : m < prod bs) (hn : n < prod bs)
    (h : digits bs m = digits bs n) : m = n := by
  rw [← value_digits hm, h, value_digits hn]

end MixedRadix
end Scrapcode
