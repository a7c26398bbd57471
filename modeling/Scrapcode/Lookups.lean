import Scrapcode.Climb
/-!
# Lookups — programs that look at things which may vanish

A program is a tree of looks, each of which sees what is there at its moment.  A schedule says before which look each
thing vanishes; what has vanished does not come back.  A run takes from the schedule only what lies between its first
look and its last (`run_congr`), so that a thing may be made to vanish right after any run that was without trouble
(`run_only`).

What a program returns may be an exception: `andThen` goes on where there is none.
-/
namespace Scrapcode
namespace Lookups

/-- The number of the first look that does not see the thing any more, if it vanishes. -/
abbrev Schedule (ι : Type) := ι → Option Nat

inductive Prog (ι α : Type) where
  | ret (x : α)
  | look (k : (ι → Bool) → Prog ι α)

variable {ι ε α β : Type}

def Schedule.alive (s : Schedule ι) (n : Nat) (i : ι) : Bool := (s i).all (fun k => decide (n < k))

def Schedule.Survives (s : Schedule ι) (i : ι) : Prop := s i = none

/-- Nothing vanishes. -/
def steady : Schedule ι := fun _ => none

/-- Nothing but `i` vanishes. -/
def only [DecidableEq ι] (i : ι) (k : Nat) : Schedule ι := fun j => if j = i then some k else none

def Prog.bind : Prog ι α → (α → Prog ι β) → Prog ι β
  | .ret x, f  => f x
  | .look k, f => .look (fun alive => (k alive).bind f)

def Prog.andThen (p : Prog ι (Except ε α)) (f : α → Prog ι (Except ε β)) : Prog ι (Except ε β) :=
  p.bind fun
    | .error x => .ret (.error x)
    | .ok x    => f x

/-- The result, and the number of the next look. -/
def Prog.run (s : Schedule ι) : Prog ι α → Nat → α × Nat
  | .ret x, n  => (x, n)
  | .look k, n => (k (s.alive n)).run s (n + 1)

/-- A look at `i`, with the result `x` if it has vanished. -/
def find (i : ι) (x : α) (p : Prog ι α) : Prog ι α := .look (fun alive => if alive i then p else .ret x)

/-- As `climb`, where each step upwards is a program. -/
def climbNow (up : α → Prog ι (Except ε (Option α))) (test : α → Bool) : Nat → α → Prog ι (Except ε Bool)
  | 0, _     => .ret (.ok false)
  | k + 1, a =>
    if test a = true then .ret (.ok true)
    else (up a).andThen fun
      | none   => .ret (.ok false)
      | some b => climbNow up test k b

variable {s s' : Schedule ι} {n k : Nat} {i : ι} {p : Prog ι α}

theorem Schedule.Survives.alive (h : s.Survives i) (n : Nat) : s.alive n i = true := by
  rw [Schedule.alive, h]; rfl

theorem survives_steady (i : ι) : (steady : Schedule ι).Survives i := rfl

theorem survives_only [DecidableEq ι] {j : ι} (h : j ≠ i) (k : Nat) : (only i k).Survives j := if_neg h

theorem alive_only_of_le [DecidableEq ι] (h : k ≤ n) : (only i k).alive n i = false := by
  rw [Schedule.alive, only, if_pos rfl]
  exact decide_eq_false (Nat.not_lt.2 h)

theorem alive_only_of_lt [DecidableEq ι] (h : n < k) : (only i k).alive n = steady.alive n := by
  funext j
  by_cases hj : j = i <;> simp [Schedule.alive, only, steady, hj, h]

@[simp] theorem run_ret (x : α) (n : Nat) : (Prog.ret x : Prog ι α).run s n = (x, n) := rfl

@[simp] theorem run_look (f : (ι → Bool) → Prog ι α) (n : Nat) :
    (Prog.look f).run s n = (f (s.alive n)).run s (n + 1) := rfl

@[simp] theorem run_bind (f : α → Prog ι β) : ∀ (p : Prog ι α) (n : Nat),
    (p.bind f).run s n = (f (p.run s n).1).run s (p.run s n).2
  | .ret _, _  => rfl
  | .look k, n => run_bind f (k (s.alive n)) (n + 1)

theorem run_andThen_ok {p : Prog ι (Except ε α)} {x : α} (h : (p.run s n).1 = .ok x)
    (f : α → Prog ι (Except ε β)) : (p.andThen f).run s n = (f x).run s (p.run s n).2 := by
  rw [Prog.andThen, run_bind, h]

theorem run_andThen_error {p : Prog ι (Except ε α)} {x : ε} (h : (p.run s n).1 = .error x)
    (f : α → Prog ι (Except ε β)) : (p.andThen f).run s n = (.error x, (p.run s n).2) := by
  rw [Prog.andThen, run_bind, h]
  rfl

@[simp] theorem run_find (i : ι) (x : α) (p : Prog ι α) (n : Nat) :
    (find i x p).run s n = if s.alive n i = true then p.run s (n + 1) else (x, n + 1) := by
  by_cases h : s.alive n i = true <;> simp [find, h]

/-- A look finds what is there, or nothing. -/
theorem find_loses (s : Schedule ι) (i : ι) (x : α) (p : Prog ι α) (n : Nat) :
    ((find i x p).run s n).1 = x ∨ ((find i x p).run s n).1 = (p.run s (n + 1)).1 := by
  rw [run_find]
  by_cases ha : s.alive n i = true
  · exact Or.inr (by rw [if_pos ha])
  · exact Or.inl (by rw [if_neg ha])

theorem le_run (s : Schedule ι) : ∀ (p : Prog ι α) (n : Nat), n ≤ (p.run s n).2
  | .ret _, n  => Nat.le_refl n
  | .look k, n => Nat.le_trans (Nat.le_succ n) (le_run s (k (s.alive n)) (n + 1))

/-- **A run depends on the schedule while it lasts.** -/
theorem run_congr : ∀ (p : Prog ι α) (n : Nat), (∀ m, m < (p.run s n).2 → s'.alive m = s.alive m) →
    p.run s' n = p.run s n
  | .ret _, _, _  => rfl
  | .look k, n, h => by
    have hn : s'.alive n = s.alive n := h n (Nat.lt_of_succ_le (le_run s (k (s.alive n)) (n + 1)))
    rw [run_look, run_look, hn]
    exact run_congr (k (s.alive n)) (n + 1) h

/-- **What vanishes after the run** is not missed in it. -/
theorem run_only [DecidableEq ι] (h : (p.run steady n).2 ≤ k) : p.run (only i k) n = p.run steady n :=
  run_congr p n (fun _ hm => alive_only_of_lt (Nat.lt_of_lt_of_le hm h))

section
variable {up : α → Prog ι (Except ε (Option α))} {above : α → Except ε (Option α)} {test : α → Bool} {a : α}

theorem climbNow_of_test (h : test a = true) (k : Nat) : climbNow up test (k + 1) a = .ret (.ok true) := if_pos h

/-- A climb that may take more steps than the depth is not cut short. -/
theorem climbNow_succ {good : α → Prop} (depth : α → Nat)
    (hup : ∀ a b n, good a → ((up a).run s n).1 = .ok (some b) → good b ∧ depth b < depth a) :
    ∀ (k : Nat) (a : α) (n : Nat), good a → depth a < k →
      (climbNow up test (k + 1) a).run s n = (climbNow up test k a).run s n
  | 0, _, _, _, hk        => absurd hk (Nat.not_lt_zero _)
  | k + 1, a, n, ha, hk => by
    rw [climbNow, climbNow]
    by_cases ht : test a = true
    · rw [if_pos ht, if_pos ht]
    · rw [if_neg ht, if_neg ht]
      cases hb : ((up a).run s n).1 with
      | error x => rw [run_andThen_error hb, run_andThen_error hb]
      | ok r =>
        rw [run_andThen_ok hb, run_andThen_ok hb]
        cases r with
        | none   => rfl
        | some b =>
          obtain ⟨hgood, hdepth⟩ := hup a b n ha hb
          exact climbNow_succ depth hup k b _ hgood (by omega)

/-- **Where steps upwards can be missed, but no others be taken**, a climb ends as on the whole chain or finds
nothing. -/
theorem climbNow_loses (hup : ∀ a n, ((up a).run s n).1 = .ok none ∨ ((up a).run s n).1 = above a) :
    ∀ (k : Nat) (a : α) (n : Nat), ((climbNow up test k a).run s n).1 = .ok false ∨
      ((climbNow up test k a).run s n).1 = climb above test k a
  | 0, _, _     => Or.inl rfl
  | k + 1, a, n => by
    by_cases ha : test a = true
    · exact Or.inr (by rw [climbNow_of_test ha, climb_of_test ha]; rfl)
    · rw [climbNow, if_neg ha, climb, if_neg ha]
      rcases hup a n with hnone | hsame
      · exact Or.inl (by rw [run_andThen_ok hnone]; rfl)
      · cases hb : above a with
        | error x => exact Or.inr (by rw [run_andThen_error (hsame.trans hb)])
        | ok r =>
          rw [run_andThen_ok (hsame.trans hb)]
          cases r with
          | none   => exact Or.inr rfl
          | some b => exact climbNow_loses hup k b _

/-- **The chain is climbed as it is** where all of it stays. -/
theorem climbNow_eq_climb : ∀ (k : Nat) (a : α) (n : Nat), (∀ b n, Line above a b → ((up b).run s n).1 = above b) →
    ((climbNow up test k a).run s n).1 = climb above test k a
  | 0, _, _, _      => rfl
  | k + 1, a, n, hl => by
    by_cases ha : test a = true
    · rw [climbNow_of_test ha, climb_of_test ha]; rfl
    · rw [climbNow, if_neg ha, climb, if_neg ha]
      have hsame := hl a n .refl
      cases hb : above a with
      | error x => rw [run_andThen_error (hsame.trans hb)]
      | ok r =>
        rw [run_andThen_ok (hsame.trans hb)]
        cases r with
        | none   => rfl
        | some b => exact climbNow_eq_climb k b _ (fun c m hc => hl c m ((line_cons hb).2 (Or.inr hc)))

/-- A climb ends where there is no step upwards. -/
theorem test_of_climbNow (h : ((climbNow up test k a).run s n).1 = .ok true)
    (hup : ((up a).run s n).1 = .ok none) : test a = true := by
  cases k with
  | zero   => cases h
  | succ k =>
    refine Decidable.byContradiction (fun ha => ?_)
    rw [climbNow, if_neg ha, run_andThen_ok hup] at h
    cases h

end

end Lookups
end Scrapcode
