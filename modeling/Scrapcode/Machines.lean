/-!
# Machines — deterministic machines

A machine takes a configuration to the next one or ends.  `Reaches step n c t` says that from `c` the machine comes to
`t` after `n` steps or more.  A machine that reaches running states after any number of steps never ends
(`not_ended`).
-/
namespace Scrapcode
namespace Machines

variable {γ φ : Type}

inductive State (γ φ : Type) where
  | running (c : γ)
  | ended (f : φ)

def steps (step : γ → State γ φ) : Nat → State γ φ → State γ φ
  | 0, s              => s
  | _ + 1, .ended f   => .ended f
  | n + 1, .running c => steps step n (step c)

def Reaches (step : γ → State γ φ) (n : Nat) (c : γ) (t : State γ φ) : Prop :=
  ∃ m, n ≤ m ∧ steps step m (.running c) = t

variable {step : γ → State γ φ} {n m : Nat} {c c' : γ} {t : State γ φ} {f f' : φ}

@[simp] theorem steps_ended (step : γ → State γ φ) (n : Nat) (f : φ) : steps step n (.ended f) = .ended f := by
  cases n <;> rfl

theorem steps_add (step : γ → State γ φ) : ∀ (n m : Nat) (s : State γ φ),
    steps step (n + m) s = steps step m (steps step n s)
  | 0, m, s              => by rw [Nat.zero_add]; rfl
  | n + 1, m, .ended f   => by rw [steps_ended, steps_ended, steps_ended]
  | n + 1, m, .running c => by rw [Nat.succ_add]; exact steps_add step n m (step c)

theorem Reaches.refl (step : γ → State γ φ) (c : γ) : Reaches step 0 c (.running c) := ⟨0, Nat.le_refl 0, rfl⟩

theorem Reaches.mono (h : Reaches step n c t) (hm : m ≤ n) : Reaches step m c t := by
  obtain ⟨k, hk, ht⟩ := h
  exact ⟨k, Nat.le_trans hm hk, ht⟩

/-- **Runs in sequence.** -/
theorem Reaches.trans (h₁ : Reaches step n c (.running c')) (h₂ : Reaches step m c' t) : Reaches step (n + m) c t := by
  obtain ⟨k₁, hk₁, h₁⟩ := h₁
  obtain ⟨k₂, hk₂, h₂⟩ := h₂
  exact ⟨k₁ + k₂, Nat.add_le_add hk₁ hk₂, by rw [steps_add, h₁, h₂]⟩

theorem Reaches.of_steps (h : steps step n (.running c) = t) : Reaches step n c t := ⟨n, Nat.le_refl n, h⟩

theorem Reaches.one (h : step c = t) : Reaches step 1 c t := ⟨1, Nat.le_refl 1, h⟩

/-- A run whose length does not matter. -/
theorem Reaches.then (h₁ : Reaches step n c (.running c')) (h₂ : Reaches step m c' t) : Reaches step m c t :=
  (h₁.trans h₂).mono (Nat.le_add_left m n)

theorem steps_of_ended (h : steps step n (.running c) = .ended f) (hm : n ≤ m) :
    steps step m (.running c) = .ended f := by
  obtain ⟨k, rfl⟩ := Nat.exists_eq_add_of_le hm
  rw [steps_add, h, steps_ended]

/-- An end is reached from every state on the way to it. -/
theorem Reaches.ended (h₁ : Reaches step n c (.running c')) (h₂ : steps step m (.running c) = .ended f) :
    ∃ k, steps step k (.running c') = .ended f := by
  obtain ⟨j, -, h₁⟩ := h₁
  refine ⟨m, ?_⟩
  rw [← h₁, ← steps_add, Nat.add_comm]
  exact steps_of_ended h₂ (Nat.le_add_right m j)

/-- **A machine that is found running after any number of steps** is running at every step. -/
theorem not_ended (h : ∀ n, ∃ c', Reaches step n c (.running c')) (n : Nat) :
    ∃ c', steps step n (.running c) = .running c' := by
  obtain ⟨c', m, hm, hc⟩ := h n
  cases hn : steps step n (.running c) with
  | running d => exact ⟨d, rfl⟩
  | ended f   => rw [steps_of_ended hn hm] at hc; cases hc

end Machines
end Scrapcode
