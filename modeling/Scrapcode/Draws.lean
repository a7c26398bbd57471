import Mathlib.Data.Set.Card
import Mathlib.Data.Fintype.Pi
/-!
# Draws — what is made of values drawn from a source

A function of a stream that reads no more than its first `m` values (`ReadsFirst`) is a function of those.  It makes all
of the outputs in a set from equally many choices of the values (`Uniform`) if a relabelling of the values, one position
at a time, turns the streams that make one of them into streams that make another (`uniform_of_relabel`).
-/
namespace Scrapcode
namespace Draws

variable {α β : Type*} {m : Nat} {f : (Nat → α) → β} {S : Set β}

def extend (vs : Fin m → α) (rest : Nat → α) : Nat → α := fun k => if h : k < m then vs ⟨k, h⟩ else rest k

def ReadsFirst (m : Nat) (f : (Nat → α) → β) : Prop := ∀ r r', (∀ k < m, r k = r' k) → f r = f r'

/-- How many choices of the first `m` values make `s`. -/
noncomputable def choices (m : Nat) (f : (Nat → α) → β) (rest : Nat → α) (s : β) : Nat :=
  {vs : Fin m → α | f (extend vs rest) = s}.ncard

/-- Each output in `S` is made by the same number of choices. -/
def Uniform (m : Nat) (f : (Nat → α) → β) (S : Set β) : Prop :=
  ∀ rest, ∀ s ∈ S, ∀ t ∈ S, choices m f rest s = choices m f rest t

/-- Injective relabellings, one for each position, turn the streams that make `s` into streams that make `t`. -/
def Relabels (f : (Nat → α) → β) (s t : β) : Prop :=
  ∃ σ : Nat → α → α, (∀ k, Function.Injective (σ k)) ∧ ∀ r, f r = s → f (fun k => σ k (r k)) = t

theorem extend_of_lt (vs : Fin m → α) (rest : Nat → α) {k : Nat} (h : k < m) : extend vs rest k = vs ⟨k, h⟩ :=
  dif_pos h

theorem choices_le_of_relabels [Finite α] (hf : ReadsFirst m f) (rest : Nat → α) {s t : β} (h : Relabels f s t) :
    choices m f rest s ≤ choices m f rest t := by
  obtain ⟨σ, hinj, hσ⟩ := h
  unfold choices
  apply Set.ncard_le_ncard_of_injOn (fun (vs : Fin m → α) (k : Fin m) => σ k (vs k))
  · intro vs hvs
    have hsame : f (extend (fun k : Fin m => σ k (vs k)) rest) = f (fun k => σ k (extend vs rest k)) := by
      apply hf
      intro k hk
      rw [extend_of_lt _ rest hk, extend_of_lt _ rest hk]
    exact hsame.trans (hσ _ hvs)
  · intro vs _ ws _ hsame
    funext k
    exact hinj k (congrFun hsame k)

/-- **Relabellings between the outputs make them equally frequent.** -/
theorem uniform_of_relabel [Finite α] (hf : ReadsFirst m f) (h : ∀ s ∈ S, ∀ t ∈ S, Relabels f s t) :
    Uniform m f S :=
  fun rest s hs t ht => le_antisymm (choices_le_of_relabels hf rest (h s hs t ht))
    (choices_le_of_relabels hf rest (h t ht s hs))

end Draws
end Scrapcode
