import Mathlib.Order.Defs.Unbundled
import Scrapcode.Programs
/-!
# Interrupts — programs that an exception may stop between two operations

A program is made of operations on a state.  Before any of them an exception may come; how many operations there are up
to it is given beforehand, so that each point of a run is a number.

`Takes R p s tr x s'` is what there is to know of a program `p` from a state `s`: its operations find the states `tr`,
it comes to the result `x` and the state `s'`, and `R` relates each of these states to the first and the last.  One rule
puts programs together (`Takes.bind`).
-/
namespace Scrapcode
namespace Interrupts

open Programs

/-- A state, and the number of operations before the exception, if one comes. -/
structure Timed (σ : Type) where
  left  : Option Nat
  state : σ

abbrev Prog (ε σ α : Type) := EStateM ε (Timed σ) α

variable {ε σ α β : Type}

def op (e : ε) (f : σ → α × σ) : Prog ε σ α := fun t =>
  match t.left with
  | none       => .ok (f t.state).1 ⟨none, (f t.state).2⟩
  | some 0     => .error e t
  | some (n+1) => .ok (f t.state).1 ⟨some n, (f t.state).2⟩

/-- A look at the state, which is not an operation. -/
def look : Prog ε σ σ := fun t => .ok t.state t

/-- A change which cannot fail. -/
def change (f : σ → σ) : Prog ε σ Unit := fun t => .ok () { t with state := f t.state }

/-- The state that a run ends in, with a result or without. -/
def ended : EStateM.Result ε (Timed σ) α → σ
  | .ok _ t    => t.state
  | .error _ t => t.state

structure Takes (R : σ → σ → Prop) (p : Prog ε σ α) (s : σ) (tr : List σ) (x : α) (s' : σ) : Prop where
  runs    : ∀ left : Option Nat, p ⟨left.map (tr.length + ·), s⟩ = .ok x ⟨left, s'⟩
  stops   : ∀ m, (h : m < tr.length) → ∃ e, p ⟨some m, s⟩ = .error e ⟨some 0, tr[m]⟩
  after   : R s s'
  between : ∀ t ∈ tr, R s t ∧ R t s'

@[simp] theorem look_run (t : Timed σ) : (look : Prog ε σ σ) t = .ok t.state t := rfl

@[simp] theorem change_run (f : σ → σ) (t : Timed σ) :
    (change f : Prog ε σ Unit) t = .ok () ⟨t.left, f t.state⟩ := rfl

@[simp] theorem ended_ok (x : α) (t : Timed σ) : ended (.ok x t : EStateM.Result ε (Timed σ) α) = t.state := rfl

/-- **A run under a handler** goes on in it where it is interrupted. -/
@[simp] theorem tryCatch_run (p : Prog ε σ α) (handler : ε → Prog ε σ α) (t : Timed σ) :
    (tryCatch p handler : Prog ε σ α) t =
      match p t with
      | .ok x t'    => .ok x t'
      | .error e t' => handler e t' := by
  show EStateM.tryCatch p handler t = _
  unfold EStateM.tryCatch
  cases p t <;> rfl

namespace Takes

variable {R : σ → σ → Prop} {p : Prog ε σ α} {f : α → Prog ε σ β} {s s' s'' : σ} {tr tr' : List σ} {x : α} {y : β}

theorem pure (h : R s s) (x : α) : Takes R (pure x : Prog ε σ α) s [] x s where
  runs left := by cases left <;> simp
  stops m h := absurd h (Nat.not_lt_zero m)
  after     := h
  between t h := absurd h List.not_mem_nil

theorem op {e : ε} {f : σ → α × σ} (h : R s s) (hs : R s (f s).2) : Takes R (op e f) s [s] (f s).1 (f s).2 where
  runs left := by
    cases left with
    | none   => rfl
    | some n => rw [Option.map_some, List.length_singleton, Nat.add_comm]; rfl
  stops m hm := by
    obtain rfl : m = 0 := Nat.lt_one_iff.1 hm
    exact ⟨e, rfl⟩
  after := hs
  between t ht := by
    obtain rfl := List.mem_singleton.1 ht
    exact ⟨h, hs⟩

theorem change (f : σ → σ) (h : R s (f s)) : Takes R (change f : Prog ε σ Unit) s [] () (f s) where
  runs left := by cases left <;> simp
  stops m h := absurd h (Nat.not_lt_zero m)
  after     := h
  between t h := absurd h List.not_mem_nil

/-- To look at the state takes no operation. -/
theorem look_bind {f : σ → Prog ε σ β} (h : Takes R (f s) s tr y s') : Takes R (look >>= f) s tr y s' where
  runs left := by rw [bind_run, look_run]; exact h.runs left
  stops m hm := by
    obtain ⟨e, he⟩ := h.stops m hm
    exact ⟨e, by rw [bind_run, look_run]; exact he⟩
  after     := h.after
  between   := h.between

/-- **A program in sequence** has the operations of its two parts. -/
theorem bind [IsTrans σ R] (hp : Takes R p s tr x s') (hf : Takes R (f x) s' tr' y s'') :
    Takes R (p >>= f) s (tr ++ tr') y s'' where
  runs left := by
    have hleft : left.map ((tr ++ tr').length + ·) = (left.map (tr'.length + ·)).map (tr.length + ·) := by
      cases left with
      | none   => rfl
      | some n => simp [Nat.add_assoc]
    rw [hleft, bind_run, hp.runs]
    exact hf.runs left
  stops m hm := by
    rw [List.length_append] at hm
    by_cases hlt : m < tr.length
    · obtain ⟨e, he⟩ := hp.stops m hlt
      refine ⟨e, ?_⟩
      rw [bind_run, he, List.getElem_append_left hlt]
    · have hle : tr.length ≤ m := Nat.not_lt.1 hlt
      obtain ⟨e, he⟩ := hf.stops (m - tr.length) (by omega)
      have hrun := hp.runs (some (m - tr.length))
      rw [Option.map_some, Nat.add_sub_cancel' hle] at hrun
      refine ⟨e, ?_⟩
      rw [bind_run, hrun, List.getElem_append_right hle]
      exact he
  after := IsTrans.trans _ _ _ hp.after hf.after
  between t ht := by
    rcases List.mem_append.1 ht with ht | ht
    · exact ⟨(hp.between t ht).1, IsTrans.trans _ _ _ (hp.between t ht).2 hf.after⟩
    · exact ⟨IsTrans.trans _ _ _ hp.after (hf.between t ht).1, (hf.between t ht).2⟩

theorem whole (h : Takes R p s tr x s') : p ⟨none, s⟩ = .ok x ⟨none, s'⟩ := h.runs none

/-- **A run is interrupted** at one of the operations, or comes to the end. -/
theorem cases (h : Takes R p s tr x s') (left : Option Nat) :
    (∃ m, ∃ hm : m < tr.length, left = some m ∧ ∃ e, p ⟨left, s⟩ = .error e ⟨some 0, tr[m]⟩) ∨
      ∃ rest : Option Nat, left = rest.map (tr.length + ·) ∧ p ⟨left, s⟩ = .ok x ⟨rest, s'⟩ := by
  cases left with
  | none   => exact Or.inr ⟨none, rfl, h.whole⟩
  | some m =>
    by_cases hm : m < tr.length
    · obtain ⟨e, he⟩ := h.stops m hm
      exact Or.inl ⟨m, hm, rfl, e, he⟩
    · have hleft : some m = (some (m - tr.length)).map (tr.length + ·) := by
        rw [Option.map_some, Nat.add_sub_cancel' (Nat.not_lt.1 hm)]
      refine Or.inr ⟨some (m - tr.length), hleft, ?_⟩
      rw [hleft]
      exact h.runs _

end Takes

end Interrupts
end Scrapcode
