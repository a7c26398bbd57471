/-!
# Programs — stateful programs that may stop with a fault

A program is an `EStateM`: it ends normally or with a fault, and keeps the state it had reached in both cases.  `Ends`
says how one run of a program may end: with a result and a state in `Q`, or with a fault and a state in `E`.  A program
is taken apart with `Ends.bind`; what a primitive does is its run lemma.

`Preserves obs p` is the frame of a program: however it ends, `obs` sees the state it began in.
-/
namespace Scrapcode
namespace Programs

variable {ε σ α β : Type}

@[simp] theorem bind_run (p : EStateM ε σ α) (f : α → EStateM ε σ β) (s : σ) : (p >>= f) s =
    match p s with
    | .ok x s'    => f x s'
    | .error e s' => .error e s' := by
  cases h : p s <;> simp [bind, EStateM.bind, h]

@[simp] theorem pure_run (x : α) (s : σ) : (pure x : EStateM ε σ α) s = .ok x s := rfl

@[simp] theorem get_run (s : σ) : (get : EStateM ε σ σ) s = .ok s s := rfl

@[simp] theorem modify_run (f : σ → σ) (s : σ) : (modify f : EStateM ε σ PUnit) s = .ok ⟨⟩ (f s) := rfl

@[simp] theorem throw_run (e : ε) (s : σ) : (throw e : EStateM ε σ α) s = .error e s := rfl

def Ends (r : EStateM.Result ε σ α) (Q : α → σ → Prop) (E : ε → σ → Prop) : Prop :=
  match r with
  | .ok x s'    => Q x s'
  | .error e s' => E e s'

variable {p : EStateM ε σ α} {s : σ} {Q : α → σ → Prop} {E : ε → σ → Prop}

theorem Ends.mono {r : EStateM.Result ε σ α} {Q' : α → σ → Prop} {E' : ε → σ → Prop} (h : Ends r Q E)
    (hQ : ∀ x s', Q x s' → Q' x s') (hE : ∀ e s', E e s' → E' e s') : Ends r Q' E' := by
  cases r with
  | ok x s'    => exact hQ x s' h
  | error e s' => exact hE e s' h

theorem Ends.mono_fault {r : EStateM.Result ε σ α} {E' : ε → σ → Prop} (h : Ends r Q E)
    (hE : ∀ e s', E e s' → E' e s') : Ends r Q E' := h.mono (fun _ _ hq => hq) hE

/-- **A program in sequence** ends as its second part does from where the first part ends. -/
theorem Ends.bind {f : α → EStateM ε σ β} {R : β → σ → Prop} (h : Ends (p s) Q E)
    (hf : ∀ x s', Q x s' → Ends (f x s') R E) : Ends ((p >>= f) s) R E := by
  rw [bind_run]
  cases hp : p s with
  | ok x s'    => rw [hp] at h; exact hf x s' h
  | error e s' => rw [hp] at h; exact h

theorem Ends.of_ok {x : α} {t : σ} (h : p s = .ok x t) (hQ : Q x t) : Ends (p s) Q E := by
  rw [h]; exact hQ

theorem Ends.of_error {e : ε} {t : σ} (h : p s = .error e t) (hE : E e t) : Ends (p s) Q E := by
  rw [h]; exact hE

/-! ## Frames -/

def Preserves {τ : Type} (obs : σ → τ) (p : EStateM ε σ α) : Prop :=
  ∀ s, Ends (p s) (fun _ s' => obs s' = obs s) (fun _ s' => obs s' = obs s)

namespace Preserves

variable {τ υ : Type} {obs : σ → τ} {q : EStateM ε σ α}

theorem comp (h : Preserves obs p) (f : τ → υ) : Preserves (fun s => f (obs s)) p :=
  fun s => (h s).mono (fun _ _ hs => congrArg f hs) (fun _ _ hs => congrArg f hs)

theorem bind {f : α → EStateM ε σ β} (hp : Preserves obs p) (hf : ∀ x, Preserves obs (f x)) :
    Preserves obs (p >>= f) :=
  fun s => (hp s).bind fun x s' hs => (hf x s').mono (fun _ _ h => h.trans hs) (fun _ _ h => h.trans hs)

theorem pure (x : α) : Preserves obs (pure x : EStateM ε σ α) := fun _ => rfl

theorem throw (e : ε) : Preserves obs (throw e : EStateM ε σ α) := fun _ => rfl

theorem get : Preserves obs (get : EStateM ε σ σ) := fun _ => rfl

theorem modify {f : σ → σ} (h : ∀ s, obs (f s) = obs s) : Preserves obs (modify f : EStateM ε σ PUnit) := h

theorem ite {c : Prop} [Decidable c] (hp : Preserves obs p) (hq : Preserves obs q) :
    Preserves obs (if c then p else q) := by
  split
  · exact hp
  · exact hq

theorem of_ok {x : α} {t : σ} (h : Preserves obs p) (hr : p s = .ok x t) : obs t = obs s := by
  have := h s
  rwa [hr] at this

theorem of_error {e : ε} {t : σ} (h : Preserves obs p) (hr : p s = .error e t) : obs t = obs s := by
  have := h s
  rwa [hr] at this

end Preserves

end Programs
end Scrapcode
