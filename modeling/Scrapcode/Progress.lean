import Scrapcode.Runs
/-!
# Progress — systems that come to an end

A system completes with `P` if no run of it goes on for ever and each that can go no further has come to `P`: whoever
chooses between the events, the system ends well.  For that a number that every step makes smaller is enough, with an
invariant under which a state that is stuck has `P`.  Where some events are mere chance (`CompletesBut`), a state in
which nothing else can happen counts as stuck: the system may not wait for them.
-/
namespace Scrapcode
namespace Runs

variable {σ ε : Type}

def Stuck (step : σ → ε → Option σ) (s : σ) : Prop := ∀ e, step s e = none

/-- **The system completes with `P`**, whatever happens in whatever order. -/
structure Completes (step : σ → ε → Option σ) (P : σ → Prop) (s : σ) : Prop where
  bounded : ∃ n, ∀ es t, run step s es = some t → es.length ≤ n
  stuck   : ∀ es t, run step s es = some t → Stuck step t → P t

/-- No event can happen but by `chance`: those that may as well never come. -/
def StuckBut (chance : ε → Prop) (step : σ → ε → Option σ) (s : σ) : Prop := ∀ e, ¬ chance e → step s e = none

/-- **The system completes with `P`**, whatever happens, and without the help of chance. -/
structure CompletesBut (chance : ε → Prop) (step : σ → ε → Option σ) (P : σ → Prop) (s : σ) : Prop where
  bounded : ∃ n, ∀ es t, run step s es = some t → es.length ≤ n
  stuck   : ∀ es t, run step s es = some t → StuckBut chance step t → P t

variable {step : σ → ε → Option σ} {I P : σ → Prop} {m : σ → Nat}

theorem length_le_of_decreases (hI : ∀ s e s', I s → step s e = some s' → I s')
    (hm : ∀ s e s', I s → step s e = some s' → m s' < m s) :
    ∀ (es : List ε) {s t : σ}, I s → run step s es = some t → es.length ≤ m s
  | [], _, _, _, _ => Nat.zero_le _
  | e :: es, s, t, hs, h => by
    obtain ⟨s', h₁, h₂⟩ := run_cons_eq_some h
    have hlen := length_le_of_decreases hI hm es (hI s e s' hs h₁) h₂
    have hlt := hm s e s' hs h₁
    rw [List.length_cons]
    omega

/-- **A system whose steps decrease a measure completes** with what the invariant says of the states it is stuck in. -/
theorem completesBut_of_decreases {chance : ε → Prop} (hI : ∀ s e s', I s → step s e = some s' → I s')
    (hm : ∀ s e s', I s → step s e = some s' → m s' < m s) (hP : ∀ s, I s → StuckBut chance step s → P s) {s : σ}
    (hs : I s) : CompletesBut chance step P s where
  bounded := ⟨m s, fun es _ h => length_le_of_decreases hI hm es hs h⟩
  stuck   := fun es t h hstuck => hP t (run_invariant hI es hs h) hstuck

theorem completes_of_decreases (hI : ∀ s e s', I s → step s e = some s' → I s')
    (hm : ∀ s e s', I s → step s e = some s' → m s' < m s) (hP : ∀ s, I s → Stuck step s → P s) {s : σ} (hs : I s) :
    Completes step P s where
  bounded := ⟨m s, fun es _ h => length_le_of_decreases hI hm es hs h⟩
  stuck   := fun es t h hstuck => hP t (run_invariant hI es hs h) hstuck

end Runs
end Scrapcode
