/-!
# Runs — the runs of a partial step function

A system is a partial step function: `step s e` is the state event `e` leads to, `none` where `e` cannot happen in `s`.
Whatever chooses between the events (a caller, a scheduler, the network, a crash) is in the events, so a list of events
names one run at most.  Nothing here knows what the states are.

Three notions: the state a run reaches (`run`), a property of every state a run passes through (`Always`), and a
condition on every step it takes, read at the state before the step (`Meets`) or on the events before it (`MeetsAfter`).
A claim "in every run whose steps all meet `C`, `P` holds in every state" is `Meets C → Always P`; where a step keeps
`P` exactly when it meets `C` the two are equivalent (`always_iff_meets`, `always_iff_meetsAfter`).
-/
namespace Scrapcode
namespace Runs

variable {σ ε : Type}

def run (step : σ → ε → Option σ) : σ → List ε → Option σ
  | s, []      => some s
  | s, e :: es => (step s e).bind (fun s' => run step s' es)

def Always (step : σ → ε → Option σ) (P : σ → Prop) : σ → List ε → Prop
  | s, []      => P s
  | s, e :: es => P s ∧ ∀ s', step s e = some s' → Always step P s' es

def Meets (step : σ → ε → Option σ) (C : σ → ε → Prop) : σ → List ε → Prop
  | _, []      => True
  | s, e :: es => ∀ s', step s e = some s' → C s e ∧ Meets step C s' es

def MeetsAfter (step : σ → ε → Option σ) (C : List ε → ε → Prop) (s : σ) (es : List ε) : Prop :=
  ∀ pre e post, es = pre ++ e :: post → (run step s (pre ++ [e])).isSome = true → C pre e

instance Meets.decidable {step : σ → ε → Option σ} {C : σ → ε → Prop} [∀ s e, Decidable (C s e)] :
    ∀ (s : σ) (es : List ε), Decidable (Meets step C s es)
  | _, []      => isTrue trivial
  | s, e :: es =>
    match h : step s e with
    | none    => isTrue (fun s' h' => by rw [h] at h'; cases h')
    | some s' =>
      have : Decidable (Meets step C s' es) := Meets.decidable s' es
      decidable_of_iff (C s e ∧ Meets step C s' es)
        ⟨fun hc t ht => by rw [h] at ht; cases ht; exact hc, fun hc => hc s' h⟩

@[simp] theorem run_nil (step : σ → ε → Option σ) (s : σ) : run step s [] = some s := rfl

theorem run_cons_of_step {step : σ → ε → Option σ} {s s' : σ} {e : ε} (h : step s e = some s') (es : List ε) :
    run step s (e :: es) = run step s' es := by
  simp only [run, h, Option.bind_some]

theorem run_cons_eq_some {step : σ → ε → Option σ} {s t : σ} {e : ε} {es : List ε}
    (h : run step s (e :: es) = some t) : ∃ s', step s e = some s' ∧ run step s' es = some t :=
  Option.bind_eq_some_iff.1 h

theorem run_append (step : σ → ε → Option σ) : ∀ (es fs : List ε) (s : σ),
    run step s (es ++ fs) = (run step s es).bind (fun s' => run step s' fs)
  | [], _, _ => rfl
  | e :: es, fs, s => by
    cases h : step s e with
    | none => simp [run, h]
    | some s' => rw [List.cons_append, run_cons_of_step h, run_cons_of_step h, run_append step es fs s']

theorem run_append_of {step : σ → ε → Option σ} {s s' t : σ} {es fs : List ε} (h₁ : run step s es = some s')
    (h₂ : run step s' fs = some t) : run step s (es ++ fs) = some t := by
  rw [run_append, h₁]; exact h₂

/-- A run on given events is evaluated, with what is tested at its end. -/
theorem exists_run_of_any {step : σ → ε → Option σ} {s : σ} {es : List ε} {P : σ → Prop} [DecidablePred P]
    (h : (run step s es).any (fun t => decide (P t)) = true) : ∃ t, run step s es = some t ∧ P t := by
  obtain ⟨t, ht, hP⟩ := (Option.any_eq_true _ _).1 h
  exact ⟨t, ht, of_decide_eq_true hP⟩

def Reaches (step : σ → ε → Option σ) (s t : σ) : Prop := ∃ es, run step s es = some t

theorem Reaches.refl {step : σ → ε → Option σ} (s : σ) : Reaches step s s := ⟨[], rfl⟩

theorem Reaches.trans {step : σ → ε → Option σ} {s t u : σ} : Reaches step s t → Reaches step t u → Reaches step s u
  | ⟨es, h₁⟩, ⟨fs, h₂⟩ => ⟨es ++ fs, run_append_of h₁ h₂⟩

theorem Reaches.head {step : σ → ε → Option σ} {s t u : σ} {e : ε} (h : step s e = some t) :
    Reaches step t u → Reaches step s u
  | ⟨es, hr⟩ => ⟨e :: es, by rw [run_cons_of_step h, hr]⟩

theorem run_unique {step : σ → Unit → Option σ} {t u : σ} (ht : step t () = none) (hu : step u () = none) :
    ∀ (es fs : List Unit) {s : σ}, run step s es = some t → run step s fs = some u → t = u
  | [], [], _, h₁, h₂           => Option.some.inj (h₁.symm.trans h₂)
  | [], _ :: _, _, h₁, h₂       => by
    cases h₁
    obtain ⟨s', hs, -⟩ := run_cons_eq_some h₂
    rw [ht] at hs; cases hs
  | _ :: _, [], _, h₁, h₂       => by
    cases h₂
    obtain ⟨s', hs, -⟩ := run_cons_eq_some h₁
    rw [hu] at hs; cases hs
  | _ :: es, _ :: fs, _, h₁, h₂ => by
    obtain ⟨s₁, hs₁, h₁⟩ := run_cons_eq_some h₁
    obtain ⟨s₂, hs₂, h₂⟩ := run_cons_eq_some h₂
    rw [hs₁] at hs₂
    cases hs₂
    exact run_unique ht hu es fs h₁ h₂

/-- A system that nothing chooses in ends in one state only. -/
theorem Reaches.unique {step : σ → Unit → Option σ} {s t u : σ} (ht : step t () = none) (hu : step u () = none) :
    Reaches step s t → Reaches step s u → t = u
  | ⟨es, h₁⟩, ⟨fs, h₂⟩ => run_unique ht hu es fs h₁ h₂

theorem meets_append {step : σ → ε → Option σ} {C : σ → ε → Prop} : ∀ (es fs : List ε) {s : σ},
    Meets step C s (es ++ fs) ↔ Meets step C s es ∧ ∀ t, run step s es = some t → Meets step C t fs
  | [], _, _       => ⟨fun h => ⟨trivial, fun _ ht => by cases ht; exact h⟩, fun h => h.2 _ rfl⟩
  | e :: es, fs, s => by
    constructor
    · intro h
      refine ⟨fun s' h' => ⟨(h s' h').1, ((meets_append es fs).1 (h s' h').2).1⟩, fun t ht => ?_⟩
      obtain ⟨s', h', ht⟩ := run_cons_eq_some ht
      exact ((meets_append es fs).1 (h s' h').2).2 t ht
    · rintro ⟨h, hfs⟩ s' h'
      exact ⟨(h s' h').1, (meets_append es fs).2 ⟨(h s' h').2, fun t ht => hfs t (by rw [run_cons_of_step h', ht])⟩⟩

/-- **An invariant of the steps is an invariant of the runs.** -/
theorem run_invariant {step : σ → ε → Option σ} {I : σ → Prop}
    (hstep : ∀ s e s', I s → step s e = some s' → I s') :
    ∀ (es : List ε) {s t : σ}, I s → run step s es = some t → I t
  | [], _, _, hs, h => by cases h; exact hs
  | e :: es, s, t, hs, h => by
    obtain ⟨s', h₁, h₂⟩ := run_cons_eq_some h
    exact run_invariant hstep es (hstep s e s' hs h₁) h₂

/-- The same for an invariant that speaks of the events so far. -/
theorem run_invariant_events {step : σ → ε → Option σ} {I : List ε → σ → Prop}
    (hstep : ∀ past s e s', I past s → step s e = some s' → I (past ++ [e]) s') :
    ∀ (es : List ε) {past : List ε} {s t : σ}, I past s → run step s es = some t → I (past ++ es) t
  | [], past, _, _, hs, h => by cases h; rw [List.append_nil]; exact hs
  | e :: es, past, s, t, hs, h => by
    obtain ⟨s', h₁, h₂⟩ := run_cons_eq_some h
    have := run_invariant_events hstep es (hstep past s e s' hs h₁) h₂
    rwa [List.append_assoc] at this

/-- **An invariant of the steps that meet `C` holds in every state of a run that meets `C`.** -/
theorem always_of_meets {step : σ → ε → Option σ} {I P : σ → Prop} {C : σ → ε → Prop} (hP : ∀ s, I s → P s)
    (hstep : ∀ s e s', I s → C s e → step s e = some s' → I s') :
    ∀ (es : List ε) {s : σ}, I s → Meets step C s es → Always step P s es
  | [], s, hs, _ => hP s hs
  | e :: es, s, hs, h =>
    ⟨hP s hs, fun s' h' => always_of_meets hP hstep es (hstep s e s' hs (h s' h').1 h') (h s' h').2⟩

/-- **An invariant of the steps holds in every state of a run.** -/
theorem always_of_invariant {step : σ → ε → Option σ} {I P : σ → Prop} (hP : ∀ s, I s → P s)
    (hstep : ∀ s e s', I s → step s e = some s' → I s') (es : List ε) {s : σ} (hs : I s) : Always step P s es := by
  have hC : ∀ (es : List ε) (s : σ), Meets step (fun _ _ => True) s es := fun es => by
    induction es with
    | nil          => exact fun _ => trivial
    | cons e es ih => exact fun s s' _ => ⟨trivial, ih s'⟩
  exact always_of_meets hP (fun s e s' hi _ h => hstep s e s' hi h) es hs (hC es s)

theorem Always.start {step : σ → ε → Option σ} {P : σ → Prop} {s : σ} :
    ∀ {es : List ε}, Always step P s es → P s
  | [], h     => h
  | _ :: _, h => h.1

/-- **Where a step keeps `P` exactly when it meets `C`**, in the states an invariant of the steps allows, a run keeps
`P` exactly when its steps meet `C`. -/
theorem always_iff_meets_of_invariant {step : σ → ε → Option σ} {J P : σ → Prop} {C : σ → ε → Prop}
    (hJ : ∀ s e s', J s → step s e = some s' → J s')
    (hstep : ∀ s e s', J s → P s → step s e = some s' → (P s' ↔ C s e)) :
    ∀ (es : List ε) {s : σ}, J s → P s → (Always step P s es ↔ Meets step C s es)
  | [], _, _, hs => ⟨fun _ => trivial, fun _ => hs⟩
  | e :: es, s, hj, hs => by
    constructor
    · rintro ⟨-, h⟩ s' h'
      have hP := (h s' h').start
      exact ⟨(hstep s e s' hj hs h').1 hP, (always_iff_meets_of_invariant hJ hstep es (hJ s e s' hj h') hP).1 (h s' h')⟩
    · intro h
      refine ⟨hs, fun s' h' => ?_⟩
      obtain ⟨hC, hm⟩ := h s' h'
      have hP := (hstep s e s' hj hs h').2 hC
      exact (always_iff_meets_of_invariant hJ hstep es (hJ s e s' hj h') hP).2 hm

theorem always_iff_meets {step : σ → ε → Option σ} {P : σ → Prop} {C : σ → ε → Prop}
    (hstep : ∀ s e s', P s → step s e = some s' → (P s' ↔ C s e)) (es : List ε) {s : σ} (hs : P s) :
    Always step P s es ↔ Meets step C s es :=
  always_iff_meets_of_invariant (J := fun _ => True) (fun _ _ _ _ _ => trivial) (fun s e s' _ => hstep s e s') es
    trivial hs

theorem meetsAfter_cons {step : σ → ε → Option σ} {C : List ε → ε → Prop} {s : σ} {e : ε} {es : List ε} :
    MeetsAfter step C s (e :: es) ↔
      ∀ s', step s e = some s' → C [] e ∧ MeetsAfter step (fun pre => C (e :: pre)) s' es := by
  constructor
  · intro h s' h'
    refine ⟨h [] e es rfl (by rw [List.nil_append, run_cons_of_step h']; rfl), fun pre e' post hs hrun => ?_⟩
    exact h (e :: pre) e' post (by rw [hs]; rfl) (by rwa [List.cons_append, run_cons_of_step h'])
  · intro h pre e' post hs hrun
    obtain ⟨t, ht⟩ := Option.isSome_iff_exists.1 hrun
    cases pre with
    | nil =>
      obtain ⟨rfl, -⟩ := List.cons.inj hs
      obtain ⟨s', h', -⟩ := run_cons_eq_some ht
      exact (h s' h').1
    | cons x pre =>
      obtain ⟨rfl, hes⟩ := List.cons.inj hs
      obtain ⟨s', h', ht'⟩ := run_cons_eq_some ht
      exact (h s' h').2 pre e' post hes (Option.isSome_iff_exists.2 ⟨t, ht'⟩)

/-- **The same for a condition on the events so far**, which `J` connects with the state. -/
theorem always_iff_meetsAfter {step : σ → ε → Option σ} {J : List ε → σ → Prop} {P : σ → Prop} {C : List ε → ε → Prop}
    (hJ : ∀ past s e s', J past s → P s' → step s e = some s' → J (past ++ [e]) s')
    (hstep : ∀ past s e s', J past s → P s → step s e = some s' → (P s' ↔ C past e)) :
    ∀ (es past : List ε) {s : σ}, J past s → P s →
      (Always step P s es ↔ MeetsAfter step (fun pre => C (past ++ pre)) s es)
  | [], past, _, _, hs =>
    ⟨fun _ pre e post h => absurd h (by cases pre <;> exact fun h => by cases h), fun _ => hs⟩
  | e :: es, past, s, hj, hs => by
    have hassoc : (fun pre => C (past ++ e :: pre)) = fun pre => C (past ++ [e] ++ pre) :=
      funext (fun pre => by rw [List.append_assoc]; rfl)
    rw [meetsAfter_cons, List.append_nil]
    constructor
    · rintro ⟨-, h⟩ s' h'
      have hP := (h s' h').start
      refine ⟨(hstep past s e s' hj hs h').1 hP, ?_⟩
      rw [hassoc]
      exact (always_iff_meetsAfter hJ hstep es (past ++ [e]) (hJ past s e s' hj hP h') hP).1 (h s' h')
    · intro h
      refine ⟨hs, fun s' h' => ?_⟩
      obtain ⟨hC, hm⟩ := h s' h'
      have hP := (hstep past s e s' hj hs h').2 hC
      rw [hassoc] at hm
      exact (always_iff_meetsAfter hJ hstep es (past ++ [e]) (hJ past s e s' hj hP h') hP).2 hm

theorem Always.reached {step : σ → ε → Option σ} {P : σ → Prop} :
    ∀ (es : List ε) {s t : σ}, Always step P s es → run step s es = some t → P t
  | [], _, _, h, hr => by cases hr; exact h
  | e :: es, s, t, h, hr => by
    obtain ⟨s', h₁, h₂⟩ := run_cons_eq_some hr
    exact Always.reached es (h.2 s' h₁) h₂

/-- **Backwards**: where a step that keeps the run good leads to `P` exactly from `P` with the condition met, a good end
has `P` exactly when the start has and every step meets the condition. -/
theorem run_iff_meets {step : σ → ε → Option σ} {J G P : σ → Prop} {C : σ → ε → Prop}
    (hJ : ∀ s e s', J s → step s e = some s' → J s') (hG : ∀ s e s', step s e = some s' → G s' → G s)
    (hstep : ∀ s e s', J s → G s' → step s e = some s' → (P s' ↔ P s ∧ C s e)) :
    ∀ (es : List ε) {s t : σ}, J s → run step s es = some t → G t → G s ∧ (P t ↔ P s ∧ Meets step C s es)
  | [], _, _, _, h, hg => by cases h; exact ⟨hg, (and_iff_left trivial).symm⟩
  | e :: es, s, t, hj, h, hg => by
    obtain ⟨s', h₁, h₂⟩ := run_cons_eq_some h
    obtain ⟨hg', ih⟩ := run_iff_meets hJ hG hstep es (hJ s e s' hj h₁) h₂ hg
    have hmeets : Meets step C s (e :: es) ↔ C s e ∧ Meets step C s' es :=
      ⟨fun hm => hm s' h₁, fun hm s'' h'' => by rw [h₁] at h''; cases h''; exact hm⟩
    exact ⟨hG s e s' h₁ hg', by rw [ih, hstep s e s' hj hg' h₁, hmeets, and_assoc]⟩

theorem run_good {step : σ → ε → Option σ} {G : σ → Prop} (hG : ∀ s e s', step s e = some s' → G s' → G s) :
    ∀ (es : List ε) {s t : σ}, run step s es = some t → G t → G s
  | [], _, _, h, hg      => by cases h; exact hg
  | e :: es, s, t, h, hg => by
    obtain ⟨s', h₁, h₂⟩ := run_cons_eq_some h
    exact hG s e s' h₁ (run_good hG es h₂ hg)

/-- **A simulation**, along a run whose end is good, where the states before a good one are good. -/
theorem run_simulates {τ : Type} {step : σ → ε → Option σ} {spec : τ → ε → Option τ} {R : σ → τ → Prop} {G : σ → Prop}
    (hG : ∀ s e s', step s e = some s' → G s' → G s)
    (hstep : ∀ s d e s', R s d → G s' → step s e = some s' → ∃ d', spec d e = some d' ∧ R s' d') :
    ∀ (es : List ε) {s t : σ} {d : τ}, R s d → G t → run step s es = some t →
      ∃ d', run spec d es = some d' ∧ R t d'
  | [], _, _, d, hR, _, h => by cases h; exact ⟨d, rfl, hR⟩
  | e :: es, s, t, d, hR, hg, h => by
    obtain ⟨s', h₁, h₂⟩ := run_cons_eq_some h
    obtain ⟨d', hd', hR'⟩ := hstep s d e s' hR (run_good hG es h₂ hg) h₁
    obtain ⟨t', ht', hRt⟩ := run_simulates hG hstep es hR' hg h₂
    exact ⟨t', by rw [run_cons_of_step hd']; exact ht', hRt⟩

end Runs
end Scrapcode
