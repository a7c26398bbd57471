import Mathlib.Data.List.GetD
import Scrapcode.Rht03Sketch
/-!
# Rht03Capture — what the sketch captures

Two results.  Over runs: the stores to `timings` are inside it and the interrupt is detached when `readSensor` has
returned, exactly when no request fails and no read sees more than 88 line changes, counted on the events
(`safe_iff_contained`).  Over one read: where `analyseTimings` finds no error, every interval it looked at was within
the tolerance exactly when none of them was as long as 2^16 microseconds (`inTolerance_iff_short`), since an interval is
stored in 16 bits.
-/
namespace Scrapcode
namespace Rht03

/-! ## Runs -/

/-- Every store so far is inside `timings`, and the interrupt is detached whenever `readSensor` has returned. -/
def Safe (s : Sketch) : Prop := (∀ i ∈ s.stores, 0 ≤ i ∧ i ≤ 87) ∧ (s.pc = .idle → s.attached = false)

/-- The line changes the interrupt has run for since the last read began. -/
def changesAfter (n : Nat) : Event → Nat
  | .edge _ _ => n + 1
  | .call _   => 0
  | _         => n

def lineChanges (past : List Event) : Nat := past.foldl changesAfter 0

/-- A line change after 87 others at most in the same read, and a request that is answered. -/
def Contained (past : List Event) : Event → Prop
  | .edge _ _                => lineChanges past ≤ 87
  | .request high low back _ => high = true ∧ low ≠ 0 ∧ back ≠ 0
  | _                        => True

@[simp] theorem lineChanges_append (past : List Event) (e : Event) :
    lineChanges (past ++ [e]) = changesAfter (lineChanges past) e := by
  simp [lineChanges]

variable {s s' : Sketch} {e : Event} {past : List Event}

theorem requestSensorRead_ok (high : Bool) (low back : Int) (errors : Errors) :
    ((requestSensorRead high low back).run errors).1 = true ↔ high = true ∧ low ≠ 0 ∧ back ≠ 0 := by
  unfold requestSensorRead
  cases high with
  | false => exact iff_of_false (fun h => nomatch h) (fun h => nomatch h.1)
  | true =>
    by_cases hlow : low = 0
    · rw [if_neg (by decide), if_pos hlow]
      exact iff_of_false (fun h => nomatch h) (fun h => h.2.1 hlow)
    · by_cases hback : back = 0
      · rw [if_neg (by decide), if_neg hlow, if_pos hback]
        exact iff_of_false (fun h => nomatch h) (fun h => h.2.2 hback)
      · rw [if_neg (by decide), if_neg hlow, if_neg hback]
        exact iff_of_true rfl ⟨rfl, hlow, hback⟩

/-- **What a step does** to the stores, to where `readSensor` is and to the interrupt. -/
theorem step_cases (h : step s e = some s') :
    (∃ m m', e = .edge m m' ∧ s.attached = true ∧ s'.stores = s.stores ++ [s.signalLineChanges] ∧ s'.pc = s.pc ∧
      s'.attached = s.attached) ∨
    (∃ m, e = .call m ∧ s'.stores = s.stores ∧ s'.pc = .initialised ∧ s'.attached = false) ∨
    (e = .attach ∧ s'.stores = s.stores ∧ s'.pc = .requesting ∧ s'.attached = true) ∨
    (∃ high low back m, e = .request high low back m ∧ s.pc = .requesting ∧ s'.stores = s.stores ∧
      s'.attached = s.attached ∧
      (high = true ∧ low ≠ 0 ∧ back ≠ 0 ∧ s'.pc = .polling ∨ ¬(high = true ∧ low ≠ 0 ∧ back ≠ 0) ∧ s'.pc = .idle)) ∨
    (∃ m, e = .poll m ∧ s.pc = .polling ∧ s'.stores = s.stores ∧ s'.attached = s.attached ∧
      (s'.pc = .polling ∨ s'.pc = .stopping)) ∨
    (e = .detach ∧ s'.stores = s.stores ∧ s'.pc = .collected ∧ s'.attached = false) ∨
    (e = .analyse ∧ s.pc = .collected ∧ s'.stores = s.stores ∧ s'.pc = .idle ∧ s'.attached = s.attached) := by
  cases e with
  | edge m m' =>
    simp only [step] at h
    split at h
    · next hattached =>
      obtain rfl := Option.some.inj h
      exact .inl ⟨m, m', rfl, hattached, rfl, rfl, rfl⟩
    · cases h
  | call m =>
    simp only [step] at h
    split at h
    · obtain rfl := Option.some.inj h
      exact .inr (.inl ⟨m, rfl, rfl, rfl, rfl⟩)
    · cases h
  | attach =>
    simp only [step] at h
    split at h
    · obtain rfl := Option.some.inj h
      exact .inr (.inr (.inl ⟨rfl, rfl, rfl, rfl⟩))
    · cases h
  | request high low back m =>
    simp only [step] at h
    split at h
    · next hpc =>
      have hok := requestSensorRead_ok high low back s.errors
      refine .inr (.inr (.inr (.inl ⟨high, low, back, m, rfl, hpc, ?_⟩)))
      split at h
      · next errors hrun =>
        obtain rfl := Option.some.inj h
        rw [hrun] at hok
        obtain ⟨h₁, h₂, h₃⟩ := hok.1 rfl
        exact ⟨rfl, rfl, .inl ⟨h₁, h₂, h₃, rfl⟩⟩
      · next errors hrun =>
        obtain rfl := Option.some.inj h
        rw [hrun] at hok
        exact ⟨rfl, rfl, .inr ⟨fun h => Bool.false_ne_true (hok.2 h), rfl⟩⟩
    · cases h
  | poll m =>
    simp only [step] at h
    split at h
    · next hpc =>
      refine .inr (.inr (.inr (.inr (.inl ⟨m, rfl, hpc, ?_⟩))))
      split at h
      · obtain rfl := Option.some.inj h
        exact ⟨rfl, rfl, .inl hpc⟩
      · obtain rfl := Option.some.inj h
        exact ⟨rfl, rfl, .inr rfl⟩
    · cases h
  | detach =>
    simp only [step] at h
    split at h
    · obtain rfl := Option.some.inj h
      exact .inr (.inr (.inr (.inr (.inr (.inl ⟨rfl, rfl, rfl, rfl⟩)))))
    · cases h
  | analyse =>
    simp only [step] at h
    split at h
    · next hpc =>
      obtain rfl := Option.some.inj h
      exact .inr (.inr (.inr (.inr (.inr (.inr ⟨rfl, hpc, rfl, rfl, rfl⟩)))))
    · cases h

/-- While `readSensor` runs, the interrupt is attached from its own attach to its detach. -/
def Held (s : Sketch) : Prop :=
  ((s.pc = .requesting ∨ s.pc = .polling ∨ s.pc = .stopping) → s.attached = true) ∧
  ((s.pc = .initialised ∨ s.pc = .collected) → s.attached = false)

theorem held_step (hs : Held s) (h : step s e = some s') : Held s' := by
  obtain ⟨hon, hoff⟩ := hs
  rcases step_cases h with ⟨_, _, _, _, _, hpc, ha⟩ | ⟨_, _, _, hpc, ha⟩ | ⟨_, _, hpc, ha⟩ |
    ⟨_, _, _, _, _, hpc₀, _, ha, ⟨_, _, _, hpc⟩ | ⟨_, hpc⟩⟩ | ⟨_, _, hpc₀, _, ha, hpc | hpc⟩ | ⟨_, _, hpc, ha⟩ |
    ⟨_, _, _, hpc, ha⟩ <;> unfold Held <;> simp_all

def Event.edge? : Event → Option (BitVec 32 × BitVec 32)
  | .edge m m' => some (m, m')
  | _          => none

/-- A step that is neither a line change nor the start of a read leaves what is captured alone. -/
theorem captured_step (hedge : e.edge? = none) (hcall : ∀ m, e ≠ .call m) (h : step s e = some s') :
    s'.signalLineChanges = s.signalLineChanges ∧ s'.lastTransitionMicros = s.lastTransitionMicros ∧
      s'.timings = s.timings := by
  cases e with
  | edge m m' => cases hedge
  | call m    => exact absurd rfl (hcall m)
  | attach | detach | analyse =>
    simp only [step] at h
    split at h
    · obtain rfl := Option.some.inj h
      exact ⟨rfl, rfl, rfl⟩
    · cases h
  | request high low back m =>
    simp only [step] at h
    split at h
    · split at h <;> (obtain rfl := Option.some.inj h; exact ⟨rfl, rfl, rfl⟩)
    · cases h
  | poll m =>
    simp only [step] at h
    split at h
    · split at h <;> (obtain rfl := Option.some.inj h; exact ⟨rfl, rfl, rfl⟩)
    · cases h

/-- The counter is the number of line changes in the read: none of them was without room. -/
structure Counted (past : List Event) (s : Sketch) : Prop where
  held  : Held s
  count : s.signalLineChanges = lineChanges past
  le    : lineChanges past ≤ 88

theorem counted_step (hs : Counted past s) (hsafe : Safe s') (h : step s e = some s') :
    Counted (past ++ [e]) s' := by
  obtain ⟨hheld, hcount, hle⟩ := hs
  have hheld' := held_step hheld h
  have hother : e.edge? = none → (∀ m, e ≠ .call m) → changesAfter (lineChanges past) e = lineChanges past →
      Counted (past ++ [e]) s' := fun hedge hcall hsame =>
    ⟨hheld', by rw [(captured_step hedge hcall h).1, hcount, lineChanges_append, hsame],
      by rw [lineChanges_append, hsame]; exact hle⟩
  cases e with
  | edge m m' =>
    simp only [step] at h
    split at h
    · obtain rfl := Option.some.inj h
      have hroom : s.signalLineChanges ≤ 87 := (hsafe.1 _ (List.mem_append_right _ List.mem_cons_self)).2
      have hroom' : lineChanges past ≤ 87 := by omega
      refine ⟨hheld', ?_, by rw [lineChanges_append]; exact Nat.succ_le_succ hroom'⟩
      show (s.signalLineChanges + 1).bmod (2 ^ 16) = _
      rw [hcount, lineChanges_append]
      exact Int.bmod_eq_of_le (by omega) (by omega)
    · cases h
  | call m =>
    simp only [step] at h
    split at h
    · obtain rfl := Option.some.inj h
      exact ⟨hheld', by rw [lineChanges_append]; rfl, by rw [lineChanges_append]; exact Nat.zero_le _⟩
    · cases h
  | _ => exact hother rfl (fun _ he => by cases he) rfl

/-- **One step** keeps what is wanted exactly when it is contained. -/
theorem safe_step (hcounted : Counted past s) (hs : Safe s) (h : step s e = some s') : Safe s' ↔ Contained past e := by
  obtain ⟨hheld, hcount, -⟩ := hcounted
  obtain ⟨hstores, hidle⟩ := hs
  rcases step_cases h with ⟨m, m', rfl, ha, hst, hpc, ha'⟩ | ⟨m, rfl, hst, hpc, ha⟩ | ⟨rfl, hst, hpc, ha⟩ |
    ⟨high, low, back, m, rfl, hpc₀, hst, ha, hpc⟩ | ⟨m, rfl, hpc₀, hst, ha, hpc⟩ | ⟨rfl, hst, hpc, ha⟩ |
    ⟨rfl, hpc₀, hst, hpc, ha⟩
  · unfold Safe
    rw [hst, hpc, ha', ha]
    have hbusy : s.pc ≠ .idle := fun hidl => by
      have hdetached := hidle hidl
      rw [ha] at hdetached
      cases hdetached
    constructor
    · intro h
      have hstored := (h.1 _ (List.mem_append_right _ List.mem_cons_self)).2
      show lineChanges past ≤ 87
      omega
    · intro hroom
      have hroom' : lineChanges past ≤ 87 := hroom
      refine ⟨fun i hi => ?_, fun h => absurd h hbusy⟩
      rcases List.mem_append.1 hi with hi | hi
      · exact hstores i hi
      · rw [List.mem_singleton.1 hi]
        omega
  · exact iff_of_true ⟨hst ▸ hstores, fun _ => ha⟩ trivial
  · exact iff_of_true ⟨hst ▸ hstores, fun h => by rw [hpc] at h; cases h⟩ trivial
  · have hattached : s'.attached = true := ha.trans (hheld.1 (.inl hpc₀))
    rcases hpc with ⟨h₁, h₂, h₃, hpc⟩ | ⟨hfail, hpc⟩
    · exact iff_of_true ⟨hst ▸ hstores, fun h => by rw [hpc] at h; cases h⟩ ⟨h₁, h₂, h₃⟩
    · refine iff_of_false (fun h => ?_) hfail
      have hdetached := h.2 hpc
      rw [hattached] at hdetached
      cases hdetached
  · refine iff_of_true ⟨hst ▸ hstores, fun h => ?_⟩ trivial
    rcases hpc with hpc | hpc <;> rw [hpc] at h <;> cases h
  · exact iff_of_true ⟨hst ▸ hstores, fun _ => ha⟩ trivial
  · exact iff_of_true ⟨hst ▸ hstores, fun _ => ha.trans (hheld.2 (.inr hpc₀))⟩ trivial

/-- **Every run is safe exactly when its events are contained**: no line change comes after 88 others in one read, and
every request is answered. -/
theorem safe_iff_contained (es : List Event) : Runs.Always step Safe {} es ↔ Runs.MeetsAfter step Contained {} es :=
  Runs.always_iff_meetsAfter (fun _ _ _ _ => counted_step) (fun _ _ _ _ => safe_step) es []
    ⟨⟨(by rintro (h | h | h) <;> cases h), fun _ => rfl⟩, rfl, Nat.zero_le _⟩
    ⟨fun _ h => absurd h List.not_mem_nil, fun _ => rfl⟩

def unanswered : List Event := [.call 0, .attach, .request true 0 0 7]

/-- A read that sees 89 line changes before its first look at the counter. -/
def burst : List Event := [.call 0, .attach, .request true 80 80 7] ++ List.replicate 89 (.edge 100 100)

/-- **Two runs that are not safe**: a request that fails, and too many line changes. -/
theorem not_always_safe : ¬Runs.Always step Safe {} unanswered ∧ ¬Runs.Always step Safe {} burst := by
  have hrun : ∃ s, Runs.run step {} unanswered = some s ∧ s.pc = .idle ∧ s.attached = true :=
    ⟨_, rfl, rfl, rfl⟩
  have hstores : (Runs.run step {} burst).map (fun s => s.stores.contains 88) = some true := by decide +kernel
  constructor
  · intro h
    obtain ⟨s, hs, hpc, ha⟩ := hrun
    have hdetached := (h.reached _ hs).2 hpc
    rw [ha] at hdetached
    cases hdetached
  · intro h
    obtain ⟨s, hs, hmem⟩ := Option.map_eq_some_iff.1 hstores
    have hle := ((h.reached _ hs).1 88 (List.contains_iff_mem.1 hmem)).2
    omega

/-! ## One read -/

def micros (t : Nat) : BitVec 32 := BitVec.ofNat 32 t

def interval (start : Nat) (times : List Nat) (i : Nat) : Nat := times.getD i 0 - (start :: times).getD i 0

def stored (n : Nat) : Int := (BitVec.ofNat 16 n).toInt

/-- The tolerance at a position of `timings`: a low pulse at an odd one, a bit pulse at an even one. -/
def InTolerance (i : Nat) (us : Int) : Prop :=
  (i % 2 = 1 → 36 ≤ us ∧ us ≤ 74) ∧ (i % 2 = 0 → 11 ≤ us ∧ us ≤ 39 ∨ 61 ≤ us ∧ us ≤ 84)

theorem run_bind {α β : Type} (p : Checks α) (f : α → Checks β) (e : Errors) :
    (p >>= f).run e = (f (p.run e).1).run (p.run e).2 := rfl

theorem checkPreBitLowPulse_ok {us : Int} {i : Nat} {e : Errors}
    (h : ((checkPreBitLowPulse us i).run e).2.errorFlag = false) : e.errorFlag = false ∧ 36 ≤ us ∧ us ≤ 74 := by
  unfold checkPreBitLowPulse at h
  by_cases hus : (us ≤ 35 || us ≥ 75) = true
  · rw [if_pos hus] at h
    cases h
  · rw [if_neg hus] at h
    simp only [Bool.or_eq_true, decide_eq_true_eq] at hus
    exact ⟨h, by omega, by omega⟩

theorem shiftNextBit_ok {old : BitVec 16} {us : Int} {i : Nat} {e : Errors}
    (h : ((shiftNextBit old us i).run e).2.errorFlag = false) :
    e.errorFlag = false ∧ (11 ≤ us ∧ us ≤ 39 ∨ 61 ≤ us ∧ us ≤ 84) := by
  unfold shiftNextBit at h
  by_cases hzero : (us > 10 && us < 40) = true
  · rw [if_pos hzero] at h
    simp only [Bool.and_eq_true, decide_eq_true_eq] at hzero
    exact ⟨h, .inl ⟨by omega, by omega⟩⟩
  · rw [if_neg hzero] at h
    by_cases hone : (us > 60 && us < 85) = true
    · rw [if_pos hone] at h
      simp only [Bool.and_eq_true, decide_eq_true_eq] at hone
      exact ⟨h, .inr ⟨by omega, by omega⟩⟩
    · rw [if_neg hone] at h
      cases h

/-- **Bits without an error** are pulses within the tolerance. -/
theorem readnbits_ok {timings : List Int} : ∀ {nbits : Nat} {i : Nat} {result : BitVec 16} {e : Errors}, i % 2 = 1 →
    ((readnbits timings i nbits result).run e).2.errorFlag = false →
    e.errorFlag = false ∧ ∀ k, i ≤ k → k < i + 2 * nbits → InTolerance k (timings.getD k 0)
  | 0, i, _, _, _, h => ⟨h, fun k h₁ h₂ => absurd h₂ (by omega)⟩
  | nbits + 1, i, result, e, hodd, h => by
    unfold readnbits at h
    rw [run_bind, run_bind] at h
    obtain ⟨h₂, hrest⟩ := readnbits_ok (by omega) h
    obtain ⟨h₁, hbit⟩ := shiftNextBit_ok h₂
    obtain ⟨h₀, hlow⟩ := checkPreBitLowPulse_ok h₁
    refine ⟨h₀, fun k hk hlt => ?_⟩
    by_cases hki : k = i
    · subst hki
      exact ⟨fun _ => hlow, fun heven => absurd heven (by omega)⟩
    · by_cases hki' : k = i + 1
      · subst hki'
        exact ⟨fun hodd' => absurd hodd' (by omega), fun _ => hbit⟩
      · exact hrest k (by omega) (by omega)

theorem unlessFlagged_ok {text : String} {rest : Checks (Option Reading)} {e : Errors}
    (h : ((unlessFlagged text rest).run e).2.errorFlag = false) :
    e.errorFlag = false ∧ (rest.run e).2.errorFlag = false := by
  unfold unlessFlagged at h
  rw [run_bind] at h
  cases hflag : e.errorFlag with
  | false =>
    rw [show ((get : Checks Errors).run e).1 = e from rfl, hflag, if_neg Bool.false_ne_true] at h
    exact ⟨rfl, h⟩
  | true =>
    rw [show ((get : Checks Errors).run e).1 = e from rfl, hflag, if_pos rfl] at h
    have htrue : e.errorFlag = false := h
    rw [hflag] at htrue
    cases htrue

/-- **An analysis without an error** has every pulse of the bits within the tolerance. -/
theorem analyseTimings_ok {timings : List Int} {e : Errors}
    (h : ((analyseTimings timings).run e).2.errorFlag = false) :
    ∀ i, 5 ≤ i → i ≤ 84 → InTolerance i (timings.getD i 0) := by
  unfold analyseTimings at h
  rw [run_bind] at h
  obtain ⟨hhumid, h⟩ := unlessFlagged_ok h
  rw [run_bind] at h
  obtain ⟨htemp, h⟩ := unlessFlagged_ok h
  rw [run_bind] at h
  obtain ⟨hsum, -⟩ := unlessFlagged_ok h
  intro i h₁ h₂
  by_cases hi : i < 37
  · exact (readnbits_ok (by decide) hhumid).2 i h₁ (by omega)
  · by_cases hi' : i < 69
    · exact (readnbits_ok (by decide) htemp).2 i (by omega) (by omega)
    · exact (readnbits_ok (by decide) hsum).2 i (by omega) (by omega)

/-- **What is stored is the low half of the interval**, whatever the clock has wrapped to. -/
theorem pulse_eq {t t' : Nat} (h : t ≤ t') : ((micros t' - micros t).setWidth 16).toInt = stored (t' - t) := by
  have hsub : micros t' - micros t = BitVec.ofNat 32 (t' - t) := by
    unfold micros
    obtain ⟨d, rfl⟩ := Nat.exists_eq_add_of_le h
    rw [Nat.add_sub_cancel_left, BitVec.ofNat_add, BitVec.add_comm, BitVec.add_sub_cancel]
  rw [hsub, stored]
  refine congrArg BitVec.toInt (BitVec.eq_of_toNat_eq ?_)
  simp only [BitVec.toNat_setWidth, BitVec.toNat_ofNat]
  omega

/-- A stored time within the tolerance is a time within it, but for whole multiples of 2^16. -/
theorem inTolerance_stored {i n : Nat} (h : InTolerance i (stored n)) : InTolerance i n ↔ n < 2 ^ 16 := by
  have hrange : 11 ≤ stored n ∧ stored n ≤ 84 := by
    rcases Nat.mod_two_eq_zero_or_one i with hi | hi
    · have := h.2 hi
      omega
    · have := h.1 hi
      omega
  have hbmod : stored n = (n : Int).bmod (2 ^ 16) := BitVec.toInt_ofNat' n
  constructor
  · intro hn
    rcases Nat.mod_two_eq_zero_or_one i with hi | hi
    · have := hn.2 hi
      omega
    · have := hn.1 hi
      omega
  · intro hn
    have heq : stored n = n := by
      rw [hbmod] at hrange ⊢
      have hemod := Int.bmod_def (n : Int) (2 ^ 16)
      omega
    rwa [heq] at h

/-! ### The read as a run -/

/-- An event between the start of a read and its analysis. -/
def Event.inner : Event → Bool
  | .call _  => false
  | .analyse => false
  | _        => true

/-- The line changes so far are those of `times`. -/
structure Captured (start : Nat) (times : List Nat) (s : Sketch) : Prop where
  count   : s.signalLineChanges = times.length
  last    : s.lastTransitionMicros = micros ((start :: times).getD times.length 0)
  length  : s.timings.length = 88
  timings : ∀ i, i < times.length → s.timings.getD i 0 = stored (interval start times i)

variable {start t : Nat} {times : List Nat}

theorem captured_initState (hlen : s.timings.length = 88) (start : Nat) :
    Captured start [] (initState s (micros start)) where
  count := rfl
  last := rfl
  length := by simp [initState, hlen]
  timings i hi := absurd hi (Nat.not_lt_zero i)

theorem interval_append (i : Nat) (hi : i < times.length) (more : List Nat) :
    interval start (times ++ more) i = interval start times i := by
  unfold interval
  rw [List.getD_append times more 0 i hi, ← List.cons_append,
    List.getD_append (start :: times) more 0 i (Nat.lt_succ_of_lt hi)]

theorem Captured.edge (h : Captured start times s) (hroom : times.length < 88)
    (hle : (start :: times).getD times.length 0 ≤ t) :
    Captured start (times ++ [t]) (sensorLineChange s (micros t) (micros t)) := by
  have hnat : 0 ≤ s.signalLineChanges ∧ s.signalLineChanges.toNat = times.length := by
    rw [h.count]
    exact ⟨Int.natCast_nonneg _, Int.toNat_natCast _⟩
  have hlast : (start :: (times ++ [t])).getD (times ++ [t]).length 0 = t := by
    simp [List.getD_eq_getElem?_getD]
  refine ⟨?_, ?_, ?_, fun i hi => ?_⟩
  · show (s.signalLineChanges + 1).bmod (2 ^ 16) = _
    rw [h.count, List.length_append, List.length_singleton]
    exact Int.bmod_eq_of_le (by omega) (by omega)
  · rw [hlast]
    rfl
  · show (if 0 ≤ s.signalLineChanges then _ else _ : List Int).length = 88
    rw [if_pos hnat.1, List.length_set, h.length]
  · show (if 0 ≤ s.signalLineChanges then _ else _ : List Int).getD i 0 = _
    rw [if_pos hnat.1, hnat.2]
    by_cases hi' : i < times.length
    · rw [interval_append i hi', ← h.timings i hi', List.getD_eq_getElem?_getD, List.getElem?_set_ne (by omega),
        ← List.getD_eq_getElem?_getD]
    · have heq : i = times.length := by
        rw [List.length_append, List.length_singleton] at hi
        omega
      subst heq
      have hinterval : interval start (times ++ [t]) times.length = t - (start :: times).getD times.length 0 := by
        unfold interval
        rw [← List.cons_append, List.getD_append (start :: times) [t] 0 times.length (Nat.lt_succ_self _),
          List.getD_append_right times [t] 0 times.length (Nat.le_refl _), Nat.sub_self]
        rfl
      rw [hinterval, ← pulse_eq hle, List.getD_eq_getElem?_getD, List.getElem?_set_self (by rw [h.length]; exact hroom),
        h.last]
      rfl

theorem Captured.other (h : Captured start times s) (hin : e.inner = true) (hedge : e.edge? = none)
    (hstep : step s e = some s') : Captured start times s' := by
  obtain ⟨hcount, hlast, htimings⟩ := captured_step hedge (fun _ he => by subst he; cases hin) hstep
  exact ⟨hcount.trans h.count, hlast.trans h.last, htimings ▸ h.length, fun i hi => htimings ▸ h.timings i hi⟩

/-- The line changes among `es` are those at `times`. -/
def Edges (es : List Event) (times : List Nat) : Prop :=
  es.filterMap Event.edge? = times.map (fun t => (micros t, micros t))

instance (es : List Event) (times : List Nat) : Decidable (Edges es times) :=
  inferInstanceAs (Decidable (es.filterMap Event.edge? = times.map (fun t => (micros t, micros t))))

theorem captured_run : ∀ {es : List Event} {done times : List Nat} {s s' : Sketch}, Captured start done s →
    (∀ e ∈ es, e.inner = true) → Edges es times → (start :: (done ++ times)).Pairwise (· ≤ ·) →
    (done ++ times).length ≤ 88 → Runs.run step s es = some s' → Captured start (done ++ times) s'
  | [], done, times, s, s', h, _, hedges, _, _, hrun => by
    have hnil : times = [] := List.map_eq_nil_iff.1 hedges.symm
    obtain rfl := Option.some.inj hrun
    rwa [hnil, List.append_nil]
  | e :: es, done, times, s, s', h, hin, hedges, hsorted, hlen, hrun => by
    obtain ⟨s₁, hstep, hrest⟩ := Runs.run_cons_eq_some hrun
    have hin' : ∀ e ∈ es, e.inner = true := fun e he => hin e (List.mem_cons_of_mem _ he)
    cases hedge : e.edge? with
    | none =>
      have hedges' : Edges es times := by
        unfold Edges at hedges
        rwa [List.filterMap_cons_none hedge] at hedges
      exact captured_run (h.other (hin e List.mem_cons_self) hedge hstep) hin' hedges' hsorted hlen hrest
    | some mm =>
      unfold Edges at hedges
      rw [List.filterMap_cons_some hedge] at hedges
      cases times with
      | nil => cases hedges
      | cons t times =>
        obtain ⟨hmm, hedges'⟩ := List.cons.inj hedges
        have he : e = .edge (micros t) (micros t) := by
          cases e with
          | edge m m' =>
            obtain rfl := Option.some.inj hedge
            obtain ⟨h₁, h₂⟩ := Prod.mk.inj hmm
            rw [h₁, h₂]
          | _ => cases hedge
        subst he
        have hs₁ : s₁ = sensorLineChange s (micros t) (micros t) := by
          simp only [step] at hstep
          split at hstep
          · exact (Option.some.inj hstep).symm
          · cases hstep
        subst hs₁
        have happ : done ++ t :: times = (done ++ [t]) ++ times := by simp
        rw [happ] at hsorted hlen ⊢
        refine captured_run (h.edge ?_ ?_) hin' hedges' hsorted hlen hrest
        · rw [List.length_append, List.length_append, List.length_singleton] at hlen
          omega
        · rw [← List.cons_append, ← List.cons_append, List.append_assoc, List.pairwise_append] at hsorted
          have hmem : (start :: done).getD done.length 0 ∈ start :: done := by
            rw [List.getD_eq_getElem _ _ (Nat.lt_succ_self done.length)]
            exact List.getElem_mem _
          exact hsorted.2.2 _ hmem t (by simp)

theorem length_timings (h : s.timings.length = 88) (hstep : step s e = some s') : s'.timings.length = 88 := by
  cases e with
  | edge m m' =>
    simp only [step] at hstep
    split at hstep
    · obtain rfl := Option.some.inj hstep
      show (if 0 ≤ s.signalLineChanges then _ else _ : List Int).length = 88
      split
      · rw [List.length_set, h]
      · exact h
    · cases hstep
  | call m =>
    simp only [step] at hstep
    split at hstep
    · obtain rfl := Option.some.inj hstep
      simp [initState, h]
    · cases hstep
  | attach | detach | analyse =>
    simp only [step] at hstep
    split at hstep
    · obtain rfl := Option.some.inj hstep
      exact h
    · cases hstep
  | request high low back m =>
    simp only [step] at hstep
    split at hstep
    · split at hstep <;> (obtain rfl := Option.some.inj hstep; exact h)
    · cases hstep
  | poll m =>
    simp only [step] at hstep
    split at hstep
    · split at hstep <;> (obtain rfl := Option.some.inj hstep; exact h)
    · cases hstep

/-- A run of the sketch that ends with a read: the earlier steps, the start of the read, what happens in it, and the
analysis. -/
def reads (before : List Event) (start : Nat) (es : List Event) : List Event :=
  before ++ (.call (micros start) :: (es ++ [.analyse]))

theorem captured_read {before es : List Event} (hin : ∀ e ∈ es, e.inner = true) (hedges : Edges es times)
    (hsorted : (start :: times).Pairwise (· ≤ ·)) (hlen : times.length = 86)
    (hrun : Runs.run step {} (reads before start es) = some s') :
    ∃ s, Captured start times s ∧ s'.errors = ((analyseTimings s.timings).run s.errors).2 := by
  unfold reads at hrun
  rw [Runs.run_append] at hrun
  obtain ⟨s₀, hbefore, hrun⟩ := Option.bind_eq_some_iff.1 hrun
  obtain ⟨s₁, hcall, hrun⟩ := Runs.run_cons_eq_some hrun
  rw [Runs.run_append] at hrun
  obtain ⟨s₂, hes, hrun⟩ := Option.bind_eq_some_iff.1 hrun
  obtain ⟨s₃, hanalyse, hrun⟩ := Runs.run_cons_eq_some hrun
  obtain rfl := Option.some.inj hrun
  have hlength : s₀.timings.length = 88 :=
    Runs.run_invariant (I := fun s => s.timings.length = 88) (fun _ _ _ => length_timings) before rfl hbefore
  have hcaptured : Captured start [] s₁ := by
    simp only [step] at hcall
    split at hcall
    · obtain rfl := Option.some.inj hcall
      have h := captured_initState hlength start
      exact ⟨h.count, h.last, h.length, h.timings⟩
    · cases hcall
  have h₂ : Captured start times s₂ := captured_run hcaptured hin hedges hsorted (by rw [List.nil_append]; omega) hes
  refine ⟨s₂, h₂, ?_⟩
  simp only [step] at hanalyse
  split at hanalyse
  · obtain rfl := Option.some.inj hanalyse
    have hcount : ¬s₂.signalLineChanges ≠ 86 := fun hne => hne (by rw [h₂.count, hlen]; rfl)
    show ((collect s₂).run s₂.errors).2 = _
    rw [collect, if_neg hcount]
  · cases hanalyse

/-- **An analysis that finds no error** saw 80 intervals within the tolerance exactly when each of them was shorter than
2^16 microseconds. -/
theorem inTolerance_iff_short (before : List Event) (start : Nat) (es : List Event) (times : List Nat) (s' : Sketch)
    (hin : ∀ e ∈ es, e.inner = true) (hedges : Edges es times) (hsorted : (start :: times).Pairwise (· ≤ ·))
    (hlen : times.length = 86) (hrun : Runs.run step {} (reads before start es) = some s')
    (hok : s'.errors.errorFlag = false) :
    (∀ i, 5 ≤ i → i ≤ 84 → InTolerance i (interval start times i)) ↔
      ∀ i, 5 ≤ i → i ≤ 84 → interval start times i < 2 ^ 16 := by
  obtain ⟨s, hs, herrors⟩ := captured_read hin hedges hsorted hlen hrun
  rw [herrors] at hok
  have hstored : ∀ i, 5 ≤ i → i ≤ 84 → InTolerance i (stored (interval start times i)) := fun i h₁ h₂ => by
    rw [← hs.timings i (by omega)]
    exact analyseTimings_ok hok i h₁ h₂
  exact forall_congr' (fun i => forall_congr' (fun h₁ =>
    forall_congr' (fun h₂ => inTolerance_stored (hstored i h₁ h₂))))

def timesFrom : Nat → List Nat → List Nat
  | _, []          => []
  | t, gap :: gaps => (t + gap) :: timesFrom (t + gap) gaps

/-- A reading of 0 degrees and 0 percent, with a first low pulse of `low` microseconds. -/
def zeros (low : Nat) : List Nat :=
  timesFrom 0 ([7000, 30, 40, 80, 80] ++ (low :: 26 :: (List.replicate 39 [50, 26]).flatten) ++ [50])

/-- A read that is answered, with the line changes while it polls. -/
def answered (times : List Nat) : List Event :=
  [.attach, .request true 80 80 7] ++ times.map (fun t => .edge (micros t) (micros t)) ++ [.poll 107, .detach]

/-- Whether a run ends without an error. -/
def endsWell (es : List Event) : Bool := (Runs.run step {} es).any (fun s => !s.errors.errorFlag)

theorem run_of_endsWell (es : List Event) (h : endsWell es = true) :
    ∃ s', Runs.run step {} es = some s' ∧ s'.errors.errorFlag = false := by
  unfold endsWell at h
  cases hrun : Runs.run step {} es with
  | none    => rw [hrun] at h; cases h
  | some s' => rw [hrun] at h; exact ⟨s', rfl, Bool.not_inj (x := s'.errors.errorFlag) (y := false) h⟩

theorem inTolerance_iff_short_zeros : endsWell (reads [] 0 (answered (zeros 50))) = true ∧
    ∀ i, 5 ≤ i → i ≤ 84 → InTolerance i (interval 0 (zeros 50) i) := by
  refine ⟨by decide +kernel, ?_⟩
  obtain ⟨s', hrun, hok⟩ := run_of_endsWell (reads [] 0 (answered (zeros 50))) (by decide +kernel)
  have hshort : ∀ i < 85, interval 0 (zeros 50) i < 2 ^ 16 := by decide +kernel
  exact (inTolerance_iff_short [] 0 (answered (zeros 50)) (zeros 50) s' (by decide +kernel) (by decide +kernel)
    (by decide +kernel) (by decide +kernel) hrun hok).2 (fun i _ h => hshort i (by omega))

/-- **A low pulse of 65586 microseconds** passes for one of 50. -/
theorem alias_accepted : endsWell (reads [] 0 (answered (zeros 65586))) = true ∧ (zeros 65586).length = 86 ∧
    (0 :: zeros 65586).Pairwise (· ≤ ·) ∧ (∀ t ∈ zeros 65586, t ≤ 1000000) ∧
    ¬InTolerance 5 (interval 0 (zeros 65586) 5) := by
  refine ⟨by decide +kernel, by decide +kernel, by decide +kernel, by decide +kernel, fun h => ?_⟩
  have hlow := (h.1 (by decide)).2
  have hinterval : interval 0 (zeros 65586) 5 = 65586 := by decide +kernel
  omega

end Rht03
end Scrapcode
