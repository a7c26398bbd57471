import Scrapcode.LwlockProtocol
import Scrapcode.LwlockViews
/-!
# LwlockEnd — what the script keeps of a process that has ended

Which arrays have an entry for a process (`State.has`), for any events, whether or not the processes follow the
protocol.  A handler touches entries of its own process only, and only in arrays its options turn on (`Touches`).  After
both `postgres.end` handlers of a process nothing is left of it, but for the statistics of its waits: nothing deletes
those, so they stay exactly when a wait of a process with that pid was ever completed (`clean_iff`).
-/
namespace Scrapcode
namespace Lwlock

open Programs

variable {M : Nat} {κ ν α β : Type}

/-- The array has an entry for process `pid`. -/
def State.has (s : State M) (pid : Pid) : ArrayName → Prop
  | .locksHeldByPid         => ∃ lock mode, (s.locksHeldByPid.get? (pid, lock, mode)).isSome
  | .lockWaitStartUs        => (s.lockWaitStartUs.get? pid).isSome
  | .lockWaitLwlockP        => (s.lockWaitLwlockP.get? pid).isSome
  | .lockWaitBlocker        => (s.lockWaitBlocker.get? pid).isSome
  | .lockWaitBlockerMode    => (s.lockWaitBlockerMode.get? pid).isSome
  | .lockWaitBlockerAppname => (s.lockWaitBlockerAppname.get? pid).isSome
  | .acquireFunc            => (s.acquireFunc.get? pid).isSome
  | .applicationNames       => (s.applicationNames.get? pid).isSome
  | .backendTypes           => (s.backendTypes.get? pid).isSome
  | .heldDurationsPid       => ∃ trancheId mode, (s.heldDurationsPid.get? (pid, trancheId, mode)).isSome
  | .waitDurationsPid       => ∃ trancheId mode, (s.waitDurationsPid.get? (pid, trancheId, mode)).isSome
  | .heldDurationsAllprocs | .waitDurationsAllprocs | .trancheNames => False

/-- No array indexed by pid has an entry for `pid`. -/
def State.Clean (s : State M) (pid : Pid) : Prop := ∀ a, ¬s.has pid a

/-! ## Which entries a handler touches -/

/-- Only entries of process `q` in the arrays `W` are not as before. -/
structure Touches (q : Pid) (W : ArrayName → Prop) (s s' : State M) : Prop where
  has   : ∀ p a, p ≠ q ∨ ¬W a → (s'.has p a ↔ s.has p a)
  start : ∀ p, p ≠ q ∨ ¬W .lockWaitStartUs → s'.lockWaitStartUs.get? p = s.lockWaitStartUs.get? p

def Touching (q : Pid) (W : ArrayName → Prop) (p : Script M α) : Prop :=
  ∀ s, Ends (p s) (fun _ s' => Touches q W s s') (fun _ _ => True)

variable {q : Pid} {W : ArrayName → Prop} {s s' s'' : State M} {o : Options} {pid : Pid} {now : Int} {mode : LWLockMode}
  {lock : Lock} {trancheId : Nat}

theorem Touches.refl (q : Pid) (W : ArrayName → Prop) (s : State M) : Touches q W s s :=
  ⟨fun _ _ _ => Iff.rfl, fun _ _ => rfl⟩

theorem Touches.trans (h₁ : Touches q W s s') (h₂ : Touches q W s' s'') : Touches q W s s'' :=
  ⟨fun p a h => (h₂.has p a h).trans (h₁.has p a h), fun p h => (h₂.start p h).trans (h₁.start p h)⟩

theorem Touches.mono {V : ArrayName → Prop} (h : Touches q W s s') (hWV : ∀ a, W a → V a) : Touches q V s s' :=
  ⟨fun p a hp => h.has p a (hp.imp_right (mt (hWV a))), fun p hp => h.start p (hp.imp_right (mt (hWV _)))⟩

theorem Touching.bind {p : Script M α} {f : α → Script M β} (h : Touching q W p) (hf : ∀ x, Touching q W (f x)) :
    Touching q W (p >>= f) := fun s =>
  Ends.bind (h s) (fun x s' h' => (hf x s').mono (fun _ _ h'' => h'.trans h'') (fun _ _ h => h))

theorem ReadOnly.touching {p : Script M α} (h : ReadOnly p) : Touching q W p := fun s => by
  obtain ⟨x, hx⟩ := h s
  exact Ends.of_ok hx (Touches.refl q W s)

/-- A part that only touches what does not matter. -/
theorem Touching.skip {p : Script M α} {f : α → Script M β} {R : β → State M → Prop} (h : Touching q W p)
    (hf : ∀ x s', Ends (f x s') R (fun _ _ => True)) : Ends ((p >>= f) s) R (fun _ _ => True) :=
  Ends.bind (h s) (fun x s' _ => hf x s')

theorem ReadOnly.skip {p : Script M α} {f : α → Script M β} {R : β → State M → Prop} (h : ReadOnly p)
    (hf : ∀ x s', Ends (f x s') R (fun _ _ => True)) : Ends ((p >>= f) s) R (fun _ _ => True) :=
  Touching.skip (q := 0) (W := fun _ => True) h.touching hf

theorem touching_whenever {b : Bool} {p : Script M Unit} (h : b = true → Touching q W p) :
    Touching q W (whenever b p) := by
  cases b
  · exact (readOnly_pure ()).touching
  · exact h rfl

theorem touching_assert (b : Bool) (text : String) : Touching q W (assertThat b text : Script M Unit) := by
  cases b
  · exact fun _ => trivial
  · exact (readOnly_pure ()).touching

theorem touching_print (r : Report) : Touching q W (print r : Script M Unit) := fun s =>
  ⟨fun _ a _ => by cases a <;> exact Iff.rfl, fun _ _ => rfl⟩

section
variable [DecidableEq κ]

theorem readOnly_lookup (a : Global M κ ν) (k : κ) : ReadOnly (a.lookup? k) := fun _ => ⟨_, rfl⟩

/-- The keys of the array that are of process `q` are those `of q` says. -/
def Owned (a : Global M κ ν) (of : Pid → κ → Bool) : Prop := ∀ q W t s, W a.name →
  (∀ k, of q k = false → t.get? k = (a.table s).get? k) → Touches q W s (a.put t s)

variable {a : Global M κ ν} {of : Pid → κ → Bool} {k : κ}

theorem Owned.assign (ha : Owned a of) (hW : W a.name) (hk : of q k = true) (v : ν) : Touching q W (a.assign k v) :=
  fun s => (assign_ends a k v s).mono (fun _ _ ⟨t, hs, ht⟩ => hs ▸ ha q W t s hW (fun k' hk' => by
    have hne : k' ≠ k := fun heq => by rw [heq, hk] at hk'; cases hk'
    rw [ht, Function.update_of_ne hne])) (fun _ _ _ => trivial)

theorem Owned.delete (ha : Owned a of) (hW : W a.name) (hk : of q k = true) : Touching q W (a.delete k) := fun s =>
  ha q W _ s hW (fun k' hk' => by
    have hne : k' ≠ k := fun heq => by rw [heq, hk] at hk'; cases hk'
    rw [BoundedMap.get?_erase, Function.update_of_ne hne])

theorem Owned.deleteAll (ha : Owned a of) (hW : W a.name) {p : κ → Bool} (hp : ∀ k, p k = true → of q k = true) :
    Touching q W (a.deleteAll p) := fun s =>
  ha q W _ s hW (fun k hk => by
    have hpk : p k = false := Bool.eq_false_iff.2 (fun h => by rw [hp k h] at hk; cases hk)
    rw [BoundedMap.get?_keep, if_pos (by rw [hpk]; rfl)])

end

theorem Owned.push [DecidableEq κ] {a : Global M κ (List Int)} {of : Pid → κ → Bool} {k : κ} (ha : Owned a of)
    (hW : W a.name) (hk : of q k = true) (v : Int) : Touching q W (a.push k v) :=
  (readOnly_read a k []).touching.bind (fun _ => ha.assign hW hk _)

/-- What makes `of` right: it tells which keys an entry of a process is found under. -/
theorem owned_intro [DecidableEq κ] (a : Global M κ ν) {of : Pid → κ → Bool}
    (hhas : ∀ p (s : State M), s.has p a.name ↔ ∃ k, of p k = true ∧ ((a.table s).get? k).isSome)
    (hother : ∀ p t s b, b ≠ a.name → ((a.put t s).has p b ↔ s.has p b))
    (hstart : ∀ t s, (a.put t s).lockWaitStartUs = s.lockWaitStartUs)
    (hof : ∀ p q k, of p k = true → of q k = true → p = q) : Owned a of := by
  intro q W t s hW ht
  refine ⟨fun p b hp => ?_, fun p _ => by rw [hstart]⟩
  by_cases hb : b = a.name
  · subst hb
    have hpq : p ≠ q := hp.resolve_right (fun h => h hW)
    rw [hhas, hhas, a.table_put]
    refine exists_congr (fun k => and_congr_right (fun hk => ?_))
    rw [ht k (Bool.eq_false_iff.2 (fun hq => hpq (hof p q k hk hq)))]
  · exact hother p t s b hb

def isPid (q p : Pid) : Bool := p = q

def isOf {κ : Type} (q : Pid) (k : Pid × κ) : Bool := k.1 = q

def isAny {κ : Type} (_ : Pid) (_ : κ) : Bool := true

theorem isPid_self (q : Pid) : isPid q q = true := decide_eq_true rfl

theorem isPid_eq (p q k : Pid) (hp : isPid p k = true) (hq : isPid q k = true) : p = q :=
  (of_decide_eq_true hp).symm.trans (of_decide_eq_true hq)

theorem isOf_eq {κ : Type} (p q : Pid) (k : Pid × κ) (hp : isOf p k = true) (hq : isOf q k = true) : p = q :=
  (of_decide_eq_true hp).symm.trans (of_decide_eq_true hq)

theorem owned_byPid (a : Global M Pid ν) (hhas : ∀ p (s : State M), s.has p a.name ↔ ((a.table s).get? p).isSome)
    (hother : ∀ p t s b, b ≠ a.name → ((a.put t s).has p b ↔ s.has p b))
    (hstart : ∀ t s, (a.put t s).lockWaitStartUs = s.lockWaitStartUs) : Owned a isPid :=
  owned_intro a (fun p s => (hhas p s).trans
    ⟨fun h => ⟨p, isPid_self p, h⟩, fun ⟨_, hk, h⟩ => of_decide_eq_true hk ▸ h⟩) hother hstart isPid_eq

theorem owned_byKey {μ : Type} [DecidableEq κ] [DecidableEq μ] (a : Global M (Pid × κ × μ) ν)
    (hhas : ∀ p (s : State M), s.has p a.name ↔ ∃ x y, ((a.table s).get? (p, x, y)).isSome)
    (hother : ∀ p t s b, b ≠ a.name → ((a.put t s).has p b ↔ s.has p b))
    (hstart : ∀ t s, (a.put t s).lockWaitStartUs = s.lockWaitStartUs) : Owned a isOf :=
  owned_intro a (fun p s => (hhas p s).trans ⟨fun ⟨x, y, h⟩ => ⟨(p, x, y), decide_eq_true rfl, h⟩,
    fun ⟨⟨_, x, y⟩, hk, h⟩ => ⟨x, y, of_decide_eq_true hk ▸ h⟩⟩) hother hstart isOf_eq

theorem owned_lockWaitStartUs : Owned (lockWaitStartUs : Global M Pid Int) isPid := by
  intro q W t s hW ht
  have hget : ∀ p, p ≠ q → t.get? p = s.lockWaitStartUs.get? p := fun p hp => ht p (by simp [isPid, hp])
  refine ⟨fun p a h => ?_, fun p h => hget p (h.resolve_right (fun h => h hW))⟩
  cases a with
  | lockWaitStartUs =>
    show (t.get? p).isSome = true ↔ _
    rw [hget p (h.resolve_right (fun h => h hW))]; rfl
  | _ => exact Iff.rfl

theorem owned_lockWaitLwlockP : Owned (lockWaitLwlockP : Global M Pid Lock) isPid :=
  owned_byPid lockWaitLwlockP (fun _ _ => Iff.rfl)
    (fun _ _ _ b hb => by cases b <;> first | exact Iff.rfl | exact (hb rfl).elim) (fun _ _ => rfl)

theorem owned_lockWaitBlocker : Owned (lockWaitBlocker : Global M Pid Pid) isPid :=
  owned_byPid lockWaitBlocker (fun _ _ => Iff.rfl)
    (fun _ _ _ b hb => by cases b <;> first | exact Iff.rfl | exact (hb rfl).elim) (fun _ _ => rfl)

theorem owned_lockWaitBlockerMode : Owned (lockWaitBlockerMode : Global M Pid LWLockMode) isPid :=
  owned_byPid lockWaitBlockerMode (fun _ _ => Iff.rfl)
    (fun _ _ _ b hb => by cases b <;> first | exact Iff.rfl | exact (hb rfl).elim) (fun _ _ => rfl)

theorem owned_lockWaitBlockerAppname : Owned (lockWaitBlockerAppname : Global M Pid String) isPid :=
  owned_byPid lockWaitBlockerAppname (fun _ _ => Iff.rfl)
    (fun _ _ _ b hb => by cases b <;> first | exact Iff.rfl | exact (hb rfl).elim) (fun _ _ => rfl)

theorem owned_acquireFunc : Owned (acquireFunc : Global M Pid String) isPid :=
  owned_byPid acquireFunc (fun _ _ => Iff.rfl)
    (fun _ _ _ b hb => by cases b <;> first | exact Iff.rfl | exact (hb rfl).elim) (fun _ _ => rfl)

theorem owned_applicationNames : Owned (applicationNames : Global M Pid String) isPid :=
  owned_byPid applicationNames (fun _ _ => Iff.rfl)
    (fun _ _ _ b hb => by cases b <;> first | exact Iff.rfl | exact (hb rfl).elim) (fun _ _ => rfl)

theorem owned_backendTypes : Owned (backendTypes : Global M Pid Int) isPid :=
  owned_byPid backendTypes (fun _ _ => Iff.rfl)
    (fun _ _ _ b hb => by cases b <;> first | exact Iff.rfl | exact (hb rfl).elim) (fun _ _ => rfl)

theorem owned_locksHeldByPid : Owned (locksHeldByPid : Global M (Pid × Lock × LWLockMode) Int) isOf :=
  owned_byKey locksHeldByPid (fun _ _ => Iff.rfl)
    (fun _ _ _ b hb => by cases b <;> first | exact Iff.rfl | exact (hb rfl).elim) (fun _ _ => rfl)

theorem owned_durationsPid (stat : Stat) :
    Owned (durationsPid stat : Global M (Pid × Int × LWLockMode) (List Int)) isOf := by
  cases stat <;> exact owned_byKey (durationsPid _) (fun _ _ => Iff.rfl)
    (fun _ _ _ b hb => by cases b <;> first | exact Iff.rfl | exact (hb rfl).elim) (fun _ _ => rfl)

theorem owned_durationsAllprocs (stat : Stat) :
    Owned (durationsAllprocs stat : Global M (Int × LWLockMode) (List Int)) isAny := by
  intro q W t s _ _
  cases stat <;> exact ⟨fun _ b _ => by cases b <;> exact Iff.rfl, fun _ _ => rfl⟩

theorem owned_trancheNames : Owned (trancheNames : Global M Nat String) isAny :=
  fun _ _ _ _ _ _ => ⟨fun _ b _ => by cases b <;> exact Iff.rfl, fun _ _ => rfl⟩

/-! ## The handlers -/

/-- The options under which the script uses an array. -/
def Options.uses (o : Options) : ArrayName → Bool
  | .locksHeldByPid => o.trackHolds || o.trackBlockers
  | .lockWaitBlocker | .lockWaitBlockerMode | .lockWaitBlockerAppname => o.trackBlockers
  | .applicationNames | .backendTypes => o.trackApplicationNames
  | .heldDurationsPid | .waitDurationsPid => o.trackPerProcess
  | _ => true

def blockerArrays : List ArrayName := [.lockWaitBlocker, .lockWaitBlockerMode, .lockWaitBlockerAppname]

/-- The arrays a handler writes. -/
def Probe.writes : Probe → List ArrayName
  | .acquireStart _       => [.acquireFunc]
  | .waitStart _ _        => [.lockWaitStartUs, .lockWaitLwlockP] ++ blockerArrays
  | .holdAcquired _ _ _ _ => [.trancheNames, .locksHeldByPid]
  | .waitDone _ _ _       => [.waitDurationsAllprocs, .waitDurationsPid, .lockWaitStartUs, .acquireFunc,
      .lockWaitLwlockP] ++ blockerArrays
  | .acquireFinish _      => []
  | .release _ _ _        => [.heldDurationsAllprocs, .heldDurationsPid, .locksHeldByPid]
  | .backendType _ _      => [.backendTypes, .applicationNames]
  | .applicationName _    => [.applicationNames]
  | .endStats             => [.heldDurationsPid]
  | .endCleanup           => [.locksHeldByPid, .applicationNames, .backendTypes, .lockWaitStartUs, .acquireFunc,
      .lockWaitLwlockP] ++ blockerArrays

def Options.writes (o : Options) (p : Probe) (a : ArrayName) : Prop := p.writes.contains a = true ∧ o.uses a = true

theorem touching_acquireStart (func : AcquireFunc) (hW : W .acquireFunc) :
    Touching pid W (acquireStart o pid func : Script M Unit) := by
  unfold acquireStart
  cases func.startMark with
  | none      => exact (readOnly_pure ()).touching
  | some name =>
    refine (readOnly_lookup acquireFunc pid).touching.bind (fun _ => (touching_assert _ _).bind (fun _ => ?_))
    refine (readOnly_lookup lockWaitStartUs pid).touching.bind (fun _ => (touching_assert _ _).bind (fun _ => ?_))
    refine (readOnly_lookup lockWaitLwlockP pid).touching.bind (fun _ => (touching_assert _ _).bind (fun _ => ?_))
    refine Touching.bind (touching_whenever (fun _ => ?_)) (fun _ => owned_acquireFunc.assign hW (isPid_self pid) _)
    refine (readOnly_lookup lockWaitBlocker pid).touching.bind (fun _ => (touching_assert _ _).bind (fun _ => ?_))
    exact (readOnly_lookup lockWaitBlockerAppname pid).touching.bind (fun _ => touching_assert _ _)

theorem touching_acquireFinish (func : AcquireFunc) : Touching pid W (acquireFinish pid func : Script M Unit) := by
  unfold acquireFinish
  cases func.finishMark with
  | none      => exact (readOnly_pure ()).touching
  | some name => exact (readOnly_lookup acquireFunc pid).touching.bind (fun _ => touching_assert _ _)

theorem touching_holdAcquired (name : String) (hnames : W .trancheNames)
    (hheld : (o.trackHolds || o.trackBlockers) = true → W .locksHeldByPid) :
    Touching pid W (holdAcquired o pid now name mode lock trancheId : Script M Unit) := by
  refine touching_whenever (fun h => (touching_assert _ _).bind (fun _ => ?_))
  refine Touching.bind ?_ (fun _ => owned_locksHeldByPid.assign (hheld h) (decide_eq_true rfl) _)
  exact (readOnly_lookup trancheNames trancheId).touching.bind
    (fun _ => touching_whenever (fun _ => owned_trancheNames.assign hnames rfl _))

theorem touching_appendStats (stat : Stat) (us : Int) (hall : W (durationsAllprocs (M := M) stat).name)
    (hpid : o.trackPerProcess = true → W (durationsPid (M := M) stat).name) :
    Touching pid W (appendStats o pid stat us mode trancheId : Script M Unit) :=
  ((owned_durationsAllprocs stat).push hall rfl us).bind (fun _ =>
    ((owned_durationsAllprocs stat).push hall rfl us).bind (fun _ => touching_whenever (fun h =>
      ((owned_durationsPid stat).push (hpid h) (decide_eq_true rfl) us).bind
        (fun _ => (owned_durationsPid stat).push (hpid h) (decide_eq_true rfl) us))))

theorem touching_reportLongHolds (us : Int) :
    Touching q W (reportLongHolds o pid us mode trancheId : Script M Unit) :=
  touching_whenever (fun _ => (readOnly_read applicationNames pid "").touching.bind (fun _ =>
    (readOnly_read backendTypes pid 0).touching.bind (fun _ =>
      (readOnly_trancheIdStr _).touching.bind (fun _ => touching_print _))))

theorem touching_reportLongWaits (us : Int) :
    Touching q W (reportLongWaits o pid us mode trancheId : Script M Unit) := by
  refine touching_whenever (fun _ => (readOnly_read acquireFunc pid "").touching.bind (fun _ => ?_))
  refine (readOnly_read backendTypes pid 0).touching.bind (fun _ => (readOnly_trancheIdStr _).touching.bind (fun _ => ?_))
  refine (readOnly_read applicationNames pid "").touching.bind (fun _ => ?_)
  refine (readOnly_read lockWaitBlocker pid 0).touching.bind (fun _ => ?_)
  refine (readOnly_read lockWaitBlockerMode pid .exclusive).touching.bind (fun _ => ?_)
  exact (readOnly_read lockWaitBlockerAppname pid "").touching.bind (fun _ => touching_print _)

theorem touching_release (hall : W .heldDurationsAllprocs) (hpid : o.trackPerProcess = true → W .heldDurationsPid)
    (hheld : (o.trackHolds || o.trackBlockers) = true → W .locksHeldByPid) :
    Touching pid W (release o pid now mode lock trancheId : Script M Unit) := by
  refine touching_whenever (fun h => (touching_assert _ _).bind (fun _ => ?_))
  refine (readOnly_read locksHeldByPid _ 0).touching.bind (fun since => ?_)
  refine Touching.bind (touching_whenever (fun _ => touching_whenever (fun _ => ?_))) (fun _ => ?_)
  · exact (touching_appendStats .held _ hall hpid).bind (fun _ => touching_reportLongHolds _)
  · refine owned_locksHeldByPid.deleteAll (hheld h) (fun k hk => decide_eq_true ?_)
    simp only [Bool.and_eq_true, decide_eq_true_eq] at hk
    exact hk.1

theorem touching_trackBlockerInfoForWait (hW : ∀ a ∈ blockerArrays, W a) :
    Touching pid W (trackBlockerInfoForWait pid lock mode : Script M Unit) := by
  refine Touching.bind (ReadOnly.touching (p := get) (fun s => ⟨s, rfl⟩)) (fun _ => ?_)
  refine (owned_lockWaitBlocker.assign (hW .lockWaitBlocker (by decide)) (isPid_self pid) _).bind (fun _ => ?_)
  refine (owned_lockWaitBlockerMode.assign (hW .lockWaitBlockerMode (by decide)) (isPid_self pid) _).bind (fun _ => ?_)
  exact (readOnly_read applicationNames _ "").touching.bind
    (fun _ => owned_lockWaitBlockerAppname.assign (hW .lockWaitBlockerAppname (by decide)) (isPid_self pid) _)

theorem touching_waitStart (hstart : W .lockWaitStartUs) (hlwlock : W .lockWaitLwlockP)
    (hblocker : o.trackBlockers = true → ∀ a ∈ blockerArrays, W a) :
    Touching pid W (waitStart o pid now mode lock : Script M Unit) := by
  refine (readOnly_lookup lockWaitStartUs pid).touching.bind (fun started => ?_)
  by_cases h : started.isNone = true
  · rw [if_pos h]
    refine (owned_lockWaitStartUs.assign hstart (isPid_self pid) _).bind (fun _ => ?_)
    exact (owned_lockWaitLwlockP.assign hlwlock (isPid_self pid) _).bind
      (fun _ => touching_whenever (fun h => touching_trackBlockerInfoForWait (hblocker h)))
  · rw [if_neg h]
    exact (readOnly_read lockWaitLwlockP pid 0).touching.bind (fun _ => touching_assert _ _)

theorem touching_deleteBlocker (hW : o.trackBlockers = true → ∀ a ∈ blockerArrays, W a) :
    Touching pid W (whenever o.trackBlockers (do
      lockWaitBlocker.delete pid
      lockWaitBlockerMode.delete pid
      lockWaitBlockerAppname.delete pid) : Script M Unit) :=
  touching_whenever (fun h =>
    (owned_lockWaitBlocker.delete (hW h .lockWaitBlocker (by decide)) (isPid_self pid)).bind (fun _ =>
    (owned_lockWaitBlockerMode.delete (hW h .lockWaitBlockerMode (by decide)) (isPid_self pid)).bind
      (fun _ => owned_lockWaitBlockerAppname.delete (hW h .lockWaitBlockerAppname (by decide)) (isPid_self pid))))

theorem touching_backendType (type : Int) (description : Option String)
    (hW : o.trackApplicationNames = true → W .backendTypes ∧ W .applicationNames) :
    Touching pid W (backendType o pid type description : Script M Unit) := by
  refine touching_whenever (fun h => (owned_backendTypes.assign (hW h).1 (isPid_self pid) _).bind (fun _ => ?_))
  cases description with
  | none      => exact (readOnly_pure ()).touching
  | some name => exact owned_applicationNames.assign (hW h).2 (isPid_self pid) _

theorem touching_applicationName (name : Option String) (hW : o.trackApplicationNames = true → W .applicationNames) :
    Touching pid W (applicationName o pid name : Script M Unit) := by
  refine touching_whenever (fun h => ?_)
  cases name with
  | none      => exact (readOnly_pure ()).touching
  | some name => exact owned_applicationNames.assign (hW h) (isPid_self pid) _

theorem touching_endStats (hW : o.trackPerProcess = true → W .heldDurationsPid) :
    Touching pid W (endStats o pid : Script M Unit) := by
  refine touching_whenever (fun h => Touching.bind (ReadOnly.touching (p := get) (fun s => ⟨s, rfl⟩)) (fun _ => ?_))
  refine touching_whenever (fun _ => (readOnly_read backendTypes pid 0).touching.bind (fun _ => ?_))
  refine (readOnly_read applicationNames pid "").touching.bind (fun _ => ?_)
  refine (readOnly_statsRows readOnly_statsPid _).touching.bind (fun _ => (touching_print _).bind (fun _ => ?_))
  exact (owned_durationsPid .held).deleteAll (hW h) (fun _ hk => hk)

/-! ### Waits -/

/-- The end of `waitDone`. -/
def forgetAttempt (o : Options) (pid : Pid) : Script M Unit := do
  lockWaitStartUs.delete pid
  whenever o.trackBlockers do
    lockWaitBlocker.delete pid
    lockWaitBlockerMode.delete pid
    lockWaitBlockerAppname.delete pid
  acquireFunc.delete pid
  lockWaitLwlockP.delete pid

/-- What a wait that began at `since` is worth. -/
def sampleWait (o : Options) (pid : Pid) (since now : Int) (mode : LWLockMode) (lock : Lock) (trancheId : Nat) :
    Script M Unit := do
  let waiting ← lockWaitLwlockP.read pid 0
  let func ← acquireFunc.read pid ""
  let got := pointerStr waiting
  let expected := pointerStr lock
  assertThat (waiting = lock) s!"mismatched lwlock pointer in acquired: got {got} expected {expected} (in {func})"
  appendWaitStats o pid (now - since) mode trancheId
  reportLongWaits o pid (now - since) mode trancheId

theorem waitDone_eq : (waitDone o pid now mode lock trancheId : Script M Unit) = (do
    let since ← lockWaitStartUs.read pid 0
    whenever (since ≠ 0) (sampleWait o pid since now mode lock trancheId)
    forgetAttempt o pid) := rfl

theorem touching_sampleWait {since : Int} (hall : W .waitDurationsAllprocs)
    (hpid : o.trackPerProcess = true → W .waitDurationsPid) :
    Touching pid W (sampleWait o pid since now mode lock trancheId : Script M Unit) :=
  (readOnly_read lockWaitLwlockP pid 0).touching.bind (fun _ => (readOnly_read acquireFunc pid "").touching.bind
    (fun _ => (touching_assert _ _).bind (fun _ => (touching_appendStats .wait _ hall hpid).bind
      (fun _ => touching_reportLongWaits _))))

theorem touching_forgetAttempt (hstart : W .lockWaitStartUs) (hfunc : W .acquireFunc) (hlwlock : W .lockWaitLwlockP)
    (hblocker : o.trackBlockers = true → ∀ a ∈ blockerArrays, W a) :
    Touching pid W (forgetAttempt o pid : Script M Unit) :=
  (owned_lockWaitStartUs.delete hstart (isPid_self pid)).bind (fun _ => (touching_deleteBlocker hblocker).bind
    (fun _ => (owned_acquireFunc.delete hfunc (isPid_self pid)).bind
      (fun _ => owned_lockWaitLwlockP.delete hlwlock (isPid_self pid))))

theorem touching_waitDone (hall : W .waitDurationsAllprocs) (hpid : o.trackPerProcess = true → W .waitDurationsPid)
    (hstart : W .lockWaitStartUs) (hfunc : W .acquireFunc) (hlwlock : W .lockWaitLwlockP)
    (hblocker : o.trackBlockers = true → ∀ a ∈ blockerArrays, W a) :
    Touching pid W (waitDone o pid now mode lock trancheId : Script M Unit) := by
  rw [waitDone_eq]
  exact (readOnly_read lockWaitStartUs pid 0).touching.bind (fun _ =>
    (touching_whenever (fun _ => touching_sampleWait hall hpid)).bind
      (fun _ => touching_forgetAttempt hstart hfunc hlwlock hblocker))

theorem waitStart_start (o : Options) (pid : Pid) (now : Int) (mode : LWLockMode) (lock : Lock) (s : State M) :
    Ends (waitStart o pid now mode lock s)
    (fun _ s' => s'.lockWaitStartUs.get? pid = some ((s.lockWaitStartUs.get? pid).getD now)) (fun _ _ => True) := by
  unfold waitStart
  refine Ends.bind (Q := fun x s' => s' = s ∧ x = s.lockWaitStartUs.get? pid) ⟨rfl, rfl⟩ (fun started s₁ h₁ => ?_)
  obtain ⟨rfl, rfl⟩ := h₁
  cases hstarted : s₁.lockWaitStartUs.get? pid with
  | some since =>
    rw [if_neg (by simp)]
    have htouch : Touching pid (fun _ => False) (do
        let waiting ← (lockWaitLwlockP : Global M Pid Lock).read pid 0
        let got := pointerStr waiting
        let expected := pointerStr lock
        assertThat (waiting = lock) s!"wait resume lwlock ptr mismatch: got {got} expected {expected}") :=
      (readOnly_read lockWaitLwlockP pid 0).touching.bind (fun _ => touching_assert _ _)
    exact (htouch s₁).mono (fun _ _ h => (h.start pid (.inr id)).trans hstarted) (fun _ _ h => h)
  | none =>
    show Ends ((do
      (lockWaitStartUs : Global M Pid Int).assign pid now
      lockWaitLwlockP.assign pid lock
      whenever o.trackBlockers (trackBlockerInfoForWait pid lock mode)) s₁) _ _
    refine Ends.bind ((assign_ends lockWaitStartUs pid now s₁).mono_fault (fun _ _ _ => trivial))
      (fun _ s₂ h₂ => ?_)
    obtain ⟨t, rfl, ht⟩ := h₂
    have htouch : Touching pid (· ≠ .lockWaitStartUs) (do
        (lockWaitLwlockP : Global M Pid Lock).assign pid lock
        whenever o.trackBlockers (trackBlockerInfoForWait pid lock mode)) :=
      (owned_lockWaitLwlockP.assign (nomatch ·) (isPid_self pid) _).bind
        (fun _ => touching_whenever (fun _ => touching_trackBlockerInfoForWait (by decide)))
    refine (htouch _).mono (fun _ s' h => (h.start pid (.inr (fun h => h rfl))).trans ?_) (fun _ _ h => h)
    exact (congrFun ht pid).trans (Function.update_self pid _ _)

theorem forgetAttempt_start (o : Options) (pid : Pid) (s : State M) :
    Ends (forgetAttempt o pid s) (fun _ s' => s'.lockWaitStartUs.get? pid = none)
    (fun _ _ => True) := by
  refine Ends.bind (Q := fun _ s' => s'.lockWaitStartUs.get? pid = none) (p := lockWaitStartUs.delete pid) ?_
    (fun _ s₁ h₁ => ?_)
  · show (s.lockWaitStartUs.erase pid).get? pid = none
    rw [BoundedMap.get?_erase, Function.update_self]
  · have htouch : Touching pid (· ≠ .lockWaitStartUs) (do
        whenever o.trackBlockers (do
          (lockWaitBlocker : Global M Pid Pid).delete pid
          lockWaitBlockerMode.delete pid
          lockWaitBlockerAppname.delete pid)
        acquireFunc.delete pid
        lockWaitLwlockP.delete pid) :=
      (touching_deleteBlocker (fun _ => by decide)).bind (fun _ =>
        (owned_acquireFunc.delete (nomatch ·) (isPid_self pid)).bind
          (fun _ => owned_lockWaitLwlockP.delete (nomatch ·) (isPid_self pid)))
    exact (htouch s₁).mono (fun _ _ h => (h.start pid (.inr (fun h => h rfl))).trans h₁) (fun _ _ h => h)

theorem push_has (stat : Stat) (k : Pid × Int × LWLockMode) (v : Int) :
    Ends ((durationsPid stat).push k v s) (fun _ s' => s'.has k.1 (durationsPid (M := M) stat).name)
      (fun _ _ => True) := by
  unfold Global.push
  rw [bind_run, read_run]
  refine (assign_ends (durationsPid stat) k _ s).mono (fun _ _ ⟨t, hs, ht⟩ => ?_) (fun _ _ _ => trivial)
  have hk : (t.get? k).isSome := by rw [ht, Function.update_self]; rfl
  subst hs
  cases stat <;> exact ⟨k.2.1, k.2.2, hk⟩

theorem sampleWait_has {since : Int} (hp : o.trackPerProcess = true) :
    Ends (sampleWait o pid since now mode lock trancheId s) (fun _ s' => s'.has pid .waitDurationsPid)
      (fun _ _ => True) := by
  have hhas : ∀ s : State M, Ends (appendStats o pid .wait (now - since) mode trancheId s)
      (fun _ s' => s'.has pid .waitDurationsPid) (fun _ _ => True) := fun s => by
    have hall : Touching pid (fun _ => True) ((durationsAllprocs .wait).push (-1, mode) (now - since) : Script M Unit) :=
      (owned_durationsAllprocs .wait).push trivial rfl _
    have htranche : Touching pid (fun _ => True)
        ((durationsAllprocs .wait).push ((trancheId : Int), mode) (now - since) : Script M Unit) :=
      (owned_durationsAllprocs .wait).push trivial rfl _
    have hpid : Touching pid (fun _ => True)
        ((durationsPid .wait).push (pid, (trancheId : Int), mode) (now - since) : Script M Unit) :=
      (owned_durationsPid .wait).push trivial (decide_eq_true rfl) _
    unfold appendStats
    rw [hp]
    exact hall.skip (fun _ _ => htranche.skip (fun _ _ => hpid.skip (fun _ _ => push_has .wait (pid, -1, mode) _)))
  refine (readOnly_read lockWaitLwlockP pid 0).skip (fun _ _ => (readOnly_read acquireFunc pid "").skip (fun _ _ => ?_))
  refine Touching.skip (q := pid) (W := fun _ => True) (touching_assert _ _) (fun _ s₁ => ?_)
  refine Ends.bind (hhas s₁) (fun _ s₂ h₂ => ?_)
  exact (touching_reportLongWaits (q := pid) (W := fun _ => False) _ s₂).mono
    (fun _ _ h => (h.has pid _ (.inr id)).2 h₂) (fun _ _ h => h)

/-! ### The end of a process -/

theorem touching_modifyPrinted (f : List Report → List Report) :
    Touching q W (modify (fun s => { s with printed := f s.printed }) : Script M Unit) := fun s =>
  ⟨fun _ a _ => by cases a <;> exact Iff.rfl, fun _ _ => rfl⟩

theorem touching_deletePerPidEntries (hheld : (o.trackHolds || o.trackBlockers) = true → W .locksHeldByPid)
    (hnames : o.trackApplicationNames = true → W .backendTypes ∧ W .applicationNames)
    (hstart : W .lockWaitStartUs) (hfunc : W .acquireFunc) (hlwlock : W .lockWaitLwlockP)
    (hblocker : o.trackBlockers = true → ∀ a ∈ blockerArrays, W a) :
    Touching pid W (deletePerPidEntries o pid : Script M Unit) := by
  refine Touching.bind (touching_whenever (fun h => ?_)) (fun _ => (touching_deleteBlocker hblocker).bind (fun _ => ?_))
  · refine Touching.bind (ReadOnly.touching (p := get) (fun s => ⟨s, rfl⟩)) (fun _ => ?_)
    refine (touching_modifyPrinted (fun l => l ++ _)).bind (fun _ => ?_)
    exact owned_locksHeldByPid.deleteAll (hheld h) (fun k (hk : decide (k.1 = pid) = true) => hk)
  · refine Touching.bind (touching_whenever (fun h => ?_)) (fun _ => ?_)
    · exact (owned_applicationNames.delete (hnames h).2 (isPid_self pid)).bind
        (fun _ => owned_backendTypes.delete (hnames h).1 (isPid_self pid))
    · exact (owned_lockWaitStartUs.delete hstart (isPid_self pid)).bind (fun _ =>
        (owned_acquireFunc.delete hfunc (isPid_self pid)).bind
          (fun _ => owned_lockWaitLwlockP.delete hlwlock (isPid_self pid)))

/-- The state `deletePerPidEntries` leaves. -/
def State.forgotten (o : Options) (pid : Pid) (s : State M) : State M :=
  { s with
    locksHeldByPid :=
      if o.trackHolds || o.trackBlockers then s.locksHeldByPid.keep (fun k => !decide (k.1 = pid)) else s.locksHeldByPid
    printed :=
      if o.trackHolds || o.trackBlockers then
        s.printed ++ (s.locksHeldByPid.keys.filter (fun k => k.1 = pid)).map (fun k => .leaked k.1 k.2.1 k.2.2)
      else s.printed
    lockWaitBlocker := if o.trackBlockers then s.lockWaitBlocker.erase pid else s.lockWaitBlocker
    lockWaitBlockerMode := if o.trackBlockers then s.lockWaitBlockerMode.erase pid else s.lockWaitBlockerMode
    lockWaitBlockerAppname := if o.trackBlockers then s.lockWaitBlockerAppname.erase pid else s.lockWaitBlockerAppname
    applicationNames := if o.trackApplicationNames then s.applicationNames.erase pid else s.applicationNames
    backendTypes := if o.trackApplicationNames then s.backendTypes.erase pid else s.backendTypes
    lockWaitStartUs := s.lockWaitStartUs.erase pid
    acquireFunc := s.acquireFunc.erase pid
    lockWaitLwlockP := s.lockWaitLwlockP.erase pid }

theorem deletePerPidEntries_run : deletePerPidEntries o pid s = .ok () (s.forgotten o pid) := by
  rcases o with ⟨holds, _, _, _, _, _, blockers, names, _, _, _, _⟩
  cases holds <;> cases blockers <;> cases names <;> rfl

theorem get?_erase_self {cap : Nat} (m : BoundedMap Pid ν cap) (pid : Pid) : (m.erase pid).get? pid = none := by
  rw [BoundedMap.get?_erase, Function.update_self]

/-- **What is left of a process** its second `postgres.end` handler has run for: the statistics. -/
theorem forgotten_has {a : ArrayName} (ha : o.uses a = true) (h : (s.forgotten o pid).has pid a) :
    a = .heldDurationsPid ∨ a = .waitDurationsPid := by
  have hnone : ∀ {ν : Type} {cap : Nat} (m : BoundedMap Pid ν cap), ¬((m.erase pid).get? pid).isSome = true :=
    fun m => by rw [get?_erase_self]; exact Bool.false_ne_true
  cases a with
  | heldDurationsPid => exact .inl rfl
  | waitDurationsPid => exact .inr rfl
  | locksHeldByPid =>
    obtain ⟨lock, mode, h⟩ := h
    have huses : (o.trackHolds || o.trackBlockers) = true := ha
    unfold State.forgotten at h
    simp [huses, BoundedMap.get?_keep] at h
  | lockWaitStartUs => exact absurd h (hnone _)
  | acquireFunc => exact absurd h (hnone _)
  | lockWaitLwlockP => exact absurd h (hnone _)
  | lockWaitBlocker | lockWaitBlockerMode | lockWaitBlockerAppname =>
    have huses : o.trackBlockers = true := ha
    simp only [State.has, State.forgotten, huses, if_true] at h
    exact absurd h (hnone _)
  | applicationNames | backendTypes =>
    have huses : o.trackApplicationNames = true := ha
    simp only [State.has, State.forgotten, huses, if_true] at h
    exact absurd h (hnone _)
  | heldDurationsAllprocs | waitDurationsAllprocs | trancheNames => exact h.elim

theorem endStats_has (hp : o.trackPerProcess = true) (pid : Pid) (s : State M) :
    Ends (endStats o pid s) (fun _ s' => ¬s'.has pid .heldDurationsPid) (fun _ _ => True) := by
  unfold endStats
  rw [hp]
  refine Ends.bind (Q := fun x s' => x = s ∧ s' = s) (p := get) ⟨rfl, rfl⟩ (fun s₀ s₁ h₁ => ?_)
  obtain ⟨rfl, rfl⟩ := h₁
  cases hkeys : (!((((durationsPid .held).table s₁).keys.filter (fun k => k.1 = pid)).isEmpty)) with
  | true =>
    refine (readOnly_read backendTypes pid 0).skip (fun _ _ =>
      (readOnly_read applicationNames pid "").skip (fun _ _ => ?_))
    refine (readOnly_statsRows readOnly_statsPid _).skip (fun _ _ => ?_)
    refine (touching_print (q := pid) (W := fun _ => True) _).skip (fun _ s₂ => ?_)
    rintro ⟨trancheId, mode, h⟩
    have h : ((s₂.heldDurationsPid.keep (fun k => !decide (k.1 = pid))).get? (pid, trancheId, mode)).isSome := h
    simp [BoundedMap.get?_keep] at h
  | false =>
    rintro ⟨trancheId, mode, h⟩
    have hmem : (pid, trancheId, mode) ∈ s₁.heldDurationsPid.keys := BoundedMap.mem_keys.2 h
    have hempty : (s₁.heldDurationsPid.keys.filter (fun k => k.1 = pid)).isEmpty = true :=
      Bool.not_inj (y := true) hkeys
    rw [List.isEmpty_iff, List.filter_eq_nil_iff] at hempty
    exact hempty _ hmem (decide_eq_true rfl)

/-! ## Runs -/

/-- **A handler touches entries of its own process only**, in arrays it writes and the options turn on. -/
theorem fire_touching (o : Options) (pid : Pid) (now : Int) (p : Probe) :
    Touching pid (o.writes p) (fire o pid now p : Script M Unit) := by
  have hblocker : ∀ p : Probe, blockerArrays.all p.writes.contains = true → o.trackBlockers = true →
      ∀ a ∈ blockerArrays, o.writes p a :=
    fun p hp h a ha => ⟨List.all_eq_true.1 hp a ha, by
      simp only [blockerArrays, List.mem_cons, List.not_mem_nil, or_false] at ha
      rcases ha with rfl | rfl | rfl <;> exact h⟩
  cases p with
  | acquireStart func => exact touching_acquireStart func ⟨rfl, rfl⟩
  | waitStart mode lock => exact touching_waitStart ⟨rfl, rfl⟩ ⟨rfl, rfl⟩ (hblocker _ rfl)
  | holdAcquired name mode lock trancheId => exact touching_holdAcquired name ⟨rfl, rfl⟩ (fun h => ⟨rfl, h⟩)
  | waitDone how lock trancheId =>
    exact touching_waitDone ⟨rfl, rfl⟩ (fun h => ⟨rfl, h⟩) ⟨rfl, rfl⟩ ⟨rfl, rfl⟩ ⟨rfl, rfl⟩ (hblocker _ rfl)
  | acquireFinish func => exact touching_acquireFinish func
  | release mode lock trancheId => exact touching_release ⟨rfl, rfl⟩ (fun h => ⟨rfl, h⟩) (fun h => ⟨rfl, h⟩)
  | backendType type description =>
    exact touching_backendType type description (fun h => ⟨⟨rfl, h⟩, ⟨rfl, h⟩⟩)
  | applicationName name => exact touching_applicationName name (fun h => ⟨rfl, h⟩)
  | endStats => exact touching_endStats (fun h => ⟨rfl, h⟩)
  | endCleanup =>
    exact touching_deletePerPidEntries (fun h => ⟨rfl, h⟩) (fun h => ⟨⟨rfl, h⟩, ⟨rfl, h⟩⟩) ⟨rfl, rfl⟩ ⟨rfl, rfl⟩
      ⟨rfl, rfl⟩ (hblocker _ rfl)

def IsAllprocs (a : ArrayName) : Prop := a = .heldDurationsAllprocs ∨ a = .waitDurationsAllprocs

theorem touching_periodic : Touching q IsAllprocs (periodic o : Script M Unit) := by
  have hprint : ∀ stat, Touching q IsAllprocs (printStats o stat : Script M Unit) := fun stat => by
    refine Touching.bind (ReadOnly.touching (p := get) (fun s => ⟨s, rfl⟩)) (fun _ => touching_whenever (fun _ => ?_))
    refine (readOnly_statsSummary _ _ _).touching.bind (fun _ =>
      (readOnly_statsSummary _ _ _).touching.bind (fun _ => ?_))
    exact (readOnly_statsRows (readOnly_statsSummary stat) _).touching.bind (fun _ => touching_print _)
  refine touching_whenever (fun _ => (hprint _).bind (fun _ => (hprint _).bind (fun _ =>
    touching_whenever (fun _ => ?_))))
  exact ((owned_durationsAllprocs .held).deleteAll (.inl rfl) (fun _ _ => rfl)).bind
    (fun _ => (owned_durationsAllprocs .wait).deleteAll (.inr rfl) (fun _ _ => rfl))

/-- Since when a process with some pid has waited, and whether one with that pid ever completed a wait. -/
structure Waits where
  pending : Option Int
  completed : Bool
deriving DecidableEq, Repr

def Waits.next (w : Waits) : Int × Probe → Waits
  | (now, .waitStart _ _) => { w with pending := some (w.pending.getD now) }
  | (_, .waitDone _ _ _)  => ⟨none, w.completed || decide (w.pending.getD 0 ≠ 0)⟩
  | (_, .endCleanup)      => { w with pending := none }
  | _                     => w

def waitsOf (ps : List (Int × Probe)) : Waits := ps.foldl Waits.next ⟨none, false⟩

/-- What the script knows of process `pid` is what its events say. -/
structure Knows (o : Options) (pid : Pid) (w : Waits) (s : State M) : Prop where
  start  : s.lockWaitStartUs.get? pid = w.pending
  waits  : s.has pid .waitDurationsPid ↔ o.trackPerProcess = true ∧ w.completed = true
  unused : ∀ a, o.uses a = false → ¬s.has pid a

variable {w : Waits} {p : Probe}

theorem Knows.touches (h : Knows o pid w s) (ht : Touches q W s s') (hstart : pid ≠ q ∨ ¬W .lockWaitStartUs)
    (hwait : pid ≠ q ∨ ¬W .waitDurationsPid) (hunused : ∀ a, o.uses a = false → pid ≠ q ∨ ¬W a) :
    Knows o pid w s' where
  start      := (ht.start pid hstart).trans h.start
  waits      := (ht.has pid _ hwait).trans h.waits
  unused a ha := mt (ht.has pid a (hunused a ha)).1 (h.unused a ha)

theorem not_writes_of_unused {a : ArrayName} (ha : o.uses a = false) : ¬o.writes p a :=
  fun h => by rw [h.2] at ha; cases ha

theorem waitDone_waits (h : Knows o pid w s) (now : Int) (mode : LWLockMode) (lock : Lock)
    (trancheId : Nat) : Ends (waitDone o pid now mode lock trancheId s)
    (fun _ s' => s'.lockWaitStartUs.get? pid = none ∧
      (s'.has pid .waitDurationsPid ↔ o.trackPerProcess = true ∧ (w.completed || decide (w.pending.getD 0 ≠ 0)) = true))
    (fun _ _ => True) := by
  rw [waitDone_eq]
  refine Ends.bind (Q := fun x s' => s' = s ∧ x = w.pending.getD 0) ⟨rfl, congrArg (·.getD 0) h.start⟩
    (fun since s₁ h₁ => ?_)
  obtain ⟨rfl, rfl⟩ := h₁
  have hsample : Ends (whenever (w.pending.getD 0 ≠ 0) (sampleWait o pid (w.pending.getD 0) now mode lock trancheId) s₁)
      (fun _ s' => s'.has pid .waitDurationsPid ↔
        o.trackPerProcess = true ∧ (w.completed || decide (w.pending.getD 0 ≠ 0)) = true) (fun _ _ => True) := by
    by_cases hsince : w.pending.getD 0 = 0
    · rw [hsince]
      show s₁.has pid .waitDurationsPid ↔ _
      rw [h.waits]; simp
    · have hdec : decide (w.pending.getD 0 ≠ 0) = true := decide_eq_true hsince
      rw [hdec]
      show Ends (sampleWait o pid (w.pending.getD 0) now mode lock trancheId s₁) _ _
      by_cases hp : o.trackPerProcess = true
      · exact (sampleWait_has hp).mono (fun _ s' hhas => by simp [hp, hhas]) (fun _ _ h => h)
      · have hW : Touching pid (· ≠ .waitDurationsPid)
            (sampleWait o pid (w.pending.getD 0) now mode lock trancheId : Script M Unit) :=
          touching_sampleWait (by decide) (fun h => absurd h hp)
        refine (hW s₁).mono (fun _ s' ht => ?_) (fun _ _ h => h)
        rw [ht.has pid _ (.inr (fun h => h rfl)), h.waits]
        simp [hp]
  refine Ends.bind hsample (fun _ s₂ h₂ => ?_)
  have hforget : Touching pid (· ≠ .waitDurationsPid) (forgetAttempt o pid : Script M Unit) :=
    touching_forgetAttempt (by decide) (by decide) (by decide) (fun _ => by decide)
  have hends := hforget s₂
  have hstart := forgetAttempt_start o pid s₂
  cases hrun : forgetAttempt o pid s₂ with
  | ok x s₃ =>
    rw [hrun] at hends hstart
    exact ⟨hstart, (hends.has pid _ (.inr (fun h => h rfl))).trans h₂⟩
  | error e s₃ => exact trivial

/-- **One event**: the script knows what the event adds. -/
theorem handle_knows (h : Knows o pid w s) (e : Event) :
    Ends (handle o e s) (fun _ s' => Knows o pid ((ownEvent pid e).elim w w.next) s') (fun _ _ => True) := by
  cases e with
  | timer =>
    exact (touching_periodic (q := pid) s).mono (fun _ _ ht => h.touches ht (.inr (by rintro (h | h) <;> cases h))
      (.inr (by rintro (h | h) <;> cases h)) (fun a ha => .inr (by rintro (rfl | rfl) <;> cases ha))) (fun _ _ h => h)
  | probe q now p =>
    have htouch := fire_touching (M := M) o q now p s
    by_cases hq : q = pid
    · subst hq
      have hown : ownEvent q (.probe q now p) = some (now, p) := if_pos rfl
      rw [hown]
      show Ends (fire o q now p s) _ _
      have hquiet : p.writes.contains .lockWaitStartUs = false →
          p.writes.contains .waitDurationsPid = false → w.next (now, p) = w →
          Ends (fire o q now p s) (fun _ s' => Knows o q (w.next (now, p)) s') (fun _ _ => True) :=
        fun h₁ h₂ hw => htouch.mono (fun _ _ ht => hw.symm ▸ h.touches ht (.inr (fun h => nomatch h₁.symm.trans h.1))
          (.inr (fun h => nomatch h₂.symm.trans h.1)) (fun a ha => .inr (not_writes_of_unused ha))) (fun _ _ h => h)
      have hunused : ∀ s', Touches q (o.writes p) s s' → ∀ a, o.uses a = false → ¬s'.has q a :=
        fun s' ht a ha => mt (ht.has q a (.inr (not_writes_of_unused ha))).1 (h.unused a ha)
      cases p with
      | waitStart mode lock =>
        have hstart := waitStart_start o q now mode lock s
        change Ends (waitStart o q now mode lock s) _ _ at htouch
        change Ends (waitStart o q now mode lock s) _ _
        cases hrun : waitStart o q now mode lock s with
        | ok x s' =>
          rw [hrun] at htouch hstart
          have hwait : ¬o.writes (.waitStart mode lock) .waitDurationsPid := fun h => nomatch h.1
          exact ⟨hstart.trans (by rw [h.start]; rfl), (htouch.has q _ (.inr hwait)).trans h.waits, hunused s' htouch⟩
        | error e s' => exact trivial
      | waitDone how lock trancheId =>
        have hwaits := waitDone_waits h now how.mode lock trancheId
        change Ends (waitDone o q now how.mode lock trancheId s) _ _ at htouch
        change Ends (waitDone o q now how.mode lock trancheId s) _ _
        cases hrun : waitDone o q now how.mode lock trancheId s with
        | ok x s' =>
          rw [hrun] at htouch hwaits
          exact ⟨hwaits.1, hwaits.2, hunused s' htouch⟩
        | error e s' => exact trivial
      | endCleanup =>
        change Ends (deletePerPidEntries o q s) _ _ at htouch
        change Ends (deletePerPidEntries o q s) _ _
        rw [deletePerPidEntries_run] at htouch ⊢
        exact ⟨get?_erase_self _ q, h.waits, hunused _ htouch⟩
      | _ => exact hquiet rfl rfl rfl
    · have hown : ownEvent pid (.probe q now p) = none := if_neg hq
      rw [hown]
      exact htouch.mono (fun _ _ ht => h.touches ht (.inl (Ne.symm hq)) (.inl (Ne.symm hq))
        (fun _ _ => .inl (Ne.symm hq))) (fun _ _ h => h)

theorem script_knows : ∀ (es : List Event) {s : State M} {w : Waits}, Knows o pid w s →
    Ends (script o es s) (fun _ s' => Knows o pid ((ownEvents pid es).foldl Waits.next w) s') (fun _ _ => True)
  | [], _, _, h      => h
  | e :: es, s, w, h => by
    refine Ends.bind (handle_knows h e) (fun _ s₁ h₁ => ?_)
    have hown : (ownEvents pid (e :: es)).foldl Waits.next w =
        (ownEvents pid es).foldl Waits.next ((ownEvent pid e).elim w w.next) := by
      unfold ownEvents
      cases hp : ownEvent pid e with
      | none   => rw [List.filterMap_cons_none hp]; rfl
      | some d => rw [List.filterMap_cons_some hp]; rfl
    rw [hown]
    exact script_knows es h₁

/-- The events of other processes leave what there is of process `pid` alone. -/
theorem script_other : ∀ (es : List Event) {s : State M}, ownEvents pid es = [] →
    Ends (script o es s) (fun _ s' => ∀ a, s'.has pid a ↔ s.has pid a) (fun _ _ => True)
  | [], _, _      => fun _ => Iff.rfl
  | e :: es, s, h => by
    have hown : ownEvent pid e = none ∧ ownEvents pid es = [] := by
      unfold ownEvents at h
      cases hp : ownEvent pid e with
      | none   => rw [List.filterMap_cons_none hp] at h; exact ⟨rfl, h⟩
      | some d => rw [List.filterMap_cons_some hp] at h; cases h
    have hfirst : Ends (handle o e s) (fun _ s' => ∀ a, s'.has pid a ↔ s.has pid a) (fun _ _ => True) := by
      cases e with
      | timer =>
        refine (touching_periodic (q := pid + 1) s).mono (fun _ _ ht a => ht.has pid a (.inl ?_)) (fun _ _ h => h)
        exact Nat.ne_of_lt (Nat.lt_succ_self pid)
      | probe q now p =>
        refine (fire_touching o q now p s).mono (fun _ _ ht a => ht.has pid a (.inl (fun hq => ?_))) (fun _ _ h => h)
        rw [ownEvent, if_pos hq.symm] at hown
        cases hown.1
    refine Ends.bind hfirst (fun _ s₁ h₁ => ?_)
    exact (script_other es hown.2).mono (fun _ _ h₂ a => (h₂ a).trans (h₁ a)) (fun _ _ h => h)

theorem script_append : ∀ (es fs : List Event), (script o (es ++ fs) : Script M Unit) = (do
    script o es
    script o fs)
  | [], _       => rfl
  | e :: es, fs => by
    show (handle o e >>= fun _ => script o (es ++ fs)) = (handle o e >>= fun _ => script o es) >>= fun _ => script o fs
    rw [script_append es fs, bind_assoc]

theorem knows_start {p : Pid} : Knows o p ⟨none, false⟩ ({} : State M) where
  start := rfl
  waits := Iff.intro (fun ⟨_, _, h⟩ => nomatch h) (fun h => nomatch h.2)
  unused a _ h := by
    cases a with
    | locksHeldByPid | heldDurationsPid | waitDurationsPid => obtain ⟨_, _, h⟩ := h; cases h
    | _ => cases h

/-- The events of a process that ends: the handlers of `postgres.end` run, with nothing of the process in between. -/
def ending (pid : Pid) (t₁ t₂ : Int) (pre mid post : List Event) : List Event :=
  pre ++ .probe pid t₁ .endStats :: (mid ++ .probe pid t₂ .endCleanup :: post)

/-- **What is left of a process that has ended** is at most the statistics of its waits, and those are left if the
statistics are kept by process and a wait of a process with its pid was completed. -/
theorem ending_has (o : Options) (pre : List Event) {mid post : List Event} (t₁ t₂ : Int)
    (hmid : ownEvents pid mid = []) (hpost : ownEvents pid post = []) :
    Ends (script o (ending pid t₁ t₂ pre mid post) ({} : State M))
    (fun _ s' => ∀ a, s'.has pid a ↔
      a = .waitDurationsPid ∧ o.trackPerProcess = true ∧ (waitsOf (ownEvents pid pre)).completed = true)
    (fun _ _ => True) := by
  unfold ending
  rw [script_append]
  refine Ends.bind (script_knows pre (knows_start (p := pid))) (fun _ s₁ h₁ => ?_)
  have hstats : Ends (handle o (.probe pid t₁ .endStats) s₁) (fun _ s' => Knows o pid (waitsOf (ownEvents pid pre)) s' ∧
      (o.trackPerProcess = true → ¬s'.has pid .heldDurationsPid)) (fun _ _ => True) := by
    have hknows := handle_knows h₁ (.probe pid t₁ .endStats)
    have hown : ownEvent pid (.probe pid t₁ .endStats) = some (t₁, .endStats) := if_pos rfl
    rw [hown] at hknows
    change Ends (endStats o pid s₁) _ _ at hknows
    change Ends (endStats o pid s₁) _ _
    have hhas := fun hp : o.trackPerProcess = true => endStats_has hp pid s₁
    cases hrun : endStats o pid s₁ with
    | ok x s'    => rw [hrun] at hknows hhas; exact ⟨hknows, hhas⟩
    | error e s' => exact trivial
  refine Ends.bind hstats (fun _ s₂ ⟨h₂, hheld⟩ => ?_)
  rw [script_append]
  refine Ends.bind (script_other mid hmid) (fun _ s₃ h₃ => ?_)
  refine Ends.bind (p := deletePerPidEntries o pid) (Q := fun _ s' => s' = s₃.forgotten o pid)
    (Ends.of_ok deletePerPidEntries_run rfl) (fun _ s₄ h₄ => ?_)
  subst h₄
  refine (script_other post hpost).mono (fun _ s' h₅ a => (h₅ a).trans ?_) (fun _ _ h => h)
  cases hused : o.uses a with
  | false =>
    have htouch : Touches pid (o.writes .endCleanup) s₃ (s₃.forgotten o pid) := by
      have htouch := fire_touching (M := M) o pid t₂ .endCleanup s₃
      change Ends (deletePerPidEntries o pid s₃) _ _ at htouch
      rwa [deletePerPidEntries_run] at htouch
    rw [htouch.has pid a (.inr (not_writes_of_unused hused)), h₃ a]
    exact ⟨fun h => absurd h (h₂.unused a hused), fun ⟨ha, hp, _⟩ => by
      rw [ha] at hused; exact nomatch hp.symm.trans hused⟩
  | true =>
    constructor
    · intro h
      obtain rfl | rfl := forgotten_has hused h
      · exact absurd ((h₃ .heldDurationsPid).1 h) (hheld hused)
      · exact ⟨rfl, h₂.waits.1 ((h₃ .waitDurationsPid).1 h)⟩
    · rintro ⟨rfl, h⟩
      exact (h₃ .waitDurationsPid).2 (h₂.waits.2 h)

theorem has_of_ending {pre mid post : List Event} {t₁ t₂ : Int} {s' : State M} (hmid : ownEvents pid mid = [])
    (hpost : ownEvents pid post = []) (hrun : script o (ending pid t₁ t₂ pre mid post) ({} : State M) = .ok () s')
    (a : ArrayName) : s'.has pid a ↔
      a = .waitDurationsPid ∧ o.trackPerProcess = true ∧ (waitsOf (ownEvents pid pre)).completed = true := by
  have hhas := ending_has (M := M) o pre t₁ t₂ hmid hpost
  rw [hrun] at hhas
  exact hhas a

/-- **Nothing of a process that has ended is left** exactly when its waits leave no statistics. -/
theorem clean_iff (o : Options) (pid : Pid) (pre mid post : List Event) (t₁ t₂ : Int) (s' : State M)
    (hmid : ownEvents pid mid = []) (hpost : ownEvents pid post = [])
    (hrun : script o (ending pid t₁ t₂ pre mid post) ({} : State M) = .ok () s') :
    s'.Clean pid ↔ o.trackPerProcess = false ∨ (waitsOf (ownEvents pid pre)).completed = false := by
  have hhas := has_of_ending hmid hpost hrun
  have hiff : s'.Clean pid ↔ ¬(o.trackPerProcess = true ∧ (waitsOf (ownEvents pid pre)).completed = true) :=
    ⟨fun h hw => h .waitDurationsPid ((hhas _).2 ⟨rfl, hw⟩), fun h a ha => h ((hhas a).1 ha).2⟩
  rw [hiff, not_and_or, Bool.not_eq_true, Bool.not_eq_true]

/-- Whether a run comes to its end. -/
def completes (o : Options) (M : Nat) (es : List Event) : Bool :=
  match script o es ({} : State M) with
  | .ok _ _    => true
  | .error _ _ => false

theorem ok_of_completes {o : Options} (es : List Event) (h : completes o M es = true) :
    ∃ s', script o es ({} : State M) = .ok () s' := by
  unfold completes at h
  cases hrun : script o es ({} : State M) with
  | ok u s'    => exact ⟨s', rfl⟩
  | error e s' => rw [hrun] at h; cases h

/-- A process tries to get a lock and does not, without a wait. -/
def refused (pid : Pid) (t : Int) : List Event :=
  [.probe pid t (.acquireStart .condacquire), .probe pid (t + 1) (.waitDone (.condacquireFail .exclusive) 4096 7),
   .probe pid (t + 2) (.acquireFinish .condacquire)]

/-- A process waits for a lock's variable. -/
def waitedForVar (pid : Pid) (t : Int) : List Event :=
  [.probe pid t (.acquireStart .waitforvar), .probe pid (t + 1) (.waitStart .exclusive 4096),
   .probe pid (t + 8) (.waitDone .waitforvarDone 4096 7)]

theorem clean_iff_refused : ∃ s', script {} (ending 1 40 42 (waitedForVar 2 10 ++ refused 1 30) (refused 2 50)
    []) ({} : State 2048) = .ok () s' ∧ s'.Clean 1 := by
  obtain ⟨s', hrun⟩ := ok_of_completes (M := 2048) (o := {})
    (ending 1 40 42 (waitedForVar 2 10 ++ refused 1 30) (refused 2 50) []) (by decide +kernel)
  exact ⟨s', hrun, (clean_iff {} 1 _ _ _ 40 42 s' (by decide) (by decide) hrun).2 (.inr (by decide))⟩

/-- **A process that has waited leaves the statistics of its waits.** -/
theorem waits_left :
    ∃ s', script {} (ending 1 40 42 (waitedForVar 1 10) [] []) ({} : State 2048) = .ok () s' ∧ ¬s'.Clean 1 := by
  obtain ⟨s', hrun⟩ := ok_of_completes (M := 2048) (o := {}) (ending 1 40 42 (waitedForVar 1 10) [] [])
    (by decide +kernel)
  exact ⟨s', hrun, fun h => h .waitDurationsPid ((has_of_ending rfl rfl hrun _).2 ⟨rfl, rfl, by decide⟩)⟩

end Lwlock
end Scrapcode
