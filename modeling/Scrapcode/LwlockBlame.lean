import Scrapcode.LwlockAccounting
import Scrapcode.LwlockBlockers
/-!
# LwlockBlame — what the lines about long waits say of the blocker

A line about a long wait names the blocker that was recorded when the attempt first waited; what happens to the locks
between that wait and the line changes nothing (`Told`).  In a run whose processes follow the protocol the one named
held a lock in the mode that is printed when the wait began: the lock waited for, if anybody held that one in a mode
that bars the waiter, and else some other lock (`Names`).
-/
namespace Scrapcode
namespace Lwlock

open Programs

variable {M : Nat} {κ ν α β : Type}

/-- A line about a long wait: who waited, how long, and the blocker it names. -/
structure Accusation where
  pid     : Pid
  us      : Int
  blocker : Option (Pid × LWLockMode)
deriving DecidableEq, Repr

def Report.accusation : Report → Option Accusation
  | .longWait pid _ _ _ us _ _ blocker _ => some ⟨pid, us, blocker⟩
  | _                                    => none

/-- What is recorded of blockers, and the lines printed. -/
structure Blamed where
  blocker : Pid → Option Pid
  mode    : Pid → Option LWLockMode
  lines   : List Accusation

def State.blamed (s : State M) : Blamed where
  blocker := s.lockWaitBlocker.get?
  mode    := s.lockWaitBlockerMode.get?
  lines   := s.printed.filterMap Report.accusation

/-- The record of a waiting pid. -/
def Blamed.record (v : Blamed) (pid : Pid) (b : Pid × LWLockMode) : Blamed :=
  { v with blocker := Function.update v.blocker pid (some b.1), mode := Function.update v.mode pid (some b.2) }

def Blamed.forget (v : Blamed) (pid : Pid) : Blamed :=
  { v with blocker := Function.update v.blocker pid none, mode := Function.update v.mode pid none }

/-- What a line says of a recorded blocker: pid 0 is nobody. -/
def named (b : Pid × LWLockMode) : Option (Pid × LWLockMode) := if b.1 ≠ 0 then some b else none

/-- The blocker a line would name now. -/
def Blamed.names (v : Blamed) (pid : Pid) : Option (Pid × LWLockMode) :=
  named ((v.blocker pid).getD 0, (v.mode pid).getD .exclusive)

variable {s : State M} {o : Options} {pid : Pid} {now : Int} {mode : LWLockMode} {lock : Lock} {trancheId : Nat}

/-! ## Programs that blame nobody

However they end, nothing recorded of a blocker is changed and no line about a wait is printed. -/

section
variable {τ : Type} {obs : State M → τ}

theorem ReadOnly.preserves {p : Script M α} (h : ReadOnly p) : Preserves obs p := fun s => by
  obtain ⟨x, hx⟩ := h s
  exact Ends.of_ok hx rfl

theorem preserves_whenever {b : Bool} {p : Script M Unit} (h : Preserves obs p) : Preserves obs (whenever b p) := by
  cases b
  · exact Preserves.pure ()
  · exact h

theorem preserves_assert (b : Bool) (text : String) : Preserves obs (assertThat b text : Script M Unit) := by
  cases b
  · exact Preserves.throw _
  · exact Preserves.pure ()

theorem preserves_deleteAll {a : Global M κ ν} (h : ∀ t s, obs (a.put t s) = obs s) (p : κ → Bool) :
    Preserves obs (a.deleteAll p) := fun s => h _ s

variable [DecidableEq κ]

theorem preserves_lookup (a : Global M κ ν) (k : κ) : Preserves obs (a.lookup? k) := fun _ => rfl

theorem preserves_assign {a : Global M κ ν} (h : ∀ t s, obs (a.put t s) = obs s) (k : κ) (v : ν) :
    Preserves obs (a.assign k v) := fun s => by
  cases ht : (a.table s).insert? k v with
  | some t => exact Ends.of_ok (x := ()) (t := a.put t s) (by simp [Global.assign, ht]) (h t s)
  | none   => exact Ends.of_error (e := .overflow a.name) (t := s) (by simp [Global.assign, ht]) rfl

theorem preserves_delete {a : Global M κ ν} (h : ∀ t s, obs (a.put t s) = obs s) (k : κ) :
    Preserves obs (a.delete k) := fun s => h _ s

theorem preserves_push {a : Global M κ (List Int)} (h : ∀ t s, obs (a.put t s) = obs s) (k : κ) (v : Int) :
    Preserves obs (a.push k v) :=
  Preserves.bind (readOnly_read a k []).preserves (fun _ => preserves_assign h k _)

end

theorem blames_print {r : Report} (h : r.accusation = none) :
    Preserves State.blamed (print r : Script M Unit) := fun s => by
  show State.blamed { s with printed := s.printed ++ [r] } = s.blamed
  unfold State.blamed
  rw [List.filterMap_append, List.filterMap_cons, h, List.filterMap_nil, List.append_nil]

theorem blames_durations (stat : Stat) : (∀ t s, State.blamed ((durationsAllprocs (M := M) stat).put t s) = s.blamed) ∧
    ∀ t s, State.blamed ((durationsPid (M := M) stat).put t s) = s.blamed := by
  cases stat <;> exact ⟨fun _ _ => rfl, fun _ _ => rfl⟩

theorem blames_appendStats (o : Options) (pid : Pid) (stat : Stat) (us : Int) (mode : LWLockMode) (trancheId : Nat) :
    Preserves State.blamed (appendStats o pid stat us mode trancheId : Script M Unit) := by
  obtain ⟨hall, hpid⟩ := blames_durations (M := M) stat
  refine (preserves_push hall _ us).bind (fun _ => (preserves_push hall _ us).bind (fun _ => preserves_whenever ?_))
  exact (preserves_push hpid _ us).bind (fun _ => preserves_push hpid _ us)

theorem blames_reportLongHolds (o : Options) (pid : Pid) (us : Int) (mode : LWLockMode) (trancheId : Nat) :
    Preserves State.blamed (reportLongHolds o pid us mode trancheId : Script M Unit) :=
  preserves_whenever ((readOnly_read _ _ _).preserves.bind (fun _ => (readOnly_read _ _ _).preserves.bind (fun _ =>
    (readOnly_trancheIdStr _).preserves.bind (fun _ => blames_print rfl))))

theorem blames_acquireStart (o : Options) (pid : Pid) (func : AcquireFunc) :
    Preserves State.blamed (acquireStart o pid func : Script M Unit) := by
  unfold acquireStart
  cases func.startMark with
  | none      => exact Preserves.pure ()
  | some name =>
    refine (preserves_lookup _ _).bind (fun _ => (preserves_assert _ _).bind (fun _ => ?_))
    refine (preserves_lookup _ _).bind (fun _ => (preserves_assert _ _).bind (fun _ => ?_))
    refine (preserves_lookup _ _).bind (fun _ => (preserves_assert _ _).bind (fun _ => ?_))
    refine Preserves.bind (preserves_whenever ?_) (fun _ => preserves_assign (fun _ _ => rfl) _ _)
    refine (preserves_lookup _ _).bind (fun _ => (preserves_assert _ _).bind (fun _ => ?_))
    exact (preserves_lookup _ _).bind (fun _ => preserves_assert _ _)

theorem blames_acquireFinish (pid : Pid) (func : AcquireFunc) :
    Preserves State.blamed (acquireFinish pid func : Script M Unit) := by
  unfold acquireFinish
  cases func.finishMark with
  | none      => exact Preserves.pure ()
  | some name => exact (preserves_lookup _ _).bind (fun _ => preserves_assert _ _)

theorem blames_holdAcquired (o : Options) (pid : Pid) (now : Int) (name : String) (mode : LWLockMode) (lock : Lock)
    (trancheId : Nat) : Preserves State.blamed (holdAcquired o pid now name mode lock trancheId : Script M Unit) := by
  refine preserves_whenever ((preserves_assert _ _).bind (fun _ => ?_))
  refine Preserves.bind (p := rememberTrancheName trancheId name) ?_ (fun _ => preserves_assign (fun _ _ => rfl) _ _)
  exact (preserves_lookup _ _).bind (fun _ => preserves_whenever (preserves_assign (fun _ _ => rfl) _ _))

theorem blames_release (o : Options) (pid : Pid) (now : Int) (mode : LWLockMode) (lock : Lock) (trancheId : Nat) :
    Preserves State.blamed (release o pid now mode lock trancheId : Script M Unit) := by
  refine preserves_whenever ((preserves_assert _ _).bind (fun _ => (readOnly_read _ _ _).preserves.bind (fun _ => ?_)))
  refine Preserves.bind (preserves_whenever (preserves_whenever ?_)) (fun _ => preserves_deleteAll (fun _ _ => rfl) _)
  exact (blames_appendStats _ _ _ _ _ _).bind (fun _ => blames_reportLongHolds _ _ _ _ _)

theorem blames_backendType (o : Options) (pid : Pid) (type : Int) (description : Option String) :
    Preserves State.blamed (backendType o pid type description : Script M Unit) := by
  refine preserves_whenever ((preserves_assign (fun _ _ => rfl) _ _).bind (fun _ => ?_))
  cases description with
  | none      => exact Preserves.pure ()
  | some name => exact preserves_assign (fun _ _ => rfl) _ _

theorem blames_applicationName (o : Options) (pid : Pid) (name : Option String) :
    Preserves State.blamed (applicationName o pid name : Script M Unit) := by
  refine preserves_whenever ?_
  cases name with
  | none      => exact Preserves.pure ()
  | some name => exact preserves_assign (fun _ _ => rfl) _ _

theorem blames_endStats (o : Options) (pid : Pid) : Preserves State.blamed (endStats o pid : Script M Unit) := by
  refine preserves_whenever (Preserves.get.bind (fun _ => preserves_whenever ?_))
  refine (readOnly_read _ _ _).preserves.bind (fun _ => (readOnly_read _ _ _).preserves.bind (fun _ => ?_))
  refine (readOnly_statsRows (fun _ _ => readOnly_statsPid _ _) _).preserves.bind (fun _ => ?_)
  exact (blames_print rfl).bind (fun _ => preserves_deleteAll (blames_durations _).2 _)

theorem blames_printStats (o : Options) (stat : Stat) : Preserves State.blamed (printStats o stat : Script M Unit) := by
  refine Preserves.get.bind (fun _ => preserves_whenever ?_)
  refine (readOnly_statsSummary _ _ _).preserves.bind (fun _ => ?_)
  refine (readOnly_statsSummary _ _ _).preserves.bind (fun _ => ?_)
  exact (readOnly_statsRows (fun _ _ => readOnly_statsSummary _ _ _) _).preserves.bind (fun _ => blames_print rfl)

theorem blames_periodic (o : Options) : Preserves State.blamed (periodic o : Script M Unit) := by
  refine preserves_whenever ((blames_printStats _ _).bind (fun _ => (blames_printStats _ _).bind (fun _ => ?_)))
  refine preserves_whenever ((preserves_deleteAll (blames_durations _).1 _).bind (fun _ => ?_))
  exact preserves_deleteAll (blames_durations _).1 _

/-! ## The programs that do -/

theorem filterMap_leaked (ks : List HeldKey) :
    (ks.map (fun k => Report.leaked k.1 k.2.1 k.2.2)).filterMap Report.accusation = [] :=
  List.filterMap_eq_nil_iff.2 (fun r hr => by
    obtain ⟨k, -, rfl⟩ := List.mem_map.1 hr
    rfl)

theorem forget_blamed (hb : o.trackBlockers = true) : Ends (whenever o.trackBlockers (do
      lockWaitBlocker.delete pid
      lockWaitBlockerMode.delete pid
      lockWaitBlockerAppname.delete pid) s)
    (fun _ s' => s'.blamed = s.blamed.forget pid) (fun _ _ => True) := by
  rw [hb]
  show State.blamed _ = _
  unfold State.blamed Blamed.forget
  congr 1
  · exact BoundedMap.get?_erase pid _
  · exact BoundedMap.get?_erase pid _

/-- A program, and then one that blames nobody. -/
theorem ends_then {p : Script M α} {f : α → Script M β} {v : Blamed}
    (h : Ends (p s) (fun _ s' => s'.blamed = v) (fun _ _ => True)) (hf : ∀ x, Preserves State.blamed (f x)) :
    Ends ((p >>= f) s) (fun _ s' => s'.blamed = v) (fun _ _ => True) :=
  Ends.bind h (fun x s' hs => (hf x s').mono (fun _ _ hs' => hs'.trans hs) (fun _ _ _ => trivial))

/-- A program that blames nobody, and then another. -/
theorem ends_after {p : Script M α} {f : α → Script M β} {Q : State M → Prop}
    (h : Preserves State.blamed p)
    (hf : ∀ x s', s'.blamed = s.blamed → Ends (f x s') (fun _ t => Q t) (fun _ _ => True)) :
    Ends ((p >>= f) s) (fun _ t => Q t) (fun _ _ => True) :=
  Ends.bind ((h s).mono_fault (fun _ _ _ => trivial)) hf

theorem deletePerPidEntries_blamed (hb : o.trackBlockers = true) :
    Ends (deletePerPidEntries o pid s) (fun _ s' => s'.blamed = s.blamed.forget pid) (fun _ _ => True) := by
  have hleaked : Preserves State.blamed (whenever (o.trackHolds || o.trackBlockers) (do
      let held := (locksHeldByPid.table (← get)).keys.filter (fun k => k.1 = pid)
      modify (fun s => { s with printed := s.printed ++ held.map (fun k => .leaked k.1 k.2.1 k.2.2) })
      locksHeldByPid.deleteAll (fun k => k.1 = pid)) : Script M Unit) := by
    refine preserves_whenever (Preserves.get.bind (fun _ => ?_))
    refine Preserves.bind (Preserves.modify (fun s => ?_)) (fun _ => ?_)
    · unfold State.blamed
      rw [List.filterMap_append, filterMap_leaked, List.append_nil]
    · exact preserves_deleteAll (fun _ _ => rfl) _
  refine ends_after hleaked (fun _ s₁ h₁ => ?_)
  rw [← h₁]
  refine ends_then (forget_blamed hb) (fun _ => Preserves.bind (preserves_whenever ?_) (fun _ => ?_))
  · exact (preserves_delete (fun _ _ => rfl) _).bind (fun _ => preserves_delete (fun _ _ => rfl) _)
  · refine (preserves_delete (fun _ _ => rfl) _).bind (fun _ => ?_)
    exact (preserves_delete (fun _ _ => rfl) _).bind (fun _ => preserves_delete (fun _ _ => rfl) _)

/-- **The line about a long wait** names the blocker that is recorded. -/
theorem reportLongWaits_blamed (us : Int) (hb : o.trackBlockers = true) :
    Ends (reportLongWaits o pid us mode trancheId s) (fun _ s' => s'.blamed = s.blamed ∨
      s'.blamed = { s.blamed with lines := s.blamed.lines ++ [⟨pid, us, s.blamed.names pid⟩] }) (fun _ _ => True) := by
  unfold reportLongWaits whenever
  split
  · obtain ⟨tranche, htranche⟩ := readOnly_trancheIdStr (M := M) (trancheId : Int) s
    simp only [bind_run, read_run, htranche]
    refine Or.inr ?_
    show State.blamed { s with printed := s.printed ++ [_] } = _
    unfold State.blamed
    rw [List.filterMap_append]
    simp only [List.filterMap_cons, Report.accusation, List.filterMap_nil, hb, Bool.true_and, decide_eq_true_eq]
    rfl
  · exact Or.inl rfl

theorem trackBlockerInfoForWait_blamed (pid : Pid) (lock : Lock) (mode : LWLockMode) (s : State M) :
    Ends (trackBlockerInfoForWait pid lock mode s)
      (fun _ s' => s'.blamed = s.blamed.record pid (blockerOf s lock mode)) (fun _ _ => True) := by
  refine Ends.bind (Q := fun x s₁ => x = s ∧ s₁ = s) (p := get) ⟨rfl, rfl⟩ (fun s₀ s₁ h₁ => ?_)
  obtain ⟨rfl, rfl⟩ := h₁
  refine Ends.bind ((assign_ends lockWaitBlocker pid _ s₁).mono_fault (fun _ _ _ => trivial)) (fun _ s₂ h₂ => ?_)
  obtain ⟨t₂, rfl, h₂⟩ := h₂
  refine Ends.bind ((assign_ends lockWaitBlockerMode pid _ _).mono_fault (fun _ _ _ => trivial)) (fun _ s₃ h₃ => ?_)
  obtain ⟨t₃, rfl, h₃⟩ := h₃
  refine (assign_ends lockWaitBlockerAppname pid _ _).mono (fun _ s₄ h₄ => ?_) (fun _ _ _ => trivial)
  obtain ⟨t₄, rfl, -⟩ := h₄
  show Blamed.mk t₂.get? t₃.get? _ = _
  rw [h₂, h₃]
  rfl

theorem waitStart_blamed (hb : o.trackBlockers = true) : Ends (waitStart o pid now mode lock s)
    (fun _ s' => s'.blamed =
      if s.lockWaitStartUs.get? pid = none then s.blamed.record pid (blockerOf s lock mode) else s.blamed)
    (fun _ _ => True) := by
  unfold waitStart
  rw [bind_run, lookup?_run]
  cases hstart : (lockWaitStartUs.table s).get? pid with
  | none   =>
    have hstart : s.lockWaitStartUs.get? pid = none := hstart
    simp only [Option.isNone_none, if_true, if_pos hstart]
    refine Ends.bind ((assign_ends lockWaitStartUs pid now s).mono_fault (fun _ _ _ => trivial)) (fun _ s₁ h₁ => ?_)
    obtain ⟨t₁, rfl, -⟩ := h₁
    refine Ends.bind ((assign_ends lockWaitLwlockP pid lock _).mono_fault (fun _ _ _ => trivial)) (fun _ s₂ h₂ => ?_)
    obtain ⟨t₂, rfl, -⟩ := h₂
    rw [hb]
    exact trackBlockerInfoForWait_blamed pid lock mode _
  | some x =>
    have hstart : s.lockWaitStartUs.get? pid ≠ none := by
      intro hnone
      rw [show s.lockWaitStartUs.get? pid = some x from hstart] at hnone
      cases hnone
    simp only [Option.isNone_some, Bool.false_eq_true, if_false, if_neg hstart]
    exact ((readOnly_read lockWaitLwlockP pid 0).preserves.bind (fun _ => preserves_assert _ _) s).mono_fault
      (fun _ _ _ => trivial)

/-- The lines that the completion of a wait prints, if any, name the blocker that is recorded. -/
theorem waitDone_blamed (hb : o.trackBlockers = true) : Ends (waitDone o pid now mode lock trancheId s)
    (fun _ s' => ∃ xs, s'.blamed = { s.blamed.forget pid with lines := s.blamed.lines ++ xs } ∧
      ∀ x ∈ xs, ∃ since, s.lockWaitStartUs.get? pid = some since ∧ x = ⟨pid, now - since, s.blamed.names pid⟩)
    (fun _ _ => True) := by
  unfold waitDone
  rw [bind_run, read_run]
  refine Ends.bind (Q := fun _ s₁ => ∃ xs, s₁.blamed = { s.blamed with lines := s.blamed.lines ++ xs } ∧
      ∀ x ∈ xs, ∃ since, s.lockWaitStartUs.get? pid = some since ∧ x = ⟨pid, now - since, s.blamed.names pid⟩)
    ?_ (fun _ s₁ ⟨xs, h₁, hxs⟩ => ?_)
  · have hnone : ∃ xs, s.blamed = { s.blamed with lines := s.blamed.lines ++ xs } ∧
        ∀ x ∈ xs, ∃ since, s.lockWaitStartUs.get? pid = some since ∧ x = ⟨pid, now - since, s.blamed.names pid⟩ :=
      ⟨[], by rw [List.append_nil], fun x hx => absurd hx List.not_mem_nil⟩
    cases hstart : (lockWaitStartUs.table s).get? pid with
    | none       => exact hnone
    | some since =>
      unfold whenever
      split
      · refine ends_after (readOnly_read _ _ _).preserves (fun _ s₁ h₁ => ?_)
        refine ends_after (readOnly_read _ _ _).preserves (fun _ s₂ h₂ => ?_)
        refine ends_after (preserves_assert _ _) (fun _ s₃ h₃ => ?_)
        refine ends_after (blames_appendStats _ _ _ _ _ _) (fun _ s₄ h₄ => ?_)
        rw [← h₁, ← h₂, ← h₃, ← h₄] at hnone ⊢
        refine (reportLongWaits_blamed (now - since) hb).mono (fun _ s₅ h₅ => ?_) (fun _ _ h => h)
        rcases h₅ with h₅ | h₅
        · rw [h₅]; exact hnone
        · refine ⟨_, h₅, fun x hx => ⟨since, hstart, List.mem_singleton.1 hx⟩⟩
      · exact hnone
  · refine ends_after (preserves_delete (fun _ _ => rfl) _) (fun _ s₂ h₂ => ?_)
    refine Ends.mono (ends_then (forget_blamed hb) (fun _ => ?_)) (fun _ s₃ h₃ => ⟨xs, ?_, hxs⟩) (fun _ _ h => h)
    · exact (preserves_delete (fun _ _ => rfl) _).bind (fun _ => preserves_delete (fun _ _ => rfl) _)
    · rw [h₃, h₂, h₁]
      rfl

/-- What a handler of process `pid` does to what is blamed. -/
def Wrought (pid : Pid) (now : Int) (p : Probe) (s s' : State M) : Prop :=
  match p with
  | .waitStart mode lock => s'.blamed =
      if s.lockWaitStartUs.get? pid = none then s.blamed.record pid (blockerOf s lock mode) else s.blamed
  | .waitDone _ _ _      => ∃ xs, s'.blamed = { s.blamed.forget pid with lines := s.blamed.lines ++ xs } ∧
      ∀ x ∈ xs, ∃ since, s.lockWaitStartUs.get? pid = some since ∧ x = ⟨pid, now - since, s.blamed.names pid⟩
  | .endCleanup          => s'.blamed = s.blamed.forget pid
  | _                    => s'.blamed = s.blamed

/-- **What one handler does to what is blamed.** -/
theorem fire_wrought (hb : o.trackBlockers = true) (p : Probe) :
    Ends (fire o pid now p s) (fun _ s' => Wrought pid now p s s') (fun _ _ => True) := by
  have hsame : ∀ q : Script M Unit, Preserves State.blamed q →
      Ends (q s) (fun _ s' => s'.blamed = s.blamed) (fun _ _ => True) :=
    fun q hq => (hq s).mono_fault (fun _ _ _ => trivial)
  cases p with
  | acquireStart func                          => exact hsame _ (blames_acquireStart o pid func)
  | waitStart mode lock                        => exact waitStart_blamed hb
  | holdAcquired name mode lock trancheId      => exact hsame _ (blames_holdAcquired o pid now name mode lock trancheId)
  | waitDone how lock trancheId                => exact waitDone_blamed hb
  | acquireFinish func                         => exact hsame _ (blames_acquireFinish pid func)
  | release mode lock trancheId                => exact hsame _ (blames_release o pid now mode lock trancheId)
  | backendType type description               => exact hsame _ (blames_backendType o pid type description)
  | applicationName name                       => exact hsame _ (blames_applicationName o pid name)
  | endStats                                   => exact hsame _ (blames_endStats o pid)
  | endCleanup                                 => exact deletePerPidEntries_blamed hb

theorem names_recorded (v : Blamed) (pid : Pid) (b : Pid × LWLockMode) : (v.record pid b).names pid = named b := by
  simp [Blamed.record, Blamed.names]

theorem names_of_ne {q : Pid} (hq : q ≠ pid) (v : Blamed) :
    (∀ b, (v.record pid b).names q = v.names q) ∧ (v.forget pid).names q = v.names q := by
  simp [Blamed.record, Blamed.forget, Blamed.names, hq]

/-- **The record of another process stays.** -/
theorem Wrought.names {s' : State M} {p : Probe} (h : Wrought pid now p s s') {q : Pid} (hq : q ≠ pid) :
    s'.blamed.names q = s.blamed.names q := by
  cases p with
  | waitStart mode lock =>
    rw [show s'.blamed = _ from h]
    split
    · exact (names_of_ne hq _).1 _
    · rfl
  | waitDone how lock trancheId =>
    obtain ⟨xs, h, -⟩ := h
    rw [h]
    exact (names_of_ne hq s.blamed).2
  | endCleanup => rw [show s'.blamed = _ from h]; exact (names_of_ne hq _).2
  | _          => rw [show s'.blamed = _ from h]

/-! ## Who holds what when a wait begins -/

/-- A holder in mode `m` bars one that asks for `mode`. -/
def Bars (mode m : LWLockMode) : Prop := mode = .shared → m = .exclusive

/-- **What naming a blocker says of the processes**: it holds a lock in the mode named, one that would bar the waiter,
and it is the lock waited for if anybody holds that one in a mode that bars; nobody is named only where nobody holds
any lock in such a mode. -/
def Names (cs : Pid → Proc) (lock : Lock) (mode : LWLockMode) : Option (Pid × LWLockMode) → Prop
  | none        => ∀ q, ∀ h ∈ (cs q).holds, ¬Bars mode h.mode
  | some (b, m) => Bars mode m ∧ (∃ h ∈ (cs b).holds, h.mode = m) ∧
      ((∃ q h, (cs q).hold? lock = some h ∧ Bars mode h.mode) → ∃ h, (cs b).hold? lock = some h ∧ h.mode = m)

variable {cs : Pid → Proc}

theorem Records.mem_keys {c : Proc} (hr : Records s.view pid c) :
    (pid, lock, mode) ∈ s.locksHeldByPid.keys ↔ ∃ h, c.hold? lock = some h ∧ h.mode = mode := by
  rw [BoundedMap.mem_keys]
  show (s.view.held (pid, lock, mode)).isSome ↔ _
  rw [hr.held]
  cases c.hold? lock with
  | none   => simp
  | some h => simp [Option.filter]

theorem find?_of_mem {h : Hold} : ∀ (holds : List Hold), (holds.map Hold.lock).Nodup → h ∈ holds →
    holds.find? (fun x => x.lock = h.lock) = some h
  | [], _, hm         => absurd hm List.not_mem_nil
  | x :: holds, hn, hm => by
    obtain ⟨hx, hn⟩ := List.nodup_cons.1 hn
    rcases List.mem_cons.1 hm with rfl | hm
    · exact List.find?_cons_of_pos (decide_eq_true rfl)
    · have hne : x.lock ≠ h.lock := fun he => hx (he ▸ List.mem_map_of_mem hm)
      rw [List.find?_cons_of_neg (by simpa using hne)]
      exact find?_of_mem holds hn hm

/-- **What the scan ends with is so**, if what the script knows of the processes is. -/
theorem names_blockerOf (ht : TimesAgree s.view cs) (h0 : (cs 0).holds = []) (lock : Lock) (mode : LWLockMode) :
    Names cs lock mode (named (blockerOf s lock mode)) := by
  have hscan : ∀ k, k ∈ scanned s mode ↔ (∃ h, (cs k.1).hold? k.2.1 = some h ∧ h.mode = k.2.2) ∧ Bars mode k.2.2 :=
    fun k => mem_scanned.trans (and_congr_left (fun _ => (ht k.1).mem_keys))
  have hpid : ∀ k ∈ scanned s mode, k.1 ≠ 0 := fun k hk hz => by
    obtain ⟨⟨h, hold, -⟩, -⟩ := (hscan k).1 hk
    unfold Proc.hold? at hold
    rw [hz, h0] at hold
    cases hold
  have hheld : ∀ k ∈ scanned s mode, ∃ h ∈ (cs k.1).holds, h.mode = k.2.2 := fun k hk => by
    obtain ⟨⟨h, hold, hm⟩, -⟩ := (hscan k).1 hk
    exact ⟨h, List.mem_of_find?_eq_some hold, hm⟩
  unfold blockerOf
  rw [scanHolders_eq]
  cases hfind : (scanned s mode).find? (fun k => k.2.1 = lock) with
  | some k =>
    have hk := List.mem_of_find?_eq_some hfind
    have hlock : k.2.1 = lock := by simpa using List.find?_some hfind
    obtain ⟨⟨h, hold, hm⟩, hbars⟩ := (hscan k).1 hk
    simp only [named, if_pos (hpid k hk)]
    exact ⟨hbars, hheld k hk, fun _ => ⟨h, hlock ▸ hold, hm⟩⟩
  | none =>
    have hfree : ∀ q h, (cs q).hold? lock = some h → ¬Bars mode h.mode := fun q h hold hbars => by
      have hk : (q, lock, h.mode) ∈ scanned s mode := (hscan _).2 ⟨⟨h, hold, rfl⟩, hbars⟩
      exact List.find?_eq_none.1 hfind _ hk (decide_eq_true rfl)
    cases hlast : (scanned s mode).getLast? with
    | none   =>
      intro q h hmem hbars
      have hk : (q, h.lock, h.mode) ∈ scanned s mode :=
        (hscan _).2 ⟨⟨h, find?_of_mem _ (ht q).once hmem, rfl⟩, hbars⟩
      rw [List.getLast?_eq_none_iff.1 hlast] at hk
      exact absurd hk List.not_mem_nil
    | some k =>
      have hk : k ∈ scanned s mode := List.mem_of_getLast? hlast
      simp only [Option.map_some, Option.getD_some, named, if_pos (hpid k hk)]
      exact ⟨((hscan k).1 hk).2, hheld k hk, fun ⟨q, h, hold, hbars⟩ => absurd hbars (hfree q h hold)⟩

/-! ## Attempts -/

/-- The event ends an attempt of process `pid`, or the process. -/
def Event.ends (pid : Pid) : Event → Bool
  | .probe q _ (.waitDone _ _ _) => q = pid
  | .probe q _ .endCleanup       => q = pid
  | _                            => false

/-- Process `pid` is in an attempt that first waited at `since`, for `lock`, and `blocker` names who was in its way at
that moment. -/
def WaitsSince (cs : Pid → Proc) (past : List Event) (pid : Pid) (lock : Lock) (since : Int)
    (blocker : Option (Pid × LWLockMode)) : Prop :=
  ∃ pre mode mid, past = pre ++ .probe pid since (.waitStart mode lock) :: mid ∧
    (after cs pre pid).firstWait = none ∧ (∀ e ∈ mid, e.ends pid = false) ∧ Names (after cs pre) lock mode blocker

/-- **The line is true**: an attempt of the process was completed, it had waited as long as the line says, and the line
names who was in its way when it first waited. -/
def Told (cs : Pid → Proc) (es : List Event) (x : Accusation) : Prop :=
  ∃ past how lock trancheId since now rest,
    es = past ++ .probe x.pid now (.waitDone how lock trancheId) :: rest ∧ x.us = now - since ∧
    WaitsSince cs past x.pid lock since x.blocker

variable {past : List Event} {e : Event} {p : Probe} {c y : Proc} {s' : State M}

theorem WaitsSince.snoc {since : Int} {b : Option (Pid × LWLockMode)} (h : WaitsSince cs past pid lock since b)
    (he : e.ends pid = false) : WaitsSince cs (past ++ [e]) pid lock since b := by
  obtain ⟨pre, mode, mid, rfl, hfirst, hmid, hnames⟩ := h
  refine ⟨pre, mode, mid ++ [e], by rw [List.append_assoc, List.cons_append], hfirst, fun x hx => ?_, hnames⟩
  rcases List.mem_append.1 hx with hx | hx
  · exact hmid x hx
  · rw [List.mem_singleton.1 hx]; exact he

theorem Told.snoc {x : Accusation} (h : Told cs past x) (e : Event) : Told cs (past ++ [e]) x := by
  obtain ⟨pre, how, lock, trancheId, since, now, rest, rfl, hus, hwaits⟩ := h
  exact ⟨pre, how, lock, trancheId, since, now, rest ++ [e], by rw [List.append_assoc, List.cons_append], hus, hwaits⟩

theorem Event.ends_of_ne {q : Pid} (hq : q ≠ pid) (now : Int) (p : Probe) : (Event.probe pid now p).ends q = false := by
  cases p with
  | waitDone how lock trancheId => exact decide_eq_false (Ne.symm hq)
  | endCleanup                  => exact decide_eq_false (Ne.symm hq)
  | _                           => rfl

/-- **Every wait that goes on is recorded as it began, and every line is true.** -/
structure Truthful (cs : Pid → Proc) (past : List Event) (s : State M) : Prop where
  waiting : ∀ pid w, (after cs past pid).firstWait = some w → WaitsSince cs past pid w.1 w.2 (s.blamed.names pid)
  lines   : ∀ x ∈ s.blamed.lines, Told cs past x

/-- A handler that is no wait and no completion leaves the first wait of its process as it is, or there is none. -/
theorem Proc.firstWait_next (hn : c.next (now, p) = some y) {w : Lock × Int} (hw : y.firstWait = some w) :
    (c.firstWait = some w ∧ (Event.probe pid now p).ends pid = false) ∨
      ∃ mode lock, p = .waitStart mode lock ∧ c.firstWait = none ∧ w = (lock, now) := by
  cases p with
  | acquireStart func =>
    obtain ⟨-, ⟨⟩⟩ := Option.ite_none_right_eq_some.1 hn
    cases hw
  | waitStart mode lock =>
    obtain ⟨a, ha, rfl⟩ := Option.map_eq_some_iff.1 hn
    rw [Proc.firstWait_waitStart now lock (Proc.attempt_of_tryingOn ha).1] at hw
    cases hfirst : c.firstWait with
    | none    => rw [hfirst] at hw; exact Or.inr ⟨mode, lock, rfl, rfl, (Option.some.inj hw).symm⟩
    | some w' => rw [hfirst] at hw; exact Or.inl ⟨hw, rfl⟩
  | holdAcquired name mode lock trancheId =>
    obtain ⟨-, hn⟩ := Option.ite_none_left_eq_some.1 hn
    obtain ⟨a, ha, rfl⟩ := Option.map_eq_some_iff.1 hn
    refine Or.inl ⟨?_, rfl⟩
    rw [Proc.firstWait_eq (by rw [(Proc.attempt_of_tryingOn ha).1]; rfl : c.phase.attempt = some a)]
    exact hw
  | waitDone how lock trancheId =>
    obtain ⟨-, ⟨⟩⟩ := Option.ite_none_right_eq_some.1 hn
    cases hw
  | acquireFinish func =>
    obtain ⟨-, ⟨⟩⟩ := Option.ite_none_right_eq_some.1 hn
    exact Or.inl ⟨hw, rfl⟩
  | release mode lock trancheId =>
    obtain ⟨-, ⟨⟩⟩ := Option.ite_none_right_eq_some.1 hn
    exact Or.inl ⟨hw, rfl⟩
  | backendType type description => cases hn; exact Or.inl ⟨hw, rfl⟩
  | applicationName name         => cases hn; exact Or.inl ⟨hw, rfl⟩
  | endStats =>
    obtain ⟨-, ⟨⟩⟩ := Option.ite_none_left_eq_some.1 hn
    exact Or.inl ⟨hw, rfl⟩
  | endCleanup =>
    obtain ⟨-, ⟨⟩⟩ := Option.ite_none_right_eq_some.1 hn
    cases hw

/-- Within an attempt that has waited already, the record of the process itself stays too. -/
theorem Wrought.names_self (h : Wrought pid now p s s') (he : (Event.probe pid now p).ends pid = false)
    (hstart : s.lockWaitStartUs.get? pid ≠ none) : s'.blamed.names pid = s.blamed.names pid := by
  cases p with
  | waitStart mode lock         => rw [show s'.blamed = _ from h, if_neg hstart]
  | waitDone how lock trancheId => exact absurd rfl (of_decide_eq_false he)
  | endCleanup                  => exact absurd rfl (of_decide_eq_false he)
  | _                           => rw [show s'.blamed = _ from h]

/-- A line is an old one, or of a wait that is completed now. -/
theorem Wrought.lines (h : Wrought pid now p s s') {x : Accusation} (hx : x ∈ s'.blamed.lines) :
    x ∈ s.blamed.lines ∨ ∃ how lock trancheId since, p = .waitDone how lock trancheId ∧
      s.lockWaitStartUs.get? pid = some since ∧ x = ⟨pid, now - since, s.blamed.names pid⟩ := by
  cases p with
  | waitStart mode lock =>
    have hlines : s'.blamed.lines = s.blamed.lines := by
      rw [show s'.blamed = _ from h]
      split <;> rfl
    exact Or.inl (hlines ▸ hx)
  | waitDone how lock trancheId =>
    obtain ⟨xs, h, hxs⟩ := h
    rw [h] at hx
    rcases List.mem_append.1 hx with hx | hx
    · exact Or.inl hx
    · obtain ⟨since, hstart, rfl⟩ := hxs x hx
      exact Or.inr ⟨how, lock, trancheId, since, rfl, hstart, rfl⟩
  | endCleanup => rw [show s'.blamed = _ from h] at hx; exact Or.inl hx
  | _          => rw [show s'.blamed = _ from h] at hx; exact Or.inl hx

/-! ## Runs -/

/-- Every process follows the protocol and acquires no lock it holds, the clock does not read 0 and no process has the
pid 0. -/
structure Orderly (cs : Pid → Proc) (es : List Event) : Prop where
  follows : Follows cs es
  free    : AcquireFree cs es
  clocked : Clocked es
  pids    : ∀ now p, Event.probe 0 now p ∉ es

variable {es : List Event}

theorem after_append (hf : Follows cs (past ++ es)) : after cs (past ++ es) = after (after cs past) es := by
  obtain ⟨hpast, hes⟩ := follows_append.1 hf
  funext q
  have hrun : Runs.run Proc.next (cs q) (ownEvents q (past ++ es)) = _ := run_ownEvents_append q past es
  rw [after_of_run hf, after_of_run hpast, Option.bind_some, after_of_run hes] at hrun
  exact Option.some.inj hrun

/-- A process that does nothing stays what it is. -/
theorem after_absent {q : Pid} (h : ∀ now p, Event.probe q now p ∉ past) : after cs past q = cs q := by
  have hown : ownEvents q past = [] := by
    refine List.filterMap_eq_nil_iff.2 (fun e he => ?_)
    cases e with
    | timer         => rfl
    | probe r now p => exact if_neg (fun hr : r = q => h now p (hr ▸ he))
  unfold after
  rw [hown]
  rfl

/-- **A handler keeps what is said of blockers true.** -/
theorem Truthful.probe (h : Truthful cs past s) (hf : Follows cs (past ++ [.probe pid now p]))
    (ha : Agrees o s.view (after cs past)) (ht : TimesAgree s.view (after cs past)) (h0 : (after cs past 0).holds = [])
    (hw : Wrought pid now p s s') : Truthful cs (past ++ [.probe pid now p]) s' := by
  obtain ⟨y, hy⟩ := (follows_append.1 hf).2.next
  have hafter : after cs (past ++ [.probe pid now p]) = Function.update (after cs past) pid y := by
    rw [after_append hf, after_probe hy]
  refine ⟨fun q w hq => ?_, fun x hx => ?_⟩
  · rw [hafter] at hq
    by_cases hqp : q = pid
    · subst hqp
      rw [Function.update_self] at hq
      rcases Proc.firstWait_next hy hq with ⟨hfirst, he⟩ | ⟨mode, lock, rfl, hnone, rfl⟩
      · have hstart : s.lockWaitStartUs.get? q ≠ none := fun hn => by
          have hv := (ha q).start
          rw [show s.view.start q = none from hn, hfirst] at hv
          cases hv
        rw [hw.names_self he hstart]
        exact (h.waiting q w hfirst).snoc he
      · have hstart : s.lockWaitStartUs.get? q = none := (ha q).start.trans (by rw [hnone]; rfl)
        have hrecord : s'.blamed = _ := hw
        rw [if_pos hstart] at hrecord
        rw [hrecord, names_recorded]
        exact ⟨past, mode, [], rfl, hnone, fun e he => absurd he List.not_mem_nil, names_blockerOf ht h0 lock mode⟩
    · rw [Function.update_of_ne hqp] at hq
      rw [hw.names hqp]
      exact (h.waiting q w hq).snoc (Event.ends_of_ne hqp now p)
  · rcases hw.lines hx with hx | ⟨how, lock, trancheId, since, rfl, hstart, rfl⟩
    · exact (h.lines x hx).snoc _
    · obtain ⟨hcompletes, -⟩ := Option.ite_none_right_eq_some.1 hy
      obtain ⟨a, hattempt, hon⟩ := (ha pid).attempt_of_completes hcompletes
      obtain ⟨⟨l, since'⟩, hfirst, rfl⟩ := Option.map_eq_some_iff.1 ((ha pid).start.symm.trans hstart)
      have hlock : l = lock := Attempt.lock_of_on hon ((Proc.firstWait_eq hattempt).symm.trans hfirst)
      subst hlock
      exact ⟨past, how, l, trancheId, since', now, [], rfl, rfl, h.waiting pid (l, since') hfirst⟩

theorem Truthful.timer (h : Truthful cs past s) (hf : Follows cs (past ++ [.timer])) (hs : s'.blamed = s.blamed) :
    Truthful cs (past ++ [.timer]) s' where
  waiting := fun q w hq => by
    rw [after_append hf, after_timer] at hq
    rw [hs]
    exact (h.waiting q w hq).snoc rfl
  lines   := fun x hx => by
    rw [hs] at hx
    exact (h.lines x hx).snoc _

/-- One event of a run. -/
theorem Truthful.handle (hb : o.trackBlockers = true) (h : Truthful cs past s) (hcs : cs 0 = .start)
    (hr : Orderly cs (past ++ [e])) (ha : Agrees o s.view (after cs past)) (ht : TimesAgree s.view (after cs past))
    (hrun : Lwlock.handle o e s = .ok () s') : Truthful cs (past ++ [e]) s' := by
  cases e with
  | timer =>
    exact h.timer hr.follows (Preserves.of_ok (blames_periodic o) hrun)
  | probe pid now p =>
    have h0 : (after cs past 0).holds = [] := by
      rw [after_absent (fun now p hm => hr.pids now p (List.mem_append_left _ hm)), hcs]
      rfl
    have hw : Ends (fire o pid now p s) (fun _ s' => Wrought pid now p s s') (fun _ _ => True) := fire_wrought hb p
    rw [show fire o pid now p s = .ok () s' from hrun] at hw
    exact h.probe hr.follows ha ht h0 hw

theorem Orderly.before (h : Orderly cs (past ++ es)) : Orderly cs past where
  follows         := (follows_append.1 h.follows).1
  free            := ((acquireFree_append (follows_append.1 h.follows).1).1 h.free).1
  clocked _ _ _ m := h.clocked _ _ _ (List.mem_append_left _ m)
  pids _ _ m      := h.pids _ _ (List.mem_append_left _ m)

/-- **A run**: whatever the processes' events are interleaved with. -/
theorem script_truthful (hh : o.trackHolds = true) (hp : o.trackPerProcess = true) (hb : o.trackBlockers = true)
    (hcs : cs 0 = .start) : ∀ (es : List Event) {past : List Event} {s s' : State M}, Agrees o s.view (after cs past) →
      TimesAgree s.view (after cs past) → Truthful cs past s → Orderly cs (past ++ es) →
      script o es s = .ok () s' → Truthful cs (past ++ es) s'
  | [], past, s, s', _, _, h, _, hrun       => by
    cases hrun
    rwa [List.append_nil]
  | e :: es, past, s, s', ha, ht, h, hr, hrun => by
    have hsplit : past ++ e :: es = (past ++ [e]) ++ es := by rw [List.append_assoc, List.singleton_append]
    rw [hsplit] at hr ⊢
    have hr₁ := hr.before
    cases hrun₁ : Lwlock.handle o e s with
    | error x s₁ => simp [script, hrun₁] at hrun
    | ok u s₁    =>
      have hrun₂ : script o es s₁ = .ok () s' := by simpa [script, hrun₁] using hrun
      have hf₁ : Follows (after cs past) [e] := (follows_append.1 hr₁.follows).2
      have hkeeps := handle_keeps (M := M) hh hp ha hf₁
      unfold Keeps at hkeeps
      rw [hrun₁] at hkeeps
      obtain ⟨ha₁, hc₁⟩ := hkeeps
      have hfree : AcquireFree (after cs past) [e] := ((acquireFree_append hr₁.before.follows).1 hr₁.free).2
      obtain ⟨ht₁, -⟩ := hc₁ ht hfree (fun q n p m => hr₁.clocked q n p (List.mem_append_right _ m))
      rw [← after_append hr₁.follows] at ha₁ ht₁
      exact script_truthful hh hp hb hcs es ha₁ ht₁ (h.handle hb hcs hr₁ ha ht hrun₁) hr hrun₂

/-- **Every line about a long wait is true**, in every run whose processes follow the protocol: the process it is about
completed an attempt that had waited as long as the line says, and the blocker it names was in the way when the attempt
first waited. -/
theorem script_told (o : Options) (hh : o.trackHolds = true) (hp : o.trackPerProcess = true)
    (hb : o.trackBlockers = true) {es : List Event} (hr : Orderly (fun _ => .start) es) {s : State M}
    (hrun : script o es ({} : State M) = .ok () s) :
    ∀ x ∈ s.printed.filterMap Report.accusation, Told (fun _ => .start) es x := by
  have hnone : Truthful (fun _ => .start) [] ({} : State M) :=
    ⟨fun _ _ hw => (by cases hw), fun _ hx => absurd hx List.not_mem_nil⟩
  have htrue : Truthful (fun _ => .start) ([] ++ es) s :=
    script_truthful hh hp hb rfl es (agrees_start o) timesAgree_start hnone hr hrun
  exact htrue.lines

theorem orderly_contended : Orderly (fun _ => .start) contended where
  follows := fun q => by
    by_cases h₁ : q = 1
    · subst h₁; decide
    · by_cases h₂ : q = 2
      · subst h₂; decide
      · simp [contended, ownEvents, ownEvent, Ne.symm h₁, Ne.symm h₂]
  free    := fun q => by
    by_cases h₁ : q = 1
    · subst h₁; decide
    · by_cases h₂ : q = 2
      · subst h₂; decide
      · simp [contended, ownEvents, ownEvent, Ne.symm h₁, Ne.symm h₂, Runs.Meets]
  clocked := fun pid now p hmem => by
    simp only [contended, List.mem_cons, Event.probe.injEq, List.not_mem_nil, or_false] at hmem
    omega
  pids    := fun now p hmem => by simp [contended] at hmem

/-- Long waits are printed, with their blockers. -/
def blaming : Options := { trackBlockers := true, logWaitsLongerThanUs := 10 }

def linesAtEnd (o : Options) (M : Nat) (es : List Event) : Option (List Accusation) :=
  match script o es ({} : State M) with
  | .ok _ s    => some (s.printed.filterMap Report.accusation)
  | .error _ _ => none

/-- The second process waits 18 us, and the first one is named. -/
theorem script_told_contended : ∃ s : State 2048, script blaming contended {} = .ok () s ∧
    s.printed.filterMap Report.accusation = [⟨2, 18, some (1, .exclusive)⟩] ∧
    ∀ x ∈ s.printed.filterMap Report.accusation, Told (fun _ => .start) contended x := by
  have hlines : linesAtEnd blaming 2048 contended = some [⟨2, 18, some (1, .exclusive)⟩] := by decide +kernel
  unfold linesAtEnd at hlines
  cases hrun : script blaming contended ({} : State 2048) with
  | ok u s     =>
    rw [hrun] at hlines
    exact ⟨s, rfl, Option.some.inj hlines, script_told blaming rfl rfl rfl orderly_contended hrun⟩
  | error e s' => rw [hrun] at hlines; cases hlines

end Lwlock
end Scrapcode
