import Scrapcode.LwlockScript
/-!
# LwlockViews — what a handler does to the arrays

The arrays as functions of their keys, without their room (`State.view`), for those that decide what is sampled and
asserted.  A handler either ends the script, or changes the view as its lemma here says; the lemmas ask for what its
assertions test, so an assertion never ends it.
-/
namespace Scrapcode
namespace Lwlock

open Programs

structure View where
  func : Pid → Option String
  start : Pid → Option Int
  lwlock : Pid → Option Lock
  blocker : Pid → Option Pid
  appname : Pid → Option String
  held : Pid × Lock × LWLockMode → Option Int
  all : Stat → Int × LWLockMode → List Int
  ofPid : Stat → Pid × Int × LWLockMode → List Int

variable {M : Nat} {κ ν α β : Type}

/-- The samples under a key. -/
def samplesOf [DecidableEq κ] {cap : Nat} (m : BoundedMap κ (List Int) cap) (k : κ) : List Int :=
  (m.get? k).getD []

def State.view (s : State M) : View where
  func       := s.acquireFunc.get?
  start      := s.lockWaitStartUs.get?
  lwlock     := s.lockWaitLwlockP.get?
  blocker    := s.lockWaitBlocker.get?
  appname    := s.lockWaitBlockerAppname.get?
  held       := s.locksHeldByPid.get?
  all
    | .held => samplesOf s.heldDurationsAllprocs
    | .wait => samplesOf s.waitDurationsAllprocs
  ofPid
    | .held => samplesOf s.heldDurationsPid
    | .wait => samplesOf s.waitDurationsPid

def IsOverflow (e : ScriptError) : Prop := ∃ array, e = .overflow array

/-- The program does not end the script but for an array that is full, and leaves a view in `Q`. -/
abbrev Keeps (p : Script M α) (s : State M) (Q : View → Prop) : Prop :=
  Ends (p s) (fun _ s' => Q s'.view) (fun e _ => IsOverflow e)

variable {s : State M} {Q R : View → Prop} {o : Options} {pid : Pid} {now : Int} {mode : LWLockMode} {lock : Lock}
  {trancheId : Nat}

/-! ## The language -/

theorem Keeps.bind {p : Script M α} {f : α → Script M β} (h : Keeps p s Q)
    (hf : ∀ x s', Q s'.view → Keeps (f x) s' R) : Keeps (p >>= f) s R :=
  Ends.bind h hf

theorem keeps_whenever {b : Bool} {p : Script M Unit} (h : b = true → Keeps p s Q) (hb : b = false → Q s.view) :
    Keeps (whenever b p) s Q := by
  cases b
  · exact hb rfl
  · exact h rfl

theorem keeps_bind_whenever {b : Bool} {p : Script M Unit} {f : Unit → Script M α} (h : b = true → Keeps p s Q)
    (hb : b = false → Q s.view) (hf : ∀ s', Q s'.view → Keeps (f ()) s' R) : Keeps (whenever b p >>= f) s R :=
  (keeps_whenever h hb).bind (fun _ => hf)

theorem keeps_assert {b : Bool} {text : String} {p : Script M Unit} (hb : b = true) (h : Keeps p s Q) :
    Keeps (assertThat b text >>= fun _ => p) s Q := by
  subst hb; exact h

theorem keeps_assert_end {b : Bool} {text : String} (hb : b = true) (h : Q s.view) :
    Keeps (assertThat b text) s Q := by
  subst hb; exact h

section
variable [DecidableEq κ]

@[simp] theorem lookup?_run (a : Global M κ ν) (k : κ) (s : State M) :
    a.lookup? k s = .ok ((a.table s).get? k) s := rfl

@[simp] theorem read_run (a : Global M κ ν) (k : κ) (absent : ν) (s : State M) :
    a.read k absent s = .ok (((a.table s).get? k).getD absent) s := rfl

theorem keeps_lookup (a : Global M κ ν) (k : κ) {f : Option ν → Script M α} (h : Keeps (f ((a.table s).get? k)) s R) :
    Keeps (a.lookup? k >>= f) s R := h

theorem keeps_read (a : Global M κ ν) (k : κ) (absent : ν) {f : ν → Script M α}
    (h : Keeps (f (((a.table s).get? k).getD absent)) s R) : Keeps (a.read k absent >>= f) s R := h

theorem assign_ends (a : Global M κ ν) (k : κ) (v : ν) (s : State M) :
    Ends (a.assign k v s) (fun _ s' => ∃ t, s' = a.put t s ∧ t.get? = Function.update (a.table s).get? k (some v))
      (fun e _ => IsOverflow e) := by
  cases h : (a.table s).insert? k v with
  | some t =>
    exact Ends.of_ok (x := ()) (t := a.put t s) (by simp [Global.assign, h]) ⟨t, rfl, BoundedMap.get?_insert? h⟩
  | none   => exact Ends.of_error (e := .overflow a.name) (t := s) (by simp [Global.assign, h]) ⟨a.name, rfl⟩

theorem keeps_assign (a : Global M κ ν) {f : (κ → Option ν) → View} (hf : ∀ t, (a.put t s).view = f t.get?) (k : κ)
    (v : ν) : Keeps (a.assign k v) s (· = f (Function.update (a.table s).get? k (some v))) :=
  (assign_ends a k v s).mono (fun _ _ ⟨t, hs, ht⟩ => by rw [hs, hf, ht]) (fun _ _ h => h)

theorem keeps_delete (a : Global M κ ν) {f : (κ → Option ν) → View} (hf : ∀ t, (a.put t s).view = f t.get?) (k : κ) :
    Keeps (a.delete k) s (· = f (Function.update (a.table s).get? k none)) := by
  show (a.put _ s).view = _
  rw [hf, BoundedMap.get?_erase]

theorem push_ends (a : Global M κ (List Int)) (k : κ) (v : Int) (s : State M) :
    Ends (a.push k v s) (fun _ s' => ∃ t, s' = a.put t s ∧
      ∀ k', samplesOf t k' = samplesOf (a.table s) k' ++ if k' = k then [v] else [])
      (fun e _ => IsOverflow e) := by
  unfold Global.push
  rw [bind_run, read_run]
  refine (assign_ends a k _ s).mono (fun _ _ h => ?_) (fun _ _ h => h)
  obtain ⟨t, hs, ht⟩ := h
  refine ⟨t, hs, fun k' => ?_⟩
  unfold samplesOf
  rw [ht]
  by_cases hk : k' = k
  · subst hk; simp
  · simp [hk]

end

/-! ## Programs that only read -/

def ReadOnly (p : Script M α) : Prop := ∀ s, ∃ x, p s = .ok x s

theorem ReadOnly.bind {p : Script M α} {f : α → Script M β} (h : ReadOnly p) (hf : ∀ x, ReadOnly (f x)) :
    ReadOnly (p >>= f) := fun s => by
  obtain ⟨x, hx⟩ := h s
  rw [bind_run, hx]; exact hf x s

theorem readOnly_pure (x : α) : ReadOnly (pure x : Script M α) := fun _ => ⟨x, rfl⟩

theorem readOnly_read [DecidableEq κ] (a : Global M κ ν) (k : κ) (absent : ν) : ReadOnly (a.read k absent) :=
  fun _ => ⟨_, rfl⟩

theorem ReadOnly.keeps {p : Script M α} {f : α → Script M β} (h : ReadOnly p) (hf : ∀ x, Keeps (f x) s R) :
    Keeps (p >>= f) s R := by
  obtain ⟨x, hx⟩ := h s
  exact Ends.bind (Ends.of_ok hx (Q := fun _ s' => s' = s) rfl) (fun x _ hs => hs ▸ hf x)

theorem readOnly_trancheIdStr (t : Int) : ReadOnly (trancheIdStr t : Script M String) :=
  (readOnly_read trancheNames _ _).bind (fun _ => readOnly_pure _)

theorem readOnly_statsEntry (stat : Stat) (pid : Option Pid) (t : Int) (mode : LWLockMode) (hide : Int)
    (xs : List Int) : ReadOnly (statsEntry stat pid t mode hide xs : Script M _) := by
  refine ReadOnly.bind (p := trancheLabel t) ?_ (fun _ => readOnly_pure _)
  unfold trancheLabel
  by_cases ht : t = -1
  · rw [if_pos ht]; exact readOnly_pure _
  · rw [if_neg ht]; exact readOnly_trancheIdStr t

theorem readOnly_statsSummary (stat : Stat) (t : Int) (mode : LWLockMode) :
    ReadOnly (statsSummary o stat t mode : Script M _) :=
  (readOnly_read _ _ _).bind (fun _ => readOnly_statsEntry _ _ _ _ _ _)

theorem readOnly_statsPid (t : Int) (mode : LWLockMode) : ReadOnly (statsPid o pid t mode : Script M _) :=
  (readOnly_read _ _ _).bind (fun _ => (readOnly_read _ _ _).bind (fun _ =>
    (readOnly_statsEntry _ _ _ _ _ _).bind (fun _ => (readOnly_statsEntry _ _ _ _ _ _).bind (fun _ => readOnly_pure _))))

theorem readOnly_foldlM {γ : Type} {f : β → γ → Script M β} (hf : ∀ b x, ReadOnly (f b x)) :
    ∀ (xs : List γ) (b : β), ReadOnly (xs.foldlM f b)
  | [], b      => readOnly_pure b
  | x :: xs, b => by rw [List.foldlM_cons]; exact (hf b x).bind (readOnly_foldlM hf xs)

theorem readOnly_statsRows {row : Int → LWLockMode → Script M (List StatsRow)} (hrow : ∀ t mode, ReadOnly (row t mode))
    (keys : List (Int × LWLockMode)) : ReadOnly (statsRows row keys) :=
  readOnly_foldlM (fun _ (k : Int × LWLockMode) => (hrow k.1 k.2).bind (fun _ => readOnly_pure _)) _ _

/-! ## The handlers -/

theorem acquireStart_keeps (func : AcquireFunc) (hfunc : s.view.func pid = none) (hstart : s.view.start pid = none)
    (hlwlock : s.view.lwlock pid = none)
    (hblocker : o.trackBlockers = true → s.view.blocker pid = none ∧ s.view.appname pid = none) :
    Keeps (acquireStart o pid func) s
      (· = { s.view with func := Function.update s.view.func pid func.startMark }) := by
  unfold acquireStart
  cases hmark : func.startMark with
  | none      => show s.view = _; rw [← hfunc, Function.update_eq_self]
  | some name =>
    refine keeps_lookup acquireFunc pid (keeps_assert (Option.isNone_iff_eq_none.2 hfunc) ?_)
    refine keeps_lookup lockWaitStartUs pid (keeps_assert (Option.isNone_iff_eq_none.2 hstart) ?_)
    refine keeps_lookup lockWaitLwlockP pid (keeps_assert (Option.isNone_iff_eq_none.2 hlwlock) ?_)
    refine keeps_bind_whenever (Q := (· = s.view)) (fun hb => ?_) (fun _ => rfl) (fun s' hs => ?_)
    · obtain ⟨h₁, h₂⟩ := hblocker hb
      refine keeps_lookup lockWaitBlocker pid (keeps_assert (Option.isNone_iff_eq_none.2 h₁) ?_)
      exact keeps_lookup lockWaitBlockerAppname pid (keeps_assert_end (Option.isNone_iff_eq_none.2 h₂) rfl)
    · rw [← hs]
      exact keeps_assign acquireFunc (f := fun g => { s'.view with func := g }) (fun _ => rfl) pid name

theorem acquireFinish_keeps (func : AcquireFunc) (hfunc : s.view.func pid = none) :
    Keeps (acquireFinish pid func) s (· = s.view) := by
  unfold acquireFinish
  cases func.finishMark with
  | none      => exact rfl
  | some name => exact keeps_lookup acquireFunc pid (keeps_assert_end (Option.isNone_iff_eq_none.2 hfunc) rfl)

theorem rememberTrancheName_keeps (name : String) : Keeps (rememberTrancheName trancheId name) s (· = s.view) :=
  keeps_lookup trancheNames trancheId (keeps_whenever
    (fun _ => keeps_assign trancheNames (f := fun _ => s.view) (fun _ => rfl) trancheId name) (fun _ => rfl))

theorem holdAcquired_keeps (name : String) (hmode : mode ≠ .waitUntilFree) (hh : o.trackHolds = true) :
    Keeps (holdAcquired o pid now name mode lock trancheId) s
      (· = { s.view with held := Function.update s.view.held (pid, lock, mode) (some now) }) := by
  refine keeps_whenever (fun _ => ?_) (fun h => by rw [hh] at h; cases h)
  refine keeps_assert (by cases mode <;> simp at hmode ⊢) ?_
  refine (rememberTrancheName_keeps name).bind (fun _ s' hs => ?_)
  rw [← hs]
  exact keeps_assign locksHeldByPid (f := fun g => { s'.view with held := g }) (fun _ => rfl) (pid, lock, mode) now

theorem print_keeps (r : Report) : Keeps (print r) s (· = s.view) := rfl

theorem reportLongHolds_keeps (us : Int) : Keeps (reportLongHolds o pid us mode trancheId) s (· = s.view) :=
  keeps_whenever (fun _ => keeps_read applicationNames pid "" (keeps_read backendTypes pid 0
    ((readOnly_trancheIdStr _).keeps (fun _ => print_keeps _)))) (fun _ => rfl)

theorem reportLongWaits_keeps (us : Int) : Keeps (reportLongWaits o pid us mode trancheId) s (· = s.view) := by
  refine keeps_whenever (fun _ => ?_) (fun _ => rfl)
  refine keeps_read acquireFunc pid "" (keeps_read backendTypes pid 0 ?_)
  refine (readOnly_trancheIdStr _).keeps (fun _ => ?_)
  refine keeps_read applicationNames pid "" (keeps_read lockWaitBlocker pid 0 ?_)
  exact keeps_read lockWaitBlockerMode pid .exclusive (keeps_read lockWaitBlockerAppname pid "" (print_keeps _))

/-! ### Statistics -/

/-- One more sample `us` under the keys of `p`. -/
def AddsAt (stat : Stat) (p : κ → Prop) [DecidablePred p] (us : Int) (f g : Stat → κ → List Int) : Prop :=
  ∀ st k, g st k = f st k ++ if st = stat ∧ p k then [us] else []

theorem AddsAt.trans {stat : Stat} {p q : κ → Prop} [DecidablePred p] [DecidablePred q] {us : Int}
    {f g h : Stat → κ → List Int} (h₁ : AddsAt stat p us f g) (h₂ : AddsAt stat q us g h)
    (hpq : ∀ k, p k → ¬q k) : AddsAt stat (fun k => p k ∨ q k) us f h := by
  intro st k
  rw [h₂, h₁]
  by_cases hp : p k
  · simp [hp, hpq k hp]
  · by_cases hq : q k <;> simp [hp, hq]

theorem view_put_allprocs (stat : Stat) (t : BoundedMap (Int × LWLockMode) (List Int) (durationsAllprocs stat).cap)
    (s : State M) : ((durationsAllprocs stat).put t s).view =
      { s.view with all := Function.update s.view.all stat (samplesOf t) } := by
  have hall : ((durationsAllprocs stat).put t s).view.all = Function.update s.view.all stat (samplesOf t) := by
    funext st; cases stat <;> cases st <;> rfl
  rw [← hall]
  cases stat <;> rfl

theorem view_put_pid (stat : Stat) (t : BoundedMap (Pid × Int × LWLockMode) (List Int) (durationsPid stat).cap)
    (s : State M) : ((durationsPid stat).put t s).view =
      { s.view with ofPid := Function.update s.view.ofPid stat (samplesOf t) } := by
  have hpid : ((durationsPid stat).put t s).view.ofPid = Function.update s.view.ofPid stat (samplesOf t) := by
    funext st; cases stat <;> cases st <;> rfl
  rw [← hpid]
  cases stat <;> rfl

theorem addsAt_update {stat : Stat} {f : Stat → κ → List Int} {g : κ → List Int} {k : κ} [DecidableEq κ] {us : Int}
    (h : ∀ k', g k' = f stat k' ++ if k' = k then [us] else []) : AddsAt stat (· = k) us f (Function.update f stat g) := by
  intro st k'
  by_cases hst : st = stat
  · subst hst; simp [h]
  · simp [hst]

theorem push_allprocs_keeps (stat : Stat) (k : Int × LWLockMode) (us : Int) :
    Keeps ((durationsAllprocs stat).push k us) s
      (fun v => ∃ all, v = { s.view with all := all } ∧ AddsAt stat (· = k) us s.view.all all) := by
  refine (push_ends (durationsAllprocs stat) k us s).mono (fun _ s' h => ?_) (fun _ _ h => h)
  obtain ⟨t, rfl, ht⟩ := h
  exact ⟨_, view_put_allprocs stat t s, addsAt_update (fun k' => by rw [ht]; cases stat <;> rfl)⟩

theorem push_pid_keeps (stat : Stat) (k : Pid × Int × LWLockMode) (us : Int) :
    Keeps ((durationsPid stat).push k us) s
      (fun v => ∃ ofPid, v = { s.view with ofPid := ofPid } ∧ AddsAt stat (· = k) us s.view.ofPid ofPid) := by
  refine (push_ends (durationsPid stat) k us s).mono (fun _ s' h => ?_) (fun _ _ h => h)
  obtain ⟨t, rfl, ht⟩ := h
  exact ⟨_, view_put_pid stat t s, addsAt_update (fun k' => by rw [ht]; cases stat <;> rfl)⟩

/-- What `append_stats` does: one sample for the tranche and one for all, of all processes and of this one. -/
def Appended (pid : Pid) (stat : Stat) (us : Int) (mode : LWLockMode) (trancheId : Nat) (v v' : View) : Prop :=
  ∃ all ofPid, v' = { v with all := all, ofPid := ofPid } ∧
    AddsAt stat (fun k => k = (-1, mode) ∨ k = ((trancheId : Int), mode)) us v.all all ∧
    AddsAt stat (fun k => k = (pid, (trancheId : Int), mode) ∨ k = (pid, -1, mode)) us v.ofPid ofPid

theorem appendStats_keeps (stat : Stat) (us : Int) (hp : o.trackPerProcess = true) :
    Keeps (appendStats o pid stat us mode trancheId) s (Appended pid stat us mode trancheId s.view) := by
  unfold appendStats
  refine (push_allprocs_keeps stat (-1, mode) us).bind (fun _ s₁ ⟨all₁, hv₁, ha₁⟩ => ?_)
  refine (push_allprocs_keeps stat ((trancheId : Int), mode) us).bind (fun _ s₂ ⟨all₂, hv₂, ha₂⟩ => ?_)
  refine keeps_whenever (fun _ => ?_) (fun h => by rw [hp] at h; cases h)
  refine (push_pid_keeps stat (pid, (trancheId : Int), mode) us).bind (fun _ s₃ ⟨pid₃, hv₃, hp₃⟩ => ?_)
  refine (push_pid_keeps stat (pid, -1, mode) us).mono (fun _ s₄ ⟨pid₄, hv₄, hp₄⟩ => ?_) (fun _ _ h => h)
  refine ⟨all₂, pid₄, ?_, ?_, ?_⟩
  · rw [hv₄, hv₃, hv₂, hv₁]
  · rw [hv₁] at ha₂
    exact ha₁.trans ha₂ (fun k h h' => by rw [h] at h'; cases h')
  · rw [hv₃] at hp₄
    rw [hv₂, hv₁] at hp₃
    exact hp₃.trans hp₄ (fun k h h' => by rw [h] at h'; cases h')

theorem deleteAll_keeps (a : Global M κ ν) [DecidableEq κ] {f : (κ → Option ν) → View}
    (hf : ∀ t, (a.put t s).view = f t.get?) (p : κ → Bool) :
    Keeps (a.deleteAll p) s (· = f (fun k => if p k then none else (a.table s).get? k)) := by
  show (a.put _ s).view = _
  rw [hf]
  congr 1
  funext k
  rw [BoundedMap.get?_keep]
  cases p k <;> rfl

/-! ### Holds and waits -/

/-- `held` without the locks `lock` of process `pid`. -/
def withoutLock (pid : Pid) (lock : Lock) (held : Pid × Lock × LWLockMode → Option Int) :
    Pid × Lock × LWLockMode → Option Int :=
  fun k => if k.1 = pid && k.2.1 = lock then none else held k

theorem deleteHeld_keeps (pid : Pid) (lock : Lock) :
    Keeps (locksHeldByPid.deleteAll (fun k => k.1 = pid && k.2.1 = lock)) s
      (· = { s.view with held := withoutLock pid lock s.view.held }) :=
  deleteAll_keeps locksHeldByPid (f := fun g => { s.view with held := g }) (fun _ => rfl) _

/-- One sample from `since` to `now`, if `since` was recorded. -/
def Timed (pid : Pid) (stat : Stat) (since now : Int) (mode : LWLockMode) (trancheId : Nat) (v v' : View) : Prop :=
  if since = 0 then v' = v else Appended pid stat (now - since) mode trancheId v v'

theorem timed_keeps {stat : Stat} {since : Int} {p : Script M Unit}
    (h : since ≠ 0 → Keeps p s (Appended pid stat (now - since) mode trancheId s.view)) :
    Keeps (whenever (since ≠ 0) p) s (Timed pid stat since now mode trancheId s.view) := by
  refine keeps_whenever (fun hs => ?_) (fun hs => ?_)
  · have hs' : since ≠ 0 := by simpa using hs
    unfold Timed
    simp only [if_neg hs']
    exact h hs'
  · have hs' : since = 0 := by simpa using hs
    unfold Timed
    rw [if_pos hs']

theorem release_keeps (hmode : mode ≠ .waitUntilFree) (hh : o.trackHolds = true) (hp : o.trackPerProcess = true) :
    Keeps (release o pid now mode lock trancheId) s (fun v => ∃ w,
      Timed pid .held ((s.view.held (pid, lock, mode)).getD 0) now mode trancheId s.view w ∧
        v = { w with held := withoutLock pid lock w.held }) := by
  refine keeps_whenever (fun _ => ?_) (fun h => by rw [hh] at h; cases h)
  refine keeps_assert (by cases mode <;> simp at hmode ⊢) ?_
  refine keeps_read locksHeldByPid (pid, lock, mode) 0 ?_
  refine Keeps.bind (Q := Timed pid .held ((s.view.held (pid, lock, mode)).getD 0) now mode trancheId s.view)
    (timed_keeps (fun _ => ?_)) (fun _ s₁ h₁ => ?_)
  · refine keeps_whenever (fun _ => ?_) (fun h => by rw [hh] at h; cases h)
    refine (appendStats_keeps .held _ hp).bind (fun _ s₂ h₂ => ?_)
    exact (reportLongHolds_keeps _).mono (fun _ _ hv => hv ▸ h₂) (fun _ _ h => h)
  · exact (deleteHeld_keeps pid lock).mono (fun _ _ hv => ⟨s₁.view, h₁, hv⟩) (fun _ _ h => h)

/-- What is left of `v` when the attempt of process `pid` is over. -/
def View.cleared (o : Options) (pid : Pid) (v : View) : View :=
  { v with
    func    := Function.update v.func pid none
    start   := Function.update v.start pid none
    lwlock  := Function.update v.lwlock pid none
    blocker := if o.trackBlockers then Function.update v.blocker pid none else v.blocker
    appname := if o.trackBlockers then Function.update v.appname pid none else v.appname }

theorem deleteBlocker_keeps : Keeps (whenever o.trackBlockers (do
      lockWaitBlocker.delete pid
      lockWaitBlockerMode.delete pid
      lockWaitBlockerAppname.delete pid)) s
    (· = { s.view with
      blocker := if o.trackBlockers then Function.update s.view.blocker pid none else s.view.blocker
      appname := if o.trackBlockers then Function.update s.view.appname pid none else s.view.appname }) := by
  refine keeps_whenever (fun hb => ?_) (fun hb => by rw [hb]; rfl)
  simp only [hb, if_true]
  refine (keeps_delete lockWaitBlocker (f := fun g => { s.view with blocker := g }) (fun _ => rfl) pid).bind
    (fun _ s₁ h₁ => ?_)
  refine (keeps_delete lockWaitBlockerMode (f := fun _ => s₁.view) (fun _ => rfl) pid).bind (fun _ s₂ h₂ => ?_)
  refine (keeps_delete lockWaitBlockerAppname (f := fun g => { s₂.view with appname := g }) (fun _ => rfl) pid).mono
    (fun _ s₃ h₃ => ?_) (fun _ _ h => h)
  have hview : s₂.view.appname = s.view.appname := by rw [h₂, h₁]
  rw [h₃, h₂, h₁, ← hview]
  rfl

theorem waitDone_keeps (hp : o.trackPerProcess = true)
    (hlock : (s.view.start pid).getD 0 ≠ 0 → s.view.lwlock pid = some lock) :
    Keeps (waitDone o pid now mode lock trancheId) s (fun v => ∃ w,
      Timed pid .wait ((s.view.start pid).getD 0) now mode trancheId s.view w ∧ v = w.cleared o pid) := by
  refine keeps_read lockWaitStartUs pid 0 ?_
  refine Keeps.bind (Q := Timed pid .wait ((s.view.start pid).getD 0) now mode trancheId s.view)
    (timed_keeps (fun hs => ?_)) (fun _ s₁ h₁ => ?_)
  · refine keeps_read lockWaitLwlockP pid 0 (keeps_read acquireFunc pid "" (keeps_assert ?_ ?_))
    · exact decide_eq_true (show (s.view.lwlock pid).getD 0 = lock by rw [hlock hs]; rfl)
    · refine (appendStats_keeps .wait _ hp).bind (fun _ s₂ h₂ => ?_)
      exact (reportLongWaits_keeps _).mono (fun _ _ hv => hv ▸ h₂) (fun _ _ h => h)
  · refine (keeps_delete lockWaitStartUs (f := fun g => { s₁.view with start := g }) (fun _ => rfl) pid).bind
      (fun _ s₂ h₂ => ?_)
    refine deleteBlocker_keeps.bind (fun _ s₃ h₃ => ?_)
    refine (keeps_delete acquireFunc (f := fun g => { s₃.view with func := g }) (fun _ => rfl) pid).bind
      (fun _ s₄ h₄ => ?_)
    refine (keeps_delete lockWaitLwlockP (f := fun g => { s₄.view with lwlock := g }) (fun _ => rfl) pid).mono
      (fun _ s₅ h₅ => ⟨s₁.view, h₁, ?_⟩) (fun _ _ h => h)
    have hfunc : s₃.view.func = s₁.view.func := by rw [h₃, h₂]
    have hlwlock : s₄.view.lwlock = s₁.view.lwlock := by rw [h₄, h₃, h₂]
    unfold View.cleared
    rw [h₅, h₄, h₃, h₂, ← hfunc, ← hlwlock]
    rfl

theorem trackBlockerInfoForWait_keeps : Keeps (trackBlockerInfoForWait pid lock mode) s (fun v => ∃ blocker appname,
    v = { s.view with
      blocker := Function.update s.view.blocker pid (some blocker)
      appname := Function.update s.view.appname pid (some appname) }) := by
  refine Keeps.bind (Q := (· = s.view)) (p := get) rfl (fun s₀ s₁ h₁ => ?_)
  refine (keeps_assign lockWaitBlocker (f := fun g => { s₁.view with blocker := g }) (fun _ => rfl) pid _).bind
    (fun _ s₂ h₂ => ?_)
  refine (keeps_assign lockWaitBlockerMode (f := fun _ => s₂.view) (fun _ => rfl) pid _).bind (fun _ s₃ h₃ => ?_)
  refine keeps_read applicationNames _ "" ?_
  refine (keeps_assign lockWaitBlockerAppname (f := fun g => { s₃.view with appname := g }) (fun _ => rfl) pid _).mono
    (fun _ s₄ h₄ => ?_) (fun _ _ h => h)
  have happname : s₃.view.appname = s.view.appname := by rw [h₃, h₂, h₁]
  have hblocker : s₁.view.blocker = s.view.blocker := by rw [h₁]
  rw [h₄, h₃, h₂, h₁, ← happname, ← hblocker]
  exact ⟨_, _, rfl⟩

/-- The view of a process that begins to wait; who blocks it is not said. -/
def Waiting (pid : Pid) (now : Int) (lock : Lock) (v v' : View) : Prop :=
  ∃ blocker appname, v' = { v with
      start := Function.update v.start pid (some now), lwlock := Function.update v.lwlock pid (some lock)
      blocker := blocker, appname := appname } ∧
    ∀ q, q ≠ pid → blocker q = v.blocker q ∧ appname q = v.appname q

theorem waitStart_keeps (hstart : s.view.start pid = none) :
    Keeps (waitStart o pid now mode lock) s (Waiting pid now lock s.view) := by
  refine keeps_lookup lockWaitStartUs pid ?_
  have hnone : ((lockWaitStartUs.table s).get? pid).isNone = true := Option.isNone_iff_eq_none.2 hstart
  rw [if_pos hnone]
  refine (keeps_assign lockWaitStartUs (f := fun g => { s.view with start := g }) (fun _ => rfl) pid now).bind
    (fun _ s₁ h₁ => ?_)
  refine (keeps_assign lockWaitLwlockP (f := fun g => { s₁.view with lwlock := g }) (fun _ => rfl) pid lock).bind
    (fun _ s₂ h₂ => ?_)
  have hlwlock : s₁.view.lwlock = s.view.lwlock := by rw [h₁]
  have hview : s₂.view = { s.view with
      start := Function.update s.view.start pid (some now), lwlock := Function.update s.view.lwlock pid (some lock) } := by
    rw [h₂, h₁, ← hlwlock]; rfl
  refine keeps_whenever (fun _ => ?_) (fun _ => ⟨_, _, hview, fun _ _ => ⟨rfl, rfl⟩⟩)
  refine trackBlockerInfoForWait_keeps.mono (fun _ _ ⟨b, a, hv⟩ => ?_) (fun _ _ h => h)
  rw [hv, hview]
  exact ⟨_, _, rfl, fun q hq => ⟨Function.update_of_ne hq _ _, Function.update_of_ne hq _ _⟩⟩

theorem waitStart_again_keeps {since : Int} (hstart : s.view.start pid = some since)
    (hlwlock : s.view.lwlock pid = some lock) : Keeps (waitStart o pid now mode lock) s (· = s.view) := by
  refine keeps_lookup lockWaitStartUs pid ?_
  have hsome : ¬((lockWaitStartUs.table s).get? pid).isNone = true := by
    rw [show (lockWaitStartUs.table s).get? pid = some since from hstart]; exact Bool.false_ne_true
  rw [if_neg hsome]
  refine keeps_read lockWaitLwlockP pid 0 (keeps_assert_end ?_ rfl)
  exact decide_eq_true (show (s.view.lwlock pid).getD 0 = lock by rw [hlwlock]; rfl)

/-! ### Names, the end of a process and the timer -/

theorem backendType_keeps (type : Int) (description : Option String) :
    Keeps (backendType o pid type description) s (· = s.view) := by
  refine keeps_whenever (fun _ => ?_) (fun _ => rfl)
  refine (keeps_assign backendTypes (f := fun _ => s.view) (fun _ => rfl) pid type).bind (fun _ s₁ h₁ => ?_)
  cases description with
  | none      => exact h₁
  | some name =>
    rw [← h₁]
    exact keeps_assign applicationNames (f := fun _ => s₁.view) (fun _ => rfl) pid name

theorem applicationName_keeps (name : Option String) : Keeps (applicationName o pid name) s (· = s.view) := by
  refine keeps_whenever (fun _ => ?_) (fun _ => rfl)
  cases name with
  | none      => exact rfl
  | some name => exact keeps_assign applicationNames (f := fun _ => s.view) (fun _ => rfl) pid name

theorem endStats_keeps : Keeps (endStats o pid) s (fun v => ∃ ofPid, v = { s.view with ofPid := ofPid }) := by
  refine keeps_whenever (fun _ => ?_) (fun _ => ⟨_, rfl⟩)
  refine Keeps.bind (Q := (· = s.view)) (p := get) rfl (fun s₀ s₁ h₁ => ?_)
  rw [← h₁]
  refine keeps_whenever (fun _ => ?_) (fun _ => ⟨_, rfl⟩)
  refine keeps_read backendTypes pid 0 (keeps_read applicationNames pid "" ?_)
  refine (readOnly_statsRows readOnly_statsPid _).keeps (fun _ => ?_)
  refine (print_keeps _).bind (fun _ s₂ h₂ => ?_)
  rw [← h₂]
  exact ⟨_, view_put_pid .held _ s₂⟩

/-- What is left of `v` when process `pid` has ended. -/
def View.ended (o : Options) (pid : Pid) (v : View) : View :=
  { v.cleared o pid with held := fun k => if k.1 = pid then none else v.held k }

theorem deletePerPidEntries_keeps (hh : o.trackHolds = true) :
    Keeps (deletePerPidEntries o pid) s (· = s.view.ended o pid) := by
  refine keeps_bind_whenever (Q := (· = { s.view with held := fun k => if k.1 = pid then none else s.view.held k }))
    (fun _ => ?_) (fun h => by rw [hh] at h; cases h) (fun s₁ h₁ => ?_)
  · refine Keeps.bind (Q := (· = s.view)) (p := get) rfl (fun s₀ s₁ h₁ => ?_)
    rw [← h₁]
    refine Keeps.bind (Q := (· = s₁.view)) (p := modify _) rfl (fun _ s₂ h₂ => ?_)
    rw [← h₂]
    have h := deleteAll_keeps locksHeldByPid (f := fun g => { s₂.view with held := g }) (s := s₂) (fun _ => rfl)
      (fun k => k.1 = pid)
    simp only [decide_eq_true_eq] at h
    exact h
  · refine deleteBlocker_keeps.bind (fun _ s₂ h₂ => ?_)
    refine keeps_bind_whenever (Q := (· = s₂.view)) (fun _ => ?_) (fun _ => rfl) (fun s₃ h₃ => ?_)
    · refine (keeps_delete applicationNames (f := fun _ => s₂.view) (fun _ => rfl) pid).bind (fun _ s₄ h₄ => ?_)
      rw [← h₄]
      exact keeps_delete backendTypes (f := fun _ => s₄.view) (fun _ => rfl) pid
    · refine (keeps_delete lockWaitStartUs (f := fun g => { s₃.view with start := g }) (fun _ => rfl) pid).bind
        (fun _ s₄ h₄ => ?_)
      refine (keeps_delete acquireFunc (f := fun g => { s₄.view with func := g }) (fun _ => rfl) pid).bind
        (fun _ s₅ h₅ => ?_)
      refine (keeps_delete lockWaitLwlockP (f := fun g => { s₅.view with lwlock := g }) (fun _ => rfl) pid).mono
        (fun _ s₆ h₆ => ?_) (fun _ _ h => h)
      have hstart : s₃.view.start = s.view.start := by rw [h₃, h₂, h₁]
      have hfunc : s₄.view.func = s.view.func := by rw [h₄, h₃, h₂, h₁]
      have hlwlock : s₅.view.lwlock = s.view.lwlock := by rw [h₅, h₄, h₃, h₂, h₁]
      unfold View.ended View.cleared
      rw [h₆, h₅, h₄, h₃, h₂, h₁, ← hstart, ← hfunc, ← hlwlock]
      rfl

theorem printStats_keeps (stat : Stat) : Keeps (printStats o stat) s (· = s.view) := by
  refine Keeps.bind (Q := (· = s.view)) (p := get) rfl (fun s₀ s₁ h₁ => ?_)
  rw [← h₁]
  refine keeps_whenever (fun _ => ?_) (fun _ => rfl)
  refine (readOnly_statsSummary _ _ _).keeps (fun _ => (readOnly_statsSummary _ _ _).keeps (fun _ => ?_))
  exact (readOnly_statsRows (readOnly_statsSummary stat) _).keeps (fun _ => print_keeps _)

theorem periodic_keeps : Keeps (periodic o) s (fun v => ∃ all, v = { s.view with all := all }) := by
  refine keeps_whenever (fun _ => ?_) (fun _ => ⟨_, rfl⟩)
  refine (printStats_keeps .held).bind (fun _ s₁ h₁ => ?_)
  rw [← h₁]
  refine (printStats_keeps .wait).bind (fun _ s₂ h₂ => ?_)
  rw [← h₂]
  refine keeps_whenever (fun _ => ?_) (fun _ => ⟨_, rfl⟩)
  refine Keeps.bind (Q := fun v => ∃ all, v = { s₂.view with all := all }) (p := Global.deleteAll _ _)
    ⟨_, view_put_allprocs .held _ s₂⟩ (fun _ s₃ ⟨all, h₃⟩ => ?_)
  have hput := view_put_allprocs .wait ((durationsAllprocs .wait).table s₃ |>.keep (fun _ => !true)) s₃
  rw [h₃] at hput
  exact ⟨_, hput⟩

end Lwlock
end Scrapcode
