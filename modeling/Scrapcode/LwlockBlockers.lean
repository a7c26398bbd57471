import Scrapcode.LwlockViews
/-!
# LwlockBlockers — who blocks a wait

`track_blocker_info_for_wait` scans the held locks and stops at the first entry for the lock; it then takes what the
loop variables have.  They keep the last entry where the loop was not stopped, so a wait on a lock that no entry is for
is blamed on the holder of some other lock.
-/
namespace Scrapcode
namespace Lwlock

open Programs

abbrev HeldKey := Pid × Lock × LWLockMode

variable {M : Nat}

/-- The entry is for the lock, and in exclusive mode where the waiter asked for shared mode. -/
def Blocks (lock : Lock) (mode : LWLockMode) (k : HeldKey) : Prop :=
  k.2.1 = lock ∧ (mode = .shared → k.2.2 = .exclusive)

/-- **The record of the waiting pid is right**: a blocker has an entry that blocks, and its application name is there;
none is recorded only where no entry blocks. -/
structure Attributed (s s' : State M) (pid : Pid) (lock : Lock) (mode : LWLockMode) : Prop where
  recorded : ∃ blocker, s'.lockWaitBlocker.get? pid = some blocker
  entry    : ∀ blocker, s'.lockWaitBlocker.get? pid = some blocker → blocker ≠ 0 →
    ∃ holderMode, s'.lockWaitBlockerMode.get? pid = some holderMode ∧
      (blocker, lock, holderMode) ∈ s.locksHeldByPid.keys ∧ Blocks lock mode (blocker, lock, holderMode) ∧
      s'.lockWaitBlockerAppname.get? pid = some ((s.applicationNames.get? blocker).getD "")
  none     : s'.lockWaitBlocker.get? pid = some 0 → ∀ k ∈ s.locksHeldByPid.keys, ¬ Blocks lock mode k

/-- The entries the loop for `mode` goes over. -/
def scanned (s : State M) (mode : LWLockMode) : List HeldKey :=
  if mode = .shared then s.locksHeldByPid.keys.filter (fun k => k.2.2 = .exclusive) else s.locksHeldByPid.keys

/-- **The scan comes to a blocker**, or it has nothing to end with: the first entry for the lock has a pid, or there is
none and the last entry has not. -/
def FindsBlocker (s : State M) (lock : Lock) (mode : LWLockMode) : Prop :=
  match (scanned s mode).find? (fun k => k.2.1 = lock) with
  | some k => k.1 ≠ 0
  | none   => ∀ k ∈ (scanned s mode).getLast?, k.1 = 0

variable {s s' : State M} {pid : Pid} {lock : Lock} {mode : LWLockMode}

theorem mem_scanned {k : HeldKey} :
    k ∈ scanned s mode ↔ k ∈ s.locksHeldByPid.keys ∧ (mode = .shared → k.2.2 = .exclusive) := by
  unfold scanned
  by_cases hmode : mode = .shared
  · rw [if_pos hmode, List.mem_filter, decide_eq_true_iff, imp_iff_right hmode]
  · rw [if_neg hmode]
    exact (and_iff_left (fun h => absurd h hmode)).symm

theorem blocks_of_mem {k : HeldKey} (h : k ∈ scanned s mode) (hlock : k.2.1 = lock) : Blocks lock mode k :=
  ⟨hlock, (mem_scanned.1 h).2⟩

/-! ## The loop -/

/-- **The loop variables after the loop**: the entry it stopped at, or else the last one. -/
theorem scanHolders_eq : ∀ (ks : List HeldKey) (last : Pid × LWLockMode), scanHolders lock last ks =
    match ks.find? (fun k => k.2.1 = lock) with
    | some k => (k.1, k.2.2)
    | none   => (ks.getLast?.map (fun k => (k.1, k.2.2))).getD last
  | [], _                      => rfl
  | (pid, entry, m) :: ks, last => by
    rw [scanHolders, List.find?_cons]
    by_cases h : entry = lock
    · rw [if_pos h]
      simp only [h, decide_true]
    · rw [if_neg h, scanHolders_eq ks (pid, m), List.getLast?_cons]
      simp only [h, decide_false]
      cases ks.find? (fun k => k.2.1 = lock) with
      | some k => rfl
      | none   => cases ks.getLast? <;> rfl

def blockerOf (s : State M) (lock : Lock) (mode : LWLockMode) : Pid × LWLockMode :=
  scanHolders lock (0, .exclusive) (scanned s mode)

structure Recorded (s s' : State M) (pid : Pid) (b : Pid × LWLockMode) : Prop where
  blocker : s'.lockWaitBlocker.get? pid = some b.1
  mode    : s'.lockWaitBlockerMode.get? pid = some b.2
  appname : s'.lockWaitBlockerAppname.get? pid = some ((s.applicationNames.get? b.1).getD "")

theorem trackBlockerInfoForWait_ends (pid : Pid) (lock : Lock) (mode : LWLockMode) (s : State M) :
    Ends (trackBlockerInfoForWait pid lock mode s)
    (fun _ s' => Recorded s s' pid (blockerOf s lock mode)) (fun e _ => IsOverflow e) := by
  refine Ends.bind (Q := fun x s₁ => x = s ∧ s₁ = s) (p := get) ⟨rfl, rfl⟩ (fun s₀ s₁ h₁ => ?_)
  obtain ⟨rfl, rfl⟩ := h₁
  refine (assign_ends lockWaitBlocker pid _ s₁).bind (fun _ s₂ h₂ => ?_)
  obtain ⟨t₂, rfl, h₂⟩ := h₂
  refine (assign_ends lockWaitBlockerMode pid _ _).bind (fun _ s₃ h₃ => ?_)
  obtain ⟨t₃, rfl, h₃⟩ := h₃
  refine (assign_ends lockWaitBlockerAppname pid _ _).mono (fun _ s₄ h₄ => ?_) (fun _ _ h => h)
  obtain ⟨t₄, rfl, h₄⟩ := h₄
  refine ⟨?_, ?_, ?_⟩
  · show t₂.get? pid = _
    rw [h₂, Function.update_self]; rfl
  · show t₃.get? pid = _
    rw [h₃, Function.update_self]; rfl
  · show t₄.get? pid = _
    rw [h₄, Function.update_self]; rfl

/-! ## The record -/

theorem attributed_of_stopped {k : HeldKey} (hr : Recorded s s' pid (k.1, k.2.2)) (hk : k ∈ scanned s mode)
    (hlock : k.2.1 = lock) : Attributed s s' pid lock mode ↔ k.1 ≠ 0 := by
  have hblocks := blocks_of_mem hk hlock
  have hkey : (k.1, lock, k.2.2) = k := by rw [← hlock]
  constructor
  · intro h h0
    exact h.none (by rw [hr.blocker, h0]) k (mem_scanned.1 hk).1 hblocks
  · intro h0
    refine ⟨⟨k.1, hr.blocker⟩, fun b hb _ => ?_, fun h => ?_⟩
    · rw [hr.blocker, Option.some.injEq] at hb
      subst hb
      exact ⟨k.2.2, hr.mode, by rw [hkey]; exact (mem_scanned.1 hk).1, by rw [hkey]; exact hblocks, hr.appname⟩
    · rw [hr.blocker, Option.some.injEq] at h
      exact absurd h h0

theorem attributed_of_not_stopped {b : Pid × LWLockMode} (hr : Recorded s s' pid b)
    (hnone : ∀ k ∈ scanned s mode, k.2.1 ≠ lock) : Attributed s s' pid lock mode ↔ b.1 = 0 := by
  have hfree : ∀ k ∈ s.locksHeldByPid.keys, ¬ Blocks lock mode k :=
    fun k hk hb => hnone k (mem_scanned.2 ⟨hk, hb.2⟩) hb.1
  constructor
  · intro h
    by_contra h0
    obtain ⟨m, -, hmem, hb, -⟩ := h.entry b.1 hr.blocker h0
    exact hfree _ hmem hb
  · intro h0
    refine ⟨⟨b.1, hr.blocker⟩, fun b' hb' hne => ?_, fun _ => hfree⟩
    rw [hr.blocker, Option.some.injEq] at hb'
    exact absurd (hb'.symm.trans h0) hne

theorem attributed_iff_of_recorded (hr : Recorded s s' pid (blockerOf s lock mode)) :
    Attributed s s' pid lock mode ↔ FindsBlocker s lock mode := by
  have hb : blockerOf s lock mode = _ := scanHolders_eq (scanned s mode) (0, .exclusive)
  rw [hb] at hr
  unfold FindsBlocker
  cases hfind : (scanned s mode).find? (fun k => k.2.1 = lock) with
  | some k =>
    rw [hfind] at hr
    have hlock := List.find?_some (p := fun k : HeldKey => decide (k.2.1 = lock)) hfind
    exact attributed_of_stopped hr (List.mem_of_find?_eq_some hfind) (decide_eq_true_iff.1 hlock)
  | none =>
    rw [hfind] at hr
    have hnone : ∀ k ∈ scanned s mode, k.2.1 ≠ lock :=
      fun k hk h => List.find?_eq_none.1 hfind k hk (decide_eq_true h)
    rw [attributed_of_not_stopped hr hnone]
    cases (scanned s mode).getLast? with
    | none   => exact iff_of_true rfl (fun k hk => absurd hk (Option.not_mem_none k))
    | some k => exact ⟨fun h k' hk' => Option.mem_some.1 hk' ▸ h, fun h => h k (Option.mem_some_self k)⟩

/-- **The record of a wait is right** exactly where the scan comes to a blocker, or has nothing to end with. -/
theorem attributed_iff (h : trackBlockerInfoForWait pid lock mode s = .ok () s') :
    Attributed s s' pid lock mode ↔ FindsBlocker s lock mode := by
  have hends := trackBlockerInfoForWait_ends pid lock mode s
  rw [h] at hends
  exact attributed_iff_of_recorded hends

def oneHeld : State 4 := { locksHeldByPid := ⟨AList.singleton (7, 1, .exclusive) 5, by decide⟩ }

theorem attributed_iff_oneHeld : ∃ s', trackBlockerInfoForWait 3 1 .shared oneHeld = .ok () s' ∧
    (Attributed oneHeld s' 3 1 .shared ↔ FindsBlocker oneHeld 1 .shared) :=
  ⟨_, rfl, attributed_iff rfl⟩

/-- **A wait on another lock** is blamed on process 7. -/
theorem not_attributed_otherLock : ∃ s', trackBlockerInfoForWait 3 2 .exclusive oneHeld = .ok () s' ∧
    s'.lockWaitBlocker.get? 3 = some 7 ∧ ¬ Attributed oneHeld s' 3 2 .exclusive := by
  have hends := trackBlockerInfoForWait_ends 3 2 .exclusive oneHeld
  cases hrun : trackBlockerInfoForWait 3 2 .exclusive oneHeld with
  | error e s' => cases hrun
  | ok u s'    =>
    rw [hrun] at hends
    refine ⟨s', rfl, hends.blocker, fun h => ?_⟩
    have hfinds := (attributed_iff_of_recorded hends).1 h
    exact absurd (hfinds (7, 1, .exclusive) rfl) (by decide)

end Lwlock
end Scrapcode
