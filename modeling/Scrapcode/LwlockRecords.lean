import Scrapcode.LwlockProtocol
import Scrapcode.LwlockViews
/-!
# LwlockRecords — what the script knows of processes that follow the protocol

What the script has recorded of a process is the process's own state in the protocol (`Tracks`), and with it no
assertion ends the script (`fire_effect`).  While no process acquires a lock it already holds, the recorded acquire
times are those of the locks it holds (`Records`).  A handler keeps both of its own process, and leaves what is
recorded of the others alone (`Effect.same`), so the events of processes may be interleaved in any way.
-/
namespace Scrapcode
namespace Lwlock

open Programs

variable {M : Nat} {s : State M} {v v' : View} {o : Options} {pid : Pid} {now : Int} {p : Probe} {c y : Proc}

/-! ## What one handler does -/

/-- The script's record of process `pid` is the process's state `c`. -/
structure Tracks (o : Options) (v : View) (pid : Pid) (c : Proc) : Prop where
  func    : v.func pid = c.phase.attempt.bind (fun a => a.func.startMark)
  start   : v.start pid = c.firstWait.map Prod.snd
  lwlock  : v.lwlock pid = c.firstWait.map Prod.fst
  blocker : o.trackBlockers = true → c.firstWait = none → v.blocker pid = none ∧ v.appname pid = none
  modes   : ∀ h ∈ c.holds, h.mode ≠ .waitUntilFree
  on      : ∀ a mode lock trancheId, c.phase = .acquired a mode lock trancheId → a.on lock = true

/-- What a handler of process `pid` does to the view. -/
def Effect (o : Options) (pid : Pid) (now : Int) (p : Probe) (v v' : View) : Prop :=
  match p with
  | .acquireStart func           => v' = { v with func := Function.update v.func pid func.startMark }
  | .waitStart _ lock            => if v.start pid = none then Waiting pid now lock v v' else v' = v
  | .holdAcquired _ mode lock _  => v' = { v with held := Function.update v.held (pid, lock, mode) (some now) }
  | .waitDone how _ trancheId    =>
    ∃ w, Timed pid .wait ((v.start pid).getD 0) now how.mode trancheId v w ∧ v' = w.cleared o pid
  | .acquireFinish _             => v' = v
  | .release mode lock trancheId =>
    ∃ w, Timed pid .held ((v.held (pid, lock, mode)).getD 0) now mode trancheId v w ∧
      v' = { w with held := withoutLock pid lock w.held }
  | .backendType _ _             => v' = v
  | .applicationName _           => v' = v
  | .endStats                    => ∃ ofPid, v' = { v with ofPid := ofPid }
  | .endCleanup                  => v' = v.ended o pid

theorem Proc.firstWait_eq {a : Attempt} (h : c.phase.attempt = some a) : c.firstWait = a.waits.head? := by
  unfold Proc.firstWait; rw [h]; rfl

theorem Proc.firstWait_of_idle (h : c.phase = .idle) : c.firstWait = none := by
  unfold Proc.firstWait; rw [h]; rfl

theorem Attempt.lock_of_on {a : Attempt} {lock : Lock} (hon : a.on lock = true) {w : Lock × Int}
    (hw : a.waits.head? = some w) : w.1 = lock := by
  unfold Attempt.on at hon
  simpa using List.all_eq_true.1 hon w (List.mem_of_mem_head? hw)

theorem Tracks.lwlock_of_on (ht : Tracks o v pid c) {a : Attempt} (ha : c.phase.attempt = some a) {lock : Lock}
    (hon : a.on lock = true) (hstart : v.start pid ≠ none) : v.lwlock pid = some lock := by
  rw [ht.start, Proc.firstWait_eq ha] at hstart
  rw [ht.lwlock, Proc.firstWait_eq ha]
  cases hw : a.waits.head? with
  | none   => rw [hw] at hstart; exact absurd rfl hstart
  | some w => rw [Option.map_some, Attempt.lock_of_on hon hw]

theorem Proc.attempt_of_tryingOn {a : Attempt} {lock : Lock} (h : c.tryingOn lock = some a) :
    c.phase = .trying a ∧ a.on lock = true := by
  unfold Proc.tryingOn at h
  split at h
  · rename_i b _ hphase
    split at h
    · rename_i hon
      cases h
      exact ⟨hphase, hon⟩
    · cases h
  · cases h

theorem Proc.isIdle_phase (h : c.isIdle = true) : c.phase = .idle := by
  unfold Proc.isIdle at h
  simpa using (Bool.and_eq_true_iff.1 h).2

/-- A completion is of the attempt the process is in. -/
theorem Tracks.attempt_of_completes (ht : Tracks o v pid c) {how : Completion} {lock : Lock} {trancheId : Nat}
    (h : c.completes how lock trancheId = true) : ∃ a, c.phase.attempt = some a ∧ a.on lock = true := by
  unfold Proc.completes at h
  have h := (Bool.and_eq_true_iff.1 h).2
  cases hphase : c.phase with
  | idle => rw [hphase] at h; cases h
  | trying a => rw [hphase] at h; exact ⟨a, rfl, (Bool.and_eq_true_iff.1 h).2⟩
  | acquired a mode lock' trancheId' =>
    have hon := ht.on a mode lock' trancheId' hphase
    simp only [hphase, Bool.and_eq_true, decide_eq_true_eq] at h
    exact ⟨a, rfl, h.1.2 ▸ hon⟩

/-- A lock that is released is held in a mode a lock can be held in. -/
theorem Tracks.released (ht : Tracks o v pid c) {mode : LWLockMode} {lock : Lock}
    (h : (c.hold? lock).map Hold.mode = some mode) : mode ≠ .waitUntilFree := by
  obtain ⟨hold, hfind, rfl⟩ := Option.map_eq_some_iff.1 h
  exact ht.modes hold (List.mem_of_find?_eq_some hfind)

/-- **One handler of a process that follows the protocol**: no assertion fails, and its effect. -/
theorem fire_effect (hh : o.trackHolds = true) (hp : o.trackPerProcess = true) (ht : Tracks o s.view pid c)
    (hn : c.next (now, p) = some y) : Keeps (fire o pid now p) s (Effect o pid now p s.view) := by
  cases p with
  | acquireStart func =>
    obtain ⟨hidle, -⟩ := Option.ite_none_right_eq_some.1 hn
    have hphase := Proc.isIdle_phase hidle
    have hwait := Proc.firstWait_of_idle hphase
    refine acquireStart_keeps func ?_ ?_ ?_ (fun hb => ht.blocker hb hwait)
    · rw [ht.func, hphase]; rfl
    · rw [ht.start, hwait]; rfl
    · rw [ht.lwlock, hwait]; rfl
  | waitStart mode lock =>
    obtain ⟨a, ha, -⟩ := Option.map_eq_some_iff.1 hn
    obtain ⟨hphase, hon⟩ := Proc.attempt_of_tryingOn ha
    unfold Effect
    by_cases hstart : s.view.start pid = none
    · simp only [if_pos hstart]
      exact waitStart_keeps hstart
    · simp only [if_neg hstart]
      obtain ⟨since, hsince⟩ := Option.ne_none_iff_exists'.1 hstart
      exact waitStart_again_keeps hsince (ht.lwlock_of_on (by rw [hphase]; rfl) hon hstart)
  | holdAcquired name mode lock trancheId =>
    obtain ⟨hmode, -⟩ := Option.ite_none_left_eq_some.1 hn
    exact holdAcquired_keeps name hmode hh
  | waitDone how lock trancheId =>
    obtain ⟨hcompletes, -⟩ := Option.ite_none_right_eq_some.1 hn
    obtain ⟨a, ha, hon⟩ := ht.attempt_of_completes hcompletes
    refine waitDone_keeps hp (fun hstart => ht.lwlock_of_on ha hon (fun hnone => ?_))
    rw [hnone] at hstart; exact hstart rfl
  | acquireFinish func =>
    obtain ⟨hidle, -⟩ := Option.ite_none_right_eq_some.1 hn
    exact acquireFinish_keeps func (by rw [ht.func, Proc.isIdle_phase hidle]; rfl)
  | release mode lock trancheId =>
    obtain ⟨⟨-, hheld⟩, -⟩ := Option.ite_none_right_eq_some.1 hn
    exact release_keeps (ht.released hheld) hh hp
  | backendType type description => exact backendType_keeps type description
  | applicationName name => exact applicationName_keeps name
  | endStats => exact endStats_keeps
  | endCleanup => exact deletePerPidEntries_keeps hh

/-! ## What it leaves alone -/

/-- Nothing recorded of process `q` is changed. -/
structure Same (v v' : View) (q : Pid) : Prop where
  func    : v'.func q = v.func q
  start   : v'.start q = v.start q
  lwlock  : v'.lwlock q = v.lwlock q
  blocker : v'.blocker q = v.blocker q
  appname : v'.appname q = v.appname q
  held    : ∀ lock mode, v'.held (q, lock, mode) = v.held (q, lock, mode)

variable {q : Pid}

theorem Same.refl (v : View) (q : Pid) : Same v v q := ⟨rfl, rfl, rfl, rfl, rfl, fun _ _ => rfl⟩

theorem Same.of_eq (h : ∃ all ofPid, v' = { v with all := all, ofPid := ofPid }) (q : Pid) : Same v v' q := by
  obtain ⟨all, ofPid, rfl⟩ := h
  exact ⟨rfl, rfl, rfl, rfl, rfl, fun _ _ => rfl⟩

theorem Same.trans {v'' : View} (h₁ : Same v v' q) (h₂ : Same v' v'' q) : Same v v'' q where
  func           := h₂.func.trans h₁.func
  start          := h₂.start.trans h₁.start
  lwlock         := h₂.lwlock.trans h₁.lwlock
  blocker        := h₂.blocker.trans h₁.blocker
  appname        := h₂.appname.trans h₁.appname
  held lock mode := (h₂.held lock mode).trans (h₁.held lock mode)

theorem Same.cleared (v : View) (hq : q ≠ pid) : Same v (v.cleared o pid) q where
  func        := Function.update_of_ne hq _ _
  start       := Function.update_of_ne hq _ _
  lwlock      := Function.update_of_ne hq _ _
  blocker     := by unfold View.cleared; split <;> simp [hq]
  appname     := by unfold View.cleared; split <;> simp [hq]
  held _ _    := rfl

theorem Timed.eq {stat : Stat} {since : Int} {mode : LWLockMode} {trancheId : Nat}
    (h : Timed pid stat since now mode trancheId v v') : ∃ all ofPid, v' = { v with all := all, ofPid := ofPid } := by
  unfold Timed at h
  split at h
  · exact ⟨v.all, v.ofPid, h⟩
  · obtain ⟨all, ofPid, heq, -⟩ := h
    exact ⟨all, ofPid, heq⟩

/-- **A handler changes nothing recorded of another process.** -/
theorem Effect.same (h : Effect o pid now p v v') (hq : q ≠ pid) : Same v v' q := by
  cases p with
  | acquireStart func =>
    rw [show v' = _ from h]
    exact ⟨Function.update_of_ne hq _ _, rfl, rfl, rfl, rfl, fun _ _ => rfl⟩
  | waitStart mode lock =>
    unfold Effect at h
    simp only at h
    split at h
    · obtain ⟨blocker, appname, rfl, hothers⟩ := h
      exact ⟨rfl, Function.update_of_ne hq _ _, Function.update_of_ne hq _ _, (hothers q hq).1, (hothers q hq).2,
        fun _ _ => rfl⟩
    · exact h ▸ Same.refl v q
  | holdAcquired name mode lock trancheId =>
    rw [show v' = _ from h]
    exact ⟨rfl, rfl, rfl, rfl, rfl, fun _ _ => Function.update_of_ne (fun heq => hq (congrArg Prod.fst heq)) _ _⟩
  | waitDone how lock trancheId =>
    obtain ⟨w, hw, rfl⟩ := h
    exact (Same.of_eq hw.eq q).trans (Same.cleared w hq)
  | acquireFinish func => exact (show v' = v from h) ▸ Same.refl v q
  | release mode lock trancheId =>
    obtain ⟨w, hw, rfl⟩ := h
    refine (Same.of_eq hw.eq q).trans ⟨rfl, rfl, rfl, rfl, rfl, fun _ _ => ?_⟩
    exact if_neg (by simp [hq])
  | backendType type description => exact (show v' = v from h) ▸ Same.refl v q
  | applicationName name => exact (show v' = v from h) ▸ Same.refl v q
  | endStats =>
    obtain ⟨ofPid, rfl⟩ := h
    exact Same.of_eq ⟨v.all, ofPid, rfl⟩ q
  | endCleanup =>
    rw [show v' = _ from h]
    exact (Same.cleared v hq).trans ⟨rfl, rfl, rfl, rfl, rfl, fun _ _ => if_neg hq⟩

theorem Tracks.same (ht : Tracks o v q c) (h : Same v v' q) : Tracks o v' q c where
  func            := h.func.trans ht.func
  start           := h.start.trans ht.start
  lwlock          := h.lwlock.trans ht.lwlock
  blocker hb hw   := ⟨h.blocker.trans (ht.blocker hb hw).1, h.appname.trans (ht.blocker hb hw).2⟩
  modes           := ht.modes
  on              := ht.on

/-! ## The record of the process itself -/

/-- Once an attempt is over, or the process, nothing of it is left. -/
theorem tracks_cleared (hphase : y.phase = .idle) (hmodes : ∀ h ∈ y.holds, h.mode ≠ .waitUntilFree) :
    Tracks o (v.cleared o pid) pid y where
  func            := by rw [hphase]; exact Function.update_self _ _ _
  start           := by rw [Proc.firstWait_of_idle hphase]; exact Function.update_self _ _ _
  lwlock          := by rw [Proc.firstWait_of_idle hphase]; exact Function.update_self _ _ _
  blocker hb _    := by unfold View.cleared; simp [hb]
  modes           := hmodes
  on a _ _ _ h    := by rw [hphase] at h; cases h

theorem Proc.firstWait_waitStart {a : Attempt} (now : Int) (lock : Lock) (hphase : c.phase = .trying a) :
    Proc.firstWait { c with phase := .trying ⟨a.func, a.waits ++ [(lock, now)]⟩ } =
      c.firstWait.or (some (lock, now)) := by
  rw [Proc.firstWait_eq (c := c) (a := a) (by rw [hphase]; rfl)]
  exact List.head?_append

/-- **A handler keeps the record of its process.** -/
theorem Effect.tracks (h : Effect o pid now p v v') (ht : Tracks o v pid c) (hn : c.next (now, p) = some y) :
    Tracks o v' pid y := by
  cases p with
  | acquireStart func =>
    obtain ⟨hidle, ⟨⟩⟩ := Option.ite_none_right_eq_some.1 hn
    have hwait := Proc.firstWait_of_idle (Proc.isIdle_phase hidle)
    rw [show v' = _ from h]
    refine ⟨Function.update_self _ _ _, ?_, ?_, fun hb _ => ht.blocker hb hwait, ht.modes, fun a m l t he => by cases he⟩
    · exact ht.start.trans (by rw [hwait]; rfl)
    · exact ht.lwlock.trans (by rw [hwait]; rfl)
  | waitStart mode lock =>
    obtain ⟨a, ha, rfl⟩ := Option.map_eq_some_iff.1 hn
    obtain ⟨hphase, hon⟩ := Proc.attempt_of_tryingOn ha
    have hwait := Proc.firstWait_waitStart now lock hphase
    have hfunc := ht.func.trans (by rw [hphase]; rfl : _ = a.func.startMark)
    unfold Effect at h
    simp only at h
    split at h
    · rename_i hstart
      have hnone : c.firstWait = none := Option.map_eq_none_iff.1 (ht.start.symm.trans hstart)
      rw [hnone] at hwait
      obtain ⟨blocker, appname, rfl, -⟩ := h
      refine ⟨hfunc, ?_, ?_, fun _ he => ?_, ht.modes, fun a m l t he => by cases he⟩
      · rw [hwait]; exact Function.update_self _ _ _
      · rw [hwait]; exact Function.update_self _ _ _
      · rw [hwait] at he; cases he
    · rename_i hstart
      have hsame : c.firstWait.or (some (lock, now)) = c.firstWait := by
        cases hw : c.firstWait with
        | none   => exact absurd (ht.start.trans (by rw [hw]; rfl)) hstart
        | some w => rfl
      rw [hsame] at hwait
      subst h
      refine ⟨hfunc, ?_, ?_, fun hb he => ht.blocker hb (hwait ▸ he), ht.modes, fun a m l t he => by cases he⟩
      · rw [hwait]; exact ht.start
      · rw [hwait]; exact ht.lwlock
  | holdAcquired name mode lock trancheId =>
    obtain ⟨hmode, hn⟩ := Option.ite_none_left_eq_some.1 hn
    obtain ⟨a, ha, rfl⟩ := Option.map_eq_some_iff.1 hn
    obtain ⟨hphase, hon⟩ := Proc.attempt_of_tryingOn ha
    have hwait : c.firstWait = a.waits.head? := Proc.firstWait_eq (by rw [hphase]; rfl)
    rw [show v' = _ from h]
    refine ⟨?_, ?_, ?_, fun hb he => ht.blocker hb (hwait.trans he), ?_, ?_⟩
    · exact ht.func.trans (by rw [hphase]; rfl)
    · exact ht.start.trans (by rw [hwait]; rfl)
    · exact ht.lwlock.trans (by rw [hwait]; rfl)
    · intro hold hmem
      rcases List.mem_cons.1 hmem with rfl | hmem
      · exact hmode
      · exact ht.modes hold hmem
    · rintro _ _ _ _ ⟨⟩
      exact hon
  | waitDone how lock trancheId =>
    obtain ⟨-, ⟨⟩⟩ := Option.ite_none_right_eq_some.1 hn
    obtain ⟨w, -, rfl⟩ := h
    exact tracks_cleared rfl ht.modes
  | acquireFinish func =>
    obtain ⟨-, ⟨⟩⟩ := Option.ite_none_right_eq_some.1 hn
    exact (show v' = v from h) ▸ ht
  | release mode lock trancheId =>
    obtain ⟨-, ⟨⟩⟩ := Option.ite_none_right_eq_some.1 hn
    obtain ⟨w, hw, rfl⟩ := h
    obtain ⟨all, ofPid, rfl⟩ := hw.eq
    exact ⟨ht.func, ht.start, ht.lwlock, ht.blocker, fun hold hmem => ht.modes hold (List.mem_of_mem_eraseP hmem), ht.on⟩
  | backendType type description => cases hn; exact (show v' = v from h) ▸ ht
  | applicationName name => cases hn; exact (show v' = v from h) ▸ ht
  | endStats =>
    obtain ⟨-, ⟨⟩⟩ := Option.ite_none_left_eq_some.1 hn
    obtain ⟨ofPid, rfl⟩ := h
    exact ⟨ht.func, ht.start, ht.lwlock, ht.blocker, ht.modes, ht.on⟩
  | endCleanup =>
    obtain ⟨-, ⟨⟩⟩ := Option.ite_none_right_eq_some.1 hn
    rw [show v' = _ from h]
    have hc : Tracks o (v.cleared o pid) pid Proc.start := tracks_cleared rfl (fun _ he => nomatch he)
    exact ⟨hc.func, hc.start, hc.lwlock, hc.blocker, hc.modes, hc.on⟩

/-! ## The recorded times -/

/-- The recorded acquire times are those of the locks the process holds, each once, and no time is 0. -/
structure Records (v : View) (pid : Pid) (c : Proc) : Prop where
  held  : ∀ lock mode, v.held (pid, lock, mode) = ((c.hold? lock).filter (fun h => h.mode = mode)).map Hold.since
  once  : (c.holds.map Hold.lock).Nodup
  since : ∀ h ∈ c.holds, h.since ≠ 0
  waits : ∀ w, c.firstWait = some w → w.2 ≠ 0

theorem Records.same (hr : Records v q c) (h : Same v v' q) : Records v' q c :=
  ⟨fun lock mode => (h.held lock mode).trans (hr.held lock mode), hr.once, hr.since, hr.waits⟩

/-- Only the held locks and the first wait of the process matter. -/
theorem Records.of_eq (hr : Records v pid c) (hheld : ∀ lock mode, v'.held (pid, lock, mode) = v.held (pid, lock, mode))
    (hholds : y.holds = c.holds) (hwait : ∀ w, y.firstWait = some w → w.2 ≠ 0) : Records v' pid y where
  held lock mode := by unfold Proc.hold?; rw [hheld, hholds]; exact hr.held lock mode
  once           := hholds ▸ hr.once
  since          := hholds ▸ hr.since
  waits          := hwait

theorem find?_eraseP_of_ne {lock lock' : Lock} (hne : lock' ≠ lock) : ∀ holds : List Hold,
    (holds.eraseP (fun h => h.lock = lock)).find? (fun h => h.lock = lock') = holds.find? (fun h => h.lock = lock')
  | []         => rfl
  | h :: holds => by
    by_cases hlock : h.lock = lock
    · simp [hlock, hne.symm]
    · have ih := find?_eraseP_of_ne hne holds
      rw [List.eraseP_cons_of_neg (by simpa using hlock), List.find?_cons, List.find?_cons, ih]

theorem find?_eraseP_self (lock : Lock) : ∀ holds : List Hold, (holds.map Hold.lock).Nodup →
    (holds.eraseP (fun h => h.lock = lock)).find? (fun h => h.lock = lock) = none
  | [], _         => rfl
  | h :: holds, hnd => by
    obtain ⟨hnot, hnd⟩ := List.nodup_cons.1 hnd
    by_cases hlock : h.lock = lock
    · have hnone : holds.find? (fun h => h.lock = lock) = none :=
        List.find?_eq_none.2 (fun x hx he => hnot (hlock ▸ (of_decide_eq_true he) ▸ List.mem_map_of_mem hx))
      simpa [List.eraseP_cons, hlock] using hnone
    · have ih := find?_eraseP_self lock holds hnd
      simpa [List.eraseP_cons, hlock] using ih

theorem Records.release (hr : Records v pid c) (lock : Lock)
    (hheld : ∀ lock' mode, v'.held (pid, lock', mode) = withoutLock pid lock v.held (pid, lock', mode)) :
    Records v' pid { c with holds := c.holds.eraseP (fun h => h.lock = lock) } where
  held lock' mode := by
    rw [hheld]
    unfold withoutLock Proc.hold?
    by_cases hlock : lock' = lock
    · subst hlock
      rw [if_pos (by simp), find?_eraseP_self lock' _ hr.once]
      rfl
    · rw [if_neg (by simp [hlock]), find?_eraseP_of_ne hlock]
      exact hr.held lock' mode
  once            := hr.once.sublist (List.eraseP_sublist.map _)
  since hold hmem := hr.since hold (List.mem_of_mem_eraseP hmem)
  waits           := hr.waits

theorem Records.acquire (hr : Records v pid c) {lock : Lock} {mode : LWLockMode} (hfree : c.hold? lock = none)
    (hnow : now ≠ 0) (hholds : y.holds = ⟨lock, mode, now⟩ :: c.holds) (hwait : y.firstWait = c.firstWait)
    (hheld : v'.held = Function.update v.held (pid, lock, mode) (some now)) : Records v' pid y where
  held lock' mode' := by
    rw [hheld]
    unfold Proc.hold?
    rw [hholds, List.find?_cons]
    by_cases hlock : lock = lock'
    · subst hlock
      by_cases hmode : mode' = mode
      · subst hmode; simp [Option.filter]
      · have hold := hr.held lock mode'
        rw [hfree] at hold
        simp [Option.filter, hmode, Ne.symm hmode, hold]
    · have hold := hr.held lock' mode'
      unfold Proc.hold? at hold
      simp [hlock, Ne.symm hlock, hold]
  once := by
    rw [hholds]
    refine List.nodup_cons.2 ⟨fun hmem => ?_, hr.once⟩
    obtain ⟨hold, hmem, hlock⟩ := List.mem_map.1 hmem
    exact List.find?_eq_none.1 hfree hold hmem (by simpa using hlock)
  since hold hmem := by
    rw [hholds] at hmem
    rcases List.mem_cons.1 hmem with rfl | hmem
    · exact hnow
    · exact hr.since hold hmem
  waits w hw := hr.waits w (hwait.symm.trans hw)

/-- **A handler keeps the recorded times**, if no lock is acquired twice and the clock does not read 0. -/
theorem Effect.records (h : Effect o pid now p v v') (hr : Records v pid c) (hn : c.next (now, p) = some y)
    (hfree : c.acquiresFree (now, p) = true) (hnow : now ≠ 0) : Records v' pid y := by
  cases p with
  | acquireStart func =>
    obtain ⟨-, ⟨⟩⟩ := Option.ite_none_right_eq_some.1 hn
    rw [show v' = _ from h]
    exact hr.of_eq (fun _ _ => rfl) rfl (fun w hw => nomatch hw)
  | waitStart mode lock =>
    obtain ⟨a, ha, rfl⟩ := Option.map_eq_some_iff.1 hn
    obtain ⟨hphase, -⟩ := Proc.attempt_of_tryingOn ha
    have hheld : v'.held = v.held := by
      unfold Effect at h
      simp only at h
      split at h
      · obtain ⟨blocker, appname, rfl, -⟩ := h; rfl
      · rw [h]
    refine hr.of_eq (fun _ _ => by rw [hheld]) rfl (fun w hw => ?_)
    rw [Proc.firstWait_waitStart now lock hphase] at hw
    cases hc : c.firstWait with
    | none    => rw [hc] at hw; cases hw; exact hnow
    | some w' => rw [hc] at hw; cases hw; exact hr.waits w hc
  | holdAcquired name mode lock trancheId =>
    obtain ⟨-, hn⟩ := Option.ite_none_left_eq_some.1 hn
    obtain ⟨a, ha, rfl⟩ := Option.map_eq_some_iff.1 hn
    obtain ⟨hphase, -⟩ := Proc.attempt_of_tryingOn ha
    rw [show v' = _ from h]
    have hwait : c.firstWait = a.waits.head? := Proc.firstWait_eq (by rw [hphase]; rfl)
    exact hr.acquire (Option.isNone_iff_eq_none.1 hfree) hnow rfl hwait.symm rfl
  | waitDone how lock trancheId =>
    obtain ⟨-, ⟨⟩⟩ := Option.ite_none_right_eq_some.1 hn
    obtain ⟨w, hw, rfl⟩ := h
    obtain ⟨all, ofPid, rfl⟩ := hw.eq
    exact hr.of_eq (fun _ _ => rfl) rfl (fun w hw => nomatch hw)
  | acquireFinish func =>
    obtain ⟨-, ⟨⟩⟩ := Option.ite_none_right_eq_some.1 hn
    exact (show v' = v from h) ▸ hr
  | release mode lock trancheId =>
    obtain ⟨-, ⟨⟩⟩ := Option.ite_none_right_eq_some.1 hn
    obtain ⟨w, hw, rfl⟩ := h
    obtain ⟨all, ofPid, rfl⟩ := hw.eq
    exact hr.release lock (fun _ _ => rfl)
  | backendType type description => cases hn; exact (show v' = v from h) ▸ hr
  | applicationName name => cases hn; exact (show v' = v from h) ▸ hr
  | endStats =>
    obtain ⟨-, ⟨⟩⟩ := Option.ite_none_left_eq_some.1 hn
    obtain ⟨ofPid, rfl⟩ := h
    exact hr.of_eq (fun _ _ => rfl) rfl hr.waits
  | endCleanup =>
    obtain ⟨-, ⟨⟩⟩ := Option.ite_none_right_eq_some.1 hn
    rw [show v' = _ from h]
    exact ⟨fun _ _ => if_pos rfl, List.nodup_nil, (nomatch ·, ·), (nomatch ·, ·)⟩

end Lwlock
end Scrapcode
