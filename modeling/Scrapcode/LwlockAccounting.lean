import Scrapcode.LwlockRecords
/-!
# LwlockAccounting — the statistics are the samples of the processes' events

In a run in which every process follows the protocol no assertion ends the script, and while no process acquires a
lock it already holds every event adds to the statistics exactly the samples it is worth (`Adds`), whatever the
processes' events are interleaved with.  The script ends when an array is full: a run counts up to there.
-/
namespace Scrapcode
namespace Lwlock

open Programs

variable {M : Nat} {s : State M} {v v' v'' : View} {o : Options} {pid : Pid} {now : Int} {p : Probe} {c y : Proc}

/-! ## What an event adds -/

/-- The statistics have grown by the samples `xs`: for all processes, and for the process of each. -/
structure Adds (v v' : View) (xs : List Sample) : Prop where
  all   : ∀ stat trancheId mode,
    v'.all stat (trancheId, mode) = v.all stat (trancheId, mode) ++ durations stat trancheId mode xs
  ofPid : ∀ stat pid trancheId mode, v'.ofPid stat (pid, trancheId, mode) =
    v.ofPid stat (pid, trancheId, mode) ++ durations stat trancheId mode (xs.filter (fun x => x.pid = pid))

theorem durations_append (stat : Stat) (trancheId : Int) (mode : LWLockMode) (xs ys : List Sample) :
    durations stat trancheId mode (xs ++ ys) = durations stat trancheId mode xs ++ durations stat trancheId mode ys := by
  unfold durations; rw [List.filter_append, List.map_append]

theorem Adds.nil (hall : v'.all = v.all) (hpid : v'.ofPid = v.ofPid) : Adds v v' [] where
  all _ _ _     := by rw [hall]; exact (List.append_nil _).symm
  ofPid _ _ _ _ := by rw [hpid]; exact (List.append_nil _).symm

theorem Adds.trans {xs ys : List Sample} (h₁ : Adds v v' xs) (h₂ : Adds v' v'' ys) : Adds v v'' (xs ++ ys) where
  all stat trancheId mode       := by rw [h₂.all, h₁.all, durations_append, List.append_assoc]
  ofPid stat pid trancheId mode := by
    rw [h₂.ofPid, h₁.ofPid, List.filter_append, durations_append, List.append_assoc]

theorem durations_single (x : Sample) (stat : Stat) (trancheId : Int) (mode : LWLockMode) :
    durations stat trancheId mode [x] =
      if stat = x.stat ∧ mode = x.mode ∧ (trancheId = -1 ∨ trancheId = x.trancheId) then [x.us] else [] := by
  have hiff : Sample.counts stat trancheId mode x = true ↔
      stat = x.stat ∧ mode = x.mode ∧ (trancheId = -1 ∨ trancheId = x.trancheId) := by
    simp [Sample.counts, and_assoc]
  unfold durations
  by_cases h : stat = x.stat ∧ mode = x.mode ∧ (trancheId = -1 ∨ trancheId = x.trancheId)
  · rw [if_pos h, List.filter_cons_of_pos (hiff.2 h)]; rfl
  · rw [if_neg h, List.filter_cons_of_neg (mt hiff.1 h)]; rfl

/-- `append_stats` adds one sample. -/
theorem Appended.adds {stat : Stat} {us : Int} {mode : LWLockMode} {trancheId : Nat}
    (h : Appended pid stat us mode trancheId v v') : Adds v v' [⟨pid, stat, mode, trancheId, us⟩] := by
  obtain ⟨all, ofPid, rfl, hall, hpid⟩ := h
  constructor
  · intro stat' t mode'
    rw [durations_single]
    refine (hall stat' (t, mode')).trans (congrArg _ (if_congr ?_ rfl rfl))
    simp only [Prod.mk.injEq]
    tauto
  · intro stat' pid' t mode'
    refine (hpid stat' (pid', t, mode')).trans (congrArg _ ?_)
    by_cases hp : pid = pid'
    · subst hp
      rw [List.filter_cons_of_pos (by simp), List.filter_nil, durations_single]
      refine if_congr ?_ rfl rfl
      simp only [Prod.mk.injEq]
      tauto
    · rw [List.filter_cons_of_neg (by simpa using hp), if_neg (by simp [Ne.symm hp])]
      rfl

/-- The events that clear statistics: a process ends, or the timer fires. -/
def Event.resets : Event → Bool
  | .probe _ _ .endStats => true
  | .timer               => true
  | _                    => false

/-- **A handler adds the sample its event is worth.** -/
theorem Effect.adds (h : Effect o pid now p v v') (ht : Tracks o v pid c) (hr : Records v pid c)
    (hn : c.next (now, p) = some y) (hp : (Event.probe pid now p).resets = false) :
    Adds v v' (c.sample pid (now, p)).toList := by
  cases p with
  | acquireStart func => rw [show v' = _ from h]; exact Adds.nil rfl rfl
  | waitStart mode lock =>
    unfold Effect at h
    simp only at h
    split at h
    · obtain ⟨blocker, appname, rfl, -⟩ := h; exact Adds.nil rfl rfl
    · rw [h]; exact Adds.nil rfl rfl
  | holdAcquired name mode lock trancheId => rw [show v' = _ from h]; exact Adds.nil rfl rfl
  | waitDone how lock trancheId =>
    obtain ⟨w, hw, rfl⟩ := h
    rw [ht.start] at hw
    unfold Timed at hw
    cases hwait : c.firstWait with
    | none =>
      have hw : w = v := by simpa [hwait] using hw
      simp only [Proc.sample, hwait, Option.map_none, Option.toList_none]
      exact Adds.nil (by rw [hw]; rfl) (by rw [hw]; rfl)
    | some first =>
      have hw : Appended pid .wait (now - first.2) how.mode trancheId v w := by
        simpa [hwait, hr.waits first hwait] using hw
      have hadds := hw.adds
      simp only [Proc.sample, hwait, Option.map_some, Option.toList_some]
      exact ⟨hadds.all, hadds.ofPid⟩
  | acquireFinish func => rw [show v' = _ from h]; exact Adds.nil rfl rfl
  | release mode lock trancheId =>
    obtain ⟨w, hw, rfl⟩ := h
    obtain ⟨⟨-, hmode⟩, -⟩ := Option.ite_none_right_eq_some.1 hn
    obtain ⟨hold, hfind, rfl⟩ := Option.map_eq_some_iff.1 hmode
    have hsince : (v.held (pid, lock, hold.mode)).getD 0 = hold.since := by
      rw [hr.held, hfind]; simp [Option.filter]
    have hne := hr.since hold (List.mem_of_find?_eq_some hfind)
    rw [hsince] at hw
    have hadds := Appended.adds ((if_neg hne).mp hw)
    simp only [Proc.sample, hfind, Option.map_some, Option.toList_some]
    exact ⟨hadds.all, hadds.ofPid⟩
  | backendType type description => rw [show v' = _ from h]; exact Adds.nil rfl rfl
  | applicationName name => rw [show v' = _ from h]; exact Adds.nil rfl rfl
  | endStats => cases hp
  | endCleanup => rw [show v' = _ from h]; exact Adds.nil rfl rfl

/-! ## Runs -/

variable {cs : Pid → Proc} {e : Event} {es : List Event}

/-- The script's record of every process is the process's state. -/
def Agrees (o : Options) (v : View) (cs : Pid → Proc) : Prop := ∀ q, Tracks o v q (cs q)

def TimesAgree (v : View) (cs : Pid → Proc) : Prop := ∀ q, Records v q (cs q)

/-- What the events `es` do to the statistics, if no lock is acquired twice and the clock does not read 0. -/
def Counts (cs : Pid → Proc) (es : List Event) (v v' : View) : Prop :=
  TimesAgree v cs → AcquireFree cs es → Clocked es →
    TimesAgree v' (after cs es) ∧ ((∀ e ∈ es, e.resets = false) → Adds v v' (samples cs es))

theorem agrees_start (o : Options) : Agrees o ({} : State M).view (fun _ => .start) := fun _ =>
  ⟨rfl, rfl, rfl, fun _ _ => ⟨rfl, rfl⟩, (nomatch ·, ·), fun _ _ _ _ h => nomatch h⟩

theorem timesAgree_start : TimesAgree ({} : State M).view (fun _ => .start) := fun _ =>
  ⟨fun _ _ => rfl, List.nodup_nil, (nomatch ·, ·), (nomatch ·, ·)⟩

/-- **One event**, whatever process it is of. -/
theorem handle_keeps (hh : o.trackHolds = true) (hp : o.trackPerProcess = true) (ha : Agrees o s.view cs)
    (hf : Follows cs (e :: es)) :
    Keeps (handle o e) s (fun v => Agrees o v (after cs [e]) ∧ Counts cs [e] s.view v) := by
  cases e with
  | timer =>
    refine periodic_keeps.mono (fun _ s' ⟨all, hv⟩ => ?_) (fun _ _ h => h)
    have hsame : ∀ q, Same s.view s'.view q := Same.of_eq ⟨all, s.view.ofPid, hv⟩
    exact ⟨fun q => (ha q).same (hsame q),
      fun ht _ _ => ⟨fun q => (ht q).same (hsame q), fun h => nomatch h _ List.mem_cons_self⟩⟩
  | probe pid now p =>
    obtain ⟨y, hy⟩ := hf.next
    have hafter := after_probe hy
    refine (fire_effect hh hp (ha pid) hy).mono (fun _ s' he => ⟨fun q => ?_, fun ht hfree hclock => ⟨fun q => ?_, ?_⟩⟩)
      (fun _ _ h => h)
    · rw [hafter]
      by_cases hq : q = pid
      · subst hq; rw [Function.update_self]; exact he.tracks (ha q) hy
      · rw [Function.update_of_ne hq]; exact (ha q).same (he.same hq)
    · rw [hafter]
      by_cases hq : q = pid
      · subst hq
        rw [Function.update_self]
        exact he.records (ht q) hy (hfree.first hy) (hclock q now p List.mem_cons_self)
      · rw [Function.update_of_ne hq]; exact (ht q).same (he.same hq)
    · intro hreset
      unfold samples Event.samples samples
      rw [List.append_nil]
      exact he.adds (ha pid) (ht pid) hy (hreset _ List.mem_cons_self)

/-- **A run**: no assertion ends it, and it adds to the statistics the samples of its events. -/
theorem script_keeps (hh : o.trackHolds = true) (hp : o.trackPerProcess = true) :
    ∀ (es : List Event) {s : State M} {cs : Pid → Proc}, Agrees o s.view cs → Follows cs es →
      Keeps (script o es) s (fun v => Agrees o v (after cs es) ∧ Counts cs es s.view v)
  | [], _, _, ha, _       =>
    ⟨ha, fun ht _ _ => ⟨ht, fun _ => Adds.nil rfl rfl⟩⟩
  | e :: es, s, cs, ha, hf => by
    refine (handle_keeps hh hp ha hf).bind (fun _ s₁ ⟨ha₁, hc₁⟩ => ?_)
    refine (script_keeps hh hp es ha₁ hf.cons).mono (fun _ s₂ ⟨ha₂, hc₂⟩ => ?_) (fun _ _ h => h)
    rw [after_cons hf]
    refine ⟨ha₂, fun ht hfree hclock => ?_⟩
    have hclock₁ : Clocked [e] := fun pid now p hmem => hclock pid now p (List.mem_singleton.1 hmem ▸ List.mem_cons_self)
    obtain ⟨ht₁, hadds₁⟩ := hc₁ ht (hfree.single hf) hclock₁
    obtain ⟨ht₂, hadds₂⟩ := hc₂ ht₁ (hfree.cons hf) (fun pid now p hmem => hclock pid now p (List.mem_cons_of_mem _ hmem))
    rw [after_cons hf]
    refine ⟨ht₂, fun hreset => ?_⟩
    have hfirst := hadds₁ (fun e' he' => hreset e' (List.mem_singleton.1 he' ▸ List.mem_cons_self))
    have hsamples : samples cs [e] = e.samples cs := List.append_nil _
    rw [hsamples] at hfirst
    exact hfirst.trans (hadds₂ (fun e' he' => hreset e' (List.mem_cons_of_mem _ he')))

/-- The statistics have grown by the samples of the events `es`: those of all processes by all samples, those of each
process by the samples of its own events. -/
structure Accounts (cs : Pid → Proc) (es : List Event) (v v' : View) : Prop where
  all   : ∀ stat trancheId mode,
    v'.all stat (trancheId, mode) = v.all stat (trancheId, mode) ++ durations stat trancheId mode (samples cs es)
  ofPid : ∀ stat pid trancheId mode, v'.ofPid stat (pid, trancheId, mode) =
    v.ofPid stat (pid, trancheId, mode) ++ durations stat trancheId mode (ownSamples pid (cs pid) (ownEvents pid es))

theorem Adds.accounts (h : Adds v v' (samples cs es)) (hf : Follows cs es) : Accounts cs es v v' where
  all                           := h.all
  ofPid stat pid trancheId mode := by rw [h.ofPid, samples_filter pid es cs hf]

/-- **The statistics are the samples of the processes' events.**  Every process follows the protocol: no assertion ends
the script, and if no process acquires a lock it holds and the clock does not read 0, then between the events that
clear statistics they grow by exactly the samples of the events. -/
theorem script_accounts (hh : o.trackHolds = true) (hp : o.trackPerProcess = true) {pre es : List Event}
    (hf : Follows (fun _ => .start) (pre ++ es)) :
    (∀ e s', script o (pre ++ es) ({} : State M) = .error e s' → ∃ array, e = .overflow array) ∧
    (AcquireFree (fun _ => .start) (pre ++ es) → Clocked (pre ++ es) → (∀ e ∈ es, e.resets = false) →
      ∀ s s', script o pre ({} : State M) = .ok () s → script o es s = .ok () s' →
        Accounts (after (fun _ => .start) pre) es s.view s'.view) := by
  constructor
  · intro e s' hrun
    have hkeeps := script_keeps (M := M) hh hp (pre ++ es) (agrees_start o) hf
    unfold Keeps at hkeeps
    rw [hrun] at hkeeps
    exact hkeeps
  · intro hfree hclock hreset s s' hpre hes
    obtain ⟨hf₁, hf₂⟩ := follows_append.1 hf
    obtain ⟨hfree₁, hfree₂⟩ := (acquireFree_append hf₁).1 hfree
    have hkeeps₁ := script_keeps (M := M) hh hp pre (agrees_start o) hf₁
    unfold Keeps at hkeeps₁
    rw [hpre] at hkeeps₁
    obtain ⟨ha, hc⟩ := hkeeps₁
    obtain ⟨ht, -⟩ := hc timesAgree_start hfree₁ (fun pid now p hmem => hclock pid now p (List.mem_append_left _ hmem))
    have hkeeps₂ := script_keeps hh hp es ha hf₂
    unfold Keeps at hkeeps₂
    rw [hes] at hkeeps₂
    obtain ⟨-, hc⟩ := hkeeps₂
    obtain ⟨-, hadds⟩ := hc ht hfree₂ (fun pid now p hmem => hclock pid now p (List.mem_append_right _ hmem))
    exact (hadds hreset).accounts hf₂

/-- The script counts a run to its end. -/
def Counted (o : Options) (M : Nat) (es : List Event) : Prop :=
  ∃ s', script o es ({} : State M) = .ok () s' ∧ Accounts (fun _ => .start) es ({} : State M).view s'.view

/-- What process `pid` has in the statistics of holds at the end of a run. -/
def heldAtEnd (o : Options) (M : Nat) (es : List Event) (k : Pid × Int × LWLockMode) : Option (List Int) :=
  match script o es ({} : State M) with
  | .ok _ s    => some (s.view.ofPid .held k)
  | .error _ _ => none

theorem heldAtEnd_of_ok {k : Pid × Int × LWLockMode} {s' : State M} (h : script o es ({} : State M) = .ok () s') :
    heldAtEnd o M es k = some (s'.view.ofPid .held k) := by
  unfold heldAtEnd; rw [h]

/-- Two processes and one lock: the second one waits twice for it. -/
def contended : List Event :=
  [.probe 1 10 (.acquireStart .acquire), .probe 1 11 (.holdAcquired "WALWrite" .exclusive 4096 7),
   .probe 2 12 (.acquireStart .acquire), .probe 2 13 (.waitStart .exclusive 4096),
   .probe 1 14 (.waitDone (.acquired .exclusive) 4096 7), .probe 1 20 (.release .exclusive 4096 7),
   .probe 2 21 (.waitStart .exclusive 4096), .probe 2 30 (.holdAcquired "WALWrite" .exclusive 4096 7),
   .probe 2 31 (.waitDone (.acquired .exclusive) 4096 7)]

theorem script_accounts_contended : Counted {} 2048 contended := by
  have hown : ∀ q, q ≠ 1 → q ≠ 2 → ownEvents q contended = [] := fun q h₁ h₂ => by
    simp [ownEvents, contended, ownEvent, Ne.symm h₁, Ne.symm h₂]
  have hf : Follows (fun _ => .start) ([] ++ contended) := fun q => by
    by_cases h₁ : q = 1
    · subst h₁; decide
    · by_cases h₂ : q = 2
      · subst h₂; decide
      · rw [List.nil_append, hown q h₁ h₂]; rfl
  have hfree : AcquireFree (fun _ => .start) contended := fun q => by
    by_cases h₁ : q = 1
    · subst h₁; decide
    · by_cases h₂ : q = 2
      · subst h₂; decide
      · rw [hown q h₁ h₂]; trivial
  have hclock : Clocked contended := by
    intro pid now p hmem
    simp only [contended, List.mem_cons, Event.probe.injEq, List.not_mem_nil, or_false] at hmem
    omega
  have hrun : (heldAtEnd {} 2048 contended (1, 7, .exclusive)).isSome = true := by decide +kernel
  unfold heldAtEnd at hrun
  cases h : script {} contended ({} : State 2048) with
  | ok u s' => exact ⟨s', h, (script_accounts rfl rfl hf).2 hfree hclock (by decide) _ s' rfl h⟩
  | error e s' => rw [h] at hrun; cases hrun

/-- A process that acquires a lock it holds in shared mode again. -/
def nested : List Event :=
  [.probe 1 10 (.acquireStart .acquire), .probe 1 11 (.holdAcquired "WALWrite" .shared 4096 7),
   .probe 1 12 (.waitDone (.acquired .shared) 4096 7),
   .probe 1 13 (.acquireStart .acquire), .probe 1 14 (.holdAcquired "WALWrite" .shared 4096 7),
   .probe 1 15 (.waitDone (.acquired .shared) 4096 7),
   .probe 1 20 (.release .shared 4096 7), .probe 1 30 (.release .shared 4096 7)]

/-- A process that acquires and releases a lock of tranche `trancheId`. -/
def acquireRelease (trancheId : Nat) : List Event :=
  [.probe 1 10 (.acquireStart .acquire), .probe 1 11 (.holdAcquired "extension" .exclusive trancheId trancheId),
   .probe 1 12 (.waitDone (.acquired .exclusive) trancheId trancheId),
   .probe 1 20 (.release .exclusive trancheId trancheId)]

/-- Locks of 1000 tranches, one after the other: with the tranche -1, one key more than `held_durations_allprocs` has
room for. -/
def manyTranches : List Event := (List.range 1000).flatMap acquireRelease

theorem run_acquireRelease (trancheId : Nat) :
    Runs.run Proc.next .start (ownEvents 1 (acquireRelease trancheId)) = some .start := by
  simp [ownEvents, acquireRelease, ownEvent, Runs.run, Proc.next, Proc.start, Proc.isIdle, Proc.tryingOn, Attempt.on,
    Proc.completes, Proc.hold?]

theorem follows_acquireRelease (hcs : cs 1 = .start) (trancheId : Nat) :
    Follows cs (acquireRelease trancheId) ∧ AcquireFree cs (acquireRelease trancheId) ∧
      after cs (acquireRelease trancheId) = cs := by
  have hown : ∀ q, q ≠ 1 → ownEvents q (acquireRelease trancheId) = [] := fun q hq => by
    simp [ownEvents, acquireRelease, ownEvent, Ne.symm hq]
  refine ⟨fun q => ?_, fun q => ?_, funext (fun q => ?_)⟩
  · by_cases hq : q = 1
    · subst hq; rw [hcs, run_acquireRelease]; rfl
    · rw [hown q hq]; rfl
  · by_cases hq : q = 1
    · subst hq
      rw [hcs]
      simp [ownEvents, acquireRelease, ownEvent, Runs.Meets, Proc.acquiresFree, Proc.next, Proc.start, Proc.isIdle,
        Proc.tryingOn, Attempt.on, Proc.completes, Proc.hold?]
    · rw [hown q hq]; trivial
  · unfold after
    by_cases hq : q = 1
    · subst hq; rw [hcs, run_acquireRelease]; rfl
    · rw [hown q hq]; rfl

theorem samples_acquireRelease (hcs : cs 1 = .start) (trancheId : Nat) :
    samples cs (acquireRelease trancheId) = [⟨1, .held, .exclusive, trancheId, 9⟩] := by
  simp [samples, acquireRelease, Event.samples, after, ownEvents, ownEvent, Runs.run, hcs, Proc.sample, Proc.next,
    Proc.start, Proc.isIdle, Proc.tryingOn, Attempt.on, Proc.completes, Proc.hold?, Proc.firstWait, Phase.attempt]

theorem manyTranches_samples : ∀ (ts : List Nat) {cs : Pid → Proc}, cs 1 = .start →
    Follows cs (ts.flatMap acquireRelease) ∧ AcquireFree cs (ts.flatMap acquireRelease) ∧
      samples cs (ts.flatMap acquireRelease) = ts.map (fun t => ⟨1, .held, .exclusive, t, 9⟩)
  | [], _, _        => ⟨fun _ => rfl, fun _ => trivial, rfl⟩
  | t :: ts, cs, hcs => by
    obtain ⟨hf, hfree, hsamples⟩ := manyTranches_samples ts hcs
    obtain ⟨hf', hfree', hafter⟩ := follows_acquireRelease hcs t
    rw [List.flatMap_cons, List.map_cons]
    refine ⟨follows_append.2 ⟨hf', hafter.symm ▸ hf⟩, (acquireFree_append hf').2 ⟨hfree', hafter.symm ▸ hfree⟩, ?_⟩
    rw [samples_append _ hf', hafter, hsamples, samples_acquireRelease hcs]
    rfl

/-- As many keys as there are tranches, and the one for all. -/
theorem tranches_le_cap {cap N : Nat} {m : BoundedMap (Int × LWLockMode) (List Int) cap}
    (h : ∀ n : Nat, n < N → (m.get? ((n : Int) - 1, .exclusive)).isSome) : N ≤ cap := by
  have hnd : ((List.range N).map (fun n : Nat => ((n : Int) - 1, LWLockMode.exclusive))).Nodup :=
    List.nodup_range.map (fun m n h => by
      have hfst : (m : Int) - 1 = n - 1 := congrArg Prod.fst h
      omega)
  have hle := BoundedMap.length_le_cap (m := m) hnd (fun k hk => by
    obtain ⟨n, hn, rfl⟩ := List.mem_map.1 hk
    exact h n (List.mem_range.1 hn))
  rwa [List.length_map, List.length_range] at hle

theorem isSome_of_samples {v : View} {cap : Nat} {m : BoundedMap (Int × LWLockMode) (List Int) cap} {x : Sample}
    (hx : x ∈ samples cs es) {stat : Stat} {trancheId : Int} {mode : LWLockMode}
    (hcounts : x.counts stat trancheId mode = true) (hm : v.all stat = samplesOf m) {old : List Int}
    (hv : v.all stat (trancheId, mode) = old ++ durations stat trancheId mode (samples cs es)) :
    (m.get? (trancheId, mode)).isSome := by
  have hmem : x.us ∈ samplesOf m (trancheId, mode) := by
    rw [← hm, hv]
    exact List.mem_append_right _ (List.mem_map_of_mem (List.mem_filter.2 ⟨hx, hcounts⟩))
  unfold samplesOf at hmem
  cases hget : m.get? (trancheId, mode) with
  | none   => rw [hget] at hmem; cases hmem
  | some _ => rfl

/-- **Two runs the script does not count**: a lock acquired twice, and an array that is full. -/
theorem script_not_accounts :
    (Follows (fun _ => .start) nested ∧ Clocked nested ∧ ¬Counted {} 2048 nested) ∧
    (Follows (fun _ => .start) manyTranches ∧ AcquireFree (fun _ => .start) manyTranches ∧ Clocked manyTranches ∧
      ¬Counted {} 2048 manyTranches) := by
  refine ⟨⟨fun q => ?_, ?_, ?_⟩, ⟨?_, ?_, ?_, ?_⟩⟩
  · by_cases hq : q = 1
    · subst hq; decide
    · have hown : ownEvents q nested = [] := by simp [ownEvents, nested, ownEvent, Ne.symm hq]
      rw [hown]; rfl
  · intro pid now p hmem
    simp only [nested, List.mem_cons, Event.probe.injEq, List.not_mem_nil, or_false] at hmem
    omega
  · rintro ⟨s', hrun, hacc⟩
    have hend : heldAtEnd {} 2048 nested (1, 7, .shared) = some [6] := by decide +kernel
    have hsamples := hacc.ofPid .held 1 7 .shared
    rw [heldAtEnd_of_ok hrun] at hend
    rw [Option.some.inj hend] at hsamples
    have hlen := congrArg List.length hsamples
    revert hlen
    decide
  · exact (manyTranches_samples _ rfl).1
  · exact (manyTranches_samples _ rfl).2.1
  · intro pid now p hmem
    obtain ⟨t, -, hmem⟩ := List.mem_flatMap.1 hmem
    simp only [acquireRelease, List.mem_cons, Event.probe.injEq, List.not_mem_nil, or_false] at hmem
    omega
  · rintro ⟨s', -, hacc⟩
    have hsamples : samples (fun _ => .start) manyTranches = _ := (manyTranches_samples (List.range 1000) rfl).2.2
    have hkey : ∀ n : Nat, n < 1001 → (s'.heldDurationsAllprocs.get? ((n : Int) - 1, .exclusive)).isSome := by
      intro n hn
      have hmem : (⟨1, .held, .exclusive, n - 1, 9⟩ : Sample) ∈ samples (fun _ => .start) manyTranches := by
        rw [hsamples]
        exact List.mem_map.2 ⟨n - 1, List.mem_range.2 (by omega), rfl⟩
      have hcounts : Sample.counts .held ((n : Int) - 1) .exclusive ⟨1, .held, .exclusive, n - 1, 9⟩ = true := by
        simp only [Sample.counts, decide_true, Bool.true_and, Bool.or_eq_true, decide_eq_true_eq]
        omega
      exact isSome_of_samples hmem hcounts rfl (hacc.all .held ((n : Int) - 1) .exclusive)
    have hle := tranches_le_cap hkey
    omega

end Lwlock
end Scrapcode
