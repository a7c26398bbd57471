import Scrapcode.CredLookup
import Scrapcode.CredPrivate
import Scrapcode.CredRace
/-!
# CredLife — the YAML file through stores and crashes

The file from store to store, one process at a time: each call of `YamlConfLookup.store` makes its system calls, and
any of them may fail; at any moment the machine may crash, which leaves of the file system what a crash leaves.

Abstractly the file is a map, and a store sets one key of it.  Whatever has happened, what a lookup finds, now or
after one more crash, is the map with all the stores that returned and some of the others, done in their order
(`lookup_applied`). One failure is excluded, that of the `os.path.exists` before the file is read: it passes for a
file that is not there, and the store then forgets all other keys.
-/
namespace Scrapcode
namespace SecretStore

/-! ## What a file is as a map -/

/-- What is found under each key of a file with this content. -/
def YamlConf.found (y : YamlConf) (text : Option (List UInt8)) (key : String) : Option Value :=
  text.bind (fun t => y.yaml.entry t key)

def StoreCall.apply (call : StoreCall) (w : String → Option Value) : String → Option Value :=
  Function.update w call.key (some (.str call.secret))

/-- **The map after some calls**: those that returned are done, of the others each is done or not. -/
inductive Applied (base : (String → Option Value) → Prop) : List (StoreCall × Bool) → (String → Option Value) → Prop
  | start {w} : base w → Applied base [] w
  | done {past w call returned} : Applied base past w → Applied base (past ++ [(call, returned)]) (call.apply w)
  | skipped {past w call} : Applied base past w → Applied base (past ++ [(call, false)]) w

/-! ## Lives -/

def StorePc.returned : StorePc → Bool
  | .ended (.ok _) => true
  | _              => false

/-- The `exists` before the read does not miss the file. -/
def NotMissed (y : YamlConf) (t : Storing) (e : Sys) : Prop :=
  e = .fails → t.pc = .credExists → t.fs.names y.credname = none

instance (y : YamlConf) (t : Storing) (e : Sys) : Decidable (NotMissed y t e) :=
  inferInstanceAs (Decidable (_ → _ → _ = none))

/-- The directory with the files, the call that is running, and those there were. -/
structure Life where
  storing : Storing
  call    : Option StoreCall
  history : List (StoreCall × Bool)

namespace Life

def start (creddir : Option UInt32) (fs : Files) : Life := { storing := .start creddir fs, call := none, history := [] }

/-- All calls so far, with the one that is running. -/
def attempts (s : Life) : List (StoreCall × Bool) :=
  s.history ++ (s.call.map (fun call => (call, s.storing.pc.returned))).toList

inductive Event where
  | begins (call : StoreCall)
  | sys (e : Sys)
  | ends
  | crash (creddir : Option UInt32) (fs : Files)

inductive Step (y : YamlConf) (s : Life) : Event → Life → Prop
  | begins (call : StoreCall) : s.call = none →
      Step y s (.begins call) { s with storing := .start s.storing.creddir s.storing.fs, call := some call }
  | sys {call e t} : s.call = some call → s.storing.step y call e = some t → Step y s (.sys e) { s with storing := t }
  | ends {call r} : s.call = some call → s.storing.pc = .ended r →
      Step y s .ends { s with call := none, history := s.attempts }
  | crash {fs : Files} (creddir : Option UInt32) : s.storing.fs.Crash fs →
      Step y s (.crash creddir fs) { storing := .start creddir fs, call := none, history := s.attempts }

/-- A call that begins is one of `calls`. -/
def Sees (y : YamlConf) (calls : StoreCall → Prop) (s : Life) : Event → Prop
  | .begins call => calls call
  | .sys e       => NotMissed y s.storing e
  | _            => True

inductive Reached (y : YamlConf) (calls : StoreCall → Prop) (s₀ : Life) : Life → Prop
  | refl : Reached y calls s₀ s₀
  | step {s s' : Life} {e : Event} : Reached y calls s₀ s → s.Step y e s' → s.Sees y calls e → Reached y calls s₀ s'

end Life

/-! ## What a crash may leave of the file -/

/-- A crash may leave `o` under the name. -/
def Leaves (fs : Files) (n : String) (o : Option (List UInt8)) : Prop := ∃ fs', fs.Crash fs' ∧ fs'.read n = o

variable {y : YamlConf} {calls : StoreCall → Prop} {base : (String → Option Value) → Prop} {s s' : Life}
  {t t' : Storing}
  {fs fs' fs'' : Files} {call : StoreCall} {pc : StorePc} {e : Sys} {n : String} {o : Option (List UInt8)}
  {past : List (StoreCall × Bool)}

/-- A crash may leave everything as it is. -/
theorem leaves_read (fs : Files) (n : String) : Leaves fs n (fs.read n) := by
  obtain ⟨fs', hc, hnames, hcontent⟩ := fs.survives_names.crash (fun i => (fs.file i).content) (fun _ _ => rfl)
  refine ⟨fs', hc, ?_⟩
  unfold FileSystem.read
  rw [hnames]
  simp only [hcontent]

/-- After a crash another one changes nothing. -/
theorem read_of_crash (h : fs.Crash fs') (h' : fs'.Crash fs'') (n : String) : fs''.read n = fs'.read n := by
  obtain ⟨ops, hops, hnames⟩ := h'.names
  rw [h.journal] at hops
  have hnil : ops = [] := List.sublist_nil.1 hops
  have hsame : fs''.names = fs'.names := by
    rw [hnames, hnil]
    unfold FileSystem.names
    rw [h.journal]
  unfold FileSystem.read
  rw [hsame]
  exact congrArg (fun g => (fs'.names n).map g) (funext fun i => h'.files i (h.synced i))

theorem leaves_of_crash (h : fs.Crash fs') (ho : Leaves fs' n o) : Leaves fs n o := by
  obtain ⟨fs'', h', rfl⟩ := ho
  exact ⟨fs', h, (read_of_crash h h' n).symm⟩

/-! ## What is known while a call runs -/

/-- What a crash leaves is the map after the calls so far. -/
def Settled (y : YamlConf) (base : (String → Option Value) → Prop) (past : List (StoreCall × Bool)) (fs : Files) :
    Prop :=
  ∀ o, Leaves fs y.credname o → Applied base past (y.found o)

/-- The map after the calls so far and this one. -/
def Changed (y : YamlConf) (base : (String → Option Value) → Prop) (past : List (StoreCall × Bool)) (call : StoreCall)
    (text : List UInt8) : Prop :=
  ∃ w, Applied base past w ∧ y.found (some text) = call.apply w

/-- A call has not touched the files, or has what it writes and is in `atomic_overwrite` or past it. -/
inductive InCall (y : YamlConf) (base : (String → Option Value) → Prop) (past : List (StoreCall × Bool))
    (call : StoreCall)
    (t : Storing) : Prop
  | reading : t.pc.stage = .reading ∨ t.pc.stage = .raised → t.proc = .start → Settled y base past t.fs →
      InCall y base past call t
  | copied {old : Files} :
      Sound y.credname (call.overwriteCall t.newcontent) old t.proc t.fs → Settled y base past old →
      Changed y base past call t.newcontent → t.pc.stage ≠ .reading → (∀ n, t.pc = .overwrite n → n = t.newcontent) →
      (t.pc.stage = .replaced → t.proc.pc = .ended true) → InCall y base past call t

theorem not_returned (h : pc.stage ≠ .replaced) : pc.returned = false := by
  cases pc with
  | ended r => cases r with
    | ok u    => exact absurd rfl h
    | error e => rfl
  | _       => rfl

/-- **A call as far as it has come**: what a crash leaves is the map after all calls. -/
theorem InCall.attempted (h : InCall y base past call t) (ho : Leaves t.fs y.credname o) :
    Applied base (past ++ [(call, t.pc.returned)]) (y.found o) := by
  cases h with
  | reading hstage _ hsettled =>
    rw [not_returned (by rcases hstage with hstage | hstage <;> rw [hstage] <;> decide)]
    exact .skipped (hsettled o ho)
  | copied hsound hsettled hchanged _ _ hdone =>
    have hnew : ∀ {b}, o = some t.newcontent → Applied base (past ++ [(call, b)]) (y.found o) := fun heq => by
      obtain ⟨w, hw, hv⟩ := hchanged
      rw [heq, hv]
      exact .done hw
    obtain ⟨fs', hc, hread⟩ := ho
    by_cases hstage : t.pc.stage = .replaced
    · exact hnew (hread ▸ hsound.returned (hdone hstage) hc)
    · rw [not_returned hstage]
      rcases hsound.recovers hc with hn | ⟨old', hc', hold⟩
      · exact hnew (hread ▸ hn)
      · exact .skipped (hsettled o ⟨old', hc', hold ▸ hread⟩)

/-! ## One system call -/

theorem InCall.goto (h : InCall y base past call t) (creddir : Option UInt32)
    (hpc : (pc.stage = t.pc.stage ∧ pc.stage ≠ .copied) ∨ pc.stage = .raised) :
    InCall y base past call (Storing.goto { t with creddir := creddir } pc) := by
  have hne : ∀ n, pc ≠ .overwrite n := fun n hn => by
    rw [hn] at hpc
    exact hpc.elim (fun h => h.2 rfl) (nomatch ·)
  have hn : (Storing.goto { t with creddir := creddir } pc).newcontent = t.newcontent := goto_newcontent_of_ne _ hne
  cases h with
  | reading hstage hproc hsettled =>
    refine .reading ?_ ((goto_proc _ _).trans hproc) (by rw [goto_fs]; exact hsettled)
    rw [goto_pc]
    rcases hpc with ⟨hpc, -⟩ | hpc
    · rw [hpc]; exact hstage
    · exact Or.inr hpc
  | copied hsound hsettled hchanged hstage _ hdone =>
    refine .copied (by rw [hn, goto_fs, goto_proc]; exact hsound) hsettled (hn.symm ▸ hchanged) ?_ (fun n hpc' => ?_) ?_
    · rw [goto_pc]
      rcases hpc with ⟨hpc, -⟩ | hpc
      · rw [hpc]; exact hstage
      · rw [hpc]; decide
    · rw [goto_pc] at hpc'
      exact absurd hpc' (hne n)
    · rw [goto_pc, goto_proc]
      rcases hpc with ⟨hpc, -⟩ | hpc
      · rw [hpc]; exact hdone
      · rw [hpc]; exact (nomatch ·)

/-- What a call makes of the file it has read. -/
theorem changed_dump {m : Dict} (hy : y.yaml.Keeps call.key call.secret) (hsettled : Settled y base past t.fs)
    (hm : y.changed call.key call.secret (t.view y.credname).credfile = .ok m) :
    Changed y base past call (y.yaml.dump m) := by
  obtain ⟨-, -, hentry⟩ := entry_changed hy hm
  have hview : (t.view y.credname).entry y.yaml = y.found (t.fs.read y.credname) := by
    funext key
    unfold Creds.entry YamlConf.found FileSystem.read Storing.view
    cases t.fs.names y.credname <;> rfl
  refine ⟨_, hsettled _ (leaves_read _ _), ?_⟩
  rw [← hview]
  exact hentry

/-- **A call that succeeds** where it does not replace the file. -/
theorem InCall.next (hy : y.yaml.Keeps call.key call.secret) (h : InCall y base past call t)
    (hno : ∀ n, t.pc ≠ .overwrite n) (hpc : t.pc.next y call (t.view y.credname) = some pc) :
    InCall y base past call
      (Storing.goto { t with creddir := ((t.view y.credname).after call.umask t.pc).creddir } pc) := by
  have hstep : t.pc.step y call (t.view y.credname) = some ((t.view y.credname).after call.umask t.pc, pc) := by
    unfold StorePc.step
    split
    · rename_i heq; exact absurd heq (hno _)
    · rw [hpc]; rfl
  have hmoves := step_storeMoves hstep
  generalize (t.view y.credname).after call.umask t.pc = c at hmoves
  cases hmoves with
  | pass hc hst _ => exact h.goto _ (Or.inl ⟨hst, hst ▸ hc⟩)
  | makedirs hp => exact h.goto _ (Or.inl ⟨by rw [hp]; rfl, by decide⟩)
  | raise => exact h.goto _ (Or.inr rfl)
  | copy hst _ hm =>
    cases h with
    | reading _ hproc hsettled =>
      refine .copied ?_ hsettled (changed_dump hy hsettled hm) (nomatch ·) (fun n hn => ?_) (nomatch ·)
      · rw [goto_fs, goto_proc, hproc]
        exact sound_start _ _ _
      · cases hn; rfl
    | copied _ _ _ hne _ _ => exact absurd hst hne
  | replace hp => exact absurd hp (hno _)

/-- **A call that fails**: the tests go on, and all others raise. -/
theorem InCall.failed (hy : y.yaml.Keeps call.key call.secret) (h : InCall y base past call t)
    (hsees : t.pc = .credExists → t.fs.names y.credname = none) (hpc : t.pc.failed y call = some pc) :
    InCall y base past call (t.goto pc) := by
  have hgoto : (pc.stage = t.pc.stage ∧ pc.stage ≠ .copied) ∨ pc.stage = .raised →
      InCall y base past call (t.goto pc) :=
    h.goto t.creddir
  cases hp : t.pc with
  | dirExists again =>
    rw [hp] at hpc hgoto
    cases hpc
    exact hgoto (Or.inl ⟨rfl, stage_check_ne again⟩)
  | fileExists again =>
    rw [hp] at hpc hgoto
    cases hpc
    exact hgoto (Or.inl ⟨stage_checked again, stage_checked again ▸ stage_check_ne again⟩)
  | credExists =>
    -- no file, so what failed would have said the same
    have hnext : t.pc.next y call (t.view y.credname) = some pc := by
      rw [hp] at hpc ⊢
      rw [← hpc]
      unfold StorePc.next Storing.view
      rw [hsees hp]
      rfl
    have := h.next hy (fun n => by rw [hp]; exact (nomatch ·)) hnext
    rw [hp] at this
    exact this
  | makedirs | dirStat again | fileStat again | load =>
    rw [hp] at hpc
    cases hpc
    exact hgoto (Or.inr rfl)
  | checkStore | overwrite n | ended r => rw [hp] at hpc; cases hpc

/-- **A system call of `atomic_overwrite`.** -/
theorem InCall.back (h : InCall y base past call t) {n : List UInt8} (hpc : t.pc = .overwrite n)
    (hs : t.sys y call e = some t') : InCall y base past call t'.back := by
  obtain ⟨⟨p', fs'⟩, hp, rfl⟩ := Option.map_eq_some_iff.1 hs
  cases h with
  | reading hstage _ _ => rw [hpc] at hstage; exact hstage.elim (nomatch ·) (nomatch ·)
  | copied hsound hsettled hchanged hstage hown _ =>
    have hsound' := (step_moves hp).sound hsound
    unfold Storing.back
    split
    · rename_i hend
      refine .copied ?_ hsettled hchanged (nomatch ·) (fun n hn => nomatch hn) (fun _ => hend)
      exact hsound'
    · refine .copied ?_ hsettled hchanged (nomatch ·) (fun n hn => nomatch hn) (nomatch ·)
      exact hsound'
    · refine .copied hsound' hsettled hchanged hstage hown (fun hst => ?_)
      have hst' : t.pc.stage = .replaced := hst
      rw [hpc] at hst'
      cases hst'

/-- What the file object still holds is written. -/
theorem InCall.piece (h : InCall y base past call t) {n : Nat} (hs : t.sys y call (.piece n) = some t') :
    InCall y base past call t' := by
  obtain ⟨⟨p', fs'⟩, hp, rfl⟩ := Option.map_eq_some_iff.1 hs
  cases h with
  | reading _ hproc _ => rw [hproc] at hp; cases hp
  | copied hsound hsettled hchanged hstage hown hdone =>
    refine .copied ((step_moves hp).sound hsound) hsettled hchanged hstage hown (fun hst => ?_)
    simp only [Proc.step, Proc.piece, Option.ite_none_right_eq_some] at hp
    obtain ⟨-, hp⟩ := hp
    obtain ⟨i, -, hi⟩ := Option.map_eq_some_iff.1 hp
    cases hi
    exact hdone hst

theorem InCall.step (hy : y.yaml.Keeps call.key call.secret) (h : InCall y base past call t)
    (hsees : NotMissed y t e) (hs : t.step y call e = some t') :
    InCall y base past call t' := by
  unfold Storing.step at hs
  split at hs
  · exact h.piece hs
  · rename_i hpc _
    obtain ⟨u, hu, rfl⟩ := Option.map_eq_some_iff.1 hs
    exact h.back hpc hu
  · rename_i hno
    obtain ⟨pc, hpc, rfl⟩ := Option.map_eq_some_iff.1 hs
    exact h.next hy hno hpc
  · obtain ⟨pc, hpc, rfl⟩ := Option.map_eq_some_iff.1 hs
    exact h.failed hy (hsees rfl) hpc

/-! ## Every life -/

structure Life.Inv (y : YamlConf) (calls : StoreCall → Prop) (base : (String → Option Value) → Prop) (s : Life) :
    Prop where
  between : s.call = none → Settled y base s.history s.storing.fs
  during  : ∀ call, s.call = some call → calls call ∧ InCall y base s.history call s.storing

theorem Life.Inv.attempted (hi : s.Inv y calls base) (ho : Leaves s.storing.fs y.credname o) :
    Applied base s.attempts (y.found o) := by
  unfold Life.attempts
  cases hcall : s.call with
  | none =>
    rw [Option.map_none, Option.toList_none, List.append_nil]
    exact hi.between hcall o ho
  | some call => exact (hi.during call hcall).2.attempted ho

theorem Life.Inv.step (hy : ∀ call, calls call → y.yaml.Keeps call.key call.secret) (hi : s.Inv y calls base)
    {e : Life.Event} (hs : s.Step y e s') (hsees : s.Sees y calls e) : s'.Inv y calls base := by
  cases hs with
  | begins call hnone =>
    refine ⟨(nomatch ·), fun call' hcall => ?_⟩
    cases hcall
    exact ⟨hsees, .reading (Or.inl rfl) rfl (hi.between hnone)⟩
  | sys hcall hstep =>
    refine ⟨fun hnone => (nomatch hcall.symm.trans hnone), fun call' hcall' => ?_⟩
    cases hcall.symm.trans hcall'
    obtain ⟨hc, hin⟩ := hi.during _ hcall
    exact ⟨hc, hin.step (hy _ hc) hsees hstep⟩
  | ends _ _ => exact ⟨fun _ _ ho => hi.attempted ho, fun _ h => nomatch h⟩
  | crash creddir hc => exact ⟨fun _ _ ho => hi.attempted (leaves_of_crash hc ho), fun _ h => nomatch h⟩

/-- What was in the file at first, or a crash may have left of it. -/
def YamlConf.Before (y : YamlConf) (fs : Files) (w : String → Option Value) : Prop :=
  ∃ o, Leaves fs y.credname o ∧ y.found o = w

theorem inv_start (y : YamlConf) (calls : StoreCall → Prop) (creddir : Option UInt32) (fs : Files) :
    (Life.start creddir fs).Inv y calls (y.Before fs) where
  between := fun _ o ho => .start ⟨o, ho, rfl⟩
  during  := fun _ h => nomatch h

theorem Life.Reached.inv (hy : ∀ call, calls call → y.yaml.Keeps call.key call.secret) {s₀ : Life}
    (h₀ : s₀.Inv y calls base) (hr : Life.Reached y calls s₀ s) : s.Inv y calls base := by
  induction hr with
  | refl => exact h₀
  | step _ hs hsees ih => exact ih.step hy hs hsees

/-- **What a lookup finds**, in every state of every life, now or after one more crash: the map with the stores that
returned, and some of the others. -/
theorem lookup_applied (y : YamlConf) (calls : StoreCall → Prop)
    (hy : ∀ call, calls call → y.yaml.Keeps call.key call.secret) (creddir : Option UInt32) (fs : Files) (s : Life)
    (hr : Life.Reached y calls (.start creddir fs) s) (fs' : Files)
    (hfs : fs' = s.storing.fs ∨ s.storing.fs.Crash fs') :
    ∃ w, Applied (y.Before fs) s.attempts w ∧ ∀ creddir key v,
      y.lookup key ((Storing.start creddir fs').view y.credname) = .ok v →
        v.given = (w key).filter (fun v => !v.isNone) := by
  have hi := hr.inv hy (inv_start y calls creddir fs)
  have hleaves : Leaves s.storing.fs y.credname (fs'.read y.credname) := by
    rcases hfs with rfl | hc
    · exact leaves_read _ _
    · exact ⟨fs', hc, rfl⟩
  refine ⟨_, hi.attempted hleaves, fun creddir key v hv => ?_⟩
  have hview : ((Storing.start creddir fs').view y.credname).entry y.yaml = y.found (fs'.read y.credname) := by
    funext key
    unfold Creds.entry YamlConf.found FileSystem.read Storing.view
    cases h : fs'.names y.credname <;> simp only [Storing.start, h] <;> rfl
  rw [given_of_yaml hv, hview]

theorem Life.Reached.run {s₀ : Life} (es : List Sys) (hr : Life.Reached y calls s₀ s) (hcall : s.call = some call)
    (hrun : Runs.run (Storing.step y call) s.storing es = some t)
    (hm : Runs.Meets (Storing.step y call) (NotMissed y) s.storing es) :
    Life.Reached y calls s₀ { s with storing := t } := by
  induction es generalizing s with
  | nil => cases hrun; exact hr
  | cons e es ih =>
    obtain ⟨u, hu, hrun⟩ := Option.bind_eq_some_iff.1 hrun
    obtain ⟨hsees, hm⟩ := hm u hu
    exact ih (s := { s with storing := u }) (hr.step (.sys hcall hu) hsees) hcall hrun hm

/-- The second `unlink` finds no temporary file, and fails. -/
theorem lookup_applied_once : ∃ s, Life.Reached twoConf (· = twoStores false) (.start (some 0o700) oneFile) s ∧
    s.attempts = [(twoStores false, true)] ∧ ∃ w, Applied (twoConf.Before oneFile) s.attempts w ∧ ∀ creddir key v,
      twoConf.lookup key ((Storing.start creddir s.storing.fs).view twoConf.credname) = .ok v →
        v.given = (w key).filter (fun v => !v.isNone) := by
  obtain ⟨t, ht, hret⟩ : ∃ t, Runs.run (Storing.step twoConf (twoStores false)) (.start (some 0o700) oneFile)
      (List.replicate 11 .call ++ [.piece 10] ++ List.replicate 8 .call ++ [.fails] ++ List.replicate 4 .call) =
        some t ∧
      t.pc.returned = true :=
    Runs.exists_run_of_any (by decide +kernel)
  have hbegun : Life.Reached twoConf (· = twoStores false) (.start (some 0o700) oneFile)
      { storing := .start (some 0o700) oneFile, call := some (twoStores false), history := [] } :=
    .step .refl (.begins (twoStores false) rfl) rfl
  have hr := hbegun.run _ rfl ht (by decide +kernel)
  refine ⟨_, hr, ?_, lookup_applied twoConf _ (fun call hc => ?_) _ _ _ hr _ (Or.inl rfl)⟩
  · exact congrArg (fun b => [(twoStores false, b)]) hret
  · rw [show call = twoStores false from hc]
    exact twoConf_keeps false

end SecretStore
end Scrapcode
