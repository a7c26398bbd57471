import Scrapcode.OverwriteCrash
import Scrapcode.CredSteps
/-!
# CredPrivate — who can read the secret while it is stored

`YamlConfLookup.store` with every system call of `atomic_overwrite`: any of the calls may fail, and a stale temporary
file may be there.  Every file that is not as it was before the call has no bit of `0o0066`, in every state of every
run (`confidential_always`).

Where the directory or the file has such a bit, `store` raises and the files are as they were (`Refuses`), if the
existence test of the first check does not fail on it: `os.path.exists` is false on an error, and the check then passes
over what is there (`Answered`).

Where no existence test fails, what `store` leaves when it returns is what `YamlConf.store` says (`returned_store`).
-/
namespace Scrapcode
namespace SecretStore

structure Storing where
  creddir    : Option UInt32
  fs         : Files
  pc         : StorePc
  newcontent : List UInt8
  proc       : Proc

def Storing.start (creddir : Option UInt32) (fs : Files) : Storing :=
  { creddir := creddir, fs := fs, pc := .checkStore, newcontent := [], proc := .start }

/-- The call of `atomic_overwrite`. -/
def StoreCall.overwriteCall (call : StoreCall) (newcontent : List UInt8) : Call :=
  { newcontent := newcontent, umask := call.umask }

/-- The directory and the file as the checks and the read see them. -/
def Storing.view (credname : String) (s : Storing) : Creds where
  creddir  := s.creddir
  credfile := (s.fs.names credname).map (fun i => { mode := (s.fs.file i).mode, content := (s.fs.file i).content })

def Storing.goto (s : Storing) (pc : StorePc) : Storing :=
  match pc with
  | .overwrite n => { s with pc := pc, newcontent := n }
  | _            => { s with pc := pc }

/-- After a system call of `atomic_overwrite`: it goes on, returns or raises. -/
def Storing.back (s : Storing) : Storing :=
  match s.proc.pc with
  | .ended true  => s.goto (.dirExists true)
  | .ended false => s.goto (.ended (.error .osError))
  | _            => s

section
variable (y : YamlConf) (call : StoreCall) (s : Storing)

def Storing.sys (e : Sys) : Option Storing :=
  (s.proc.step y.credname (call.overwriteCall s.newcontent) s.fs e).map (fun r => { s with proc := r.1, fs := r.2 })

/-- What is left in the file object may be written at any time. -/
def Storing.step (e : Sys) : Option Storing :=
  match s.pc, e with
  | _, .piece n       => s.sys y call (.piece n)
  | .overwrite _, e   => (s.sys y call e).map .back
  | pc, .call         => (pc.next y call (s.view y.credname)).map (fun pc' =>
    Storing.goto { s with creddir := ((s.view y.credname).after call.umask pc).creddir } pc')
  | pc, .fails        => (pc.failed y call).map s.goto

/-- **Every file that is not as it was** before the call may be read or written by nobody else. -/
def Confidential (old : Files) : Prop := ∀ i, i < s.fs.nextIno →
  (i < old.nextIno ∧ s.fs.file i = old.file i) ∨ exposed (s.fs.file i).mode = false

/-- **Refused**: the files are as they were, and where nothing is left to do `store` has raised. -/
structure Refused (old : Files) : Prop where
  files  : s.fs = old
  raised : s.step y call .call = none → ∃ e, s.pc = .ended (.error e)

/-- The existence test of the first check does not fail on a directory or a file with a bit of `0o0066`. -/
def Answered (e : Sys) : Prop := e = .fails →
  (s.pc = .dirExists false → s.creddir.any exposed = false) ∧
  (s.pc = .fileExists false → (s.view y.credname).credfile.any (fun f => exposed f.mode) = false)

instance Answered.decidable : Decidable (Answered y s e) := inferInstanceAs (Decidable (_ = _ → _ ∧ _))

end

variable {y : YamlConf} {call : StoreCall} {s s' : Storing} {e : Sys} {old : Files} {c : Call} {p p' : Proc}
  {fs fs' : Files} {credname : String}

@[simp] theorem goto_fs (s : Storing) (pc : StorePc) : (s.goto pc).fs = s.fs := by cases pc <;> rfl
@[simp] theorem goto_proc (s : Storing) (pc : StorePc) : (s.goto pc).proc = s.proc := by cases pc <;> rfl
@[simp] theorem goto_pc (s : Storing) (pc : StorePc) : (s.goto pc).pc = pc := by cases pc <;> rfl
@[simp] theorem goto_creddir (s : Storing) (pc : StorePc) : (s.goto pc).creddir = s.creddir := by cases pc <;> rfl
@[simp] theorem back_fs (s : Storing) : s.back.fs = s.fs := by unfold Storing.back; split <;> simp
@[simp] theorem back_proc (s : Storing) : s.back.proc = s.proc := by unfold Storing.back; split <;> simp
@[simp] theorem back_creddir (s : Storing) : s.back.creddir = s.creddir := by unfold Storing.back; split <;> simp

/-! ## The files -/

/-- Old files are as they were, a process writes to a new one only, and new ones are private. -/
structure Confined (umask : UInt32) (old : Files) (p : Proc) (fs : Files) : Prop where
  kept  : ∀ i, i < old.nextIno → fs.file i = old.file i
  grown : old.nextIno ≤ fs.nextIno
  own   : ∀ i, p.tmpfile = some i → old.nextIno ≤ i
  mode  : ∀ i, old.nextIno ≤ i → i < fs.nextIno → (fs.file i).mode = created 0o0600 umask

theorem confined_start (umask : UInt32) (fs : Files) : Confined umask fs .start fs where
  kept  := fun _ _ => rfl
  grown := Nat.le_refl _
  own   := fun _ h => nomatch h
  mode  := fun _ h₁ h₂ => absurd h₂ (Nat.not_lt.2 h₁)

/-- A step that keeps the process's file and changes no old one, nor a mode. -/
theorem Confined.same {umask : UInt32} (h : Confined umask old p fs) (ht : p'.tmpfile = p.tmpfile)
    (hn : fs'.nextIno = fs.nextIno) (hk : ∀ i, i < old.nextIno → fs'.file i = fs.file i)
    (hm : ∀ i, (fs'.file i).mode = (fs.file i).mode) : Confined umask old p' fs' where
  kept  := fun i hi => (hk i hi).trans (h.kept i hi)
  grown := hn ▸ h.grown
  own   := fun i hi => h.own i (ht ▸ hi)
  mode  := fun i h₁ h₂ => (hm i).trans (h.mode i h₁ (hn ▸ h₂))

theorem Moves.confined (hc : c.mode = 0o0600) (h : Confined c.umask old p fs)
    (hm : Moves credname c p fs e p' fs') : Confined c.umask old p' fs' := by
  cases hm with
  | pass _ => exact h.same rfl rfl (fun _ _ => rfl) (fun _ => rfl)
  | hand _ => exact h.same rfl rfl (fun _ _ => rfl) (fun _ => rfl)
  | flush _ _ => exact h.same rfl rfl (fun _ _ => rfl) (fun _ => rfl)
  | fsyncDir _ => exact h.same rfl rfl (fun _ _ => rfl) (fun _ => rfl)
  | fsyncRenamed _ => exact h.same rfl rfl (fun _ _ => rfl) (fun _ => rfl)
  | unlink _ _ hfs =>
    obtain ⟨-, hfile, hnext, -⟩ := FileSystem.unlink_eq_some hfs
    exact h.same rfl hnext (fun i _ => by rw [hfile]) (fun i => by rw [hfile])
  | rename _ hfs =>
    obtain ⟨-, -, hfile, hnext, -⟩ := FileSystem.rename_eq_some hfs
    exact h.same rfl hnext (fun i _ => by rw [hfile]) (fun i => by rw [hfile])
  | create _ hfs =>
    obtain ⟨-, -, hfile, hnext, -⟩ := FileSystem.create_eq_some hfs
    refine ⟨fun i hi => ?_, ?_, fun i hi => ?_, fun i h₁ h₂ => ?_⟩
    · rw [hfile, Function.update_of_ne (Nat.ne_of_lt (Nat.lt_of_lt_of_le hi h.grown))]
      exact h.kept i hi
    · rw [hnext]; exact Nat.le_succ_of_le h.grown
    · cases hi; exact h.grown
    · rw [hfile]
      by_cases hi : i = fs.nextIno
      · subst hi; rw [Function.update_self, ← hc]; rfl
      · rw [Function.update_of_ne hi]
        rw [hnext] at h₂
        exact h.mode i h₁ (by omega)
  | @fsync i _ hi =>
    exact h.same rfl rfl (fun j hj => FileSystem.fsync_of_ne (Nat.ne_of_lt (Nat.lt_of_lt_of_le hj (h.own i hi))))
      (fun _ => FileSystem.fsync_mode)
  | @piece n i _ _ _ hi =>
    exact h.same rfl rfl (fun j hj => FileSystem.write_of_ne (Nat.ne_of_lt (Nat.lt_of_lt_of_le hj (h.own i hi))) _)
      (fun _ => FileSystem.write_mode _)

theorem Confined.confidential {umask : UInt32} (h : Confined umask old s.proc s.fs) : Confidential s old := by
  intro i hi
  by_cases hlt : i < old.nextIno
  · exact Or.inl ⟨hlt, h.kept i hlt⟩
  · refine Or.inr ?_
    rw [h.mode i (Nat.not_lt.1 hlt) hi]
    exact exposed_created rfl

/-- **A step** is a system call of `atomic_overwrite`, or leaves the files alone. -/
theorem storing_step (h : s.step y call e = some s') :
    Moves y.credname (call.overwriteCall s.newcontent) s.proc s.fs e s'.proc s'.fs ∨
    (s'.fs = s.fs ∧ s'.proc = s.proc) := by
  have hsys : ∀ t, s.sys y call e = some t →
      Moves y.credname (call.overwriteCall s.newcontent) s.proc s.fs e t.proc t.fs := fun t ht => by
    obtain ⟨r, hr, rfl⟩ := Option.map_eq_some_iff.1 ht
    exact step_moves hr
  unfold Storing.step at h
  split at h
  · exact Or.inl (hsys s' h)
  · obtain ⟨t, ht, rfl⟩ := Option.map_eq_some_iff.1 h
    rw [back_proc, back_fs]
    exact Or.inl (hsys t ht)
  · obtain ⟨pc, -, rfl⟩ := Option.map_eq_some_iff.1 h
    simp
  · obtain ⟨pc, -, rfl⟩ := Option.map_eq_some_iff.1 h
    simp

theorem confidential_always (y : YamlConf) (call : StoreCall) (creddir : Option UInt32) (fs : Files) (es : List Sys) :
    Runs.Always (Storing.step y call) (Confidential · fs) (.start creddir fs) es := by
  refine Runs.always_of_invariant (I := fun s : Storing => Confined call.umask fs s.proc s.fs)
    (fun _ h => h.confidential) ?_ es (confined_start _ _)
  intro s e s' hs hstep
  rcases storing_step hstep with hm | ⟨hf, hp⟩
  · exact hm.confined rfl hs
  · rw [hf, hp]; exact hs

/-! ## The first check -/

/-- Where a `store` can be while the directory or the file has a bit of `0o0066`. -/
def Before (c : Creds) : StorePc → Prop
  | .checkStore | .makedirs | .dirExists false | .dirStat false | .ended (.error _) => True
  | .fileExists false | .fileStat false                                            => c.creddir.any exposed = false
  | _                                                                              => False

theorem private_after (umask : UInt32) (c : Creds) (pc : StorePc) : (c.after umask pc).Private ↔ c.Private := by
  cases pc with
  | makedirs => unfold Creds.Private Creds.after; rw [Creds.exposed_makedirs]; rfl
  | _        => exact Iff.rfl

theorem before_next {v : Creds} {pc pc' : StorePc} (hp : ¬ v.Private) (h : Before v pc)
    (hn : pc.next y call v = some pc') :
    Before (v.after call.umask pc) pc' := by
  cases pc with
  | checkStore =>
    obtain ⟨⟩ := hn
    cases checkStore call.key call.secret <;> exact trivial
  | makedirs => obtain ⟨⟩ := hn; exact trivial
  | dirExists again =>
    obtain ⟨⟩ := hn
    cases again with
    | true  => cases h
    | false =>
      cases hd : v.creddir with
      | none   => show Before v (.fileExists false); unfold Before; rw [hd]; rfl
      | some m => exact trivial
  | dirStat again =>
    obtain ⟨⟩ := hn
    cases again with
    | true  => cases h
    | false =>
      cases hd : v.creddir.any exposed with
      | true  => exact trivial
      | false => exact hd
  | fileExists again =>
    obtain ⟨⟩ := hn
    cases again with
    | true  => cases h
    | false =>
      cases hf : v.credfile with
      | none   => exact absurd ⟨h, by rw [hf]; rfl⟩ hp
      | some f => exact h
  | fileStat again =>
    obtain ⟨⟩ := hn
    cases again with
    | true  => cases h
    | false =>
      cases hf : v.credfile.any (fun f => exposed f.mode) with
      | true  => exact trivial
      | false => exact absurd ⟨h, hf⟩ hp
  | credExists => cases h
  | load => cases h
  | overwrite n => cases h
  | ended r => cases hn

theorem before_failed {v : Creds} {pc pc' : StorePc} (hp : ¬ v.Private) (h : Before v pc)
    (hd : pc = .dirExists false → v.creddir.any exposed = false)
    (hf : pc = .fileExists false → v.credfile.any (fun f => exposed f.mode) = false)
    (hn : pc.failed y call = some pc') : Before v pc' := by
  cases pc with
  | checkStore => cases hn
  | makedirs => obtain ⟨⟩ := hn; exact trivial
  | dirExists again =>
    obtain ⟨⟩ := hn
    cases again with
    | true  => cases h
    | false => exact hd rfl
  | dirStat again => obtain ⟨⟩ := hn; exact trivial
  | fileExists again =>
    obtain ⟨⟩ := hn
    cases again with
    | true  => cases h
    | false => exact absurd ⟨h, hf rfl⟩ hp
  | fileStat again => obtain ⟨⟩ := hn; exact trivial
  | credExists => cases h
  | load => cases h
  | overwrite n => cases h
  | ended r => cases hn

theorem before_stuck {v : Creds} {pc : StorePc} (h : Before v pc) (hn : pc.next y call v = none) :
    ∃ e, pc = .ended (.error e) := by
  cases pc with
  | overwrite n => cases h
  | ended r =>
    cases r with
    | ok u    => cases h
    | error e => exact ⟨e, rfl⟩
  | _ => cases hn

@[simp] theorem view_goto (s : Storing) (pc : StorePc) : (s.goto pc).view credname = s.view credname := by
  cases pc <;> rfl

theorem view_after (s : Storing) (umask : UInt32) (pc : StorePc) :
    Storing.view credname { s with creddir := ((s.view credname).after umask pc).creddir } =
      (s.view credname).after umask pc := by
  cases pc <;> rfl

/-- Nothing has been done to the files, and `store` is on its way to raise. -/
structure Blocked (credname : String) (old : Files) (s : Storing) : Prop where
  files  : s.fs = old
  proc   : s.proc = .start
  opened : ¬ (s.view credname).Private
  place  : Before (s.view credname) s.pc

theorem Blocked.not_overwrite (h : Blocked credname old s) (n : List UInt8) : s.pc ≠ .overwrite n := by
  intro hpc
  have := h.place
  rw [hpc] at this
  exact this

theorem Blocked.step (h : Blocked y.credname old s) (hC : Answered y s e) (hs : s.step y call e = some s') :
    Blocked y.credname old s' := by
  unfold Storing.step at hs
  split at hs
  · obtain ⟨r, hr, -⟩ := Option.map_eq_some_iff.1 hs
    rw [h.proc] at hr
    cases hr
  · rename_i hpc _
    exact absurd hpc (h.not_overwrite _)
  · obtain ⟨pc, hpc, rfl⟩ := Option.map_eq_some_iff.1 hs
    refine ⟨?_, ?_, ?_, ?_⟩
    · rw [goto_fs]; exact h.files
    · rw [goto_proc]; exact h.proc
    · rw [view_goto, view_after, private_after]; exact h.opened
    · rw [view_goto, view_after, goto_pc]; exact before_next h.opened h.place hpc
  · obtain ⟨pc, hpc, rfl⟩ := Option.map_eq_some_iff.1 hs
    refine ⟨?_, ?_, ?_, ?_⟩
    · rw [goto_fs]; exact h.files
    · rw [goto_proc]; exact h.proc
    · rw [view_goto]; exact h.opened
    · rw [view_goto, goto_pc]
      exact before_failed h.opened h.place (hC rfl).1 (hC rfl).2 hpc

theorem Blocked.refused (h : Blocked y.credname old s) : Refused y call s old where
  files  := h.files
  raised := fun hs => by
    unfold Storing.step at hs
    split at hs
    · rename_i heq; cases heq
    · rename_i hpc _
      exact absurd hpc (h.not_overwrite _)
    · exact before_stuck h.place (Option.map_eq_none_iff.1 hs)
    · rename_i heq _; cases heq

/-- **What an exposed directory or file leads to**: nothing is written, and `store` raises. -/
theorem refused_always (y : YamlConf) (call : StoreCall) (creddir : Option UInt32) (fs : Files) (es : List Sys)
    (hp : ¬ ((Storing.start creddir fs).view y.credname).Private)
    (hC : Runs.Meets (Storing.step y call) (Answered y) (.start creddir fs) es) :
    Runs.Always (Storing.step y call) (Refused y call · fs) (.start creddir fs) es :=
  Runs.always_of_meets (I := Blocked y.credname fs) (fun _ h => h.refused) (fun _ _ _ h hC hs => h.step hC hs) es
    ⟨rfl, rfl, hp, trivial⟩ hC

/-- **Confidentiality of the YAML store**: in every state of every run, every file that is not as it was is private;
and where the directory or the file is exposed, `store` raises and leaves the files, if the tests of the first check
are answered. -/
theorem confidential_and_refused (y : YamlConf) (call : StoreCall) (creddir : Option UInt32) (fs : Files)
    (es : List Sys) :
    Runs.Always (Storing.step y call) (Confidential · fs) (.start creddir fs) es ∧
    (¬ ((Storing.start creddir fs).view y.credname).Private →
      Runs.Meets (Storing.step y call) (Answered y) (.start creddir fs) es →
      Runs.Always (Storing.step y call) (Refused y call · fs) (.start creddir fs) es) :=
  ⟨confidential_always y call creddir fs es, refused_always y call creddir fs es⟩

def oneConf : YamlConf :=
  { creddir := "/home/u/.cache/app", credname := "app_cred.yml", yaml := plainYaml [[(.str "a", .str "x")]] }

def plainFile (mode : UInt32) : Files :=
  .single oneConf.credname { content := plainText [(.str "a", .str "x")], mode := mode, synced := true }

def oneFile : Files := plainFile 0o600

def secondKey : StoreCall := { key := "b", secret := "y", umask := 0o022 }

/-- All may read the file, and the one test that fails is of the directory, which is private. -/
theorem confidential_and_refused_open_file :
    ∃ s, Runs.run (Storing.step oneConf secondKey) (.start (some 0o700) (plainFile 0o644))
        [.call, .call, .fails, .call, .call] = some s ∧
      s.fs = plainFile 0o644 ∧ ∃ e, s.pc = .ended (.error e) := by
  have hrefused := (confidential_and_refused oneConf secondKey (some 0o700) (plainFile 0o644)
    [.call, .call, .fails, .call, .call]).2 (by decide +kernel) (by decide +kernel)
  obtain ⟨s, hrun, hend⟩ : ∃ s, Runs.run (Storing.step oneConf secondKey) (.start (some 0o700) (plainFile 0o644))
      [.call, .call, .fails, .call, .call] = some s ∧ (s.step oneConf secondKey .call).isNone := by
    apply Runs.exists_run_of_any
    decide +kernel
  have hs := hrefused.reached _ hrun
  exact ⟨s, hrun, hs.files, hs.raised (Option.isNone_iff_eq_none.1 hend)⟩

/-! ## What a `store` that returned did -/

/-- No existence test fails. -/
def Truthful (s : Storing) (e : Sys) : Prop :=
  e = .fails → (∀ again, s.pc ≠ .dirExists again ∧ s.pc ≠ .fileExists again) ∧ s.pc ≠ .credExists

open Runs (Reaches)

/-- The run so far, seen as one of the single steps: `atomic_overwrite` is not one until it has returned. -/
def Follows (y : YamlConf) (call : StoreCall) (v₀ : Creds) (old : Files) (s : Storing) : Prop :=
  match s.pc.stage with
  | .raised   => True
  | .reading  => s.fs = old ∧ s.proc = .start ∧
    Reaches (StorePc.alone y call) (v₀, .checkStore) (s.view y.credname, s.pc)
  | .copied   => s.pc = .overwrite s.newcontent ∧
    Sound y.credname (call.overwriteCall s.newcontent) old s.proc s.fs ∧ Confined call.umask old s.proc s.fs ∧
    (∀ r, s.proc.pc ≠ .ended r) ∧
    ∃ f, Reaches (StorePc.alone y call) (v₀, .checkStore) ({ creddir := s.creddir, credfile := f }, s.pc)
  | .replaced => s.proc.written = s.newcontent.length ∧
    Reaches (StorePc.alone y call) (v₀, .checkStore) (s.view y.credname, s.pc)

theorem follows_raised {v₀ : Creds} (h : s.pc.stage = .raised) : Follows y call v₀ old s := by
  unfold Follows; rw [h]; trivial

@[simp] theorem goto_newcontent_of_ne (s : Storing) {pc : StorePc} (h : ∀ n, pc ≠ .overwrite n) :
    (s.goto pc).newcontent = s.newcontent := by
  cases pc <;> first | rfl | exact absurd rfl (h _)

/-- What the file is once `atomic_overwrite` has returned. -/
theorem view_of_returned {n : List UInt8} (hs : Sound credname (call.overwriteCall n) old s.proc s.fs)
    (hc : Confined call.umask old s.proc s.fs) (hpc : s.proc.pc = .ended true) :
    s.proc.written = n.length ∧
    s.view credname = { creddir := s.creddir, credfile := some { mode := created 0o0600 call.umask, content := n } } := by
  have hh := hs.holds
  unfold Holds at hh
  rw [hpc] at hh
  obtain ⟨i, hi, hd⟩ := hh
  obtain ⟨hlo, hlt, hcontent⟩ := hs.own i hi.1
  have hw : s.proc.written = n.length := hi.2.1
  refine ⟨hw, ?_⟩
  unfold Storing.view
  rw [hd _ s.fs.survives_names, Option.map_some, hc.mode i hlo hlt, hcontent, hw]
  exact congrArg (fun l => Creds.mk s.creddir (some (CredFile.mk _ l))) (List.take_length)

/-- A step that the single steps take too. -/
theorem follows_next {v₀ : Creds} {pc : StorePc} (h : Follows y call v₀ old s) (hno : ∀ n, s.pc ≠ .overwrite n)
    (hpc : s.pc.next y call (s.view y.credname) = some pc) :
    Follows y call v₀ old
      (Storing.goto { s with creddir := ((s.view y.credname).after call.umask s.pc).creddir } pc) := by
  have hstep : s.pc.step y call (s.view y.credname) = some ((s.view y.credname).after call.umask s.pc, pc) := by
    unfold StorePc.step
    split
    · rename_i heq; exact absurd heq (hno _)
    · rw [hpc]; rfl
  have hreach : Reaches (StorePc.alone y call) (v₀, .checkStore) (s.view y.credname, s.pc) →
      Reaches (StorePc.alone y call) (v₀, .checkStore) ((s.view y.credname).after call.umask s.pc, pc) := fun hr =>
    hr.trans (.head (e := ()) hstep (.refl _))
  have hmoves := step_storeMoves hstep
  generalize hv : (s.view y.credname).after call.umask s.pc = v at hmoves hreach hstep
  have hview : ∀ pc', (Storing.goto { s with creddir := v.creddir } pc').view y.credname = v := fun pc' => by
    rw [view_goto, ← hv, view_after]
  -- a step within reading, or within the check that follows
  have hpass : (s.pc).stage ≠ .copied → pc.stage = s.pc.stage →
      Follows y call v₀ old (Storing.goto { s with creddir := v.creddir } pc) := by
    intro hc hst
    have hn : ∀ n, pc ≠ .overwrite n := fun n hn => hc (by rw [← hst, hn]; rfl)
    unfold Follows at h ⊢
    rw [goto_pc, hst, hview]
    cases hs : s.pc.stage with
    | raised   => trivial
    | copied   => exact absurd hs hc
    | reading  =>
      rw [hs] at h
      exact ⟨(goto_fs _ _).trans h.1, (goto_proc _ _).trans h.2.1, hreach h.2.2⟩
    | replaced =>
      rw [hs] at h
      rw [goto_newcontent_of_ne _ hn, goto_proc]
      exact ⟨h.1, hreach h.2⟩
  cases hmoves with
  | pass hc hst _ => exact hpass hc hst
  | makedirs hpc' => exact hpass (by rw [hpc']; decide) (by rw [hpc']; rfl)
  | raise => exact follows_raised (by rw [goto_pc]; rfl)
  | copy hst _ hm =>
    unfold Follows at h ⊢
    rw [hst] at h
    obtain ⟨hfs, hproc, hr⟩ := h
    rw [goto_pc]
    refine ⟨rfl, ?_, ?_, fun r => ?_, _, hreach hr⟩
    · rw [goto_fs, goto_proc, hfs, hproc]; exact sound_start _ _ _
    · rw [goto_fs, goto_proc, hfs, hproc]; exact confined_start _ _
    · rw [goto_proc, hproc]; exact fun hp => nomatch hp
  | replace hpc' => exact absurd hpc' (hno _)

/-- **A system call of `atomic_overwrite`**: it is under way, has returned, which is the single step, or has raised. -/
theorem follows_back {v₀ : Creds} {t : Storing} {n : List UInt8} (h : Follows y call v₀ old s)
    (hpc : s.pc = .overwrite n) (ht : s.sys y call e = some t) : Follows y call v₀ old t.back := by
  unfold Follows at h
  rw [hpc] at h
  obtain ⟨hn, hsound, hconf, -, f, hr⟩ := h
  cases hn
  obtain ⟨⟨p', fs'⟩, hp, rfl⟩ := Option.map_eq_some_iff.1 ht
  have hm := step_moves hp
  have hsound' := hm.sound hsound
  have hconf' := hm.confined rfl hconf
  unfold Storing.back
  split
  · rename_i hend
    obtain ⟨hw, hview⟩ := view_of_returned (s := { s with proc := p', fs := fs' }) hsound' hconf' hend
    have hne : ∀ n, StorePc.dirExists true ≠ .overwrite n := fun _ h => nomatch h
    unfold Follows
    rw [goto_pc]
    refine ⟨?_, ?_⟩
    · rw [goto_proc, goto_newcontent_of_ne _ hne]; exact hw
    · rw [view_goto, hview]
      exact hr.trans (.head (e := ()) rfl (.refl _))
  · exact follows_raised (by rw [goto_pc]; rfl)
  · rename_i hne₁ hne₂
    unfold Follows
    rw [hpc]
    refine ⟨rfl, hsound', hconf', fun r hr => ?_, f, hr⟩
    cases r with
    | true  => exact hne₁ hr
    | false => exact hne₂ hr

/-- What the file object still holds is written while `atomic_overwrite` is under way, or after it has raised. -/
theorem follows_piece {v₀ : Creds} {n : Nat} (h : Follows y call v₀ old s) (ht : s.sys y call (.piece n) = some s') :
    Follows y call v₀ old s' := by
  obtain ⟨⟨p', fs'⟩, hp, rfl⟩ := Option.map_eq_some_iff.1 ht
  have hm := step_moves hp
  unfold Follows at h ⊢
  cases hs : s.pc.stage with
  | raised   => trivial
  | reading  =>
    rw [hs] at h
    obtain ⟨-, hproc, -⟩ := h
    rw [hproc] at hp
    cases hp
  | copied   =>
    rw [hs] at h
    obtain ⟨hn, hsound, hconf, hend, hr⟩ := h
    refine ⟨hn, hm.sound hsound, hm.confined rfl hconf, fun r => ?_, hr⟩
    simp only [Proc.step, Proc.piece, Option.ite_none_right_eq_some] at hp
    obtain ⟨-, hp⟩ := hp
    obtain ⟨i, -, hi⟩ := Option.map_eq_some_iff.1 hp
    cases hi
    exact hend r
  | replaced =>
    rw [hs] at h
    simp only [Proc.step, Proc.piece, Option.ite_none_right_eq_some] at hp
    obtain ⟨⟨-, hn, hw⟩, -⟩ := hp
    have hw' : s.proc.written + n ≤ s.newcontent.length := hw
    have hl : s.proc.written = s.newcontent.length := h.1
    exact absurd hw' (by omega)

theorem follows_step {v₀ : Creds} (h : Follows y call v₀ old s) (hC : Truthful s e) (hs : s.step y call e = some s') :
    Follows y call v₀ old s' := by
  unfold Storing.step at hs
  split at hs
  · exact follows_piece h hs
  · rename_i hpc _
    obtain ⟨t, ht, rfl⟩ := Option.map_eq_some_iff.1 hs
    exact follows_back h hpc ht
  · rename_i hno
    obtain ⟨pc, hpc, rfl⟩ := Option.map_eq_some_iff.1 hs
    exact follows_next h hno hpc
  · obtain ⟨pc, hpc, rfl⟩ := Option.map_eq_some_iff.1 hs
    obtain ⟨htest, hcred⟩ := hC rfl
    cases hp : s.pc with
    | dirExists again  => exact absurd hp (htest again).1
    | fileExists again => exact absurd hp (htest again).2
    | credExists       => exact absurd hp hcred
    | makedirs | dirStat again | fileStat again | load =>
      rw [hp] at hpc
      cases hpc
      exact follows_raised (by rw [goto_pc]; rfl)
    | checkStore | overwrite n | ended r => rw [hp] at hpc; cases hpc

/-- **Where no existence test fails, a `store` that returned did what `YamlConf.store` says.** -/
theorem returned_store (y : YamlConf) (call : StoreCall) (creddir : Option UInt32) (fs : Files) (es : List Sys)
    (s : Storing) (hr : Runs.run (Storing.step y call) (.start creddir fs) es = some s)
    (hC : Runs.Meets (Storing.step y call) Truthful (.start creddir fs) es) (hret : s.pc = .ended (.ok ())) :
    y.store call.umask call.key call.secret ((Storing.start creddir fs).view y.credname) =
      .ok (s.view y.credname) := by
  have h₀ : Follows y call ((Storing.start creddir fs).view y.credname) fs (.start creddir fs) := ⟨rfl, rfl, .refl _⟩
  have hf := (Runs.always_of_meets (fun _ h => h) (fun _ _ _ h hC hs => follows_step h hC hs) es h₀ hC).reached es hr
  unfold Follows at hf
  rw [hret] at hf
  obtain ⟨c', halone, hd⟩ := run_alone y call ((Storing.start creddir fs).view y.credname)
  have heq := Reaches.unique rfl rfl hf.2 halone
  cases hst : y.store call.umask call.key call.secret ((Storing.start creddir fs).view y.credname) with
  | error e => rw [hst] at heq; cases heq
  | ok d    => rw [← hd d hst]; exact congrArg Except.ok (congrArg Prod.fst heq).symm

/-! ## A directory that all may read -/

/-- **`os.path.exists` fails on the directory**: the check passes over it and the file is replaced. -/
theorem replaced_in_open_dir : ¬ ((Storing.start (some 0o755) oneFile).view oneConf.credname).Private ∧
    ∃ s, Runs.run (Storing.step oneConf secondKey) (.start (some 0o755) oneFile)
      ([.call, .call, .fails] ++ List.replicate 7 .call ++ [.piece 10] ++ List.replicate 6 .call) = some s ∧
    s.fs.read oneConf.credname ≠ oneFile.read oneConf.credname := by
  constructor
  · decide +kernel
  · apply Runs.exists_run_of_any
    decide +kernel

end SecretStore
end Scrapcode
