import Scrapcode.Runs
import Scrapcode.OverwriteSteps
/-!
# OverwriteCrash — what a crash leaves of one overwrite

One process overwrites `destpath`, from any directory: names may be pending in the journal, files unsynced, the
temporary file of an earlier call still there.  What `destpath` may hold after a crash is what a crash before the call
could have left, or the whole new content (`CrashSafe`); once the call has returned it is the new content.

The proof follows the directories that may survive: the only change of `destpath` that is ever recorded binds it to the
process's own file, and that file was written and synced before.
-/
namespace Scrapcode
namespace SecretStore

structure Overwrite where
  fs   : Files
  proc : Proc

def Overwrite.start (fs : Files) : Overwrite := { fs := fs, proc := .start }

def Overwrite.step (destpath : String) (c : Call) (s : Overwrite) (e : Sys) : Option Overwrite :=
  (s.proc.step destpath c s.fs e).map (fun r => { fs := r.2, proc := r.1 })

/-- **What a crash leaves of `destpath`.**  Where its old content was durable the first part gives that content. -/
structure CrashSafe (destpath : String) (c : Call) (old : Files) (s : Overwrite) : Prop where
  recovers : ∀ fs', s.fs.Crash fs' → fs'.read destpath = some c.newcontent ∨
    ∃ old', old.Crash old' ∧ fs'.read destpath = old'.read destpath
  durable  : old.Durable destpath → ∀ fs', s.fs.Crash fs' →
    fs'.read destpath = some c.newcontent ∨ fs'.read destpath = old.read destpath
  returned : s.proc.pc = .ended true → ∀ fs', s.fs.Crash fs' → fs'.read destpath = some c.newcontent

/-! ## The invariant -/

/-- The file is the process's own, written to its end and on disk. -/
def Complete (c : Call) (p : Proc) (fs : Files) (i : Nat) : Prop :=
  p.tmpfile = some i ∧ p.written = c.newcontent.length ∧ (fs.file i).synced = true

/-- What a process alone knows of the names, by its phase. -/
def Holds (destpath : String) (c : Call) (p : Proc) (fs : Files) : Prop :=
  match p.pc.phase with
  | .looking | .failed => True
  | .opened | .written => p.tmpfile = fs.names (tmppath destpath)
  | .synced            => p.tmpfile = fs.names (tmppath destpath) ∧ ∃ i, Complete c p fs i
  | .renamed           => ∃ i, Complete c p fs i ∧ fs.names destpath = some i
  | .durable           => ∃ i, Complete c p fs i ∧ ∀ d, fs.Survives d → d destpath = some i

structure Sound (destpath : String) (c : Call) (old : Files) (p : Proc) (fs : Files) : Prop where
  knows    : Knows c p
  kept     : ∀ i, i < old.nextIno → fs.file i = old.file i
  grown    : old.nextIno ≤ fs.nextIno
  own      : ∀ i, p.tmpfile = some i → old.nextIno ≤ i ∧ i < fs.nextIno ∧
    (fs.file i).content = c.newcontent.take p.written
  survives : ∀ d, fs.Survives d → (∃ i, Complete c p fs i ∧ d destpath = some i) ∨
    ∃ d', old.Survives d' ∧ d destpath = d' destpath
  holds    : Holds destpath c p fs

variable {destpath : String} {c : Call} {old fs fs' : Files} {p p' : Proc} {e : Sys}

theorem sound_start (destpath : String) (c : Call) (fs : Files) : Sound destpath c fs .start fs where
  knows    := knows_start c
  kept     := fun _ _ => rfl
  grown    := Nat.le_refl _
  own      := fun _ h => (nomatch h)
  survives := fun d hd => Or.inr ⟨d, hd, rfl⟩
  holds    := trivial

theorem Sound.content (h : Sound destpath c old p fs) {i : Nat} (hi : Complete c p fs i) (hc : fs.Crash fs') :
    (fs'.file i).content = c.newcontent := by
  rw [hc.files i hi.2.2, (h.own i hi.1).2.2, hi.2.1, List.take_length]

theorem Sound.recovers (h : Sound destpath c old p fs) (hc : fs.Crash fs') :
    fs'.read destpath = some c.newcontent ∨ ∃ old', old.Crash old' ∧ fs'.read destpath = old'.read destpath := by
  unfold FileSystem.read
  rcases h.survives _ hc.names with ⟨i, hi, hd⟩ | ⟨d, hd, heq⟩
  · refine Or.inl ?_
    rw [hd, Option.map_some, h.content hi hc]
  · -- the same directory, with the same files, is left by a crash before the call
    obtain ⟨old', hold, hnames, hfile⟩ := hd.crash
      (fun i => if i < old.nextIno then (fs'.file i).content else (old.file i).content) (fun i hi => by
        split
        · rename_i hlt
          have hk := h.kept i hlt
          rw [hc.files i (by rw [hk]; exact hi), hk]
        · rfl)
    refine Or.inr ⟨old', hold, ?_⟩
    rw [heq, hnames]
    cases ho : d destpath with
    | none   => rfl
    | some i => simp only [Option.map_some, hfile, if_pos (hd.lt _ _ ho)]

theorem Sound.returned (h : Sound destpath c old p fs) (hpc : p.pc = .ended true) (hc : fs.Crash fs') :
    fs'.read destpath = some c.newcontent := by
  have hh := h.holds
  unfold Holds at hh
  rw [hpc] at hh
  obtain ⟨i, hi, hd⟩ := hh
  unfold FileSystem.read
  rw [hd _ hc.names, Option.map_some, h.content hi hc]

theorem Sound.crashSafe (h : Sound destpath c old p fs) : CrashSafe destpath c old ⟨fs, p⟩ where
  recovers := fun _ hc => h.recovers hc
  durable  := fun hd fs' hc => by
    rcases h.recovers hc with hn | ⟨old', ho, hr⟩
    · exact Or.inl hn
    · exact Or.inr (hr.trans (hd old' ho))
  returned := fun hpc _ hc => h.returned hpc hc

/-! ## One step -/

/-- The same file, as complete as before. -/
theorem Complete.of_eq (ht : p'.tmpfile = p.tmpfile) (hw : p'.written = p.written)
    (hf : ∀ i, (fs.file i).synced = true → (fs'.file i).synced = true) {i : Nat} (h : Complete c p fs i) :
    Complete c p' fs' i :=
  ⟨ht.trans h.1, hw.trans h.2.1, hf i h.2.2⟩

/-- **A step that writes nothing**: what remains to prove is which directories survive, and what the process holds. -/
theorem Sound.names (h : Sound destpath c old p fs) (hk : Knows c p') (ht : p'.tmpfile = p.tmpfile)
    (hw : p'.written = p.written) (hfile : fs'.file = fs.file) (hnext : fs'.nextIno = fs.nextIno)
    (hs : ∀ d, fs'.Survives d → (∃ i, Complete c p fs i ∧ d destpath = some i) ∨
      ∃ d', fs.Survives d' ∧ d destpath = d' destpath)
    (hh : Holds destpath c p' fs') : Sound destpath c old p' fs' where
  knows    := hk
  kept     := fun i hi => by rw [hfile]; exact h.kept i hi
  grown    := hnext ▸ h.grown
  own      := fun i hi => by
    rw [ht] at hi
    rw [hnext, hfile, hw]
    exact h.own i hi
  survives := fun d hd => by
    have hsame : ∀ i, Complete c p fs i → Complete c p' fs' i := fun i hi => hi.of_eq ht hw (fun j hj => hfile ▸ hj)
    rcases hs d hd with ⟨i, hi, hd'⟩ | ⟨d', hd', heq⟩
    · exact Or.inl ⟨i, hsame i hi, hd'⟩
    · rcases h.survives d' hd' with ⟨i, hi, hdi⟩ | ⟨d₀, hd₀, heq₀⟩
      · exact Or.inl ⟨i, hsame i hi, heq.trans hdi⟩
      · exact Or.inr ⟨d₀, hd₀, heq.trans heq₀⟩
  holds    := hh

theorem Holds.pass (h : Holds destpath c p fs) (ht : p'.tmpfile = p.tmpfile) (hw : p'.written = p.written)
    (hpc : p'.pc.phase = p.pc.phase ∨ p'.pc.phase = .failed) : Holds destpath c p' fs := by
  have hsame : ∀ i, Complete c p fs i → Complete c p' fs i := fun i hi => hi.of_eq ht hw (fun _ h => h)
  unfold Holds at h ⊢
  rcases hpc with hpc | hpc
  · rw [hpc]
    cases hp : p.pc.phase with
    | looking => trivial
    | failed  => trivial
    | opened  => rw [hp] at h; exact ht.trans h
    | written => rw [hp] at h; exact ht.trans h
    | synced  => rw [hp] at h; obtain ⟨h₁, i, hi⟩ := h; exact ⟨ht.trans h₁, i, hsame i hi⟩
    | renamed => rw [hp] at h; obtain ⟨i, hi, hd⟩ := h; exact ⟨i, hsame i hi, hd⟩
    | durable => rw [hp] at h; obtain ⟨i, hi, hd⟩ := h; exact ⟨i, hsame i hi, hd⟩
  · rw [hpc]; trivial

theorem Sound.unlink (h : Sound destpath c old p fs) {pc : Pc} (hk : Knows c (p.to pc)) (hpc : pc.phase = p.pc.phase)
    (hphase : p.pc.phase = .looking ∨ p.pc.phase = .durable ∨ p.pc.phase = .failed)
    (hfs : fs.unlink (tmppath destpath) = some fs') : Sound destpath c old (p.to pc) fs' := by
  obtain ⟨-, hfile, hnext, hsur⟩ := FileSystem.unlink_eq_some hfs
  have hs : ∀ d, fs'.Survives d → ∃ d', fs.Survives d' ∧ d destpath = d' destpath := fun d hd => by
    obtain ⟨d', hd', heq⟩ := hsur d hd
    exact ⟨d', hd', heq _ (destpath_ne_tmppath destpath)⟩
  refine h.names hk rfl rfl hfile hnext (fun d hd => Or.inr (hs d hd)) ?_
  have hh := h.holds
  unfold Holds at hh ⊢
  simp only [Proc.to, hpc]
  rcases hphase with hphase | hphase | hphase
  · rw [hphase]; trivial
  · rw [hphase] at hh ⊢
    obtain ⟨i, hi, hd⟩ := hh
    refine ⟨i, hi.of_eq rfl rfl (fun j hj => hfile ▸ hj), fun d hd' => ?_⟩
    obtain ⟨d', hd'', heq⟩ := hs d hd'
    exact heq.trans (hd d' hd'')
  · rw [hphase]; trivial

theorem Sound.create (h : Sound destpath c old p fs) {mode : UInt32} (hk : Knows c (p.opened fs.nextIno))
    (hpc : p.pc = .openTmp) (hfs : fs.create (tmppath destpath) mode = some fs') :
    Sound destpath c old (p.opened fs.nextIno) fs' := by
  obtain ⟨-, hnames, hfile, hnext, hsur⟩ := FileSystem.create_eq_some hfs
  have hlook : p.tmpfile = none ∧ p.handed = false ∧ p.written = 0 := by
    have := h.knows; unfold Knows at this; rwa [hpc] at this
  constructor
  · exact hk
  · intro i hi
    rw [hfile, Function.update_of_ne (Nat.ne_of_lt (Nat.lt_of_lt_of_le hi h.grown))]
    exact h.kept i hi
  · rw [hnext]; exact Nat.le_succ_of_le h.grown
  · intro i hi
    have hi' : fs.nextIno = i := Option.some.inj hi
    subst hi'
    rw [hnext, hfile, Function.update_self]
    refine ⟨h.grown, Nat.lt_succ_self _, ?_⟩
    simp only [Proc.opened, hlook.2.2, List.take_zero]
  · intro d hd
    obtain ⟨d', hd', heq⟩ := hsur d hd
    have heq' := heq _ (destpath_ne_tmppath destpath)
    rcases h.survives d' hd' with ⟨i, hi, -⟩ | ⟨d₀, hd₀, heq₀⟩
    · exact absurd (hlook.1.symm.trans hi.1) (nomatch ·)
    · exact Or.inr ⟨d₀, hd₀, heq'.trans heq₀⟩
  · show some fs.nextIno = fs'.names (tmppath destpath)
    rw [hnames, Function.update_self]

theorem Sound.fsync (h : Sound destpath c old p fs) {i : Nat} (hk : Knows c (p.to .close)) (hpc : p.pc = .fsyncTmp)
    (hi : p.tmpfile = some i) : Sound destpath c old (p.to .close) (fs.fsync i) := by
  have hkn := h.knows
  have hh := h.holds
  unfold Knows at hkn
  unfold Holds at hh
  rw [hpc] at hkn hh
  constructor
  · exact hk
  · intro j hj
    rw [FileSystem.fsync_of_ne (Nat.ne_of_lt (Nat.lt_of_lt_of_le hj (h.own i hi).1))]
    exact h.kept j hj
  · exact h.grown
  · intro j hj
    obtain ⟨h₁, h₂, h₃⟩ := h.own j hj
    exact ⟨h₁, h₂, FileSystem.fsync_content.trans h₃⟩
  · intro d hd
    rcases h.survives d hd with ⟨j, hj, hdj⟩ | hold
    · exact Or.inl ⟨j, hj.of_eq rfl rfl (fun _ => FileSystem.fsync_keeps_synced), hdj⟩
    · exact Or.inr hold
  · exact ⟨hh, i, hi, hkn.2, FileSystem.fsync_synced⟩

theorem Sound.fsyncDir (h : Sound destpath c old p fs) {pc : Pc} (hk : Knows c (p.to pc))
    (hh : Holds destpath c (p.to pc) fs.fsyncDir) : Sound destpath c old (p.to pc) fs.fsyncDir :=
  h.names hk rfl rfl rfl rfl
    (fun d hd => Or.inr ⟨d, by rw [FileSystem.survives_fsyncDir.1 hd]; exact fs.survives_names, rfl⟩) hh

theorem Sound.piece (h : Sound destpath c old p fs) {n i : Nat} (hk : Knows c (p.wrote n)) (hn : 0 < n)
    (hw : p.written + n ≤ c.newcontent.length) (hi : p.tmpfile = some i) :
    Sound destpath c old (p.wrote n) (fs.write i ((c.newcontent.drop p.written).take n)) := by
  obtain ⟨hlo, hhi, hcontent⟩ := h.own i hi
  -- something is left to write, so no file is complete yet
  have hnone : ∀ j, ¬ Complete c p fs j := fun j hj => by have := hj.2.1; omega
  constructor
  · exact hk
  · intro j hj
    rw [FileSystem.write_of_ne (Nat.ne_of_lt (Nat.lt_of_lt_of_le hj hlo))]
    exact h.kept j hj
  · exact h.grown
  · intro j hj
    have hji : j = i := Option.some.inj (hj.symm.trans hi)
    subst hji
    refine ⟨hlo, hhi, ?_⟩
    rw [FileSystem.write_content, hcontent]
    exact List.take_add.symm
  · intro d hd
    rcases h.survives d hd with ⟨j, hj, -⟩ | hold
    · exact absurd hj (hnone j)
    · exact Or.inr hold
  · have hh := h.holds
    have hkn := h.knows
    unfold Holds at hh ⊢
    unfold Knows at hkn
    simp only [Proc.wrote]
    cases hp : p.pc.phase with
    | looking => trivial
    | failed  => trivial
    | opened  => rw [hp] at hh; exact hh
    | written => rw [hp] at hkn; have := hkn.2; omega
    | synced  => rw [hp] at hkn; have := hkn.2; omega
    | renamed => rw [hp] at hkn; have := hkn.2; omega
    | durable => rw [hp] at hkn; have := hkn.2; omega

theorem Moves.sound (h : Sound destpath c old p fs) (hm : Moves destpath c p fs e p' fs') :
    Sound destpath c old p' fs' := by
  have hk := hm.knows h.knows
  have hh := h.holds
  have hsame : ∀ d, fs.Survives d → (∃ i, Complete c p fs i ∧ d destpath = some i) ∨
      ∃ d', fs.Survives d' ∧ d destpath = d' destpath := fun d hd => Or.inr ⟨d, hd, rfl⟩
  cases hm with
  | pass hpc => exact h.names hk rfl rfl rfl rfl hsame (hh.pass rfl rfl hpc)
  | hand hpc => exact h.names hk rfl rfl rfl rfl hsame (hh.pass rfl rfl (Or.inl (by rw [hpc]; rfl)))
  | unlink hpc hphase hfs => exact h.unlink hk hpc hphase hfs
  | create hpc hfs => exact h.create hk hpc hfs
  | flush hpc _ =>
    refine h.names hk rfl rfl rfl rfl hsame ?_
    unfold Holds at hh; rw [hpc] at hh; exact hh
  | fsync hpc hi => exact h.fsync hk hpc hi
  | fsyncDir hpc =>
    refine h.fsyncDir hk ?_
    unfold Holds at hh; rw [hpc] at hh
    obtain ⟨ht, i, hi⟩ := hh
    exact ⟨ht, i, hi⟩
  | rename hpc hfs =>
    unfold Holds at hh; rw [hpc] at hh
    obtain ⟨ht, i, hi⟩ := hh
    obtain ⟨j, hsrc, hfile, hnext, hdst, -, hsur⟩ := FileSystem.rename_eq_some hfs
    have hji : j = i := Option.some.inj ((hsrc.symm.trans ht.symm).trans hi.1)
    subst hji
    refine h.names hk rfl rfl hfile hnext (fun d hd => ?_) ⟨j, hi.of_eq rfl rfl (fun k hk => hfile ▸ hk), hdst⟩
    rcases hsur d hd with hd | hd
    · exact Or.inl ⟨j, hi, hd⟩
    · exact hsame d hd
  | fsyncRenamed hpc =>
    refine h.fsyncDir hk ?_
    unfold Holds at hh; rw [hpc] at hh
    obtain ⟨i, hi, hd⟩ := hh
    exact ⟨i, hi, fun d hd' => by rw [FileSystem.survives_fsyncDir.1 hd']; exact hd⟩
  | piece _ hn hw hi => exact h.piece hk hn hw hi

/-- **In every state of every run of one overwrite**, whatever fails on the way, a crash leaves the old content or the
new, and the new once the call has returned. -/
theorem crashSafe_always (destpath : String) (c : Call) (fs : Files) (es : List Sys) :
    Runs.Always (Overwrite.step destpath c) (CrashSafe destpath c fs) (Overwrite.start fs) es := by
  refine Runs.always_of_invariant (I := fun s : Overwrite => Sound destpath c fs s.proc s.fs) (fun _ h => h.crashSafe) ?_ es
    (sound_start destpath c fs)
  intro s e s' hs hstep
  obtain ⟨⟨p', fs'⟩, h, rfl⟩ := Option.map_eq_some_iff.1 hstep
  exact (step_moves h).sound hs

end SecretStore
end Scrapcode
