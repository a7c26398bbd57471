import Mathlib.Data.Fintype.Basic
import Scrapcode.Runs
import Scrapcode.OverwriteSteps
/-!
# OverwriteShared — several processes overwrite one file

Every process that overwrites `destpath` uses the same temporary name.  `open` with `O_EXCL` keeps two of them from
creating the file at once, but not from unlinking the file the other has open: then `rename` moves what the other has
written so far.  So `destpath` is whole at every moment (`Whole`) in the runs where no process renames a file that
another has not written to its end (`NoTheft`), and a run of two processes that does leaves it empty.
-/
namespace Scrapcode
namespace SecretStore

variable {ι : Type}

structure Writers (ι : Type) where
  fs   : Files
  proc : ι → Proc

def Writers.start (fs : Files) : Writers ι := { fs := fs, proc := fun _ => .start }

def Writers.step [DecidableEq ι] (destpath : String) (calls : ι → Call) (s : Writers ι) (e : ι × Sys) :
    Option (Writers ι) :=
  ((s.proc e.1).step destpath (calls e.1) s.fs e.2).map
    (fun r => { fs := r.2, proc := Function.update s.proc e.1 r.1 })

/-- **`destpath` holds the whole old content or the whole content of one of the calls.** -/
def Whole (destpath : String) (calls : ι → Call) (old : Files) (s : Writers ι) : Prop :=
  s.fs.read destpath = old.read destpath ∨ ∃ q, s.fs.read destpath = some (calls q).newcontent

/-- **What keeps it whole**: a file that another process created is renamed only once that process has written all
of it. -/
def NoTheft (destpath : String) (calls : ι → Call) (s : Writers ι) (e : ι × Sys) : Prop :=
  (s.proc e.1).pc = .rename → e.2 = .call → ∀ q, q ≠ e.1 → (s.proc q).tmpfile ≠ none →
    s.fs.names (tmppath destpath) = (s.proc q).tmpfile → (s.proc q).written = (calls q).newcontent.length

instance [DecidableEq ι] [Fintype ι] (destpath : String) (calls : ι → Call) (s : Writers ι) (e : ι × Sys) :
    Decidable (NoTheft destpath calls s e) :=
  inferInstanceAs (Decidable (_ → _ → ∀ _, _ → _ → _ → _))

/-! ## The invariant -/

/-- Each process writes a file of its own, none of them one that was there before. -/
structure Owned (calls : ι → Call) (old fs : Files) (proc : ι → Proc) : Prop where
  kept  : ∀ i, i < old.nextIno → fs.file i = old.file i
  grown : old.nextIno ≤ fs.nextIno
  own   : ∀ q i, (proc q).tmpfile = some i → old.nextIno ≤ i ∧ i < fs.nextIno ∧
    (fs.file i).content = (calls q).newcontent.take (proc q).written
  apart : ∀ q r i, (proc q).tmpfile = some i → (proc r).tmpfile = some i → q = r

structure Shared (destpath : String) (calls : ι → Call) (old fs : Files) (proc : ι → Proc) : Prop where
  owned : Owned calls old fs proc
  knows : ∀ q, Knows (calls q) (proc q)
  tmp   : ∀ q, (proc q).tmpfile ≠ none → ∀ i, fs.names (tmppath destpath) = some i →
    ∃ r, (proc r).tmpfile = some i
  dest  : fs.names destpath = old.names destpath ∨
    ∃ q i, fs.names destpath = some i ∧ (proc q).tmpfile = some i ∧
      (proc q).written = (calls q).newcontent.length

variable {destpath : String} {calls : ι → Call} {old fs fs' : Files} {proc : ι → Proc} {w : ι} {p' : Proc}

theorem shared_start (destpath : String) (calls : ι → Call) (fs : Files) :
    Shared destpath calls fs fs (fun _ => .start) where
  owned := ⟨fun _ _ => rfl, Nat.le_refl _, fun _ _ h => (nomatch h), fun _ _ _ h => (nomatch h)⟩
  knows := fun q => knows_start (calls q)
  tmp   := fun _ h => absurd rfl h
  dest  := Or.inl rfl

theorem Shared.whole (h : Shared destpath calls old fs proc) : Whole destpath calls old ⟨fs, proc⟩ := by
  unfold Whole FileSystem.read
  rcases h.dest with hd | ⟨q, i, hd, hq, hw⟩
  · refine Or.inl ?_
    rw [hd]
    cases ho : old.names destpath with
    | none   => rfl
    | some i => simp only [Option.map_some, h.owned.kept i (old.names_lt ho)]
  · refine Or.inr ⟨q, ?_⟩
    rw [hd, Option.map_some, (h.owned.own q i hq).2.2, hw, List.take_length]

/-! ## One step -/

variable [DecidableEq ι]

/-- The processes as they are after `w` moved, where it keeps its file. -/
theorem tmpfile_update (ht : p'.tmpfile = (proc w).tmpfile) (q : ι) :
    (Function.update proc w p' q).tmpfile = (proc q).tmpfile := by
  by_cases hq : q = w
  · subst hq; rw [Function.update_self, ht]
  · rw [Function.update_of_ne hq]

theorem written_update (ht : p'.written = (proc w).written) (q : ι) :
    (Function.update proc w p' q).written = (proc q).written := by
  by_cases hq : q = w
  · subst hq; rw [Function.update_self, ht]
  · rw [Function.update_of_ne hq]

theorem knows_update (hk : ∀ q, Knows (calls q) (proc q)) (hp : Knows (calls w) p') (q : ι) :
    Knows (calls q) (Function.update proc w p' q) := by
  by_cases hq : q = w
  · subst hq; rwa [Function.update_self]
  · rw [Function.update_of_ne hq]; exact hk q

/-- **A step that writes nothing** keeps each process's file. -/
theorem Owned.names (h : Owned calls old fs proc) (ht : p'.tmpfile = (proc w).tmpfile)
    (hw : p'.written = (proc w).written) (hn : fs'.nextIno = fs.nextIno)
    (hkept : ∀ i, i < old.nextIno → fs'.file i = fs.file i)
    (hfile : ∀ i, (fs'.file i).content = (fs.file i).content) :
    Owned calls old fs' (Function.update proc w p') where
  kept  := fun i hi => (hkept i hi).trans (h.kept i hi)
  grown := hn ▸ h.grown
  own   := fun q i hq => by
    rw [tmpfile_update ht] at hq
    obtain ⟨h₁, h₂, h₃⟩ := h.own q i hq
    exact ⟨h₁, hn ▸ h₂, by rw [hfile, h₃, written_update hw]⟩
  apart := fun q r i hq hr => by
    rw [tmpfile_update ht] at hq hr
    exact h.apart q r i hq hr

/-- The same for the whole invariant, where both names stay or the temporary one goes. -/
theorem Shared.names (h : Shared destpath calls old fs proc) (ht : p'.tmpfile = (proc w).tmpfile)
    (hw : p'.written = (proc w).written) (hk : Knows (calls w) p') (hn : fs'.nextIno = fs.nextIno)
    (hkept : ∀ i, i < old.nextIno → fs'.file i = fs.file i)
    (hfile : ∀ i, (fs'.file i).content = (fs.file i).content)
    (htmp : fs'.names (tmppath destpath) = none ∨ fs'.names (tmppath destpath) = fs.names (tmppath destpath))
    (hdest : fs'.names destpath = fs.names destpath ∨ ∃ q i, fs'.names destpath = some i ∧
      (proc q).tmpfile = some i ∧ (proc q).written = (calls q).newcontent.length) :
    Shared destpath calls old fs' (Function.update proc w p') where
  owned := h.owned.names ht hw hn hkept hfile
  knows := knows_update h.knows hk
  tmp   := fun q hq i hi => by
    rw [tmpfile_update ht] at hq
    rcases htmp with htmp | htmp
    · rw [htmp] at hi; cases hi
    · obtain ⟨r, hr⟩ := h.tmp q hq i (htmp ▸ hi)
      exact ⟨r, (tmpfile_update ht r).trans hr⟩
  dest  := by
    have hwhole : (∃ q i, fs'.names destpath = some i ∧ (proc q).tmpfile = some i ∧
        (proc q).written = (calls q).newcontent.length) → ∃ q i, fs'.names destpath = some i ∧
          (Function.update proc w p' q).tmpfile = some i ∧
          (Function.update proc w p' q).written = (calls q).newcontent.length :=
      fun ⟨q, i, h₁, h₂, h₃⟩ => ⟨q, i, h₁, (tmpfile_update ht q).trans h₂, (written_update hw q).trans h₃⟩
    rcases hdest with hdest | hdest
    · rcases h.dest with hd | ⟨q, i, hd, hq, hqw⟩
      · exact Or.inl (hdest.trans hd)
      · exact Or.inr (hwhole ⟨q, i, hdest.trans hd, hq, hqw⟩)
    · exact Or.inr (hwhole hdest)

theorem Shared.create (h : Shared destpath calls old fs proc) {mode : UInt32} (hpc : (proc w).pc = .openTmp)
    (hk : Knows (calls w) ((proc w).opened fs.nextIno))
    (hfs : fs.create (tmppath destpath) mode = some fs') :
    Shared destpath calls old fs'
      (Function.update proc w ((proc w).opened fs.nextIno)) := by
  obtain ⟨-, hnames, hfile, hnext, -⟩ := FileSystem.create_eq_some hfs
  have hlook : (proc w).tmpfile = none ∧ (proc w).handed = false ∧ (proc w).written = 0 := by
    have := h.knows w; unfold Knows at this; rwa [hpc] at this
  -- a process with a file is `w`, with the new one, or another with its old one
  have hcase : ∀ q i, (Function.update proc w ((proc w).opened fs.nextIno) q).tmpfile
      = some i → (q = w ∧ i = fs.nextIno) ∨ (q ≠ w ∧ (proc q).tmpfile = some i) := by
    intro q i hq
    by_cases hqw : q = w
    · subst hqw; rw [Function.update_self] at hq; exact Or.inl ⟨rfl, (Option.some.inj hq).symm⟩
    · rw [Function.update_of_ne hqw] at hq; exact Or.inr ⟨hqw, hq⟩
  constructor
  · constructor
    · intro i hi
      have hne : i ≠ fs.nextIno := Nat.ne_of_lt (Nat.lt_of_lt_of_le hi h.owned.grown)
      rw [hfile, Function.update_of_ne hne, h.owned.kept i hi]
    · rw [hnext]; exact Nat.le_succ_of_le h.owned.grown
    · intro q i hq
      rw [hnext, hfile]
      rcases hcase q i hq with ⟨rfl, rfl⟩ | ⟨hqw, hq'⟩
      · refine ⟨h.owned.grown, Nat.lt_succ_self _, ?_⟩
        simp only [Function.update_self, Proc.opened, hlook.2.2, List.take_zero]
      · obtain ⟨h₁, h₂, h₃⟩ := h.owned.own q i hq'
        refine ⟨h₁, Nat.lt_succ_of_lt h₂, ?_⟩
        rw [Function.update_of_ne (Nat.ne_of_lt h₂), Function.update_of_ne hqw]
        exact h₃
    · intro q r i hq hr
      rcases hcase q i hq with ⟨rfl, rfl⟩ | ⟨-, hq'⟩
      · rcases hcase r _ hr with ⟨rfl, -⟩ | ⟨-, hr'⟩
        · rfl
        · exact absurd (h.owned.own r _ hr').2.1 (Nat.lt_irrefl _)
      · rcases hcase r i hr with ⟨-, rfl⟩ | ⟨-, hr'⟩
        · exact absurd (h.owned.own q _ hq').2.1 (Nat.lt_irrefl _)
        · exact h.owned.apart q r i hq' hr'
  · exact knows_update h.knows hk
  · intro q hq i hi
    rw [hnames, Function.update_self] at hi
    exact ⟨w, by rw [Function.update_self]; exact hi⟩
  · have hd : fs'.names destpath = fs.names destpath := by
      rw [hnames, Function.update_of_ne (destpath_ne_tmppath destpath)]
    rcases h.dest with hdest | ⟨q, i, hdest, hq, hw⟩
    · exact Or.inl (hd.trans hdest)
    · have hqw : q ≠ w := by rintro rfl; rw [hlook.1] at hq; cases hq
      refine Or.inr ⟨q, i, hd.trans hdest, ?_⟩
      rw [Function.update_of_ne hqw]
      exact ⟨hq, hw⟩

theorem Shared.piece (h : Shared destpath calls old fs proc) {n i : Nat} (hn : 0 < n)
    (hw : (proc w).written + n ≤ (calls w).newcontent.length) (hi : (proc w).tmpfile = some i)
    (hk : Knows (calls w) ((proc w).wrote n)) :
    Shared destpath calls old (fs.write i (((calls w).newcontent.drop (proc w).written).take n))
      (Function.update proc w ((proc w).wrote n)) := by
  have ht : ∀ q, (Function.update proc w ((proc w).wrote n) q).tmpfile
      = (proc q).tmpfile := tmpfile_update rfl
  obtain ⟨hlo, hhi, hcontent⟩ := h.owned.own w i hi
  constructor
  · constructor
    · intro j hj
      rw [FileSystem.write_of_ne (Nat.ne_of_lt (Nat.lt_of_lt_of_le hj hlo))]
      exact h.owned.kept j hj
    · exact h.owned.grown
    · intro q j hq
      rw [ht] at hq
      by_cases hqw : q = w
      · subst hqw
        have hji : j = i := Option.some.inj (hq.symm.trans hi)
        subst hji
        refine ⟨hlo, hhi, ?_⟩
        rw [FileSystem.write_content, hcontent, Function.update_self]
        exact List.take_add.symm
      · obtain ⟨h₁, h₂, h₃⟩ := h.owned.own q j hq
        have hji : j ≠ i := by rintro rfl; exact hqw (h.owned.apart q w j hq hi)
        exact ⟨h₁, h₂, by rw [FileSystem.write_of_ne hji, Function.update_of_ne hqw, h₃]⟩
    · intro q r j hq hr
      rw [ht] at hq hr
      exact h.owned.apart q r j hq hr
  · exact knows_update h.knows hk
  · intro q hq j hj
    rw [ht] at hq
    obtain ⟨r, hr⟩ := h.tmp q hq j hj
    exact ⟨r, (ht r).trans hr⟩
  · rcases h.dest with hdest | ⟨q, j, hdest, hq, hqw⟩
    · exact Or.inl hdest
    · -- `w` has something left to write, so the file at `destpath` is another's
      have hne : q ≠ w := by rintro rfl; omega
      refine Or.inr ⟨q, j, hdest, (ht q).trans hq, ?_⟩
      rw [Function.update_of_ne hne]; exact hqw

theorem Moves.shared {e : Sys} (h : Shared destpath calls old fs proc) (hC : NoTheft destpath calls ⟨fs, proc⟩ (w, e))
    (hm : Moves destpath (calls w) (proc w) fs e p' fs') :
    Shared destpath calls old fs' (Function.update proc w p') := by
  have hk := hm.knows (h.knows w)
  cases hm with
  | pass _ => exact h.names rfl rfl hk rfl (fun _ _ => rfl) (fun _ => rfl) (Or.inr rfl) (Or.inl rfl)
  | hand _ => exact h.names rfl rfl hk rfl (fun _ _ => rfl) (fun _ => rfl) (Or.inr rfl) (Or.inl rfl)
  | flush _ _ => exact h.names rfl rfl hk rfl (fun _ _ => rfl) (fun _ => rfl) (Or.inr rfl) (Or.inl rfl)
  | fsyncDir _ => exact h.names rfl rfl hk rfl (fun _ _ => rfl) (fun _ => rfl) (Or.inr rfl) (Or.inl rfl)
  | fsyncRenamed _ => exact h.names rfl rfl hk rfl (fun _ _ => rfl) (fun _ => rfl) (Or.inr rfl) (Or.inl rfl)
  | unlink _ _ hfs =>
    obtain ⟨hnames, hfile, hnext, -⟩ := FileSystem.unlink_eq_some hfs
    refine h.names rfl rfl hk hnext (fun i _ => by rw [hfile]) (fun i => by rw [hfile]) (Or.inl ?_) (Or.inl ?_)
    · rw [hnames, Function.update_self]
    · rw [hnames, Function.update_of_ne (destpath_ne_tmppath destpath)]
  | create hpc hfs => exact h.create hpc hk hfs
  | @fsync i _ hi =>
    have hlo := (h.owned.own w i hi).1
    exact h.names rfl rfl hk rfl
      (fun j hj => FileSystem.fsync_of_ne (Nat.ne_of_lt (Nat.lt_of_lt_of_le hj hlo)))
      (fun _ => FileSystem.fsync_content) (Or.inr rfl) (Or.inl rfl)
  | rename hpc hfs =>
    obtain ⟨i, hsrc, hfile, hnext, hdst, hothers, -⟩ := FileSystem.rename_eq_some hfs
    have hopen : (proc w).tmpfile ≠ none := (h.knows w).opened (by rw [hpc]; decide) (by rw [hpc]; decide)
    obtain ⟨q, hq⟩ := h.tmp w hopen i hsrc
    refine h.names rfl rfl hk hnext (fun i _ => by rw [hfile]) (fun i => by rw [hfile])
      (hothers _ (destpath_ne_tmppath destpath).symm) (Or.inr ⟨q, i, hdst, hq, ?_⟩)
    by_cases hqw : q = w
    · subst hqw
      have := h.knows q
      unfold Knows at this
      rw [hpc] at this
      exact this.2
    · exact hC hpc rfl q hqw (by rw [hq]; exact (nomatch ·)) (hsrc.trans hq.symm)
  | piece _ hn hw hi => exact h.piece hn hw hi hk

/-- **In every run in which no process renames a file that another is still writing, `destpath` is whole.** -/
theorem whole_always (destpath : String) (calls : ι → Call) (fs : Files) (es : List (ι × Sys))
    (hC : Runs.Meets (Writers.step destpath calls) (NoTheft destpath calls) (Writers.start fs) es) :
    Runs.Always (Writers.step destpath calls) (Whole destpath calls fs) (Writers.start fs) es := by
  refine Runs.always_of_meets (I := fun s => Shared destpath calls fs s.fs s.proc) (fun _ h => h.whole) ?_ es
    (shared_start destpath calls fs) hC
  intro s e s' hs hCe hstep
  obtain ⟨⟨p', fs'⟩, h, rfl⟩ := Option.map_eq_some_iff.1 hstep
  exact (step_moves h).shared hs hCe

/-! ## Two processes -/

/-- A directory in which `cred` holds the bytes 1, 2 and is on disk. -/
def credFiles : Files where
  disk       := fun n => if n = "cred" then some 0 else none
  journal    := []
  file       := fun _ => { content := [1, 2], mode := 0o600, synced := true }
  nextIno    := 1
  disk_lt    := fun n i h => by
    by_cases hn : n = "cred"
    · rw [if_pos hn] at h; cases h; exact Nat.one_pos
    · rw [if_neg hn] at h; cases h
  journal_lt := fun _ ho => nomatch ho

/-- `true` writes the byte 3, `false` writes the bytes 4, 5. -/
def twoCalls (q : Bool) : Call := { newcontent := if q then [3] else [4, 5], umask := 0o022 }

/-- A process alone, from its first call to its last. -/
def alone (q : Bool) : List (Bool × Sys) :=
  [.call, .call, .call, .piece (twoCalls q).newcontent.length, .call, .call, .call, .call, .call, .call, .call, .call,
    .fails].map (q, ·)

/-- `true` has its file open when `false` unlinks it, creates its own and stops; then `true` goes on. -/
def theft : List (Bool × Sys) :=
  [(true, .call), (true, .call), (false, .call), (false, .call), (false, .call), (true, .call), (true, .piece 1),
    (true, .call), (true, .call), (true, .call), (true, .call), (true, .call), (true, .call)]

theorem whole_always_alone : Runs.Always (Writers.step "cred" twoCalls) (Whole "cred" twoCalls credFiles)
    (Writers.start credFiles) (alone true ++ alone false) :=
  whole_always "cred" twoCalls credFiles _ (by decide)

/-- **`destpath` is empty** once `true` has renamed the file that `false` has just created. -/
theorem whole_not_always : ¬ Runs.Always (Writers.step "cred" twoCalls) (Whole "cred" twoCalls credFiles)
    (Writers.start credFiles) theft := by
  intro h
  have hr : (Runs.run (Writers.step "cred" twoCalls) (Writers.start credFiles) theft).map (·.fs.read "cred") =
      some (some []) := by decide
  obtain ⟨s, hs, hread⟩ := Option.map_eq_some_iff.1 hr
  have hold : credFiles.read "cred" = some [1, 2] := by decide
  rcases Runs.Always.reached _ h hs with hw | ⟨q, hw⟩
  · rw [hread, hold] at hw; cases hw
  · rw [hread] at hw; cases q <;> cases hw

end SecretStore
end Scrapcode
