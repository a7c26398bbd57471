import Scrapcode.CredSteps
/-!
# CredRace — two processes store in one credentials file

Each process reads the whole mapping, sets its own key in its copy and replaces the file; nothing is held between the
read and the replacement.  So a replacement loses what the other process replaced after the read.  Both secrets are
there, and every other entry as it was, exactly in the runs in which no process replaces the file while the other holds
a copy (`NoOverlap`); a secret that was in the file before is not lost.

`Ledger` says what the file and the copies hold at each moment, in every run.
-/
namespace Scrapcode
namespace SecretStore

structure Stores where
  creds : Creds
  pc    : Bool → StorePc

def Stores.start (c : Creds) : Stores := { creds := c, pc := fun _ => .checkStore }

def Stores.put (s : Stores) (q : Bool) (c : Creds) (pc : StorePc) : Stores :=
  { creds := c, pc := Function.update s.pc q pc }

@[simp] theorem Stores.put_creds (s : Stores) (q : Bool) (c : Creds) (pc : StorePc) : (s.put q c pc).creds = c := rfl

@[simp] theorem Stores.put_self (s : Stores) (q : Bool) (c : Creds) (pc : StorePc) : (s.put q c pc).pc q = pc :=
  Function.update_self _ _ _

@[simp] theorem Stores.put_other (s : Stores) (q : Bool) (c : Creds) (pc : StorePc) :
    (s.put q c pc).pc (!q) = s.pc (!q) := Function.update_of_ne (by cases q <;> decide) _ _

theorem Stores.put_of_ne {q r : Bool} (h : r ≠ q) (s : Stores) (c : Creds) (pc : StorePc) :
    (s.put q c pc).pc r = s.pc r :=
  Function.update_of_ne h _ _

section
variable (y : YamlConf) (calls : Bool → StoreCall)

/-- One step of the process `q`. -/
def Stores.step (s : Stores) (q : Bool) : Option Stores :=
  ((s.pc q).step y (calls q) s.creds).map (fun r => s.put q r.1 r.2)

def Stores.Returned (s : Stores) : Prop := ∀ q, s.pc q = .ended (.ok ())

instance (s : Stores) : Decidable s.Returned := inferInstanceAs (Decidable (∀ q : Bool, s.pc q = .ended (.ok ())))

/-- **Nothing is lost**: a lookup of either key gives its secret, and every other key that was in the file has its
value. -/
structure NothingLost (old : Creds) (s : Stores) : Prop where
  stored : ∀ q, y.lookup (calls q).key s.creds = .ok (.str (calls q).secret)
  kept   : ∀ k v, (∀ q, k ≠ (calls q).key) → old.entry y.yaml k = some v → s.creds.entry y.yaml k = some v

/-- The secret is in the file before. -/
def Already (old : Creds) (q : Bool) : Prop :=
  (old.entry y.yaml (calls q).key).any (Value.isStr (calls q).secret) = true

/-- **No process replaces the file while the other holds a copy**, unless its secret was there before. -/
def NoOverlap (old : Creds) (s : Stores) (q : Bool) : Prop :=
  (s.pc q).stage = .copied → (s.pc (!q)).stage = .copied → Already y calls old q

instance (old : Creds) (s : Stores) (q : Bool) : Decidable (NoOverlap y calls old s q) :=
  inferInstanceAs (Decidable (_ → _ → _ = true))

/-! ## What the file and the copies hold -/

structure Ledger (old : Creds) (s : Stores) : Prop where
  others  : ∀ k, (∀ q, k ≠ (calls q).key) → s.creds.entry y.yaml k = old.entry y.yaml k ∧
    ∀ q n, s.pc q = .overwrite n → y.yaml.entry n k = old.entry y.yaml k
  own     : ∀ q n, s.pc q = .overwrite n → y.yaml.entry n (calls q).key = some (.str (calls q).secret) ∧
    ∃ m, y.yaml.load n = .ok (.map m)
  pending : ∀ q, (s.pc q).stage = .reading ∨ (s.pc q).stage = .copied →
    s.creds.entry y.yaml (calls q).key = old.entry y.yaml (calls q).key ∧
    ∀ n, s.pc (!q) = .overwrite n → y.yaml.entry n (calls q).key = old.entry y.yaml (calls q).key
  done    : ∀ q, (s.pc q).stage = .replaced → (s.pc (!q)).stage = .reading ∨ (s.pc (!q)).stage = .copied →
    s.creds.entry y.yaml (calls q).key = some (.str (calls q).secret)
  dir     : ∀ q, (s.pc q).dirChecked = true → s.creds.creddir.any exposed = false
  file    : ∀ q, (s.pc q).stage = .replaced →
    s.creds.credfile.any (fun f => exposed f.mode) = false ∧ s.creds.Mapped y.yaml

/-- What a process has replaced is in the file, and in the copy of the other. -/
def Standing (s : Stores) : Prop := ∀ q, (s.pc q).stage = .replaced →
  (∀ n, s.pc (!q) = .overwrite n → y.yaml.entry n (calls q).key = some (.str (calls q).secret)) ∧
  ((s.pc (!q)).stage = .replaced → s.creds.entry y.yaml (calls q).key = some (.str (calls q).secret))

end

variable {y : YamlConf} {calls : Bool → StoreCall} {old : Creds} {s s' : Stores} {q r : Bool}

theorem already_iff : Already y calls old q ↔ old.entry y.yaml (calls q).key = some (.str (calls q).secret) := by
  unfold Already
  cases old.entry y.yaml (calls q).key with
  | none   => simp
  | some v => cases v <;> simp [Value.isStr]

theorem ledger_start (y : YamlConf) (calls : Bool → StoreCall) (c : Creds) : Ledger y calls c (.start c) where
  others  := fun _ _ => ⟨rfl, fun _ _ h => (nomatch h)⟩
  own     := fun _ _ h => (nomatch h)
  pending := fun _ _ => ⟨rfl, fun _ h => (nomatch h)⟩
  done    := fun _ h => (nomatch h)
  dir     := fun _ h => (nomatch h)
  file    := fun _ h => (nomatch h)

theorem standing_start (y : YamlConf) (calls : Bool → StoreCall) (c : Creds) : Standing y calls (.start c) :=
  fun _ h => nomatch h

theorem Stores.step_moves (h : s.step y calls q = some s') : ∃ c pc,
    StoreMoves y (calls q) s.creds (s.pc q) c pc ∧ s' = s.put q c pc := by
  obtain ⟨⟨c, pc⟩, hm, rfl⟩ := Option.map_eq_some_iff.1 h
  exact ⟨c, pc, step_storeMoves hm, rfl⟩

@[elab_as_elim]
theorem forall_pair {motive : Bool → Prop} (q : Bool) (h : motive q) (ho : motive (!q)) (r : Bool) : motive r := by
  by_cases hr : r = q
  · rw [hr]; exact h
  · rw [show r = !q by cases r <;> cases q <;> first | rfl | exact absurd rfl hr]; exact ho

theorem overwrite_of_copied {pc : StorePc} {n : List UInt8} (h : pc.stage ≠ .copied) : pc ≠ .overwrite n :=
  fun hpc => h (stage_eq_copied.2 ⟨n, hpc⟩)

/-! ## One step -/

/-- **A step that neither reads nor replaces the file.** -/
theorem Ledger.still {c : Creds} {pc : StorePc} (h : Ledger y calls old s) (hf : c.credfile = s.creds.credfile)
    (hs : pc.stage = (s.pc q).stage ∨ pc.stage = .raised) (hc : pc.stage ≠ .copied)
    (hd : pc.dirChecked = true ∨ (s.pc (!q)).dirChecked = true → c.creddir.any exposed = false) :
    Ledger y calls old (s.put q c pc) := by
  have he : c.entry y.yaml = s.creds.entry y.yaml := by unfold Creds.entry; rw [hf]
  have hstage : ∀ st, st ≠ Stage.raised → pc.stage = st → (s.pc q).stage = st := fun st hne hp =>
    hs.elim (fun h => h ▸ hp) (fun h => absurd (hp.symm.trans h) hne)
  have hreading : pc.stage = .reading ∨ pc.stage = .copied → (s.pc q).stage = .reading ∨ (s.pc q).stage = .copied :=
    fun hp => Or.inl (hstage _ (by decide) (hp.resolve_right hc))
  constructor
  · intro k hk
    refine ⟨he ▸ (h.others k hk).1, fun r n => ?_⟩
    refine forall_pair q ?_ ?_ r
    · rw [Stores.put_self]; exact fun hp => absurd hp (overwrite_of_copied hc)
    · rw [Stores.put_other]; exact (h.others k hk).2 _ n
  · intro r n
    refine forall_pair q ?_ ?_ r
    · rw [Stores.put_self]; exact fun hp => absurd hp (overwrite_of_copied hc)
    · rw [Stores.put_other]; exact h.own _ n
  · intro r
    rw [Stores.put_creds, he]
    refine forall_pair q ?_ ?_ r
    · rw [Stores.put_self, Stores.put_other]; exact fun hp => h.pending q (hreading hp)
    · rw [Stores.put_other, Bool.not_not, Stores.put_self]
      exact fun hp => ⟨(h.pending _ hp).1, fun n hn => absurd hn (overwrite_of_copied hc)⟩
  · intro r
    rw [Stores.put_creds, he]
    refine forall_pair q ?_ ?_ r
    · rw [Stores.put_self, Stores.put_other]; exact fun hp => h.done q (hstage _ (by decide) hp)
    · rw [Stores.put_other, Bool.not_not, Stores.put_self]
      exact fun hp hq => h.done (!q) hp (by rw [Bool.not_not]; exact hreading hq)
  · intro r
    refine forall_pair q ?_ ?_ r
    · rw [Stores.put_self]; exact fun hp => hd (Or.inl hp)
    · rw [Stores.put_other]; exact fun hp => hd (Or.inr hp)
  · have hfile : ∀ r, (s.pc r).stage = .replaced →
        c.credfile.any (fun f => exposed f.mode) = false ∧ c.Mapped y.yaml := fun r hr => by
      unfold Creds.Mapped; rw [hf]; exact h.file r hr
    intro r
    refine forall_pair q ?_ ?_ r
    · rw [Stores.put_self]; exact fun hp => hfile q (hstage _ (by decide) hp)
    · rw [Stores.put_other]; exact hfile _

/-- **A process takes its copy**: the file as it is, with its own secret. -/
theorem Ledger.copy {m : Dict} (h : Ledger y calls old s) (hy : ∀ q, y.yaml.Keeps (calls q).key (calls q).secret)
    (hne : ∀ q, (calls q).key ≠ (calls (!q)).key) (hs : (s.pc q).stage = .reading) (hd : (s.pc q).dirChecked = true)
    (hm : y.changed (calls q).key (calls q).secret s.creds.credfile = .ok m) :
    Ledger y calls old (s.put q s.creds (.overwrite (y.yaml.dump m))) := by
  obtain ⟨-, hload, he⟩ := entry_changed (hy q) hm
  have hdump : ∀ k, k ≠ (calls q).key → y.yaml.entry (y.yaml.dump m) k = s.creds.entry y.yaml k := fun k hk => by
    rw [he, Function.update_of_ne hk]
  constructor
  · intro k hk
    refine ⟨(h.others k hk).1, fun r n => ?_⟩
    refine forall_pair q ?_ ?_ r
    · rw [Stores.put_self]
      intro hp
      cases hp
      exact (hdump k (hk q)).trans (h.others k hk).1
    · rw [Stores.put_other]; exact (h.others k hk).2 _ n
  · intro r n
    refine forall_pair q ?_ ?_ r
    · rw [Stores.put_self]
      intro hp
      cases hp
      exact ⟨by rw [he, Function.update_self], hload⟩
    · rw [Stores.put_other]; exact h.own _ n
  · intro r
    refine forall_pair q ?_ ?_ r
    · rw [Stores.put_self, Stores.put_other]; exact fun _ => h.pending q (Or.inl hs)
    · rw [Stores.put_other, Bool.not_not, Stores.put_self]
      intro hp
      refine ⟨(h.pending _ hp).1, fun n hn => ?_⟩
      cases hn
      exact (hdump _ (hne q).symm).trans (h.pending _ hp).1
  · intro r
    refine forall_pair q ?_ ?_ r
    · rw [Stores.put_self]; exact fun hp => nomatch hp
    · rw [Stores.put_other]
      exact fun hp _ => h.done (!q) hp (by rw [Bool.not_not]; exact Or.inl hs)
  · intro r
    refine forall_pair q ?_ ?_ r
    · exact fun _ => h.dir q hd
    · rw [Stores.put_other]; exact h.dir _
  · intro r
    refine forall_pair q ?_ ?_ r
    · rw [Stores.put_self]; exact fun hp => nomatch hp
    · rw [Stores.put_other]; exact h.file _

/-- **A process replaces the file** by its copy. -/
theorem Ledger.replace {n : List UInt8} (h : Ledger y calls old s) (hpc : s.pc q = .overwrite n) :
    Ledger y calls old (s.put q (s.creds.overwrite (calls q).umask n) (.dirExists true)) := by
  have he : (s.creds.overwrite (calls q).umask n).entry y.yaml = y.yaml.entry n := rfl
  obtain ⟨hown, hload⟩ := h.own q n hpc
  have hfile : (s.creds.overwrite (calls q).umask n).credfile.any (fun f => exposed f.mode) = false ∧
      (s.creds.overwrite (calls q).umask n).Mapped y.yaml :=
    ⟨Creds.exposed_overwrite _ _ _, fun f hf => by cases hf; exact hload⟩
  constructor
  · intro k hk
    refine ⟨he ▸ (h.others k hk).2 q n hpc, fun r n => ?_⟩
    refine forall_pair q ?_ ?_ r
    · rw [Stores.put_self]; exact fun hp => nomatch hp
    · rw [Stores.put_other]; exact (h.others k hk).2 _ n
  · intro r n
    refine forall_pair q ?_ ?_ r
    · rw [Stores.put_self]; exact fun hp => nomatch hp
    · rw [Stores.put_other]; exact h.own _ n
  · intro r
    refine forall_pair q ?_ ?_ r
    · rw [Stores.put_self]; exact fun hp => hp.elim (fun h => nomatch h) (fun h => nomatch h)
    · rw [Stores.put_other, Bool.not_not, Stores.put_self]
      exact fun hp => ⟨he ▸ (h.pending _ hp).2 n (by rw [Bool.not_not]; exact hpc), fun _ hn => nomatch hn⟩
  · intro r
    refine forall_pair q ?_ ?_ r
    · exact fun _ _ => he ▸ hown
    · rw [Stores.put_other, Bool.not_not, Stores.put_self]
      exact fun _ hq => hq.elim (fun h => nomatch h) (fun h => nomatch h)
  · intro r
    have hd := h.dir q (by rw [hpc]; rfl)
    exact fun _ => hd
  · exact fun _ _ => hfile

theorem Ledger.step (hy : ∀ q, y.yaml.Keeps (calls q).key (calls q).secret)
    (hne : ∀ q, (calls q).key ≠ (calls (!q)).key) (h : Ledger y calls old s) (hs : s.step y calls q = some s') :
    Ledger y calls old s' := by
  obtain ⟨c, pc, hm, rfl⟩ := Stores.step_moves hs
  cases hm with
  | pass hc hst hd =>
    exact h.still rfl (Or.inl hst) (hst ▸ hc)
      (fun hp => hp.elim (fun hp => (hd hp).elim (h.dir q) id) (h.dir _))
  | makedirs hpc =>
    refine h.still rfl (Or.inl (by rw [hpc]; rfl)) (by decide) (fun hp => ?_)
    rw [Creds.exposed_makedirs]
    exact hp.elim (fun hp => nomatch hp) (h.dir _)
  | raise => exact h.still rfl (Or.inr rfl) (fun hp => nomatch hp) (fun hp => hp.elim (fun hp => nomatch hp) (h.dir _))
  | copy hst hd hm => exact h.copy hy hne hst hd hm
  | replace hpc => exact h.replace hpc

/-! ## What stands at the end -/

/-- No process has raised. -/
def Unraised (s : Stores) : Prop := ∀ q, (s.pc q).stage ≠ .raised

theorem unraised_of_step (h : s.step y calls q = some s') (hu : Unraised s') : Unraised s := by
  intro r hr
  by_cases hrq : r = q
  · subst hrq
    obtain ⟨_, hm, -⟩ := Option.map_eq_some_iff.1 h
    rw [step_of_raised hr] at hm
    cases hm
  · obtain ⟨_, -, rfl⟩ := Option.map_eq_some_iff.1 h
    exact hu r (by rw [Stores.put_of_ne hrq]; exact hr)

/-- **A step that neither reads nor replaces the file** changes nothing of what stands. -/
theorem standing_still {c : Creds} {pc : StorePc} (hf : c.credfile = s.creds.credfile)
    (hs : pc.stage = (s.pc q).stage) (hc : (s.pc q).stage ≠ .copied) :
    Standing y calls (s.put q c pc) ↔ Standing y calls s := by
  have he : c.entry y.yaml = s.creds.entry y.yaml := by unfold Creds.entry; rw [hf]
  have hstage : ∀ r, ((s.put q c pc).pc r).stage = (s.pc r).stage := by
    intro r
    refine forall_pair q ?_ ?_ r
    · rw [Stores.put_self, hs]
    · rw [Stores.put_other]
  have hover : ∀ r n, (s.put q c pc).pc r = .overwrite n ↔ s.pc r = .overwrite n := by
    intro r n
    refine forall_pair q ?_ ?_ r
    · rw [Stores.put_self]
      exact Iff.intro (fun hp => absurd hp (overwrite_of_copied (hs ▸ hc))) (fun hp => absurd hp (overwrite_of_copied hc))
    · rw [Stores.put_other]
  unfold Standing
  simp only [hstage, hover, Stores.put_creds, he]

theorem standing_step (hy : ∀ q, y.yaml.Keeps (calls q).key (calls q).secret)
    (hne : ∀ q, (calls q).key ≠ (calls (!q)).key) (h : Ledger y calls old s) (hu : Unraised s')
    (hs : s.step y calls q = some s') : Standing y calls s' ↔ Standing y calls s ∧ NoOverlap y calls old s q := by
  have hu' := hu q
  obtain ⟨c, pc, hm, rfl⟩ := Stores.step_moves hs
  rw [Stores.put_self] at hu'
  cases hm with
  | pass hc hst hd =>
    rw [standing_still rfl hst hc]
    exact (and_iff_left (fun hq => absurd hq hc)).symm
  | makedirs hpc =>
    have hc : (s.pc q).stage ≠ .copied := by rw [hpc]; decide
    rw [standing_still (Creds.makedirs_credfile _ _) (by rw [hpc]; rfl) hc]
    exact (and_iff_left (fun hq => absurd hq hc)).symm
  | raise => exact absurd rfl hu'
  | copy hst hd hm =>
    -- the copy has what the other process has replaced by now
    have hS : Standing y calls s := by
      intro r
      refine forall_pair q ?_ ?_ r
      · exact fun hq => absurd (hst.symm.trans hq) (by decide)
      · rw [Bool.not_not]
        exact fun _ => ⟨fun n hn => (by rw [hn] at hst; cases hst), fun hq => absurd (hst.symm.trans hq) (by decide)⟩
    refine Iff.intro (fun _ => ⟨hS, fun hq => absurd (hst.symm.trans hq) (by decide)⟩) (fun _ r => ?_)
    refine forall_pair q ?_ ?_ r
    · rw [Stores.put_self]; exact fun hq => nomatch hq
    · rw [Stores.put_other, Bool.not_not, Stores.put_self]
      refine fun hr => ⟨fun n hn => ?_, fun hq => nomatch hq⟩
      cases hn
      have hk : (calls (!q)).key ≠ (calls q).key := (hne q).symm
      rw [(entry_changed (hy q) hm).2.2, Function.update_of_ne hk]
      exact h.done (!q) hr (by rw [Bool.not_not]; exact Or.inl hst)
  | @replace n hpc =>
    have hcop : (s.pc q).stage = .copied := stage_eq_copied.2 ⟨n, hpc⟩
    have he : (s.creds.overwrite (calls q).umask n).entry y.yaml = y.yaml.entry n := rfl
    have hcopy : ∀ n', s.pc (!q) = .overwrite n' →
        (y.yaml.entry n' (calls q).key = some (.str (calls q).secret) ↔ Already y calls old q) := fun n' hn' => by
      rw [already_iff, (h.pending q (Or.inr hcop)).2 n' hn']
    constructor
    · intro hS'
      have hq := hS' q
      have ho := hS' (!q)
      rw [Stores.put_self, Stores.put_other] at hq
      rw [Stores.put_other, Bool.not_not, Stores.put_self] at ho
      refine ⟨fun r => ?_, fun _ hc => ?_⟩
      · refine forall_pair q ?_ ?_ r
        · exact fun hr => absurd (hcop.symm.trans hr) (by decide)
        · rw [Bool.not_not]
          refine fun hr => ⟨fun n' hn' => ?_, fun hr' => absurd (hcop.symm.trans hr') (by decide)⟩
          have hnn : n = n' := StorePc.overwrite.inj (hpc.symm.trans hn')
          subst hnn
          exact (ho hr).2 rfl
      · obtain ⟨n', hn'⟩ := stage_eq_copied.1 hc
        exact (hcopy n' hn').1 ((hq rfl).1 n' hn')
    · rintro ⟨hS, hC⟩ r
      refine forall_pair q ?_ ?_ r
      · rw [Stores.put_self, Stores.put_other, Stores.put_creds, he]
        refine fun _ => ⟨fun n' hn' => ?_, fun _ => (h.own q n hpc).1⟩
        exact (hcopy n' hn').2 (hC hcop (stage_eq_copied.2 ⟨n', hn'⟩))
      · rw [Stores.put_other, Bool.not_not, Stores.put_self, Stores.put_creds, he]
        have ho := hS (!q)
        rw [Bool.not_not] at ho
        exact fun hr => ⟨fun _ hn => (nomatch hn), fun _ => (ho hr).1 n hpc⟩

/-! ## Two stores -/

theorem Ledger.nothingLost_iff (h : Ledger y calls old s) (hret : s.Returned) (hk : ∀ q, (calls q).key ≠ "") :
    NothingLost y calls old s ↔ Standing y calls s := by
  have hstage : ∀ q, (s.pc q).stage = .replaced := fun q => by rw [hret q]; rfl
  have hpriv : s.creds.Private := ⟨h.dir true (by rw [hret true]; rfl), (h.file true (hstage true)).1⟩
  have hlook := fun q => lookup_eq_entry (y := y) (hk q) hpriv (h.file true (hstage true)).2
  constructor
  · intro hn q _
    refine ⟨fun n hn => (by rw [hret] at hn; cases hn), fun _ => ?_⟩
    have hs := hn.stored q
    rw [hlook q] at hs
    cases he : s.creds.entry y.yaml (calls q).key with
    | none   => rw [he] at hs; cases hs
    | some v => rw [he] at hs; cases hs; rfl
  · intro hS
    refine ⟨fun q => ?_, fun k v hk hv => (h.others k hk).1.trans hv⟩
    rw [hlook q, (hS q (hstage q)).2 (hstage (!q))]
    rfl

/-- The process has passed the check of its arguments. -/
theorem key_ne_empty : ∀ (es : List Bool) {s t : Stores}, (∀ q, s.pc q ≠ .checkStore → (calls q).key ≠ "") →
    Runs.run (Stores.step y calls) s es = some t → t.Returned → ∀ q, (calls q).key ≠ "" := by
  intro es s t hs hr hret q
  refine Runs.run_invariant (I := fun s => ∀ q, (s.pc q).stage ≠ .raised → s.pc q ≠ .checkStore → (calls q).key ≠ "")
    ?_ es (fun q _ => hs q) hr q (by rw [hret q]; decide) (by rw [hret q]; decide)
  intro s e s' h hstep r
  obtain ⟨⟨c, pc⟩, hm, rfl⟩ := Option.map_eq_some_iff.1 hstep
  refine forall_pair e ?_ ?_ r
  · rw [Stores.put_self]
    intro hraise hne
    cases hpc : s.pc e with
    | checkStore =>
      rw [hpc] at hm
      obtain ⟨⟩ := hm
      cases hc : checkStore (calls e).key (calls e).secret with
      | ok u    => exact (checkStore_eq_ok.1 hc).1
      | error x => rw [hc] at hraise; exact absurd rfl hraise
    | ended r =>
      rw [hpc] at hm; cases hm
    | _ =>
      refine h e (fun hraised => ?_) (by rw [hpc]; exact (nomatch ·))
      rw [step_of_raised hraised] at hm
      cases hm
  · rw [Stores.put_other]; exact h _

/-- **Two stores of different keys, both returned, lose nothing exactly where they do not overlap.** -/
theorem nothingLost_iff_noOverlap (y : YamlConf) (calls : Bool → StoreCall) (old : Creds)
    (hy : ∀ q, y.yaml.Keeps (calls q).key (calls q).secret) (hne : (calls true).key ≠ (calls false).key)
    (es : List Bool) (s : Stores) (hr : Runs.run (Stores.step y calls) (.start old) es = some s) (hret : s.Returned) :
    NothingLost y calls old s ↔ Runs.Meets (Stores.step y calls) (NoOverlap y calls old) (.start old) es := by
  have hne' : ∀ q, (calls q).key ≠ (calls (!q)).key := fun q => by
    cases q
    · exact hne.symm
    · exact hne
  have hkey := key_ne_empty es (fun q hq => absurd rfl hq) hr hret
  have hledger := Runs.run_invariant (fun _ _ _ hj hs => hj.step hy hne' hs) es (ledger_start y calls old) hr
  rw [hledger.nothingLost_iff hret hkey]
  have := (Runs.run_iff_meets (P := Standing y calls) (C := NoOverlap y calls old)
    (fun _ _ _ hj hs => hj.step hy hne' hs) (fun _ _ _ hs => unraised_of_step hs)
    (fun _ _ _ hj hu hs => standing_step hy hne' hj hu hs) es (ledger_start y calls old) hr
    (fun q => by rw [hret q]; decide)).2
  rw [this]
  exact and_iff_right (standing_start y calls old)

/-! ## Two keys in an empty directory -/

def twoDocs : List Dict :=
  [[(.str "a", .str "x")], [(.str "b", .str "y")], [(.str "a", .str "x"), (.str "b", .str "y")],
    [(.str "b", .str "y"), (.str "a", .str "x")]]

def twoConf : YamlConf := { creddir := "/home/u/.cache/app", credname := "app_cred.yml", yaml := plainYaml twoDocs }

def twoStores (q : Bool) : StoreCall :=
  if q then { key := "a", secret := "x", umask := 0o022 } else { key := "b", secret := "y", umask := 0o022 }

def emptyDir : Creds := { creddir := some 0o700, credfile := none }

theorem twoConf_keeps (q : Bool) : twoConf.yaml.Keeps (twoStores q).key (twoStores q).secret := by
  cases q with
  | true  => exact plainYaml_keeps (by decide +kernel) (by simp [twoDocs, twoStores, Dict.set, Value.isStr])
  | false => exact plainYaml_keeps (by decide +kernel) (by simp [twoDocs, twoStores, Dict.set, Value.isStr])

theorem nothingLost_one_by_one : ∃ s, Runs.run (Stores.step twoConf twoStores) (.start emptyDir)
    (List.replicate 11 true ++ List.replicate 13 false) = some s ∧ NothingLost twoConf twoStores emptyDir s := by
  obtain ⟨s, hs, hret⟩ : ∃ s, Runs.run (Stores.step twoConf twoStores) (.start emptyDir)
      (List.replicate 11 true ++ List.replicate 13 false) = some s ∧ s.Returned :=
    Runs.exists_run_of_any (by decide +kernel)
  refine ⟨s, hs, ?_⟩
  exact (nothingLost_iff_noOverlap twoConf twoStores emptyDir twoConf_keeps (by decide) _ s hs hret).2
    (by decide +kernel)

/-- **Both read before either replaces**: both return, and the first secret is lost. -/
theorem first_is_lost : ∃ s, Runs.run (Stores.step twoConf twoStores) (.start emptyDir)
      (List.replicate 6 true ++ List.replicate 6 false ++ List.replicate 5 true ++ List.replicate 5 false) = some s ∧
    s.Returned ∧ ¬ NothingLost twoConf twoStores emptyDir s := by
  obtain ⟨s, hs, hret, hlost⟩ : ∃ s, Runs.run (Stores.step twoConf twoStores) (.start emptyDir)
      (List.replicate 6 true ++ List.replicate 6 false ++ List.replicate 5 true ++ List.replicate 5 false) = some s ∧
      s.Returned ∧ (twoConf.lookup "a" s.creds).toOption.any (Value.isStr "x") = false :=
    Runs.exists_run_of_any (by decide +kernel)
  refine ⟨s, hs, hret, fun hn => ?_⟩
  have hl : twoConf.lookup "a" s.creds = .ok (.str "x") := hn.stored true
  rw [hl] at hlost
  exact absurd hlost (by decide)

end SecretStore
end Scrapcode
