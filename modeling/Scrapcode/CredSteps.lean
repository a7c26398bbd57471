import Scrapcode.Runs
import Scrapcode.CredStore
/-!
# CredSteps — `YamlConfLookup.store`, call by call

One `store` is the calls it makes: `makedirs`, the `exists` and the `stat` of each permission check, the read of the
file, its replacement, and the check once more.  `StorePc.next` is what a call that succeeds leads to, `StorePc.failed`
what one that fails leads to: `os.path.exists` is false on an error, everything else raises.

Where the replacement is one step, `StorePc.step` is the whole of it, and `StoreMoves` says what each step does.  Run
alone, the calls are `YamlConf.store` (`run_alone`).
-/
namespace Scrapcode
namespace SecretStore

structure StoreCall where
  key    : String
  secret : String
  umask  : UInt32

/-- The call that is made next; `again` is the check after the replacement. -/
inductive StorePc where
  | checkStore
  | makedirs
  | dirExists (again : Bool)
  | dirStat (again : Bool)
  | fileExists (again : Bool)
  | fileStat (again : Bool)
  | credExists
  | load
  | overwrite (newcontent : List UInt8)
  | ended (r : Except Exn Unit)
deriving DecidableEq

/-- After a check that passed. -/
def StorePc.checked (again : Bool) : StorePc := if again then .ended (.ok ()) else .credExists

section
variable (y : YamlConf) (call : StoreCall)

def dumped (f : Option CredFile) : StorePc :=
  match y.changed call.key call.secret f with
  | .ok m    => .overwrite (y.yaml.dump m)
  | .error e => .ended (.error e)

/-- The call at a place other than the replacement, where it succeeds. -/
def StorePc.next (c : Creds) : StorePc → Option StorePc
  | .checkStore       => some (match SecretStore.checkStore call.key call.secret with
    | .ok _    => .makedirs
    | .error e => .ended (.error e))
  | .makedirs         => some (.dirExists false)
  | .dirExists again  => some (if c.creddir.isSome then .dirStat again else .fileExists again)
  | .dirStat again    => some (if c.creddir.any exposed then .ended (.error y.dirRefused) else .fileExists again)
  | .fileExists again => some (if c.credfile.isSome then .fileStat again else .checked again)
  | .fileStat again   =>
    some (if c.credfile.any (fun f => exposed f.mode) then .ended (.error y.fileRefused) else .checked again)
  | .credExists       => some (if c.credfile.isSome then .load else dumped y call none)
  | .load             => some (dumped y call c.credfile)
  | .overwrite _      => none
  | .ended _          => none

/-- Where a failure of the call leads. -/
def StorePc.failed : StorePc → Option StorePc
  | .checkStore | .overwrite _ | .ended _            => none
  | .dirExists again                                 => some (.fileExists again)
  | .fileExists again                                => some (.checked again)
  | .credExists                                      => some (dumped y call none)
  | .makedirs | .dirStat _ | .fileStat _ | .load     => some (.ended (.error .osError))

def Creds.after (umask : UInt32) (c : Creds) : StorePc → Creds
  | .makedirs => c.makedirs umask
  | _         => c

/-- One step, with the replacement of the file as one. -/
def StorePc.step (c : Creds) : StorePc → Option (Creds × StorePc)
  | .overwrite newcontent => some (c.overwrite call.umask newcontent, .dirExists true)
  | pc                    => (pc.next y call c).map (fun pc' => (c.after call.umask pc, pc'))

end

/-! ## What a step does -/

/-- How far a `store` has come. -/
inductive Stage where
  | reading
  | copied
  | replaced
  | raised
deriving DecidableEq, Repr

def StorePc.stage : StorePc → Stage
  | .dirExists again | .dirStat again | .fileExists again | .fileStat again => if again then .replaced else .reading
  | .checkStore | .makedirs | .credExists | .load                           => .reading
  | .overwrite _                                                            => .copied
  | .ended (.ok _)                                                          => .replaced
  | .ended (.error _)                                                       => .raised

/-- The directory has passed the check. -/
def StorePc.dirChecked : StorePc → Bool
  | .fileExists _ | .fileStat _ | .credExists | .load | .overwrite _ | .dirExists true | .dirStat true => true
  | .ended (.ok _)                                                                                      => true
  | _                                                                                                   => false

inductive StoreMoves (y : YamlConf) (call : StoreCall) (c : Creds) (pc : StorePc) : Creds → StorePc → Prop
  | pass {pc'} : pc.stage ≠ .copied → pc'.stage = pc.stage →
      (pc'.dirChecked = true → pc.dirChecked = true ∨ c.creddir.any exposed = false) → StoreMoves y call c pc c pc'
  | makedirs : pc = .makedirs → StoreMoves y call c pc (c.makedirs call.umask) (.dirExists false)
  | raise {e} : StoreMoves y call c pc c (.ended (.error e))
  | copy {m} : pc.stage = .reading → pc.dirChecked = true → y.changed call.key call.secret c.credfile = .ok m →
      StoreMoves y call c pc c (.overwrite (y.yaml.dump m))
  | replace {n} : pc = .overwrite n → StoreMoves y call c pc (c.overwrite call.umask n) (.dirExists true)

variable {y : YamlConf} {call : StoreCall} {c c' : Creds} {pc pc' : StorePc}

theorem stage_checked (again : Bool) : (StorePc.checked again).stage = if again then .replaced else .reading := by
  cases again <;> rfl

theorem stage_check_ne (again : Bool) : (if again = true then Stage.replaced else .reading) ≠ .copied := by
  cases again <;> decide

theorem stage_eq_copied : pc.stage = .copied ↔ ∃ n, pc = .overwrite n := by
  cases pc with
  | overwrite n => exact Iff.intro (fun _ => ⟨n, rfl⟩) (fun _ => rfl)
  | ended r     => cases r <;> exact Iff.intro (fun h => nomatch h) (fun ⟨_, h⟩ => nomatch h)
  | dirExists again | dirStat again | fileExists again | fileStat again =>
    exact Iff.intro (fun h => absurd h (stage_check_ne again)) (fun ⟨_, h⟩ => nomatch h)
  | _           => exact Iff.intro (fun h => nomatch h) (fun ⟨_, h⟩ => nomatch h)

theorem step_of_raised (h : pc.stage = .raised) : pc.step y call c = none := by
  cases pc with
  | ended r => rfl
  | dirExists again | dirStat again | fileExists again | fileStat again => cases again <;> cases h
  | _       => cases h

theorem dumped_moves (hs : pc.stage = .reading) (hd : pc.dirChecked = true) :
    StoreMoves y call c pc c (dumped y call c.credfile) := by
  unfold dumped
  cases hm : y.changed call.key call.secret c.credfile with
  | ok m    => exact .copy hs hd hm
  | error e => exact .raise

theorem step_storeMoves (h : pc.step y call c = some (c', pc')) : StoreMoves y call c pc c' pc' := by
  cases pc with
  | checkStore =>
    obtain ⟨⟩ := h
    cases SecretStore.checkStore call.key call.secret with
    | ok u    => exact .pass (by decide) rfl (fun h => nomatch h)
    | error e => exact .raise
  | makedirs => obtain ⟨⟩ := h; exact .makedirs rfl
  | dirExists again =>
    obtain ⟨⟩ := h
    cases hd : c.creddir with
    | none   => exact .pass (stage_check_ne again) rfl (fun _ => Or.inr (by rw [hd]; rfl))
    | some m =>
      refine .pass (stage_check_ne again) rfl (fun h => ?_)
      cases again with
      | true  => exact Or.inl rfl
      | false => cases h
  | dirStat again =>
    obtain ⟨⟩ := h
    cases hd : c.creddir.any exposed with
    | true  => exact .raise
    | false => exact .pass (stage_check_ne again) rfl (fun _ => Or.inr hd)
  | fileExists again =>
    obtain ⟨⟩ := h
    refine .pass (stage_check_ne again) ?_ (fun _ => Or.inl rfl)
    cases c.credfile with
    | none   => exact stage_checked again
    | some f => rfl
  | fileStat again =>
    obtain ⟨⟩ := h
    cases c.credfile.any (fun f => exposed f.mode) with
    | true  => exact .raise
    | false => exact .pass (stage_check_ne again) (stage_checked again) (fun _ => Or.inl rfl)
  | credExists =>
    obtain ⟨⟩ := h
    cases hf : c.credfile with
    | none   =>
      have hm : StoreMoves y call c .credExists c (dumped y call c.credfile) := dumped_moves rfl rfl
      rw [hf] at hm
      exact hm
    | some f => exact .pass (by decide) rfl (fun _ => Or.inl rfl)
  | load => obtain ⟨⟩ := h; exact dumped_moves rfl rfl
  | overwrite n => obtain ⟨⟩ := h; exact .replace rfl
  | ended r => cases h

/-! ## One process alone -/

def StorePc.alone (y : YamlConf) (call : StoreCall) (s : Creds × StorePc) (_ : Unit) : Option (Creds × StorePc) :=
  s.2.step y call s.1

/-- Where a check leads. -/
def StorePc.afterCheck (y : YamlConf) (c : Creds) (again : Bool) : StorePc :=
  match y.checkCredfilePermissions c with
  | .ok _    => .checked again
  | .error e => .ended (.error e)

open Runs (Reaches)

theorem alone_check (y : YamlConf) (call : StoreCall) (c : Creds) (again : Bool) :
    Reaches (StorePc.alone y call) (c, .dirExists again) (c, .afterCheck y c again) := by
  have hfile : c.creddir.any exposed = false →
      Reaches (StorePc.alone y call) (c, .fileExists again) (c, .afterCheck y c again) := by
    intro hd
    unfold StorePc.afterCheck YamlConf.checkCredfilePermissions
    rw [hd]
    cases hf : c.credfile with
    | none   =>
      exact .head (e := ()) (t := (c, .checked again)) (by simp [StorePc.alone, StorePc.step, StorePc.next, hf,
        Creds.after]) (.refl _)
    | some f =>
      refine .head (e := ()) (t := (c, .fileStat again)) (by simp [StorePc.alone, StorePc.step, StorePc.next, hf,
        Creds.after]) (.head (e := ()) ?_ (.refl _))
      cases he : exposed f.mode <;> simp [StorePc.alone, StorePc.step, StorePc.next, hf, he, Creds.after]
  cases hd : c.creddir with
  | none   =>
    exact .head (e := ()) (t := (c, .fileExists again)) (by simp [StorePc.alone, StorePc.step, StorePc.next, hd,
      Creds.after]) (hfile (by rw [hd]; rfl))
  | some m =>
    refine .head (e := ()) (t := (c, .dirStat again)) (by simp [StorePc.alone, StorePc.step, StorePc.next, hd,
      Creds.after]) ?_
    cases he : exposed m with
    | true  =>
      refine .head (e := ()) ?_ (.refl _)
      simp [StorePc.alone, StorePc.step, StorePc.next, hd, he, Creds.after, StorePc.afterCheck,
        YamlConf.checkCredfilePermissions]
    | false =>
      exact .head (e := ()) (t := (c, .fileExists again)) (by simp [StorePc.alone, StorePc.step, StorePc.next, hd, he,
        Creds.after]) (hfile (by rw [hd]; exact he))

/-- From the read of the file to the place after it. -/
theorem alone_read (y : YamlConf) (call : StoreCall) (c : Creds) :
    Reaches (StorePc.alone y call) (c, .credExists) (c, dumped y call c.credfile) := by
  cases hf : c.credfile with
  | none   => exact .head (e := ()) (by simp [StorePc.alone, StorePc.step, StorePc.next, hf, Creds.after]) (.refl _)
  | some f =>
    refine .head (e := ()) (t := (c, .load)) (by simp [StorePc.alone, StorePc.step, StorePc.next, hf, Creds.after]) ?_
    exact .head (e := ()) (by simp [StorePc.alone, StorePc.step, StorePc.next, hf, Creds.after]) (.refl _)

/-- **The calls of one process, one after the other, are `store`**: it raises what `store` raises, and leaves what
`store` leaves. -/
theorem run_alone (y : YamlConf) (call : StoreCall) (c : Creds) :
    ∃ c', Reaches (StorePc.alone y call) (c, .checkStore)
      (c', .ended ((y.store call.umask call.key call.secret c).map (fun _ => ()))) ∧
    ∀ d, y.store call.umask call.key call.secret c = .ok d → c' = d := by
  unfold YamlConf.store
  cases hs : checkStore call.key call.secret with
  | error e =>
    refine ⟨c, .head (e := ()) ?_ (.refl _), fun d h => nomatch h⟩
    simp [StorePc.alone, StorePc.step, StorePc.next, hs, Creds.after, Except.map, bind, Except.bind]
  | ok u =>
  have hstart : Reaches (StorePc.alone y call) (c, .checkStore)
      (c.makedirs call.umask, .afterCheck y (c.makedirs call.umask) false) :=
    .head (e := ()) (t := (c, .makedirs)) (by simp [StorePc.alone, StorePc.step, StorePc.next, hs, Creds.after])
      (.head (e := ()) (t := (c.makedirs call.umask, .dirExists false)) rfl (alone_check y call _ false))
  simp only [bind, Except.bind]
  cases hp : y.checkCredfilePermissions (c.makedirs call.umask) with
  | error e =>
    rw [StorePc.afterCheck, hp] at hstart
    exact ⟨_, hstart, fun d h => nomatch h⟩
  | ok u =>
  rw [StorePc.afterCheck, hp] at hstart
  have hread := hstart.trans (alone_read y call (c.makedirs call.umask))
  rw [dumped] at hread
  cases hm : y.changed call.key call.secret (c.makedirs call.umask).credfile with
  | error e =>
    rw [hm] at hread
    exact ⟨_, hread, fun d h => nomatch h⟩
  | ok m =>
  rw [hm] at hread
  have hover := hread.trans (.head (e := ()) rfl
    (alone_check y call ((c.makedirs call.umask).overwrite call.umask (y.yaml.dump m)) true))
  rw [StorePc.afterCheck] at hover
  dsimp only
  cases hp' : y.checkCredfilePermissions ((c.makedirs call.umask).overwrite call.umask (y.yaml.dump m)) with
  | error e =>
    rw [hp'] at hover
    exact ⟨_, hover, fun d h => nomatch h⟩
  | ok u =>
    rw [hp'] at hover
    exact ⟨_, hover, fun d h => by cases h; rfl⟩

end SecretStore
end Scrapcode
