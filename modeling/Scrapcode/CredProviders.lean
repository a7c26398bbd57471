import Scrapcode.CredStore
/-!
# CredProviders — `store_secret` and `lookup_secret` over all providers

`store_secret` stores in the first active provider and reads the secret back from it; `lookup_secret` asks every active
provider in turn and gives the first answer, so an exception of any of them is its own.  What is stored can be looked
up exactly where the providers after the first raise nothing: with libsecret first, where the YAML file can be read.

The keyring is a parameter.  What is relied on is that storing under one key leaves what is under the others.
-/
namespace Scrapcode
namespace SecretStore

structure Libsecret (κ : Type) where
  passwordLookup : κ → String → Except Exn (Option String)
  passwordStore  : κ → String → String → Except Exn κ

def Libsecret.Frames {κ : Type} (l : Libsecret κ) : Prop :=
  ∀ r key secret r', l.passwordStore r key secret = .ok r' → ∀ k, k ≠ key → l.passwordLookup r' k = l.passwordLookup r k

inductive Provider where
  | libsecret
  | yaml
  | envvar
deriving DecidableEq, Repr

def Provider.name : Provider → String
  | .libsecret => "libsecret"
  | .yaml      => "yaml"
  | .envvar    => "envvar"

def candidateProviders : List Provider := [.libsecret, .yaml, .envvar]

/-- What the providers read and change. -/
structure Sources (κ : Type) where
  keyring : κ
  creds   : Creds
  environ : String → Option String

structure Module (κ : Type) where
  haveLibsecret : Bool
  libsecret     : Libsecret κ
  conf          : YamlConf
  umask         : UInt32

namespace Value

def isNone : Value → Bool
  | .null => true
  | _     => false

def ofOption (o : Option String) : Value := o.elim .null .str

end Value

namespace Module

variable {κ : Type} (m : Module κ)

def isUsable : Provider → Bool
  | .libsecret => m.haveLibsecret
  | _          => true

def activeProviders : List Provider := candidateProviders.filter m.isUsable

def lookup (key : String) (s : Sources κ) : Provider → Except Exn Value
  | .libsecret => do
    checkLookup key
    let found ← m.libsecret.passwordLookup s.keyring key
    return .ofOption found
  | .yaml      => m.conf.lookup key s.creds
  | .envvar    => do
    checkLookup key
    return .ofOption (s.environ "key")

def store (key secret : String) (s : Sources κ) : Provider → Except Exn (Sources κ)
  | .libsecret => do
    checkStore key secret
    let r ← m.libsecret.passwordStore s.keyring key secret
    return { s with keyring := r }
  | .yaml      => do
    let c ← m.conf.store m.umask key secret s.creds
    return { s with creds := c }
  | .envvar    => do
    checkStore key secret
    .error (.notImplementedError "No support for storing creds in environment")

/-- The loop of `lookup_secret`: the first value found so far, and where one was found. -/
def lookupLoop (key : String) (s : Sources κ) : List Provider → Value → List String → Except Exn (Value × List String)
  | [], first, locations      => .ok (first, locations)
  | p :: ps, first, locations => do
    let found ← m.lookup key s p
    if found.isNone then lookupLoop key s ps first locations
    else lookupLoop key s ps (if first.isNone then found else first) (locations ++ [p.name])

def notInitialized : Exn := .runtimeError "call secrets.initialize(...) first"

def notFound (key : String) (ps : List Provider) : Exn :=
  .keyError ("Could not find secret " ++ key ++ " in configured sources: " ++ ", ".intercalate (ps.map Provider.name))

def notRetrieved (key : String) (p : Provider) : Exn :=
  .runtimeError ("failed to store secret " ++ key ++ " in provider " ++ p.name ++ ": retrieval after store failed")

def lookupIn (ps : List Provider) (key : String) (s : Sources κ) : Except Exn Value :=
  if ps = [] then .error notInitialized
  else do
    let found ← m.lookupLoop key s ps .null []
    if found.2 = [] then .error (notFound key ps) else return found.1

def lookupSecret (key : String) (s : Sources κ) : Except Exn Value := m.lookupIn m.activeProviders key s

def storeSecret (key secret : String) (s : Sources κ) : Except Exn (Sources κ) :=
  match m.activeProviders with
  | []     => .error notInitialized
  | p :: _ => do
    let s ← m.store key secret s p
    let found ← m.lookup key s p
    if found.isStr secret then return s else .error (notRetrieved key p)

/-! ## The loop -/

variable {m} {key k secret : String} {s s' : Sources κ} {p : Provider} {ps : List Provider} {v : Value}

theorem lookupLoop_congr (h : ∀ p ∈ ps, m.lookup k s p = m.lookup k s' p) (first : Value) (locations : List String) :
    m.lookupLoop k s ps first locations = m.lookupLoop k s' ps first locations := by
  induction ps generalizing first locations with
  | nil          => rfl
  | cons p ps ih =>
    unfold lookupLoop
    rw [h p (by simp)]
    simp only [ih (fun q hq => h q (by simp [hq]))]

/-- Where the providers answer alike, so does `lookup_secret`. -/
theorem lookupIn_congr (h : ∀ p ∈ ps, m.lookup k s p = m.lookup k s' p) : m.lookupIn ps k s = m.lookupIn ps k s' := by
  unfold lookupIn
  rw [lookupLoop_congr h]

/-- **Once a value is found** it stays the answer, and the providers that are left can only raise. -/
theorem lookupLoop_found (first : Value) (hf : first.isNone = false) (locations : List String) :
    ((∃ r, m.lookupLoop key s ps first locations = .ok r) ↔ ∀ p ∈ ps, ∃ v, m.lookup key s p = .ok v) ∧
    ∀ r, m.lookupLoop key s ps first locations = .ok r → r.1 = first ∧ (locations ≠ [] → r.2 ≠ []) := by
  induction ps generalizing locations with
  | nil =>
    refine ⟨Iff.intro (fun _ _ hp => (nomatch hp)) (fun _ => ⟨_, rfl⟩), fun r h => ?_⟩
    cases h
    exact ⟨rfl, id⟩
  | cons p ps ih =>
    unfold lookupLoop
    cases hv : m.lookup key s p with
    | error e =>
      refine ⟨Iff.intro (fun h => ?_) (fun h => ?_), fun r h => (nomatch h)⟩
      · obtain ⟨r, h⟩ := h; cases h
      · obtain ⟨v, h⟩ := h p (by simp); rw [hv] at h; cases h
    | ok v =>
      simp only [bind, Except.bind, hf, Bool.false_eq_true, if_false, List.forall_mem_cons, hv, Except.ok.injEq,
        exists_eq', true_and]
      split
      · exact ih locations
      · obtain ⟨h₁, h₂⟩ := ih (locations ++ [p.name])
        exact ⟨h₁, fun r h => ⟨(h₂ r h).1, fun _ => (h₂ r h).2 (by simp)⟩⟩

/-- **What the first provider has is what is looked up**, unless a later provider raises. -/
theorem lookupIn_first (h : m.lookup key s p = .ok v) (hv : v.isNone = false) :
    m.lookupIn (p :: ps) key s = .ok v ↔ ∀ q ∈ ps, ∃ w, m.lookup key s q = .ok w := by
  have hloop : m.lookupLoop key s (p :: ps) .null [] = m.lookupLoop key s ps v [p.name] := by
    rw [lookupLoop, h]
    simp only [bind, Except.bind, hv, Bool.false_eq_true, if_false, List.nil_append]
    rfl
  obtain ⟨hok, hval⟩ : ((∃ r, m.lookupLoop key s ps v [p.name] = .ok r) ↔ ∀ q ∈ ps, ∃ w, m.lookup key s q = .ok w) ∧ _ :=
    lookupLoop_found v hv [p.name]
  unfold lookupIn
  rw [if_neg (by simp), hloop, ← hok]
  cases hl : m.lookupLoop key s ps v [p.name] with
  | error e => exact Iff.intro (fun h => nomatch h) (fun ⟨_, h⟩ => nomatch h)
  | ok r    =>
    obtain ⟨hr, hne⟩ := hval r hl
    simp only [bind, Except.bind, if_neg (hne (by simp)), hr, Except.ok.injEq, exists_eq']
    exact Iff.intro (fun _ => trivial) (fun _ => rfl)

theorem storeSecret_eq_ok (ha : m.activeProviders = p :: ps) (h : m.storeSecret key secret s = .ok s') :
    m.store key secret s p = .ok s' ∧ m.lookup key s' p = .ok (.str secret) := by
  unfold storeSecret at h
  rw [ha] at h
  cases hs : m.store key secret s p with
  | error e => simp only [hs] at h; cases h
  | ok t    =>
    simp only [hs, bind, Except.bind] at h
    cases hl : m.lookup key t p with
    | error e => simp only [hl] at h; cases h
    | ok v    =>
      simp only [hl] at h
      split at h
      · rename_i hv
        cases h
        cases v with
        | str w => rw [beq_iff_eq.1 hv] at hl; exact ⟨rfl, hl⟩
        | _     => cases hv
      · cases h

/-! ## The law -/

theorem activeProviders_of_have (h : m.haveLibsecret = true) : m.activeProviders = [.libsecret, .yaml, .envvar] := by
  simp [activeProviders, candidateProviders, isUsable, h]

theorem activeProviders_of_not (h : m.haveLibsecret = false) : m.activeProviders = [.yaml, .envvar] := by
  simp [activeProviders, candidateProviders, isUsable, h]

theorem lookup_empty (s : Sources κ) (p : Provider) :
    m.lookup "" s p = .error (.valueError "key must be non-empty string") := by
  cases p <;> rfl

theorem lookup_envvar (hk : key ≠ "") : m.lookup key s .envvar = .ok (.ofOption (s.environ "key")) := by
  unfold lookup
  rw [checkLookup_eq_ok.2 hk]
  rfl

theorem store_libsecret (h : m.store key secret s .libsecret = .ok s') :
    key ≠ "" ∧ ∃ r, m.libsecret.passwordStore s.keyring key secret = .ok r ∧ s' = { s with keyring := r } := by
  unfold store at h
  cases hs : checkStore key secret with
  | error e => simp only [hs] at h; cases h
  | ok u    =>
    cases hr : m.libsecret.passwordStore s.keyring key secret with
    | error e => simp only [hs, hr] at h; cases h
    | ok r    => simp only [hs, hr] at h; cases h; exact ⟨(checkStore_eq_ok.1 hs).1, r, rfl, rfl⟩

theorem store_yaml (h : m.store key secret s .yaml = .ok s') :
    ∃ c, m.conf.store m.umask key secret s.creds = .ok c ∧ s' = { s with creds := c } := by
  unfold store at h
  cases hc : m.conf.store m.umask key secret s.creds with
  | error e => simp only [hc] at h; cases h
  | ok c    => simp only [hc] at h; cases h; exact ⟨c, rfl, rfl⟩

/-- **The other keys**: each active provider answers as it did before the store. -/
theorem lookup_other (hl : m.libsecret.Frames) (hy : m.conf.yaml.Keeps key secret)
    (h : m.storeSecret key secret s = .ok s') (hk : k ≠ key) :
    m.lookupSecret k s' = m.lookupSecret k s := by
  refine lookupIn_congr (fun q _ => ?_)
  by_cases hempty : k = ""
  · subst hempty; rw [lookup_empty, lookup_empty]
  cases hh : m.haveLibsecret with
  | true =>
    obtain ⟨hs, -⟩ := storeSecret_eq_ok (activeProviders_of_have hh) h
    obtain ⟨-, r, hr, rfl⟩ := store_libsecret hs
    cases q with
    | libsecret =>
      unfold lookup
      rw [show m.libsecret.passwordLookup r k = m.libsecret.passwordLookup s.keyring k from hl _ _ _ _ hr k hk]
    | yaml      => rfl
    | envvar    => rfl
  | false =>
    obtain ⟨hs, -⟩ := storeSecret_eq_ok (activeProviders_of_not hh) h
    obtain ⟨c, hc, rfl⟩ := store_yaml hs
    cases q with
    | libsecret => rfl
    | yaml      =>
      obtain ⟨hp, hm, hp', hm', he⟩ := store_spec hy hc
      simp only [lookup]
      rw [lookup_eq_entry hempty hp' hm', lookup_eq_entry hempty hp hm, he, Function.update_of_ne hk]
    | envvar    => rfl

/-- **The stored key**: it is found in the first provider, and the others must not raise. -/
theorem lookup_stored (h : m.storeSecret key secret s = .ok s') :
    m.lookupSecret key s' = .ok (.str secret) ↔ (m.haveLibsecret = true → s.creds.Readable m.conf.yaml key) := by
  unfold lookupSecret
  cases hh : m.haveLibsecret with
  | true =>
    obtain ⟨hs, hfound⟩ := storeSecret_eq_ok (activeProviders_of_have hh) h
    obtain ⟨hk, r, -, rfl⟩ := store_libsecret hs
    rw [activeProviders_of_have hh, lookupIn_first hfound rfl, List.forall_mem_cons, List.forall_mem_singleton,
      lookup_envvar hk]
    simp only [lookup, lookup_isOk hk, Except.ok.injEq, exists_eq', and_true, forall_const]
  | false =>
    obtain ⟨hs, hfound⟩ := storeSecret_eq_ok (activeProviders_of_not hh) h
    obtain ⟨c, hc, rfl⟩ := store_yaml hs
    rw [activeProviders_of_not hh, lookupIn_first hfound rfl, List.forall_mem_singleton,
      lookup_envvar (store_eq_ok hc).1]
    simp

/-- A keyring that holds one secret for each key. -/
def keyring : Libsecret (String → Option String) where
  passwordLookup := fun r key => .ok (r key)
  passwordStore  := fun r key secret => .ok (Function.update r key (some secret))

theorem keyring_frames : keyring.Frames := by
  intro r key secret r' h k hk
  cases h
  exact congrArg Except.ok (Function.update_of_ne hk _ _)

def withLibsecret : Module (String → Option String) where
  haveLibsecret := true
  libsecret     := keyring
  conf          := { creddir := "/home/u/.cache/app", credname := "app_cred.yml", yaml := plainYaml [[(.str "k", .str "s")]] }
  umask         := 0o022

def sources (dirmode : UInt32) : Sources (String → Option String) where
  keyring := fun _ => none
  creds   := { creddir := some dirmode, credfile := none }
  environ := fun _ => none

def stored (dirmode : UInt32) : Sources (String → Option String) :=
  { sources dirmode with keyring := Function.update (fun _ => none) "k" (some "s") }

end Module
end SecretStore
end Scrapcode
