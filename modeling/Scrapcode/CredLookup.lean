import Scrapcode.CredProviders
/-!
# CredLookup — what `lookup_secret` finds

Each active provider is an object with what is its own: libsecret with its schema and the keyring, the YAML file of an
application, the environment, which all share.  `lookup_secret` on any list of them gives the value of the first that
answers.  The environment answers for the variable `key` and not for the one named by the key; so what is found is
what the first provider holds exactly where the environment, asked for the one or the other, decides nothing
(`finds_iff_envHarmless`).
-/
namespace Scrapcode
namespace SecretStore

abbrev Environ := String → Option String

inductive Active (κ : Type) where
  | libsecret (secret : Libsecret κ) (keyring : κ)
  | yaml (conf : YamlConf) (creds : Creds)
  | envvar

namespace Active

variable {κ : Type}

def name : Active κ → String
  | .libsecret _ _ => "libsecret"
  | .yaml _ _      => "yaml"
  | .envvar        => "envvar"

def lookup (key : String) (environ : Environ) : Active κ → Except Exn Value
  | .libsecret secret keyring => do
    checkLookup key
    let found ← secret.passwordLookup keyring key
    return .ofOption found
  | .yaml conf creds          => conf.lookup key creds
  | .envvar                   => do
    checkLookup key
    return .ofOption (environ "key")

/-- The loop of `lookup_secret`, and `found_locations` with it. -/
def lookupLoop (key : String) (environ : Environ) :
    List (Active κ) → Value → List String → Except Exn (Value × List String)
  | [], first, locations      => .ok (first, locations)
  | a :: as, first, locations => do
    let found ← a.lookup key environ
    if found.isNone then lookupLoop key environ as first locations
    else lookupLoop key environ as (if first.isNone then found else first) (locations ++ [a.name])

def notFound (key : String) (as : List (Active κ)) : Exn :=
  .keyError ("Could not find secret " ++ key ++ " in configured sources: " ++ ", ".intercalate (as.map name))

def lookupSecret (key : String) (environ : Environ) (as : List (Active κ)) : Except Exn Value :=
  if as = [] then .error Module.notInitialized
  else do
    let found ← lookupLoop key environ as .null []
    if found.2 = [] then .error (notFound key as) else return found.1

end Active

/-- The provider of a module, with the module's sources. -/
def Module.active {κ : Type} (m : Module κ) (s : Sources κ) : Provider → Active κ
  | .libsecret => .libsecret m.libsecret s.keyring
  | .yaml      => .yaml m.conf s.creds
  | .envvar    => .envvar

/-! ## What is held -/

namespace Active

variable {κ : Type}

/-- What a provider holds under the key.  A `null` is no value. -/
def held (key : String) (environ : Environ) : Active κ → Option Value
  | .libsecret secret keyring => ((secret.passwordLookup keyring key).toOption.join).map .str
  | .yaml conf creds          => (creds.entry conf.yaml key).filter (fun v => !v.isNone)
  | .envvar                   => (environ key).map .str

/-- What the first provider that holds the key has under it. -/
def firstHeld (key : String) (environ : Environ) (as : List (Active κ)) : Option Value :=
  as.findSome? (held key environ)

/-- **The value of the first holder** is found, or there is no holder and a `KeyError`. -/
def Finds (key : String) (environ : Environ) (as : List (Active κ)) : Prop :=
  (∀ v, firstHeld key environ as = some v → lookupSecret key environ as = .ok v) ∧
  ((∃ text, lookupSecret key environ as = .error (.keyError text)) ↔ ∀ a ∈ as, a.held key environ = none)

/-- **The environment decides nothing**: a provider before it holds the key, or the variable named by the key and the
variable `key` lead to the same value, their own or one of a later provider. -/
def EnvHarmless (key : String) (environ : Environ) : List (Active κ) → Prop
  | []           => True
  | .envvar :: as =>
    ((environ key).map .str).or (firstHeld key (fun _ => none) as) =
      ((environ "key").map .str).or (firstHeld key (fun _ => none) as)
  | a :: as      => a.held key environ ≠ none ∨ EnvHarmless key environ as

end Active

variable {κ : Type} {m : Module κ} {s : Sources κ} {key : String} {environ environ' : Environ} {a : Active κ}
  {as : List (Active κ)} {v : Value}

/-! ## One provider -/

theorem find_notMap {w : Value} (h : YamlConf.find key w = .ok v) (hw : ∀ m, w ≠ .map m) : v = .null := by
  have hindex : w.index key = .error .typeError := by
    cases w with
    | map m => exact absurd rfl (hw m)
    | _     => rfl
  unfold YamlConf.find at h
  rw [hindex] at h
  cases hc : w.contains key with
  | error e => rw [hc] at h; cases h
  | ok b    =>
    rw [hc] at h
    cases b with
    | true  => cases h
    | false => cases h; rfl

/-- The value, unless it is `null`. -/
def Value.given (v : Value) : Option Value := if v.isNone then none else some v

theorem given_getD_null (o : Option Value) : (o.getD .null).given = o.filter (fun v => !v.isNone) := by
  unfold Value.given
  cases o with
  | none   => rfl
  | some v =>
    rw [Option.getD_some, Option.filter_some]
    cases v.isNone <;> rfl

theorem given_ofOption (o : Option String) : (Value.ofOption o).given = o.map .str := by
  cases o <;> rfl

theorem checkLookup_bind {α : Type} {x : Except Exn α} {r : α} (h : (checkLookup key >>= fun _ => x) = .ok r) :
    key ≠ "" ∧ x = .ok r := by
  cases hk : checkLookup key with
  | error e => rw [hk] at h; cases h
  | ok u    => rw [hk] at h; exact ⟨checkLookup_eq_ok.1 hk, h⟩

theorem given_of_yaml {conf : YamlConf} {creds : Creds} (h : conf.lookup key creds = .ok v) :
    v.given = (creds.entry conf.yaml key).filter (fun v => !v.isNone) := by
  have hk : key ≠ "" := (checkLookup_bind h).1
  have hp := ((lookup_isOk hk).1 ⟨v, h⟩).1
  rw [lookup_of_private hk hp] at h
  unfold Creds.entry Yaml.entry
  cases hc : creds.credfile with
  | none   => rw [hc] at h; cases h; rfl
  | some f =>
    rw [hc, Option.elim_some] at h
    rw [Option.bind_some]
    cases hl : conf.yaml.load f.content with
    | error e => rw [hl] at h; cases h
    | ok w    =>
      rw [hl] at h
      by_cases hw : ∃ m, w = .map m
      · obtain ⟨m, rfl⟩ := hw
        cases (find_map m key).symm.trans h
        exact given_getD_null _
      · rw [find_notMap h (fun m hm => hw ⟨m, hm⟩)]
        cases w with
        | map m => exact absurd ⟨m, rfl⟩ hw
        | _     => rfl

namespace Active

/-- **What a provider answers** is what it holds, but the environment is asked for the variable `key`. -/
theorem given_lookup (h : a.lookup key environ = .ok v) : v.given = a.held key (fun _ => environ "key") := by
  cases a with
  | libsecret secret keyring =>
    obtain ⟨-, h⟩ := checkLookup_bind h
    show v.given = ((secret.passwordLookup keyring key).toOption.join).map .str
    cases hl : secret.passwordLookup keyring key with
    | error e  => rw [hl] at h; cases h
    | ok found => rw [hl] at h; cases h; exact given_ofOption found
  | yaml conf creds => exact given_of_yaml h
  | envvar =>
    obtain ⟨-, h⟩ := checkLookup_bind h
    cases h
    exact given_ofOption _

/-! ## The search -/

theorem firstHeld_cons (key : String) (environ : Environ) (a : Active κ) (as : List (Active κ)) :
    firstHeld key environ (a :: as) = (a.held key environ).or (firstHeld key environ as) := by
  unfold firstHeld
  rw [List.findSome?_cons]
  cases a.held key environ <;> rfl

theorem firstHeld_congr (h : environ key = environ' key) (as : List (Active κ)) :
    firstHeld key environ as = firstHeld key environ' as := by
  have : (held key environ : Active κ → Option Value) = held key environ' := by
    funext a
    cases a with
    | envvar => unfold held; rw [h]
    | _      => rfl
  unfold firstHeld
  rw [this]

/-- **The loop**: what was found first stays, and otherwise it is what the first holder of the rest has. -/
theorem lookupLoop_spec (hok : ∀ a ∈ as, ∃ v, a.lookup key environ = .ok v) (first : Value) (locations : List String)
    (hfirst : first.isNone = true ↔ locations = []) :
    ∃ r, lookupLoop key environ as first locations = .ok r ∧
      r.1.given = first.given.or (firstHeld key (fun _ => environ "key") as) ∧ (r.1.isNone = true ↔ r.2 = []) := by
  induction as generalizing first locations with
  | nil => exact ⟨_, rfl, (Option.or_none).symm, hfirst⟩
  | cons a as ih =>
    rw [List.forall_mem_cons] at hok
    obtain ⟨⟨v, hv⟩, hok⟩ := hok
    have hheld := given_lookup hv
    have hstep : lookupLoop key environ (a :: as) first locations = if v.isNone then
        lookupLoop key environ as first locations
      else lookupLoop key environ as (if first.isNone then v else first) (locations ++ [a.name]) := by
      rw [lookupLoop, hv]
      rfl
    rw [hstep, firstHeld_cons, ← hheld]
    cases hnone : v.isNone with
    | true =>
      rw [if_pos rfl, show v.given = none from if_pos hnone, Option.none_or]
      exact ih hok first locations hfirst
    | false =>
      have hgiven : v.given = some v := if_neg (by rw [hnone]; decide)
      have hboth : (if first.isNone then v else first).given = first.given.or v.given := by
        cases hf : first.isNone with
        | true  => rw [if_pos rfl, show first.given = none from if_pos hf, Option.none_or]
        | false => rw [if_neg (by decide), show first.given = some first from if_neg (by rw [hf]; decide)]; rfl
      have hfirst' : (if first.isNone then v else first).isNone = true ↔ locations ++ [a.name] = [] := by
        refine iff_of_false (fun h => ?_) (by simp)
        split at h
        · rw [hnone] at h; cases h
        · next hf => exact hf h
      rw [if_neg (by decide), ← Option.or_assoc, ← hboth]
      exact ih hok _ _ hfirst'

/-- **`lookup_secret`, where no provider raises**: it finds what is first held if the environment is asked for the
variable `key`. -/
theorem lookupSecret_eq (hne : as ≠ []) (hok : ∀ a ∈ as, ∃ v, a.lookup key environ = .ok v) :
    lookupSecret key environ as = (firstHeld key (fun _ => environ "key") as).elim (.error (notFound key as)) .ok := by
  obtain ⟨r, hr, hgiven, hnone⟩ := lookupLoop_spec hok .null [] (iff_of_true rfl rfl)
  unfold lookupSecret
  rw [if_neg hne, hr]
  rw [show Value.null.given = none from rfl, Option.none_or] at hgiven
  rw [← hgiven]
  show (if r.2 = [] then _ else _) = _
  by_cases h : r.2 = []
  · rw [if_pos h, show r.1.given = none from if_pos (hnone.2 h)]; rfl
  · rw [if_neg h, show r.1.given = some r.1 from if_neg (fun hn => h (hnone.1 hn))]; rfl

theorem firstHeld_eq_none : firstHeld key environ as = none ↔ ∀ a ∈ as, a.held key environ = none :=
  List.findSome?_eq_none_iff

/-- A search of the environment ends the search, or leaves it to the others. -/
theorem envFirst (key : String) (environ : Environ) (as : List (Active κ)) :
    ((environ key).map Value.str).or (firstHeld key environ as) =
      ((environ key).map .str).or (firstHeld key (fun _ => none) as) := by
  cases h : environ key with
  | none   => rw [show firstHeld key environ as = firstHeld key (fun _ => none) as from firstHeld_congr h as]
  | some w => rfl

theorem or_eq_or_iff {o x y : Option Value} : o.or x = o.or y ↔ o ≠ none ∨ x = y := by
  cases o with
  | none   => rw [Option.none_or, Option.none_or]; exact ⟨Or.inr, fun h => h.resolve_left (fun h => h rfl)⟩
  | some v => exact iff_of_true rfl (Or.inl (Option.some_ne_none v))

/-- **Two environments** lead to the same value exactly where the environment decides nothing. -/
theorem firstHeld_eq_iff (key : String) (environ : Environ) : ∀ as : List (Active κ),
    firstHeld key environ as = firstHeld key (fun _ => environ "key") as ↔ EnvHarmless key environ as
  | []                             => iff_of_true rfl trivial
  | .envvar :: as                  => by
    rw [firstHeld_cons, firstHeld_cons]
    show ((environ key).map Value.str).or _ = ((environ "key").map Value.str).or _ ↔ _
    rw [envFirst key environ as, envFirst key (fun _ => environ "key") as]
    exact Iff.rfl
  | .libsecret secret keyring :: as => by
    rw [firstHeld_cons, firstHeld_cons]
    exact or_eq_or_iff.trans (or_congr_right (firstHeld_eq_iff key environ as))
  | .yaml conf creds :: as          => by
    rw [firstHeld_cons, firstHeld_cons]
    exact or_eq_or_iff.trans (or_congr_right (firstHeld_eq_iff key environ as))

/-- **`lookup_secret` finds the value of the first holder** exactly where some provider is active and the environment,
asked for the variable `key`, decides nothing. -/
theorem finds_iff_envHarmless (hok : ∀ a ∈ as, ∃ v, a.lookup key environ = .ok v) :
    Finds key environ as ↔ as ≠ [] ∧ EnvHarmless key environ as := by
  rw [← firstHeld_eq_iff]
  by_cases hne : as = []
  · subst hne
    refine iff_of_false (fun h => ?_) (fun h => h.1 rfl)
    obtain ⟨text, h⟩ := h.2.2 (fun a ha => nomatch ha)
    cases h
  · unfold Finds
    rw [lookupSecret_eq hne hok, ← firstHeld_eq_none]
    cases firstHeld key (fun _ => environ "key") as with
    | none =>
      refine ⟨fun h => ⟨hne, h.2.1 ⟨_, rfl⟩⟩, fun ⟨_, h⟩ => ⟨fun v hv => ?_, fun _ => h, fun _ => ⟨_, rfl⟩⟩⟩
      rw [h] at hv
      cases hv
    | some w =>
      constructor
      · rintro ⟨hfound, hnone⟩
        refine ⟨hne, ?_⟩
        cases hfirst : firstHeld key environ as with
        | none   => obtain ⟨text, h⟩ := hnone.2 hfirst; cases h
        | some v => cases hfound v hfirst; rfl
      · rintro ⟨-, h⟩
        rw [h]
        exact ⟨fun v hv => by rw [Option.some.inj hv]; rfl, fun ⟨_, he⟩ => (nomatch he), fun he => (nomatch he)⟩

/-! ## The providers of a module -/

end Active

namespace Module

theorem lookup_active (m : Module κ) (key : String) (s : Sources κ) (p : Provider) :
    (m.active s p).lookup key s.environ = m.lookup key s p := by
  cases p <;> rfl

theorem lookupLoop_active (m : Module κ) (key : String) (s : Sources κ) (ps : List Provider) (first : Value)
    (locations : List String) :
    Active.lookupLoop key s.environ (ps.map (m.active s)) first locations = m.lookupLoop key s ps first locations := by
  induction ps generalizing first locations with
  | nil          => rfl
  | cons p ps ih =>
    have hname : (m.active s p).name = p.name := by cases p <;> rfl
    rw [List.map_cons, Active.lookupLoop, lookupLoop, lookup_active, hname]
    simp only [ih]

/-- **A module's `lookup_secret`** is the search of its providers. -/
theorem lookupIn_active (m : Module κ) (key : String) (s : Sources κ) (ps : List Provider) :
    Active.lookupSecret key s.environ (ps.map (m.active s)) = m.lookupIn ps key s := by
  have hnames : (ps.map (m.active s)).map Active.name = ps.map Provider.name := by
    rw [List.map_map]
    exact List.map_congr_left (fun p _ => by cases p <;> rfl)
  unfold Active.lookupSecret lookupIn
  rw [lookupLoop_active, Active.notFound, hnames]
  simp only [List.map_eq_nil_iff]
  rfl

end Module

namespace Active

/-- The YAML file, which is not there, and the environment. -/
def withoutLibsecret : List (Active Unit) :=
  [.yaml { creddir := "/home/u/.cache/app", credname := "app_cred.yml", yaml := plainYaml [] }
    { creddir := none, credfile := none }, .envvar]

def holding (name secret : String) : Environ := fun n => if n = name then some secret else none

theorem withoutLibsecret_ok (environ : Environ) :
    ∀ a ∈ withoutLibsecret, ∃ v, a.lookup "token" environ = .ok v :=
  List.forall_mem_cons.2 ⟨⟨.null, rfl⟩, List.forall_mem_singleton.2 ⟨_, rfl⟩⟩

/-- The variable `key` decides: the value is found where it is set as the variable of the key is, and no other way. -/
theorem finds_iff_envHarmless_set :
    Finds "token" (fun n => if n = "token" ∨ n = "key" then some "s" else none) withoutLibsecret ∧
    ¬ Finds "token" (fun n => if n = "token" then some "s" else if n = "key" then some "t" else none)
      withoutLibsecret := by
  constructor
  · exact (finds_iff_envHarmless (withoutLibsecret_ok _)).2 ⟨List.cons_ne_nil _ _, Or.inr rfl⟩
  · intro h
    rcases ((finds_iff_envHarmless (withoutLibsecret_ok _)).1 h).2 with hyaml | henv
    · exact hyaml rfl
    · have ht : some (Value.str "s") = some (.str "t") := henv
      simp at ht

/-- **The environment holds the secret** under its key, and it is not found. -/
theorem env_not_found : (∀ a ∈ withoutLibsecret, ∃ v, a.lookup "token" (holding "token" "s") = .ok v) ∧
    firstHeld "token" (holding "token" "s") withoutLibsecret = some (.str "s") ∧
    ¬ Finds "token" (holding "token" "s") withoutLibsecret := by
  refine ⟨withoutLibsecret_ok _, rfl, fun h => ?_⟩
  have : lookupSecret "token" (holding "token" "s") withoutLibsecret = .ok (.str "s") := h.1 _ rfl
  cases this

end Active
end SecretStore
end Scrapcode
