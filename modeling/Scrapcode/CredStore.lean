import Mathlib.Data.List.Infix
import Mathlib.Data.List.Nodup
import Mathlib.Logic.Function.Basic
/-!
# CredStore — the YAML credentials file

`YamlConfLookup` keeps the secrets of an application as one mapping in one file, in a directory of its own.  Here are
the values a YAML document can hold, what the code does with them (`in`, `[]`, item assignment), the permission check,
and `lookup` and `store` as one step each, with the replacement of the file as one assignment.

The YAML library is a parameter: `load` and `dump` with the safe loader and dumper.  What is relied on is that a
mapping that was loaded, with a secret set in it, is found again after `dump` and `load` (`Yaml.Keeps`).
-/
namespace Scrapcode
namespace SecretStore

inductive Exn where
  | typeError
  | valueError (text : String)
  | runtimeError (text : String)
  | keyError (text : String)
  | notImplementedError (text : String)
  | osError
  | assertionError
  | yamlError
  | glibError
deriving DecidableEq, Repr

/-! ## YAML values -/

/-- What the safe loader builds.  A number, a truth value, a date or a byte string is a `scalar`. -/
inductive Value where
  | null
  | str (s : String)
  | scalar (tag text : String)
  | seq (vs : List Value)
  | set (vs : List Value)
  | map (m : List (Value × Value))

abbrev Dict := List (Value × Value)

namespace Value

def isStr (key : String) : Value → Bool
  | .str s => s == key
  | _      => false

end Value

namespace Dict

def get? (m : Dict) (key : String) : Option Value := (m.find? (fun e => e.1.isStr key)).map (·.2)

def set (key secret : String) : Dict → Dict
  | []     => [(.str key, .str secret)]
  | e :: m => if e.1.isStr key then (e.1, .str secret) :: m else e :: set key secret m

theorem get?_cons (e : Value × Value) (m : Dict) (k : String) :
    get? (e :: m) k = if e.1.isStr k then some e.2 else get? m k := by
  unfold get?
  rw [List.find?_cons]
  cases e.1.isStr k <;> rfl

theorem get?_set (key secret k : String) : ∀ m : Dict,
    get? (set key secret m) k = if k = key then some (.str secret) else get? m k
  | [] => by
    rw [set, get?_cons]
    simp only [Value.isStr, beq_iff_eq, eq_comm (a := key)]
  | (v, w) :: m => by
    rw [set]
    split
    · rename_i hv
      rw [get?_cons, get?_cons]
      cases v with
      | str s =>
        simp only [Value.isStr, beq_iff_eq] at hv ⊢
        subst hv
        by_cases hk : k = s
        · subst hk; rw [if_pos rfl, if_pos rfl]
        · rw [if_neg (Ne.symm hk), if_neg (Ne.symm hk), if_neg hk]
      | _ => cases hv
    · rename_i hv
      rw [get?_cons, get?_cons, get?_set key secret k m]
      by_cases hk : k = key
      · subst hk; rw [if_neg hv, if_pos rfl, if_pos rfl]
      · rw [if_neg hk, if_neg hk]

end Dict

namespace Value

/-- `key in v`. -/
def contains (key : String) : Value → Except Exn Bool
  | .map m            => .ok (Dict.get? m key).isSome
  | .seq vs | .set vs => .ok (vs.any (isStr key))
  | .str s            => .ok (decide (key.toList <:+: s.toList))
  | _                 => .error .typeError

/-- `v[key]`. -/
def index (key : String) : Value → Except Exn Value
  | .map m => (Dict.get? m key).elim (.error (.keyError key)) .ok
  | _      => .error .typeError

/-- `v[key] = secret`. -/
def setItem (key secret : String) : Value → Except Exn Dict
  | .map m => .ok (Dict.set key secret m)
  | _      => .error .typeError

theorem setItem_eq_ok {v : Value} {key secret : String} {m : Dict} (h : v.setItem key secret = .ok m) :
    ∃ m₀, v = .map m₀ ∧ m = Dict.set key secret m₀ := by
  cases v with
  | map m₀ => cases h; exact ⟨m₀, rfl, rfl⟩
  | _      => cases h

end Value

structure Yaml where
  load : List UInt8 → Except Exn Value
  dump : Dict → List UInt8

namespace Yaml

/-- The value under a key of the mapping in a document. -/
def entry (y : Yaml) (text : List UInt8) (key : String) : Option Value :=
  match y.load text with
  | .ok (.map m) => Dict.get? m key
  | _            => none

/-- A mapping that `store` may start from. -/
def Reads (y : Yaml) (m : Dict) : Prop := m = [] ∨ ∃ text, y.load text = .ok (.map m)

/-- **The round trip**: what was dumped is loaded as a mapping with the same values under every key. -/
def RoundTrips (y : Yaml) (m : Dict) : Prop :=
  ∃ m', y.load (y.dump m) = .ok (.map m') ∧ ∀ key, Dict.get? m' key = Dict.get? m key

def Keeps (y : Yaml) (key secret : String) : Prop := ∀ m, y.Reads m → y.RoundTrips (Dict.set key secret m)

end Yaml

/-! ## The directory and the file -/

structure CredFile where
  mode    : UInt32
  content : List UInt8
deriving DecidableEq, Repr

/-- The mode of the directory, and the file in it. -/
structure Creds where
  creddir  : Option UInt32
  credfile : Option CredFile
deriving DecidableEq, Repr

structure YamlConf where
  creddir  : String
  credname : String
  yaml     : Yaml

namespace YamlConf

def credfile (y : YamlConf) : String := y.creddir ++ "/" ++ y.credname

def dirRefused (y : YamlConf) : Exn :=
  .runtimeError ("creds dir at " ++ y.creddir ++ " is group or world readable or writeable, refusing to use it")

def fileRefused (y : YamlConf) : Exn :=
  .runtimeError ("creds file at " ++ y.credfile ++ " is group or world readable or writeable, refusing to use it")

end YamlConf

/-- Some bit of `0o0066` is set. -/
def exposed (mode : UInt32) : Bool := decide (0 < mode &&& 0o0066)

/-- The mode of what is created with `mode` under `umask`. -/
def created (mode umask : UInt32) : UInt32 := mode &&& ~~~ umask

theorem exposed_created {mode umask : UInt32} (h : mode &&& 0o0066 = 0) : exposed (created mode umask) = false := by
  unfold exposed created
  rw [UInt32.and_assoc, UInt32.and_comm (~~~ umask), ← UInt32.and_assoc, h, UInt32.zero_and]
  rfl

namespace Creds

/-- `os.makedirs(creddir, mode=0o0700, exist_ok=True)`. -/
def makedirs (umask : UInt32) (c : Creds) : Creds :=
  { c with creddir := some (c.creddir.getD (created 0o0700 umask)) }

/-- `atomic_overwrite(credfile, newcontent)`, as one step. -/
def overwrite (umask : UInt32) (newcontent : List UInt8) (c : Creds) : Creds :=
  { c with credfile := some { mode := created 0o0600 umask, content := newcontent } }

/-- The value under a key; there is none where there is no file or no mapping in it. -/
def entry (y : Yaml) (c : Creds) (key : String) : Option Value :=
  c.credfile.bind (fun f => y.entry f.content key)

@[simp] theorem makedirs_credfile (umask : UInt32) (c : Creds) : (c.makedirs umask).credfile = c.credfile := rfl

@[simp] theorem overwrite_creddir (umask : UInt32) (n : List UInt8) (c : Creds) :
    (c.overwrite umask n).creddir = c.creddir := rfl

theorem exposed_makedirs (umask : UInt32) (c : Creds) :
    (c.makedirs umask).creddir.any exposed = c.creddir.any exposed := by
  unfold makedirs
  cases c.creddir with
  | none   => exact exposed_created rfl
  | some m => rfl

theorem exposed_overwrite (umask : UInt32) (n : List UInt8) (c : Creds) :
    (c.overwrite umask n).credfile.any (fun f => exposed f.mode) = false := exposed_created rfl

end Creds

/-! ## `lookup` and `store` -/

def checkLookup (key : String) : Except Exn Unit :=
  if key = "" then .error (.valueError "key must be non-empty string") else .ok ()

def checkStore (key secret : String) : Except Exn Unit :=
  if key = "" then .error (.valueError "key must be non-empty string")
  else if secret = "" then .error (.valueError "secret must be non-empty string")
  else .ok ()

namespace YamlConf

variable (y : YamlConf)

def checkCredfilePermissions (c : Creds) : Except Exn Unit :=
  if c.creddir.any exposed then .error y.dirRefused
  else if c.credfile.any (fun f => exposed f.mode) then .error y.fileRefused
  else .ok ()

/-- The value in a document, `null` for none. -/
def find (key : String) (v : Value) : Except Exn Value := do
  if ← v.contains key then v.index key else return .null

def lookup (key : String) (c : Creds) : Except Exn Value := do
  checkLookup key
  y.checkCredfilePermissions c
  match c.credfile with
  | none   => return .null
  | some f => y.yaml.load f.content >>= find key

/-- The mapping that is dumped: what the file holds, or nothing, with the secret set. -/
def changed (key secret : String) : Option CredFile → Except Exn Dict
  | none   => .ok (Dict.set key secret [])
  | some f => y.yaml.load f.content >>= Value.setItem key secret

/-- What `store` leaves where it returns. -/
def store (umask : UInt32) (key secret : String) (c : Creds) : Except Exn Creds := do
  checkStore key secret
  let c := c.makedirs umask
  y.checkCredfilePermissions c
  let credmap ← y.changed key secret c.credfile
  let c := c.overwrite umask (y.yaml.dump credmap)
  y.checkCredfilePermissions c
  return c

end YamlConf

/-! ## What they do -/

/-- Neither the directory nor the file has a bit of `0o0066`. -/
def Creds.Private (c : Creds) : Prop :=
  c.creddir.any exposed = false ∧ c.credfile.any (fun f => exposed f.mode) = false

instance (c : Creds) : Decidable c.Private := inferInstanceAs (Decidable (_ ∧ _))

/-- Looking up a key in the value raises nothing. -/
def Value.Answers (key : String) : Value → Prop
  | .map _ => True
  | .seq vs | .set vs => vs.any (isStr key) = false
  | .str s => ¬ key.toList <:+: s.toList
  | _      => False

variable {y : YamlConf} {c c' : Creds} {key secret k : String} {umask : UInt32}

theorem checkCredfilePermissions_eq_ok : y.checkCredfilePermissions c = .ok () ↔ c.Private := by
  unfold YamlConf.checkCredfilePermissions Creds.Private
  cases c.creddir.any exposed <;> cases c.credfile.any (fun f => exposed f.mode) <;> simp

theorem checkLookup_eq_ok : checkLookup key = .ok () ↔ key ≠ "" := by
  unfold checkLookup; split <;> simp [*]

theorem checkStore_eq_ok : checkStore key secret = .ok () ↔ key ≠ "" ∧ secret ≠ "" := by
  unfold checkStore; split
  · simp [*]
  · split <;> simp [*]

theorem find_map (m : Dict) (key : String) : YamlConf.find key (.map m) = .ok ((Dict.get? m key).getD .null) := by
  unfold YamlConf.find
  cases h : Dict.get? m key with
  | none   => simp [Value.contains, h, pure, Except.pure, bind, Except.bind]
  | some v => simp [Value.contains, Value.index, h, bind, Except.bind]

/-- **`find` raises nothing exactly where the value answers.** -/
theorem find_isOk (v : Value) (key : String) : (∃ w, YamlConf.find key v = .ok w) ↔ v.Answers key := by
  unfold YamlConf.find
  cases v with
  | map m => exact ⟨fun _ => trivial, fun _ => ⟨_, find_map m key⟩⟩
  | seq vs =>
    cases h : vs.any (Value.isStr key) <;>
      simp [Value.contains, Value.index, Value.Answers, h, bind, Except.bind, pure, Except.pure]
  | set vs =>
    cases h : vs.any (Value.isStr key) <;>
      simp [Value.contains, Value.index, Value.Answers, h, bind, Except.bind, pure, Except.pure]
  | str s =>
    by_cases h : key.toList <:+: s.toList <;>
      simp [Value.contains, Value.index, Value.Answers, h, bind, Except.bind, pure, Except.pure]
  | null => simp [Value.contains, Value.Answers, bind, Except.bind]
  | scalar t s => simp [Value.contains, Value.Answers, bind, Except.bind]

namespace Creds

/-- A lookup of the key raises nothing. -/
def Readable (y : Yaml) (key : String) (c : Creds) : Prop :=
  c.Private ∧ ∀ f, c.credfile = some f → ∃ v, y.load f.content = .ok v ∧ v.Answers key

/-- The file, where there is one, holds a mapping. -/
def Mapped (y : Yaml) (c : Creds) : Prop := ∀ f, c.credfile = some f → ∃ m, y.load f.content = .ok (.map m)

end Creds

theorem lookup_of_private (hk : key ≠ "") (hp : c.Private) : y.lookup key c =
    c.credfile.elim (.ok .null) (fun f => y.yaml.load f.content >>= YamlConf.find key) := by
  unfold YamlConf.lookup
  rw [checkLookup_eq_ok.2 hk, checkCredfilePermissions_eq_ok.2 hp]
  cases c.credfile <;> rfl

/-- **`lookup` raises nothing exactly where the file is private and what is in it answers.** -/
theorem lookup_isOk (hk : key ≠ "") : (∃ v, y.lookup key c = .ok v) ↔ c.Readable y.yaml key := by
  constructor
  · rintro ⟨v, h⟩
    have hp : c.Private := by
      rw [← checkCredfilePermissions_eq_ok (y := y)]
      unfold YamlConf.lookup at h
      rw [checkLookup_eq_ok.2 hk] at h
      cases hc : y.checkCredfilePermissions c with
      | ok u    => rfl
      | error e => rw [hc] at h; cases h
    refine ⟨hp, fun f hf => ?_⟩
    rw [lookup_of_private hk hp, hf] at h
    simp only [Option.elim_some] at h
    cases hl : y.yaml.load f.content with
    | error e => rw [hl] at h; cases h
    | ok w    => rw [hl] at h; exact ⟨w, rfl, (find_isOk w key).1 ⟨v, h⟩⟩
  · rintro ⟨hp, hf⟩
    rw [lookup_of_private hk hp]
    cases hc : c.credfile with
    | none   => exact ⟨.null, rfl⟩
    | some f =>
      obtain ⟨v, hl, ha⟩ := hf f hc
      obtain ⟨w, hw⟩ := (find_isOk v key).2 ha
      exact ⟨w, by rw [Option.elim_some, hl]; exact hw⟩

/-- **In a private file that holds a mapping, `lookup` reads its entry.** -/
theorem lookup_eq_entry (hk : key ≠ "") (hp : c.Private) (hm : c.Mapped y.yaml) :
    y.lookup key c = .ok ((c.entry y.yaml key).getD .null) := by
  rw [lookup_of_private hk hp]
  unfold Creds.entry Yaml.entry
  cases hc : c.credfile with
  | none   => rfl
  | some f =>
    obtain ⟨m, hl⟩ := hm f hc
    simp only [Option.elim_some, Option.bind_some, hl]
    exact find_map m key

/-- **What `store` dumps**: the entries of the file, with the secret under the key. -/
theorem entry_changed {m : Dict} (hy : y.yaml.Keeps key secret) (h : y.changed key secret c.credfile = .ok m) :
    c.Mapped y.yaml ∧ (∃ m', y.yaml.load (y.yaml.dump m) = .ok (.map m')) ∧
    y.yaml.entry (y.yaml.dump m) = Function.update (c.entry y.yaml) key (some (.str secret)) := by
  have hset : ∃ m₀, y.yaml.Reads m₀ ∧ m = Dict.set key secret m₀ ∧ c.Mapped y.yaml ∧
      c.entry y.yaml = Dict.get? m₀ := by
    unfold Creds.Mapped Creds.entry Yaml.entry
    cases hc : c.credfile with
    | none =>
      rw [hc] at h; cases h
      exact ⟨[], Or.inl rfl, rfl, (fun _ hf => nomatch hf), rfl⟩
    | some f =>
      rw [hc] at h
      cases hl : y.yaml.load f.content with
      | error e => simp only [YamlConf.changed, hl] at h; cases h
      | ok v =>
        simp only [YamlConf.changed, hl] at h
        obtain ⟨m₀, rfl, rfl⟩ := Value.setItem_eq_ok h
        refine ⟨m₀, Or.inr ⟨_, hl⟩, rfl, fun f' hf => ⟨m₀, ?_⟩, ?_⟩
        · cases hf; exact hl
        · funext k; simp only [Option.bind_some, hl]
  obtain ⟨m₀, hr, rfl, hm, he⟩ := hset
  obtain ⟨m', hl, hg⟩ := hy m₀ hr
  refine ⟨hm, ⟨m', hl⟩, ?_⟩
  funext k
  rw [he]
  simp only [Yaml.entry, hl, hg, Dict.get?_set, Function.update_apply]

theorem store_eq_ok (h : y.store umask key secret c = .ok c') : key ≠ "" ∧ secret ≠ "" ∧ c.Private ∧ c'.Private ∧
    ∃ m, y.changed key secret c.credfile = .ok m ∧ c' = (c.makedirs umask).overwrite umask (y.yaml.dump m) := by
  unfold YamlConf.store at h
  cases hs : checkStore key secret with
  | error e => rw [hs] at h; cases h
  | ok u =>
  cases hp : y.checkCredfilePermissions (c.makedirs umask) with
  | error e => simp only [hs, hp] at h; cases h
  | ok u =>
  cases hm : y.changed key secret c.credfile with
  | error e => simp only [hs, hp, Creds.makedirs_credfile, hm] at h; cases h
  | ok m =>
  cases hp' : y.checkCredfilePermissions ((c.makedirs umask).overwrite umask (y.yaml.dump m)) with
  | error e => simp only [hs, hp, Creds.makedirs_credfile, hm, bind, Except.bind, hp'] at h; cases h
  | ok u =>
    simp only [hs, hp, Creds.makedirs_credfile, hm, bind, Except.bind, hp'] at h
    cases h
    obtain ⟨hk, hsec⟩ := checkStore_eq_ok.1 hs
    have hpriv := checkCredfilePermissions_eq_ok.1 hp
    refine ⟨hk, hsec, ⟨?_, hpriv.2⟩, checkCredfilePermissions_eq_ok.1 hp', m, rfl, rfl⟩
    rw [← Creds.exposed_makedirs umask c]
    exact hpriv.1

/-- **What a `store` that returned did**: the file was private and a mapping, and is, with one entry changed. -/
theorem store_spec (hy : y.yaml.Keeps key secret) (h : y.store umask key secret c = .ok c') :
    c.Private ∧ c.Mapped y.yaml ∧ c'.Private ∧ c'.Mapped y.yaml ∧
    c'.entry y.yaml = Function.update (c.entry y.yaml) key (some (.str secret)) := by
  obtain ⟨-, -, hp, hp', m, hm, rfl⟩ := store_eq_ok h
  obtain ⟨hmap, hload, he⟩ := entry_changed hy hm
  refine ⟨hp, hmap, hp', fun f hf => ?_, he⟩
  cases hf
  exact hload

/-! ## Documents of plain strings -/

def plainLine : Value × Value → List UInt8
  | (.str k, .str s) => (k ++ ": " ++ s ++ "\n").toList.map (fun c => UInt8.ofNat c.toNat)
  | _                => []

def plainText (m : Dict) : List UInt8 := m.flatMap plainLine

/-- A library that knows some documents, each a mapping of plain strings. -/
def plainYaml (docs : List Dict) : Yaml where
  load := fun text => match docs.find? (fun m => plainText m == text) with
    | some m => .ok (.map m)
    | none   => .error .yamlError
  dump := plainText

theorem plainYaml_keeps {docs : List Dict} (hn : (docs.map plainText).Nodup)
    (hs : ∀ m ∈ [] :: docs, Dict.set key secret m ∈ docs) : (plainYaml docs).Keeps key secret := by
  intro m hm
  have hmem : m ∈ [] :: docs := by
    rcases hm with rfl | ⟨text, hl⟩
    · exact List.mem_cons_self
    · simp only [plainYaml] at hl
      split at hl
      · rename_i m' hf
        cases hl
        exact List.mem_cons_of_mem _ (List.mem_of_find?_eq_some hf)
      · cases hl
  have hset := hs m hmem
  cases hf : docs.find? (fun m' => plainText m' == plainText (Dict.set key secret m)) with
  | none    => exact absurd (List.find?_eq_none.1 hf _ hset) (by simp)
  | some m' =>
    have htext : plainText m' = plainText (Dict.set key secret m) := by simpa using List.find?_some hf
    have heq := List.inj_on_of_nodup_map hn (List.mem_of_find?_eq_some hf) hset htext
    refine ⟨m', ?_, fun _ => by rw [heq]⟩
    simp only [plainYaml, hf]

end SecretStore
end Scrapcode
