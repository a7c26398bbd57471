import Mathlib.Data.List.Basic
import Scrapcode.ByteText
import Scrapcode.Machines
/-!
# GenericTypename — `compare_argtypes` of `c11_generic_typename.c`

Two arrays of type names, each with a null at its end, are gone through together up to the first null.  The first loop
compares the names before it; the message for end markers that do not match is in its body, where neither of the two
pointers is null.  The `while` after it was to be the end of a `do`: it is a loop of its own, over pointers one of which
is null, and does nothing.  So a list that goes on after the end of the other one is accepted, and the number of names
is looked at in a message only (`detects_iff`).

The function is a machine, since it has to be shown that it ends.  A read beyond the null, a comparison of a null
pointer and an overflow of an `int` are undefined.
-/
namespace Scrapcode
namespace GenericTypename

open ByteText (Str str strInt)
open Machines (State Reaches steps)

/-- A string, up to its null byte. -/
structure TypeName where
  chars  : Str
  noNull : '\x00' ∉ chars
deriving DecidableEq

inductive Message where
  | detectedTypenames
  | wrongArgCount (nargs : Int)
  | endMarkerMismatch (i : Nat) (dt et : Option TypeName)
  | differ (i : Nat) (dt et : TypeName)
  | detected (dt : TypeName)
deriving DecidableEq

/-- `pointer` is how `%p` writes a pointer. -/
def Message.text (pointer : Option TypeName → Str) : Message → Str
  | .detectedTypenames         => "detected typenames:\n".toList
  | .wrongArgCount nargs       => "ERROR: wrong arg count ".toList ++ strInt nargs ++ "\n".toList
  | .endMarkerMismatch i dt et => "    ERROR: detected_types[".toList ++ str i ++ "] and explicit_types[".toList ++
      str i ++ "] end-marker mismatch: ".toList ++ pointer dt ++ " vs ".toList ++ pointer et ++ "\n".toList
  | .differ i dt et            => "    ERROR: detected_types[".toList ++ str i ++ "] and explicit_types[".toList ++
      str i ++ "] differ: \"".toList ++ dt.chars ++ "\" vs \"".toList ++ et.chars ++ "\"\n".toList
  | .detected dt               => "    ".toList ++ dt.chars ++ "\n".toList

structure Vars where
  i      : Nat
  et     : Option TypeName
  dt     : Option TypeName
  error  : Nat
  stderr : List Message

def Vars.print (v : Vars) (m : Message) : Vars := { v with stderr := v.stderr ++ [m] }

inductive Outcome where
  | returned
  | exited (status : Nat)
  | undefined
deriving DecidableEq

structure Final where
  outcome : Outcome
  stderr  : List Message

def intMax : Nat := 0x7fffffff

/-- `n++` of an `int`. -/
def increment (n : Nat) : Option Nat := if n = intMax then none else some (n + 1)

/-- `types[i]`, where null is `none` and what comes after the null cannot be read. -/
def load (types : List TypeName) (i : Nat) : Option (Option TypeName) :=
  if i ≤ types.length then some types[i]? else none

def Vars.addError (v : Vars) (m : Message) : Option Vars :=
  (increment v.error).map (fun error => { v.print m with error })

def checkArgCount (nargs : Int) (v : Vars) : Vars := if nargs ≤ v.i then v.print (.wrongArgCount nargs) else v

/-- The three branches of the body. -/
def compareNames (v : Vars) : Option Vars :=
  if v.dt.isNone ≠ v.et.isNone then v.addError (.endMarkerMismatch v.i v.dt v.et)
  else
    match v.dt, v.et with
    | some dt, some et => if dt ≠ et then v.addError (.differ v.i dt et) else some (v.print (.detected dt))
    | _, _             => none

def Vars.next (v : Vars) : Option Vars := (increment v.i).map (fun i => { v with i })

def body (nargs : Int) (v : Vars) : Option Vars := (compareNames (checkArgCount nargs v)).bind Vars.next

inductive Config where
  | firstWhile (v : Vars)
  | secondWhile (v : Vars)
  | checkError (v : Vars)

section
variable (explicitTypes detectedTypes : List TypeName) (nargs : Int)

def step : Config → State Config Final
  | .firstWhile v  =>
    match load explicitTypes v.i with
    | none           => .ended ⟨.undefined, v.stderr⟩
    | some none      => .running (.secondWhile { v with et := none })
    | some (some et) =>
      match load detectedTypes v.i with
      | none           => .ended ⟨.undefined, v.stderr⟩
      | some none      => .running (.secondWhile { v with et := some et, dt := none })
      | some (some dt) =>
        match body nargs { v with et := some et, dt := some dt } with
        | none   => .ended ⟨.undefined, v.stderr⟩
        | some w => .running (.firstWhile w)
  | .secondWhile v =>
    if v.et.isSome && v.dt.isSome then .running (.secondWhile v) else .running (.checkError v)
  | .checkError v  => .ended ⟨if v.error ≠ 0 then .exited 1 else .returned, v.stderr⟩

/-- `compare_argtypes` where it begins; `et` and `dt` are what is in the two variables before they are set. -/
def compareArgtypes (et dt : Option TypeName) : State Config Final :=
  .running (.firstWhile ⟨0, et, dt, 0, [.detectedTypenames]⟩)

def Ends (et dt : Option TypeName) (f : Final) : Prop :=
  ∃ n, steps (step explicitTypes detectedTypes nargs) n (compareArgtypes et dt) = .ended f

/-- **Every mismatch is detected**: the function ends, and returns exactly if both lists are the same `nargs` names. -/
def DetectsMismatches (et dt : Option TypeName) : Prop :=
  ∃ f, Ends explicitTypes detectedTypes nargs et dt f ∧ f.outcome ≠ .undefined ∧
    (f.outcome = .returned ↔
      explicitTypes.length = nargs ∧ detectedTypes.length = nargs ∧ explicitTypes = detectedTypes)

/-- Both lists have a name at some place, but not the same. -/
def Differ : Prop := ∃ (i : Nat) (x y : TypeName), explicitTypes[i]? = some x ∧ detectedTypes[i]? = some y ∧ x ≠ y

end

/-- `CHECK_ARGTYPES4`, where the types of the four arguments are in an array of five. -/
def checkArgtypes4 (expectedArgtypes : List TypeName) (t₁ t₂ t₃ t₄ : TypeName) (et dt : Option TypeName) (f : Final) :
    Prop := Ends expectedArgtypes [t₁, t₂, t₃, t₄] 4 et dt f

variable {explicitTypes detectedTypes : List TypeName} {nargs : Int} {et dt : Option TypeName} {e d : TypeName}
  {v : Vars} {i : Nat} {f : Final}

/-! ## The body of the loop -/

theorem compareNames_of_some (he : v.et = some e) (hd : v.dt = some d) :
    compareNames v = if d ≠ e then v.addError (.differ v.i d e) else some (v.print (.detected d)) := by
  unfold compareNames
  simp only [he, hd, Option.isNone_some, ne_eq, not_true_eq_false, if_false]

/-- The end markers are not compared: what the body adds to the messages is none of that. -/
def MarkersMatch (stderr : List Message) : Prop := ∀ i dt et, Message.endMarkerMismatch i dt et ∉ stderr

theorem MarkersMatch.concat {l : List Message} {m : Message} (h : MarkersMatch l)
    (hm : ∀ i dt et, m ≠ .endMarkerMismatch i dt et) : MarkersMatch (l ++ [m]) := by
  intro i dt et hmem
  rcases List.mem_append.1 hmem with hold | hnew
  · exact h i dt et hold
  · exact hm i dt et (List.mem_singleton.1 hnew).symm

theorem checkArgCount_vars (nargs : Int) (v : Vars) :
    (checkArgCount nargs v).i = v.i ∧ (checkArgCount nargs v).et = v.et ∧ (checkArgCount nargs v).dt = v.dt ∧
      (checkArgCount nargs v).error = v.error := by
  unfold checkArgCount
  split_ifs <;> exact ⟨rfl, rfl, rfl, rfl⟩

theorem markersMatch_checkArgCount (nargs : Int) (h : MarkersMatch v.stderr) :
    MarkersMatch (checkArgCount nargs v).stderr := by
  unfold checkArgCount
  split_ifs
  · exact h.concat (fun _ _ _ => Message.noConfusion)
  · exact h

theorem addError_of_lt (h : v.error < intMax) (m : Message) :
    v.addError m = some { v.print m with error := v.error + 1 } := by
  unfold Vars.addError
  rw [increment, if_neg h.ne, Option.map_some]

theorem next_of_lt (h : v.i < intMax) : v.next = some { v with i := v.i + 1 } := by
  unfold Vars.next
  rw [increment, if_neg h.ne, Option.map_some]

theorem next_of_eq (h : v.i = intMax) : v.next = none := by
  unfold Vars.next
  rw [increment, if_pos h, Option.map_none]

/-- **A pass** counts a mismatch of the two names and goes on to the next place. -/
theorem body_spec (nargs : Int) (he : v.et = some e) (hd : v.dt = some d) (hi : v.i < intMax) (herror : v.error ≤ v.i)
    (hm : MarkersMatch v.stderr) : ∃ w, body nargs v = some w ∧ w.i = v.i + 1 ∧
      w.error = v.error + (if d ≠ e then 1 else 0) ∧ MarkersMatch w.stderr := by
  obtain ⟨hi', he', hd', herror'⟩ := checkArgCount_vars nargs v
  have hm' := markersMatch_checkArgCount nargs hm
  have hi'' : (checkArgCount nargs v).i < intMax := hi'.trans_lt hi
  have hcount : (checkArgCount nargs v).error < intMax := herror'.trans_lt (herror.trans_lt hi)
  unfold body
  rw [compareNames_of_some (he'.trans he) (hd'.trans hd)]
  by_cases hne : d ≠ e
  · rw [if_pos hne, if_pos hne, addError_of_lt hcount, Option.bind_some]
    exact ⟨_, next_of_lt hi'', congrArg (· + 1) hi', congrArg (· + 1) herror',
      hm'.concat (fun _ _ _ => Message.noConfusion)⟩
  · rw [if_neg hne, if_neg hne, Option.bind_some]
    exact ⟨_, next_of_lt hi'', congrArg (· + 1) hi', herror', hm'.concat (fun _ _ _ => Message.noConfusion)⟩

theorem body_overflow (nargs : Int) (he : v.et = some e) (hd : v.dt = some d) (hi : v.i = intMax) :
    body nargs v = none := by
  obtain ⟨hi', he', hd', -⟩ := checkArgCount_vars nargs v
  have hnext : ∀ w : Vars, w.i = (checkArgCount nargs v).i → w.next = none :=
    fun w hw => next_of_eq (hw.trans (hi'.trans hi))
  unfold body
  rw [compareNames_of_some (he'.trans he) (hd'.trans hd)]
  split_ifs
  · unfold Vars.addError
    cases increment (checkArgCount nargs v).error with
    | none       => rfl
    | some error => exact hnext _ rfl
  · exact hnext _ rfl

/-! ## The run -/

theorem load_of_lt {types : List TypeName} (h : i < types.length) : load types i = some (some types[i]) := by
  unfold load
  rw [if_pos h.le, List.getElem?_eq_getElem h]

theorem load_length (types : List TypeName) : load types types.length = some none := by
  unfold load
  rw [if_pos le_rfl, List.getElem?_eq_none le_rfl]

/-- The places before `i` where the names are not the same. -/
def mismatches (explicitTypes detectedTypes : List TypeName) (i : Nat) : Nat :=
  ((explicitTypes.zip detectedTypes).take i).countP (fun p => decide (p.2 ≠ p.1))

theorem mismatches_succ (he : i < explicitTypes.length) (hd : i < detectedTypes.length) :
    mismatches explicitTypes detectedTypes (i + 1) =
      mismatches explicitTypes detectedTypes i + (if detectedTypes[i] ≠ explicitTypes[i] then 1 else 0) := by
  have hlen : i < (explicitTypes.zip detectedTypes).length := by
    rw [List.length_zip]; exact lt_min he hd
  unfold mismatches
  rw [List.take_succ_eq_append_getElem hlen, List.countP_append, List.getElem_zip, List.countP_singleton]
  simp only [decide_eq_true_eq]

theorem mismatches_le (i : Nat) : mismatches explicitTypes detectedTypes i ≤ i :=
  List.countP_le_length.trans (List.length_take_le _ _)

theorem step_firstWhile (he : v.i < explicitTypes.length) (hd : v.i < detectedTypes.length) :
    step explicitTypes detectedTypes nargs (.firstWhile v) =
      match body nargs { v with et := some explicitTypes[v.i], dt := some detectedTypes[v.i] } with
      | none   => .ended ⟨.undefined, v.stderr⟩
      | some w => .running (.firstWhile w) := by
  simp only [step, load_of_lt he, load_of_lt hd]

/-- **The loop comes to each place** that both lists have, as far as an `int` goes. -/
theorem reaches_place (nargs : Int) (et dt : Option TypeName) (he : i ≤ explicitTypes.length)
    (hd : i ≤ detectedTypes.length) (hi : i ≤ intMax) :
    ∃ v, Reaches (step explicitTypes detectedTypes nargs) 0 (.firstWhile ⟨0, et, dt, 0, [.detectedTypenames]⟩)
      (.running (.firstWhile v)) ∧ v.i = i ∧ v.error = mismatches explicitTypes detectedTypes i ∧
        MarkersMatch v.stderr := by
  induction i with
  | zero      =>
    refine ⟨_, Reaches.refl _ _, rfl, rfl, fun i dt et hmem => ?_⟩
    cases List.mem_singleton.1 hmem
  | succ i ih =>
    obtain ⟨v, hv, rfl, herror, hm⟩ := ih (by omega) (by omega) (by omega)
    have hle : v.error ≤ v.i := herror.trans_le (mismatches_le _)
    rw [Nat.succ_le_iff] at he hd hi
    obtain ⟨w, hbody, hw, herror', hm'⟩ := body_spec (e := explicitTypes[v.i]) (d := detectedTypes[v.i])
      (v := { v with et := some explicitTypes[v.i], dt := some detectedTypes[v.i] }) nargs rfl rfl hi hle hm
    refine ⟨w, (hv.then (Reaches.one ?_)).mono (Nat.zero_le 1), hw, ?_, hm'⟩
    · rw [step_firstWhile he hd, hbody]
    · rw [herror', herror, mismatches_succ he hd]

theorem ends_of_reaches {w : Config} (h : Reaches (step explicitTypes detectedTypes nargs) 0
      (.firstWhile ⟨0, et, dt, 0, [.detectedTypenames]⟩) (.running w))
    (hlast : Reaches (step explicitTypes detectedTypes nargs) 1 w (.ended f)) :
    Ends explicitTypes detectedTypes nargs et dt f := by
  obtain ⟨n, -, hn⟩ := h.then hlast
  exact ⟨n, hn⟩

/-- **A list that is short enough** is gone through, and the outcome is what was counted. -/
theorem ends_of_le (nargs : Int) (et dt : Option TypeName)
    (hlen : min explicitTypes.length detectedTypes.length ≤ intMax) :
    ∃ f, Ends explicitTypes detectedTypes nargs et dt f ∧ MarkersMatch f.stderr ∧
      f.outcome = if mismatches explicitTypes detectedTypes (min explicitTypes.length detectedTypes.length) ≠ 0
        then .exited 1 else .returned := by
  obtain ⟨v, hv, hi, herror, hm⟩ := reaches_place (i := min explicitTypes.length detectedTypes.length) nargs et dt
    (min_le_left _ _) (min_le_right _ _) hlen
  rw [← herror]
  rcases le_or_gt explicitTypes.length detectedTypes.length with hle | hgt
  · rw [min_eq_left hle] at hi
    have hfirst : step explicitTypes detectedTypes nargs (.firstWhile v) =
        .running (.secondWhile { v with et := none }) := by
      simp only [step, hi, load_length]
    refine ⟨⟨if v.error ≠ 0 then .exited 1 else .returned, v.stderr⟩, ends_of_reaches hv ?_, hm, rfl⟩
    refine (Reaches.of_steps (n := 3) ?_).mono (by omega)
    simp only [steps, hfirst]
    rfl
  · rw [min_eq_right hgt.le] at hi
    have he : v.i < explicitTypes.length := hi.trans_lt hgt
    have hfirst : step explicitTypes detectedTypes nargs (.firstWhile v) =
        .running (.secondWhile { v with et := some explicitTypes[v.i], dt := none }) := by
      simp only [step, load_of_lt he]
      simp only [hi, load_length]
    refine ⟨⟨if v.error ≠ 0 then .exited 1 else .returned, v.stderr⟩, ends_of_reaches hv ?_, hm, rfl⟩
    refine (Reaches.of_steps (n := 3) ?_).mono (by omega)
    simp only [steps, hfirst]
    rfl

/-- **A list that is too long** makes an `int` overflow. -/
theorem ends_of_lt (nargs : Int) (et dt : Option TypeName)
    (hlen : intMax < min explicitTypes.length detectedTypes.length) :
    ∃ f, Ends explicitTypes detectedTypes nargs et dt f ∧ f.outcome = .undefined := by
  obtain ⟨he, hd⟩ := Nat.lt_min.1 hlen
  obtain ⟨v, hv, hi, -, -⟩ := reaches_place nargs et dt he.le hd.le le_rfl
  rw [← hi] at he hd
  refine ⟨⟨.undefined, v.stderr⟩, ends_of_reaches hv (Reaches.one ?_), rfl⟩
  have hbody := body_overflow (e := explicitTypes[v.i]) (d := detectedTypes[v.i])
    (v := { v with et := some explicitTypes[v.i], dt := some detectedTypes[v.i] }) nargs rfl rfl hi
  rw [step_firstWhile he hd, hbody]

theorem ends_unique {f' : Final} (h : Ends explicitTypes detectedTypes nargs et dt f)
    (h' : Ends explicitTypes detectedTypes nargs et dt f') : f = f' := by
  obtain ⟨n, hn⟩ := h
  obtain ⟨m, hm⟩ := h'
  have hfar := Machines.steps_of_ended hn (Nat.le_add_right n m)
  rw [Machines.steps_of_ended hm (Nat.le_add_left m n)] at hfar
  exact (State.ended.inj hfar).symm

/-! ## What is detected -/

theorem mismatches_eq_zero_iff :
    mismatches explicitTypes detectedTypes (min explicitTypes.length detectedTypes.length) = 0 ↔
      ¬ Differ explicitTypes detectedTypes := by
  unfold mismatches Differ
  rw [← List.length_zip, List.take_length, List.countP_eq_zero]
  constructor
  · rintro h ⟨i, x, y, hx, hy, hne⟩
    have hmem : (x, y) ∈ explicitTypes.zip detectedTypes := List.mem_of_getElem? (List.getElem?_zip_eq_some.2 ⟨hx, hy⟩)
    exact h _ hmem (decide_eq_true hne.symm)
  · rintro h ⟨x, y⟩ hmem hne
    obtain ⟨i, hi⟩ := List.getElem?_of_mem hmem
    obtain ⟨hx, hy⟩ := List.getElem?_zip_eq_some.1 hi
    exact h ⟨i, x, y, hx, hy, Ne.symm (of_decide_eq_true hne)⟩

theorem eq_of_not_differ (h : ¬ Differ explicitTypes detectedTypes)
    (hlen : explicitTypes.length = detectedTypes.length) : explicitTypes = detectedTypes := by
  refine List.ext_getElem hlen (fun i he hd => ?_)
  by_contra hne
  exact h ⟨i, _, _, List.getElem?_eq_getElem he, List.getElem?_eq_getElem hd, hne⟩

theorem Differ.ne (h : Differ explicitTypes detectedTypes) : explicitTypes ≠ detectedTypes := by
  rintro rfl
  obtain ⟨i, x, y, hx, hy, hne⟩ := h
  exact hne (Option.some.inj (hx.symm.trans hy))

/-- **The function returns** where the names of both lists are the same as far as both go. -/
theorem returned_iff (hlen : min explicitTypes.length detectedTypes.length ≤ intMax)
    (h : Ends explicitTypes detectedTypes nargs et dt f) :
    f.outcome ≠ .undefined ∧ (f.outcome = .returned ↔ ¬ Differ explicitTypes detectedTypes) := by
  obtain ⟨f', hf', -, houtcome⟩ := ends_of_le nargs et dt hlen
  obtain rfl := ends_unique h hf'
  rw [houtcome, ← mismatches_eq_zero_iff]
  split_ifs with hzero
  · exact ⟨by decide, iff_of_false (by decide) hzero⟩
  · exact ⟨by decide, iff_of_true rfl (not_not.1 hzero)⟩

/-- The message for end markers that do not match is never printed. -/
theorem markersMatch_of_ends (hlen : min explicitTypes.length detectedTypes.length ≤ intMax)
    (h : Ends explicitTypes detectedTypes nargs et dt f) : MarkersMatch f.stderr := by
  obtain ⟨f', hf', hm, -⟩ := ends_of_le nargs et dt hlen
  rwa [ends_unique h hf']

/-- Types that are missing among those expected, or come after them, are not found. -/
theorem checkArgtypes4_returned_iff {expectedArgtypes : List TypeName} {t₁ t₂ t₃ t₄ : TypeName}
    (h : checkArgtypes4 expectedArgtypes t₁ t₂ t₃ t₄ et dt f) :
    f.outcome = .returned ↔ ¬ Differ expectedArgtypes [t₁, t₂, t₃, t₄] :=
  (returned_iff ((min_le_right _ _).trans (Nat.le_of_ble_eq_true rfl)) h).2

/-- **Mismatches are detected** in lists that are not too long, if names of both differ, or both lists have the right
length. -/
theorem detects_iff (explicitTypes detectedTypes : List TypeName) (nargs : Int) (et dt : Option TypeName) :
    DetectsMismatches explicitTypes detectedTypes nargs et dt ↔
      min explicitTypes.length detectedTypes.length ≤ intMax ∧
        (Differ explicitTypes detectedTypes ∨ explicitTypes.length = nargs ∧ detectedTypes.length = nargs) := by
  rcases le_or_gt (min explicitTypes.length detectedTypes.length) intMax with hlen | hlong
  · rw [and_iff_right hlen]
    constructor
    · rintro ⟨f, hf, -, hsame⟩
      refine or_iff_not_imp_left.2 (fun hdiffer => ?_)
      obtain ⟨he, hd, -⟩ := hsame.1 ((returned_iff hlen hf).2.2 hdiffer)
      exact ⟨he, hd⟩
    · intro h
      obtain ⟨f, hf, -⟩ := ends_of_le nargs et dt hlen
      refine ⟨f, hf, (returned_iff hlen hf).1, (returned_iff hlen hf).2.trans ?_⟩
      constructor
      · intro hdiffer
        obtain ⟨he, hd⟩ := h.resolve_left hdiffer
        exact ⟨he, hd, eq_of_not_differ hdiffer (Int.ofNat.inj (he.trans hd.symm))⟩
      · exact fun hsame hdiffer => hdiffer.ne hsame.2.2
  · obtain ⟨f, hf, hundefined⟩ := ends_of_lt nargs et dt hlong
    refine iff_of_false ?_ (fun h => absurd h.1 (not_le.2 hlong))
    rintro ⟨f', hf', hdefined, -⟩
    rw [ends_unique hf' hf] at hdefined
    exact hdefined hundefined

/-- A name that the other list does not have. -/
theorem not_detects_missing : ¬ DetectsMismatches [⟨"int".toList, by decide⟩] [] 1 none none := by
  rintro ⟨f, ⟨n, hn⟩, -, hreturned⟩
  have hend : steps (step [⟨"int".toList, by decide⟩] [] 1) 3 (compareArgtypes none none) =
      .ended ⟨.returned, [.detectedTypenames]⟩ := rfl
  have hf := Machines.steps_of_ended hend (Nat.le_add_left 3 n)
  rw [Machines.steps_of_ended hn (Nat.le_add_right n 3)] at hf
  cases hf
  exact absurd (hreturned.1 rfl).2.1 (by decide)

end GenericTypename
end Scrapcode
