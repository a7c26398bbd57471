import Scrapcode.Brackets
import Scrapcode.ByteText
/-!
# StringTransform — `string_transform.c`

`replc` goes over a text once and counts what is open.  It writes braces for the brackets of the two outer levels: an
opener is counted before it is looked at, a closer after, so both ends of a pair are treated alike (`replc_consistent`).

The warning looks at the count that is left.  A text that closes what it has not opened, and opens as much again later,
leaves nothing (`warnsOfMismatch_iff`).
-/
namespace Scrapcode
namespace StringTransform

open ByteText (Str strInt)

/-- A value of the type `text`, which has no null byte and fits in 1 GB: the depth stays in the range of an `int`. -/
structure Text where
  bytes  : Str
  noNull : '\x00' ∉ bytes
  length : bytes.length ≤ 0x3ffffffb

/-- `WARNING`, with the count that is left. -/
structure Warning where
  depth : Int
deriving DecidableEq, Repr

def Warning.text (w : Warning) : Str :=
  "Opening and closing []s did not match, got ".toList ++ strInt w.depth ++ " extra [s".toList

/-- The `switch`: what is at `ch` after it, and the depth. -/
def body (depth : Int) (ch : Char) : Char × Int :=
  match ch with
  | '[' => (if depth + 1 ≤ 2 then '{' else ch, depth + 1)
  | ']' => (if depth ≤ 2 then '}' else ch, depth - 1)
  | _   => (ch, depth)

/-- The loop, up to the null byte that ends the copy of the text. -/
def loop : Int → Str → Str × Int
  | depth, []         => ([], depth)
  | depth, ch :: rest =>
    ((body depth ch).1 :: (loop (body depth ch).2 rest).1, (loop (body depth ch).2 rest).2)

def replc (t : Text) : Str × Option Warning :=
  match loop 0 t.bytes with
  | (buf, depth) => (buf, if depth ≠ 0 then some ⟨depth⟩ else none)

/-- `[` and `]`. -/
def square : Brackets Char := ⟨'[', ']', by decide⟩

/-- **Pairs are rewritten together**: nothing but brackets changes, both ends of a pair do or neither, and in a balanced
text those do that are at most two deep. -/
structure Consistent (t out : Str) : Prop where
  length   : out.length = t.length
  others   : ∀ (i : Nat) ch, t[i]? = some ch → ch ≠ '[' → ch ≠ ']' → out[i]? = some ch
  pairs    : ∀ i j, square.IsPair t i j →
    (out[i]? = some '{' ∧ out[j]? = some '}') ∨ (out[i]? = some '[' ∧ out[j]? = some ']')
  balanced : square.Balanced t → ∀ i j, square.IsPair t i j → (out[i]? = some '{' ↔ square.depth t i j ≤ 2)

/-- **There is a warning exactly of a text that is not balanced.** -/
def WarnsOfMismatch (t : Text) : Prop := (replc t).2.isSome = true ↔ ¬ square.Balanced t.bytes

variable {t : Text} {w : Str} {depth : Int} {ch : Char} {i j n : Nat}

/-! ## The loop -/

theorem body_opener (depth : Int) : body depth '[' = (if depth + 1 ≤ 2 then '{' else '[', depth + 1) := rfl

theorem body_closer (depth : Int) : body depth ']' = (if depth ≤ 2 then '}' else ']', depth - 1) := rfl

theorem body_other (depth : Int) (ho : ch ≠ '[') (hc : ch ≠ ']') : body depth ch = (ch, depth) := by
  unfold body
  split
  · exact absurd rfl ho
  · exact absurd rfl hc
  · rfl

theorem body_snd (depth : Int) (ch : Char) : (body depth ch).2 = depth + square.weight ch := by
  by_cases ho : ch = '['
  · subst ho
    rfl
  · by_cases hc : ch = ']'
    · subst hc
      rfl
    · rw [body_other depth ho hc, Brackets.weight_other (B := square) ho hc, Int.add_zero]

/-- **The depth is the height**, counted from where the loop began. -/
theorem loop_snd (depth : Int) (w : Str) : (loop depth w).2 = depth + square.height w w.length := by
  induction w generalizing depth with
  | nil          => exact (Int.add_zero depth).symm
  | cons ch w ih => rw [loop, ih, body_snd, List.length_cons, Brackets.height, Int.add_assoc]

/-- Each character becomes what the `switch` makes of it at its depth. -/
theorem loop_getElem? (depth : Int) (w : Str) (n : Nat) :
    (loop depth w).1[n]? = w[n]?.map (fun ch => (body (depth + square.height w n) ch).1) := by
  induction w generalizing depth n with
  | nil          => rfl
  | cons ch w ih =>
    cases n with
    | zero   => simp [loop]
    | succ n =>
      rw [loop, List.getElem?_cons_succ, ih, List.getElem?_cons_succ, Brackets.height, body_snd, Int.add_assoc]

theorem length_loop (depth : Int) (w : Str) : (loop depth w).1.length = w.length := by
  induction w generalizing depth with
  | nil          => rfl
  | cons ch w ih => rw [loop, List.length_cons, ih, List.length_cons]

/-! ## What is written -/

theorem replc_fst (t : Text) : (replc t).1 = (loop 0 t.bytes).1 := rfl

theorem replc_opener (h : t.bytes[i]? = some '[') :
    (replc t).1[i]? = some (if square.height t.bytes (i + 1) ≤ 2 then '{' else '[') := by
  rw [replc_fst, loop_getElem?, h, Option.map_some, Int.zero_add, body_opener, Brackets.height_succ h]
  rfl

theorem replc_closer (h : t.bytes[j]? = some ']') :
    (replc t).1[j]? = some (if square.height t.bytes j ≤ 2 then '}' else ']') := by
  rw [replc_fst, loop_getElem?, h, Option.map_some, Int.zero_add, body_closer]

theorem replc_other (h : t.bytes[i]? = some ch) (ho : ch ≠ '[') (hc : ch ≠ ']') : (replc t).1[i]? = some ch := by
  rw [replc_fst, loop_getElem?, h, Option.map_some, body_other _ ho hc]

/-- **Brackets are rewritten in pairs**, those of a balanced text down to the second level. -/
theorem replc_consistent (t : Text) : Consistent t.bytes (replc t).1 where
  length := length_loop 0 t.bytes
  others := fun _ _ h ho hc => replc_other h ho hc
  pairs  := fun i j h => by
    rw [replc_opener h.opener, replc_closer h.closer, h.height_eq]
    by_cases hdepth : square.height t.bytes (i + 1) ≤ 2
    · rw [if_pos hdepth, if_pos hdepth]
      exact Or.inl ⟨rfl, rfl⟩
    · rw [if_neg hdepth, if_neg hdepth]
      exact Or.inr ⟨rfl, rfl⟩
  balanced := fun hb i j h => by
    have hdepth := Brackets.depth_eq_height hb h
    rw [replc_opener h.opener]
    by_cases hle : square.height t.bytes (i + 1) ≤ 2
    · rw [if_pos hle]
      exact iff_of_true rfl (by omega)
    · rw [if_neg hle]
      exact iff_of_false (by decide) (by omega)

/-! ## The warning -/

theorem replc_warns : (replc t).2.isSome = true ↔ square.height t.bytes t.bytes.length ≠ 0 := by
  have hdepth : (loop 0 t.bytes).2 = square.height t.bytes t.bytes.length := (loop_snd 0 t.bytes).trans (Int.zero_add _)
  show (if (loop 0 t.bytes).2 ≠ 0 then some (Warning.mk (loop 0 t.bytes).2) else none).isSome = true ↔ _
  rw [hdepth]
  split_ifs with h
  · exact iff_of_true rfl h
  · exact iff_of_false (by decide) h

theorem height_length_eq_zero :
    square.height t.bytes t.bytes.length = 0 ↔ t.bytes.count '[' = t.bytes.count ']' := by
  rw [Brackets.height_eq_count, List.take_length]
  change (t.bytes.count '[' : Int) - (t.bytes.count ']' : Int) = 0 ↔ _
  omega

/-- **The warning is right** for a text that has not as many openers as closers, or has never more closers so far. -/
theorem warnsOfMismatch_iff (t : Text) : WarnsOfMismatch t ↔
    t.bytes.count '[' ≠ t.bytes.count ']' ∨ ∀ p, p <+: t.bytes → p.count ']' ≤ p.count '[' := by
  unfold WarnsOfMismatch
  rw [replc_warns, Ne, height_length_eq_zero]
  by_cases htotal : t.bytes.count '[' = t.bytes.count ']'
  · have hbalanced : square.Balanced t.bytes ↔ ∀ p, p <+: t.bytes → p.count ']' ≤ p.count '[' :=
      ⟨fun h => h.noneAhead, fun h => ⟨h, htotal⟩⟩
    rw [not_iff_not, hbalanced]
    constructor
    · exact fun h => Or.inr (h.1 htotal)
    · exact fun h => ⟨fun _ => h.resolve_left (fun hne => hne htotal), fun _ => htotal⟩
  · exact iff_of_true (iff_of_true htotal (fun h => htotal h.total)) (Or.inl htotal)

/-- `][` leaves the count at 0. -/
theorem not_warnsOfMismatch_crossed : ¬ WarnsOfMismatch ⟨"][".toList, by decide, by decide⟩ := by
  intro h
  have hb : ¬ square.Balanced "][".toList := fun hb => absurd (hb.noneAhead [']'] ⟨['['], rfl⟩) (by decide)
  exact absurd (h.2 hb) (by decide)

end StringTransform
end Scrapcode
