import Scrapcode.TextPieces
/-!
# Markup — the markup of a page, apart from its text

A reader of HTML is in the text, in a tag, or in the value of an attribute.  The markup of a page is what is left of it
without the text and the values: the tags, the names of the attributes, and what delimits the values.

A page is put together from fixed parts and slots.  Where no slot has a character that ends its context, the markup is
that of the fixed parts (`markup_of_fits`), whatever is in the slots.
-/
namespace Scrapcode
namespace Markup

inductive Context where
  | text
  | tag
  -- after the `=` of an attribute
  | equals
  | value (delimiter : Char)
  | unquoted
deriving DecidableEq, Repr

def isBlank (c : Char) : Bool := c == ' ' || c == '\t' || c == '\n' || c == '\r' || c == '\x0c'

def isDelimiter (c : Char) : Bool := c == '"' || c == '\''

def next : Context → Char → Context
  | .text, c     => if c = '<' then .tag else .text
  | .tag, c      => if c = '>' then .text else if c = '=' then .equals else .tag
  | .equals, c   =>
    if isDelimiter c then .value c else if isBlank c then .equals else if c = '>' then .text else .unquoted
  | .value d, c  => if c = d then .tag else .value d
  | .unquoted, c => if isBlank c then .tag else if c = '>' then .text else .unquoted

def isMarkup : Context → Char → Bool
  | .text, c     => c == '<'
  | .tag, _      => true
  | .equals, c   => isDelimiter c || isBlank c || c == '>'
  | .value d, c  => c == d
  | .unquoted, c => isBlank c || c == '>'

/-- The context after a text. -/
def read : Context → List Char → Context := List.foldl next

def markup : Context → List Char → List Char
  | _, []        => []
  | ctx, c :: cs => if isMarkup ctx c = true then c :: markup (next ctx c) cs else markup (next ctx c) cs

/-- A text that is no markup where it stands, and leaves the context as it is. -/
def Inert (ctx : Context) (s : List Char) : Prop := read ctx s = ctx ∧ markup ctx s = []

/-- A part of a page. -/
inductive Piece where
  | fixed (s : List Char)
  | slot (s : List Char)
deriving DecidableEq, Repr

def Piece.text : Piece → List Char
  | .fixed s => s
  | .slot s  => s

def Piece.outside : Piece → List Char
  | .fixed s => s
  | .slot _  => []

def pageText (ps : List Piece) : List Char := ps.flatMap Piece.text

/-- The page with empty slots. -/
def outsideSlots (ps : List Piece) : List Char := ps.flatMap Piece.outside

/-- What is in the slots is inert. -/
def Fits : Context → List Piece → Prop
  | _, []               => True
  | ctx, .fixed s :: ps => Fits (read ctx s) ps
  | ctx, .slot s :: ps  => Inert ctx s ∧ Fits ctx ps

variable {ctx : Context} {s t : List Char} {d : Char} {ps qs : List Piece}

theorem read_append (ctx : Context) (s t : List Char) : read ctx (s ++ t) = read (read ctx s) t := List.foldl_append

theorem markup_append (ctx : Context) (s t : List Char) :
    markup ctx (s ++ t) = markup ctx s ++ markup (read ctx s) t := by
  induction s generalizing ctx with
  | nil         => rfl
  | cons c s ih =>
    rw [List.cons_append, markup, markup, ih]
    split_ifs <;> rfl

theorem inert_of_forall (h : ∀ c ∈ s, next ctx c = ctx ∧ isMarkup ctx c = false) : Inert ctx s := by
  induction s with
  | nil         => exact ⟨rfl, rfl⟩
  | cons c s ih =>
    obtain ⟨hnext, hmarkup⟩ := h c List.mem_cons_self
    obtain ⟨hread, hrest⟩ := ih (fun x hx => h x (List.mem_cons_of_mem c hx))
    constructor
    · show read (next ctx c) s = ctx
      rw [hnext, hread]
    · rw [markup, hmarkup, if_neg Bool.false_ne_true, hnext, hrest]

/-- **Text without `<`** is no markup. -/
theorem inert_text (h : '<' ∉ s) : Inert .text s := by
  refine inert_of_forall (fun c hc => ?_)
  have hne : c ≠ '<' := fun he => h (he ▸ hc)
  exact ⟨if_neg hne, beq_eq_false_iff_ne.2 hne⟩

/-- **A value without its delimiter** is no markup. -/
theorem inert_value (h : d ∉ s) : Inert (.value d) s := by
  refine inert_of_forall (fun c hc => ?_)
  have hne : c ≠ d := fun he => h (he ▸ hc)
  exact ⟨if_neg hne, beq_eq_false_iff_ne.2 hne⟩

theorem outsideSlots_append (ps qs : List Piece) : outsideSlots (ps ++ qs) = outsideSlots ps ++ outsideSlots qs :=
  List.flatMap_append

theorem fits_append : Fits ctx (ps ++ qs) ↔ Fits ctx ps ∧ Fits (read ctx (outsideSlots ps)) qs := by
  induction ps generalizing ctx with
  | nil         => exact (and_iff_right trivial).symm
  | cons p ps ih =>
    cases p with
    | fixed s =>
      show Fits (read ctx s) (ps ++ qs) ↔ Fits (read ctx s) ps ∧ Fits (read ctx (s ++ outsideSlots ps)) qs
      rw [ih, read_append]
    | slot s  =>
      show Inert ctx s ∧ Fits ctx (ps ++ qs) ↔ (Inert ctx s ∧ Fits ctx ps) ∧ Fits (read ctx (outsideSlots ps)) qs
      rw [ih, and_assoc]

/-- **The markup of a page** is that of its fixed parts. -/
theorem markup_of_fits (h : Fits ctx ps) : markup ctx (pageText ps) = markup ctx (outsideSlots ps) := by
  induction ps generalizing ctx with
  | nil          => rfl
  | cons p ps ih =>
    cases p with
    | fixed s =>
      show markup ctx (s ++ pageText ps) = markup ctx (s ++ outsideSlots ps)
      rw [markup_append, markup_append, ih h]
    | slot s  =>
      show markup ctx (s ++ pageText ps) = markup ctx (outsideSlots ps)
      rw [markup_append, h.1.1, h.1.2, List.nil_append, ih h.2]

/-! ## Escapes -/

/-- The reference that stands for a character of the syntax. -/
def reference (c : Char) : List Char :=
  if c = '&' then "&amp;".toList else if c = '<' then "&lt;".toList
  else if c = '>' then "&gt;".toList else if c = '"' then "&quot;".toList else [c]

/-- The characters that have a reference, and the others. -/
theorem char_cases (c : Char) : (c = '&' ∨ c = '<' ∨ c = '>' ∨ c = '"') ∨ c ≠ '&' ∧ c ≠ '<' ∧ c ≠ '>' ∧ c ≠ '"' := by
  by_cases ha : c = '&'
  · exact Or.inl (Or.inl ha)
  by_cases hl : c = '<'
  · exact Or.inl (Or.inr (Or.inl hl))
  by_cases hg : c = '>'
  · exact Or.inl (Or.inr (Or.inr (Or.inl hg)))
  by_cases hq : c = '"'
  · exact Or.inl (Or.inr (Or.inr (Or.inr hq)))
  · exact Or.inr ⟨ha, hl, hg, hq⟩

theorem reference_of_ne {c : Char} (ha : c ≠ '&') (hl : c ≠ '<') (hg : c ≠ '>') (hq : c ≠ '"') : reference c = [c] := by
  unfold reference
  rw [if_neg ha, if_neg hl, if_neg hg, if_neg hq]

theorem reference_eq_self_iff (c : Char) : reference c = [c] ↔ c ≠ '&' ∧ c ≠ '<' ∧ c ≠ '>' ∧ c ≠ '"' := by
  rcases char_cases c with (rfl | rfl | rfl | rfl) | ⟨ha, hl, hg, hq⟩
  · decide
  · decide
  · decide
  · decide
  · exact iff_of_true (reference_of_ne ha hl hg hq) ⟨ha, hl, hg, hq⟩

theorem length_reference (c : Char) : 1 ≤ (reference c).length ∧ ((reference c).length = 1 → reference c = [c]) := by
  rcases char_cases c with (rfl | rfl | rfl | rfl) | ⟨ha, hl, hg, hq⟩
  · decide
  · decide
  · decide
  · decide
  · rw [reference_of_ne ha hl hg hq]
    exact ⟨Nat.le_refl 1, fun _ => rfl⟩

/-- **A text is escaped**, if some of its characters are, only where all of them are that have to be. -/
theorem flatMap_reference_iff {f : Char → List Char} (hf : ∀ c, f c = reference c ∨ f c = [c]) (s : List Char) :
    s.flatMap f = s.flatMap reference ↔ ∀ c ∈ s, f c = reference c := by
  refine TextPieces.flatMap_eq_iff (fun c => ?_) (fun c hlen => ?_) s
  · rcases hf c with h | h
    · exact Nat.le_of_eq (congrArg List.length h)
    · rw [h]
      exact (length_reference c).1
  · rcases hf c with h | h
    · exact h
    · rw [h] at hlen
      rw [h, (length_reference c).2 hlen.symm]

end Markup
end Scrapcode
