import Scrapcode.Delimited
import Scrapcode.ScribdSend
/-!
# ScribdRead — the form that a server takes out of the body

Nothing in `post_multipart` looks whether the boundary it draws is in the data.  A server cuts the body at the delimiter
lines, and what it takes out are the fields of the form exactly if no key and no name has a quote or a line end in it
and no line of the data begins with the delimiter (`readsBack_iff`).
-/
namespace Scrapcode
namespace ScribdMultipart

open ByteText (Str str)
open Delimited
open Interrupts

/-! ## What a server takes out of a body -/

/-- A part of a form. -/
structure Part where
  name        : Str
  filename    : Option Str
  contentType : Option Str
  data        : Str
deriving DecidableEq, Repr

/-- A delimiter with the line end before it. -/
def separator (boundary : Str) : Str := crlf ++ delimiter boundary

/-- The header lines and the data of a part, which begins with the end of the delimiter's line. -/
def readHead (piece : Str) : Option (List Str × Str) :=
  match cut crlf piece with
  | [] :: lines =>
    match lines.dropWhile (· ≠ []) with
    | _ :: line :: rest => some (lines.takeWhile (· ≠ []), crlf.intercalate (line :: rest))
    | _                 => none
  | _           => none

/-- The key, and the name of a file if there is one. -/
def readDisposition (line : Str) : Option (Str × Option Str) :=
  match line.dropPrefix? "Content-Disposition: form-data; name=\"".toList with
  | some rest =>
    match cut ['"'] rest with
    | [key, []]                => some (key, none)
    | [key, between, name, []] => if between = "; filename=".toList then some (key, some name) else none
    | _                        => none
  | none      => none

def readContentType (line : Str) : Option Str := line.dropPrefix? "Content-Type: ".toList

def readPart (piece : Str) : Option Part :=
  match readHead piece with
  | some (line :: lines, data) =>
    (readDisposition line).map (fun d => ⟨d.1, d.2, lines.findSome? readContentType, data⟩)
  | _                          => none

/-- The parts up to the delimiter that closes the form. -/
def readParts : List Str → Option (List Part)
  | []              => none
  | piece :: pieces => if "--".toList <+: piece then some [] else do
    let part ← readPart piece
    let parts ← readParts pieces
    return part :: parts

/-- What is ahead of the first delimiter is no part. -/
def readForm (boundary text : Str) : Option (List Part) := readParts (cut (separator boundary) (crlf ++ text)).tail

/-! ## What `post_multipart` means to send -/

/-- The boundary, from two numbers that are drawn at random. -/
def boundaryOf (m n : Nat) : Str := "----------".toList ++ str m ++ "--".toList ++ str n ++ "----------".toList

def mimeType (guessType : Str → Option Str) (name : Str) : Str :=
  match guessType name with
  | some (c :: ctype) => c :: ctype
  | _                 => "application/octet-stream".toList

def partOf (guessType : Str → Option Str) : Str × Value Str → Part
  | (key, .file data name) => ⟨key, some name, some (mimeType guessType name), data⟩
  | (key, .str value)      => ⟨key, none, none, value⟩
  | (key, .other _)        => ⟨key, none, none, []⟩

/-- A text that can stand between quotes in a header line. -/
def Quotable (s : Str) : Prop := '"' ∉ s ∧ ¬ crlf <:+: s

/-- The header lines can be read. -/
structure Part.Plain (p : Part) : Prop where
  name        : Quotable p.name
  filename    : ∀ name ∈ p.filename, Quotable name
  contentType : ∀ ctype ∈ p.contentType, ¬ crlf <:+: ctype

/-- A line of the data begins with the delimiter. -/
def Collides (boundary data : Str) : Prop := separator boundary <:+: crlf ++ data

variable {guessType : Str → Option Str} {boundary q r line data : Str} {head : List Str} {p : Part}
  {f : Str × Value Str} {fields : List (Str × Value Str)}

/-! ## Header lines -/

theorem sharp_crlf : Sharp crlf := by
  show '\r' ∉ ['\n']
  decide

/-- **A piece that has a head**: lines that are not empty, then an empty one. -/
theorem readHead_eq_some : readHead q = some (head, data) ↔
    q = ([] :: head ++ [[]]).flatMap (· ++ crlf) ++ data ∧ ∀ l ∈ head, l ≠ [] ∧ ¬ crlf <:+: l := by
  constructor
  · intro h
    unfold readHead at h
    split at h
    · rename_i lines hcut
      have hq := intercalate_cut sharp_crlf.ne_nil q
      split at h
      · rename_i l line rest hdrop
        cases h
        have hl : l = [] := by
          have hnot := List.head?_dropWhile_not (fun l : Str => decide (l ≠ [])) lines
          rw [hdrop] at hnot
          simpa using hnot
        subst hl
        have hlines := List.takeWhile_append_dropWhile (p := fun l : Str => decide (l ≠ [])) (l := lines)
        rw [hdrop] at hlines
        refine ⟨?_, fun l hl => ⟨by simpa using List.mem_takeWhile_imp hl, ?_⟩⟩
        · rw [← hq, hcut, ← intercalate_append crlf (List.cons_ne_nil line rest), List.append_assoc, List.cons_append,
            List.singleton_append, hlines]
        · have hmem := hcut ▸ List.mem_cons_of_mem [] ((List.takeWhile_prefix _).subset hl)
          exact not_infix_of_mem_cut sharp_crlf hmem
      · cases h
    · cases h
  · rintro ⟨rfl, hhead⟩
    have hpieces : ∀ l ∈ [] :: head ++ [[]], ¬ crlf <:+: l := by
      intro l hl
      rcases List.mem_append.1 hl with hl | hl
      · rcases List.mem_cons.1 hl with rfl | hl
        · decide
        · exact (hhead l hl).2
      · rw [List.mem_singleton.1 hl]
        decide
    have hne : ∀ l ∈ head, decide (l ≠ []) = true := fun l hl => decide_eq_true (hhead l hl).1
    obtain ⟨line, rest, hcut⟩ := List.exists_cons_of_ne_nil (cut_ne_nil crlf data)
    have hdata := intercalate_cut sharp_crlf.ne_nil data
    unfold readHead
    rw [cut_ended sharp_crlf data hpieces, hcut]
    rw [hcut] at hdata
    simp only [List.cons_append, List.append_assoc, List.nil_append, List.dropWhile_append_of_pos hne,
      List.takeWhile_append_of_pos hne, ne_eq, not_true_eq_false, decide_false, List.dropWhile_cons_of_neg,
      Bool.false_eq_true, not_false_eq_true, List.takeWhile_cons_of_neg, List.append_nil, hdata]

theorem readHead_append (h : readHead q = some (head, data)) (r : Str) :
    readHead (q ++ r) = some (head, data ++ r) := by
  obtain ⟨rfl, hhead⟩ := readHead_eq_some.1 h
  exact readHead_eq_some.2 ⟨List.append_assoc _ _ _, hhead⟩

/-- The line of a key, and of the name of a file if there is one. -/
def dispositionOf : Str × Option Str → Str
  | (key, some name) => fileDisposition key name
  | (key, none)      => disposition key

theorem dropPrefix?_eq_some {p s : Str} : line.dropPrefix? p = some s ↔ line = p ++ s := by
  rw [List.dropPrefix?_eq_some_iff]
  constructor
  · rintro ⟨p', rfl, hp⟩
    rw [eq_of_beq hp]
  · rintro rfl
    exact ⟨p, rfl, beq_self_eq_true p⟩

theorem notMem_of_mem_cut {c : Char} {s t : Str} (h : t ∈ cut [c] s) : c ∉ t := fun hc =>
  have hsharp : Sharp [c] := List.not_mem_nil
  not_infix_of_mem_cut hsharp h ((List.singleton_infix_iff c t).2 hc)

theorem cut_of_notMem {c : Char} {s : Str} (h : c ∉ s) : cut [c] s = [s] :=
  cut_whole (fun hs => h ((List.singleton_infix_iff c s).1 hs))

theorem readDisposition_eq_some {d : Str × Option Str} : readDisposition line = some d ↔
    line = dispositionOf d ∧ '"' ∉ d.1 ∧ ∀ name ∈ d.2, '"' ∉ name := by
  have hquote : Sharp ['"'] := List.not_mem_nil
  constructor
  · intro h
    unfold readDisposition at h
    split at h
    · rename_i rest hrest
      obtain rfl := dropPrefix?_eq_some.1 hrest
      have hcutrest := intercalate_cut hquote.ne_nil rest
      split at h
      · rename_i key hcut
        cases h
        rw [hcut] at hcutrest
        refine ⟨?_, notMem_of_mem_cut (hcut ▸ List.mem_cons_self), fun _ hn => by cases hn⟩
        rw [← hcutrest]
        rfl
      · rename_i key between name hcut
        split at h
        · rename_i hbetween
          cases h
          subst hbetween
          rw [hcut] at hcutrest
          refine ⟨?_, notMem_of_mem_cut (hcut ▸ List.mem_cons_self), ?_⟩
          · rw [← hcutrest, List.intercalate_cons_cons, List.intercalate_cons_cons, List.intercalate_cons_cons,
              List.intercalate_singleton]
            show _ = fileDisposition key name
            unfold fileDisposition
            simp only [List.append_assoc]
            rfl
          · rintro _ ⟨⟩
            exact notMem_of_mem_cut (s := rest) (by rw [hcut]; simp)
        · cases h
      · cases h
    · cases h
  · rintro ⟨rfl, hkey, hname⟩
    obtain ⟨key, filename⟩ := d
    cases filename with
    | none      =>
      have hcut : cut ['"'] (key ++ (['"'] ++ [])) = [key, []] := by
        rw [cut_append hquote, cut_of_notMem hkey]
        rfl
      have hdrop : (disposition key).dropPrefix? "Content-Disposition: form-data; name=\"".toList =
          some (key ++ (['"'] ++ [])) := dropPrefix?_eq_some.2 (List.append_assoc _ _ _)
      show readDisposition (disposition key) = _
      unfold readDisposition
      rw [hdrop]
      simp only [hcut]
    | some name =>
      have hcut : cut ['"'] (key ++ (['"'] ++ ("; filename=".toList ++ (['"'] ++ (name ++ (['"'] ++ [])))))) =
          [key, "; filename=".toList, name, []] := by
        rw [cut_append hquote, cut_append hquote, cut_append hquote, cut_of_notMem hkey,
          cut_of_notMem (hname name rfl), cut_of_notMem (by decide)]
        rfl
      have hdrop : (fileDisposition key name).dropPrefix? "Content-Disposition: form-data; name=\"".toList =
          some (key ++ (['"'] ++ ("; filename=".toList ++ (['"'] ++ (name ++ (['"'] ++ [])))))) := by
        refine dropPrefix?_eq_some.2 ?_
        unfold fileDisposition
        simp only [List.append_assoc]
        rfl
      show readDisposition (fileDisposition key name) = _
      unfold readDisposition
      rw [hdrop]
      simp only [hcut, ↓reduceIte]

theorem crlf_infix_dispositionOf (d : Str × Option Str) :
    crlf <:+: dispositionOf d ↔ crlf <:+: d.1 ∨ ∃ name ∈ d.2, crlf <:+: name := by
  have hquote : '"' ∉ crlf := by decide
  have hopen : ¬ crlf <:+: "Content-Disposition: form-data; name=".toList := by decide
  have hbetween : ¬ crlf <:+: "; filename=".toList := by decide
  have hnil : ¬ crlf <:+: [] := by decide
  obtain ⟨key, filename⟩ := d
  cases filename with
  | none      =>
    have hline : disposition key = "Content-Disposition: form-data; name=".toList ++ '"' :: (key ++ '"' :: []) := by
      unfold disposition
      simp
    show crlf <:+: disposition key ↔ _
    rw [hline, infix_append_cons_iff hquote, infix_append_cons_iff hquote]
    simp only [hopen, hnil, false_or, or_false, Option.mem_def, reduceCtorEq, false_and, exists_false]
  | some name =>
    have hline : fileDisposition key name = "Content-Disposition: form-data; name=".toList ++ '"' :: (key ++
        '"' :: ("; filename=".toList ++ '"' :: (name ++ '"' :: []))) := by
      unfold fileDisposition
      simp
    show crlf <:+: fileDisposition key name ↔ _
    rw [hline, infix_append_cons_iff hquote, infix_append_cons_iff hquote, infix_append_cons_iff hquote,
      infix_append_cons_iff hquote]
    simp only [hopen, hbetween, hnil, false_or, or_false, Option.mem_def, Option.some.injEq, exists_eq_left']

theorem readContentType_eq_some {ctype : Str} : readContentType line = some ctype ↔
    line = "Content-Type: ".toList ++ ctype := dropPrefix?_eq_some

/-! ## The piece of a field -/

/-- What is between the delimiter of a field and the next line end with a delimiter. -/
def pieceOf (guessType : Str → Option Str) (f : Str × Value Str) : Str := crlf ++ valueText guessType f.1 f.2

def headLines (guessType : Str → Option Str) (f : Str × Value Str) : List Str :=
  match (partOf guessType f).contentType with
  | some ctype => [dispositionOf (f.1, (partOf guessType f).filename), "Content-Type: ".toList ++ ctype]
  | none       => [dispositionOf (f.1, (partOf guessType f).filename)]

theorem pieceOf_eq (henc : f.2.Encodable) : pieceOf guessType f =
    ([] :: headLines guessType f ++ [[]]).flatMap (· ++ crlf) ++ (partOf guessType f).data := by
  obtain ⟨key, s | ⟨data, name⟩ | type⟩ := f
  · simp only [pieceOf, valueText, headLines, partOf, dispositionOf, List.flatMap_cons, List.flatMap_nil,
      List.cons_append, List.nil_append, List.append_nil, List.append_assoc]
  · simp only [pieceOf, valueText, headLines, partOf, dispositionOf, List.flatMap_cons, List.flatMap_nil,
      List.cons_append, List.nil_append, List.append_nil, List.append_assoc]
    rfl
  · exact henc.elim

@[simp] theorem partOf_name (guessType : Str → Option Str) (f : Str × Value Str) : (partOf guessType f).name = f.1 := by
  obtain ⟨key, s | ⟨data, name⟩ | type⟩ := f <;> rfl

theorem dispositionOf_ne_nil (d : Str × Option Str) : dispositionOf d ≠ [] := by
  obtain ⟨key, _ | name⟩ := d <;> exact List.cons_ne_nil _ _

/-- The header lines of a field that can be read. -/
theorem Part.Plain.headLines (h : (partOf guessType f).Plain) :
    ∀ l ∈ headLines guessType f, l ≠ [] ∧ ¬ crlf <:+: l := by
  have hdisposition : ¬ crlf <:+: dispositionOf (f.1, (partOf guessType f).filename) := by
    rw [crlf_infix_dispositionOf]
    rintro (hin | ⟨name, hname, hin⟩)
    · exact (partOf_name guessType f ▸ h.name).2 hin
    · exact (h.filename name hname).2 hin
  intro l hl
  unfold ScribdMultipart.headLines at hl
  split at hl
  · rename_i ctype hctype
    rcases List.mem_cons.1 hl with rfl | hl
    · exact ⟨dispositionOf_ne_nil _, hdisposition⟩
    · rw [List.mem_singleton.1 hl]
      refine ⟨List.cons_ne_nil _ _, ?_⟩
      have hspace : "Content-Type: ".toList ++ ctype = "Content-Type:".toList ++ ' ' :: ctype := rfl
      rw [hspace, infix_append_cons_iff (by decide)]
      rintro (hin | hin)
      · exact absurd hin (by decide)
      · exact h.contentType ctype hctype hin
  · rw [List.mem_singleton.1 hl]
    exact ⟨dispositionOf_ne_nil _, hdisposition⟩

theorem readHead_pieceOf (henc : f.2.Encodable) (h : (partOf guessType f).Plain) :
    readHead (pieceOf guessType f) = some (headLines guessType f, (partOf guessType f).data) :=
  readHead_eq_some.2 ⟨pieceOf_eq henc, h.headLines⟩

theorem readPart_pieceOf (henc : f.2.Encodable) (h : (partOf guessType f).Plain) :
    readPart (pieceOf guessType f) = some (partOf guessType f) := by
  have hline : readDisposition (dispositionOf (f.1, (partOf guessType f).filename)) =
      some (f.1, (partOf guessType f).filename) :=
    readDisposition_eq_some.2 ⟨rfl, (partOf_name guessType f ▸ h.name).1, fun name hname => (h.filename name hname).1⟩
  have hctype : ∀ ctype, readContentType ("Content-Type: ".toList ++ ctype) = some ctype :=
    fun ctype => readContentType_eq_some.2 rfl
  unfold readPart
  rw [readHead_pieceOf henc h]
  obtain ⟨key, s | ⟨data, name⟩ | type⟩ := f
  · show (readDisposition _).map _ = _
    rw [hline]
    rfl
  · show (readDisposition _).map _ = _
    rw [hline]
    simp only [Option.map_some, List.findSome?_cons, hctype, partOf]
  · exact henc.elim

/-- **What is read has no quote and no line end** in its header lines. -/
theorem plain_of_readPart (h : readPart q = some p) : p.Plain := by
  unfold readPart at h
  split at h
  · rename_i line lines data hhead
    obtain ⟨d, hd, rfl⟩ := Option.map_eq_some_iff.1 h
    obtain ⟨rfl, hkey, hname⟩ := readDisposition_eq_some.1 hd
    obtain ⟨-, hlines⟩ := readHead_eq_some.1 hhead
    have hdisposition := (hlines _ List.mem_cons_self).2
    rw [crlf_infix_dispositionOf, not_or, not_exists] at hdisposition
    refine ⟨⟨hkey, hdisposition.1⟩, fun name hn => ⟨hname name hn, fun hin => hdisposition.2 name ⟨hn, hin⟩⟩, ?_⟩
    intro ctype hctype hin
    obtain ⟨l, hl, hread⟩ := List.exists_of_findSome?_eq_some hctype
    rw [readContentType_eq_some] at hread
    exact (hlines l (List.mem_cons_of_mem _ hl)).2 (hread ▸ hin.trans (List.suffix_append _ _).isInfix)
  · cases h

/-- A piece that is cut short is no piece with the same data. -/
theorem eq_of_readPart (henc : f.2.Encodable) (hq : q <+: pieceOf guessType f)
    (h : readPart q = some (partOf guessType f)) : q = pieceOf guessType f := by
  have hplain := plain_of_readPart h
  obtain ⟨r, hr⟩ := hq
  have hdata : ∃ head, readHead q = some (head, (partOf guessType f).data) := by
    unfold readPart at h
    split at h
    · rename_i line lines data hhead
      obtain ⟨d, -, hd⟩ := Option.map_eq_some_iff.1 h
      exact ⟨line :: lines, by rw [hhead, ← hd]⟩
    · cases h
  obtain ⟨head, hhead⟩ := hdata
  have hlonger := readHead_append hhead r
  rw [hr, readHead_pieceOf henc hplain] at hlonger
  have hnil : (partOf guessType f).data ++ r = (partOf guessType f).data :=
    (Prod.ext_iff.1 (Option.some.inj hlonger)).2.symm
  rw [List.append_right_eq_self.1 hnil] at hr
  rw [← hr, List.append_nil]

/-! ## The form -/

theorem sharp_separator (h : '\r' ∉ boundary) : Sharp (separator boundary) := by
  show '\r' ∉ '\n' :: ('-' :: '-' :: boundary)
  simp only [List.mem_cons, not_or]
  exact ⟨by decide, by decide, by decide, h⟩

theorem dash_prefix_of_delimiter {t : Str} (h : delimiter boundary <+: t) : ['-'] <+: t :=
  (show ['-'] <+: delimiter boundary from List.prefix_append ['-'] ('-' :: boundary)).trans h

/-- No header line begins as a delimiter does. -/
theorem not_dash_prefix (guessType : Str → Option Str) (f : Str × Value Str) :
    ∀ l ∈ headLines guessType f ++ [[]], ∀ t, ¬ ['-'] <+: l ++ (crlf ++ t) := by
  have hempty : ∀ t, ¬ ['-'] <+: [] ++ (crlf ++ t) := fun t h => absurd (List.cons_prefix_cons.1 h).1 (by decide)
  have hcontent : ∀ {l t}, l.head? = some 'C' → ¬ ['-'] <+: l ++ (crlf ++ t) := by
    intro l t hl h
    obtain ⟨l, rfl⟩ := List.head?_eq_some_iff.1 hl
    exact absurd (List.cons_prefix_cons.1 h).1 (by decide)
  have hdisposition : ∀ d, (dispositionOf d).head? = some 'C' := by
    rintro ⟨key, _ | name⟩ <;> rfl
  intro l hl t
  rcases List.mem_append.1 hl with hl | hl
  · unfold headLines at hl
    split at hl
    · rcases List.mem_cons.1 hl with rfl | hl
      · exact hcontent (hdisposition _)
      · rw [List.mem_singleton.1 hl]
        exact hcontent rfl
    · rw [List.mem_singleton.1 hl]
      exact hcontent (hdisposition _)
  · rw [List.mem_singleton.1 hl]
    exact hempty t

theorem separator_infix_lines (boundary data : Str) : ∀ {ls : List Str},
    (∀ l ∈ ls, ¬ crlf <:+: l ∧ ∀ t, ¬ ['-'] <+: l ++ (crlf ++ t)) →
      (separator boundary <:+: crlf ++ (ls.flatMap (· ++ crlf) ++ data) ↔ Collides boundary data)
  | [], _      => Iff.rfl
  | l :: ls, h => by
    obtain ⟨⟨hl, hdash⟩, hls⟩ := List.forall_mem_cons.1 h
    rw [← separator_infix_lines boundary data hls, List.flatMap_cons, List.append_assoc, List.append_assoc]
    unfold separator
    rw [sharp_crlf.infix_cons_iff, or_iff_right (fun hd => hdash _ (dash_prefix_of_delimiter hd)),
      sharp_crlf.infix_append_iff hl]

/-- **A delimiter line is in a piece** exactly if it is in the data. -/
theorem separator_infix_pieceOf (henc : f.2.Encodable) (h : (partOf guessType f).Plain) (boundary : Str) :
    separator boundary <:+: pieceOf guessType f ↔ Collides boundary (partOf guessType f).data := by
  have hlines : ∀ l ∈ headLines guessType f ++ [[]], ¬ crlf <:+: l := by
    intro l hl
    rcases List.mem_append.1 hl with hl | hl
    · exact (h.headLines l hl).2
    · rw [List.mem_singleton.1 hl]
      decide
  rw [pieceOf_eq henc, List.cons_append, List.flatMap_cons, List.nil_append, List.append_assoc]
  exact separator_infix_lines _ _ (fun l hl => ⟨hlines l hl, not_dash_prefix guessType f l hl⟩)

theorem readParts_cons {pieces : List Str} (hq : q <+: pieceOf guessType f) {ps : List Part} :
    readParts (q :: pieces) = some (p :: ps) ↔ readPart q = some p ∧ readParts pieces = some ps := by
  have hdash : ¬ "--".toList <+: q := fun h => absurd (List.cons_prefix_cons.1 (h.trans hq)).1 (by decide)
  rw [readParts, if_neg hdash]
  cases readPart q with
  | none      => exact iff_of_false (fun h => by cases h) (fun h => by cases h.1)
  | some part =>
    cases readParts pieces with
    | none       => exact iff_of_false (fun h => by cases h) (fun h => by cases h.2)
    | some parts =>
      show some (part :: parts) = some (p :: ps) ↔ _
      rw [Option.some.injEq, Option.some.injEq, Option.some.injEq, List.cons.injEq]

theorem readParts_iff (hb : '\r' ∉ boundary) : ∀ {fields : List (Str × Value Str)}, (∀ f ∈ fields, f.2.Encodable) →
    (readParts ((fields.map (pieceOf guessType)).flatMap (cut (separator boundary)) ++ ["--".toList ++ crlf]) =
      some (fields.map (partOf guessType)) ↔
        ∀ f ∈ fields, (partOf guessType f).Plain ∧ ¬ Collides boundary (partOf guessType f).data)
  | [], _         => iff_of_true rfl (fun _ hf => absurd hf List.not_mem_nil)
  | f :: fs, henc => by
    obtain ⟨hf, hfs⟩ := List.forall_mem_cons.1 henc
    have hsharp := sharp_separator hb
    obtain ⟨q, qs, hcut⟩ := List.exists_cons_of_ne_nil (cut_ne_nil (separator boundary) (pieceOf guessType f))
    obtain ⟨hq, hwhole⟩ := cut_head _ hcut
    rw [List.forall_mem_cons, ← readParts_iff hb hfs, List.map_cons, List.map_cons, List.flatMap_cons,
      List.append_assoc, hcut, List.cons_append, readParts_cons hq]
    constructor
    · rintro ⟨hpart, hparts⟩
      have hplain := plain_of_readPart hpart
      have hno := hwhole (eq_of_readPart hf hq hpart) hsharp.ne_nil
      rw [cut_whole hno] at hcut
      cases hcut
      exact ⟨⟨hplain, fun h => hno ((separator_infix_pieceOf hf hplain boundary).2 h)⟩, hparts⟩
    · rintro ⟨⟨hplain, hdata⟩, hparts⟩
      rw [cut_whole (fun h => hdata ((separator_infix_pieceOf hf hplain boundary).1 h))] at hcut
      cases hcut
      exact ⟨readPart_pieceOf hf hplain, hparts⟩

/-- **The body is the pieces**, each after a separator, and the end of the closing delimiter. -/
theorem crlf_bodyText (guessType : Str → Option Str) (boundary : Str) : ∀ fields : List (Str × Value Str),
    crlf ++ bodyText guessType fields boundary =
      (fields.map (pieceOf guessType) ++ ["--".toList ++ crlf]).flatMap (separator boundary ++ ·)
  | []      => by
    simp only [bodyText, closing, separator, delimiter, List.flatMap_nil, List.nil_append, List.map_nil,
      List.flatMap_singleton, List.append_assoc]
  | f :: fs => by
    have hrest := crlf_bodyText guessType boundary fs
    unfold bodyText at hrest ⊢
    rw [List.map_cons, List.cons_append, List.flatMap_cons, List.flatMap_cons, ← hrest]
    simp only [fieldText, pieceOf, separator, List.append_assoc]

theorem readForm_bodyText (hb : '\r' ∉ boundary) (henc : ∀ f ∈ fields, f.2.Encodable) :
    readForm boundary (bodyText guessType fields boundary) = some (fields.map (partOf guessType)) ↔
      ∀ f ∈ fields, (partOf guessType f).Plain ∧ ¬ Collides boundary (partOf guessType f).data := by
  have hsharp := sharp_separator hb
  have hend : ¬ separator boundary <:+: "--".toList ++ crlf := by
    intro h
    have hshort : crlf ++ "--".toList <:+: "--".toList ++ crlf :=
      (show crlf ++ "--".toList <+: separator boundary from List.prefix_append _ boundary).isInfix.trans h
    exact absurd hshort (by decide)
  unfold readForm
  rw [crlf_bodyText, ← List.nil_append (List.flatMap _ _), cut_join hsharp, List.flatMap_append,
    List.flatMap_singleton, cut_whole hend]
  exact readParts_iff hb henc

theorem notMem_boundaryOf (m n : Nat) : '\r' ∉ boundaryOf m n := by
  unfold boundaryOf
  simp only [List.mem_append, not_or]
  exact ⟨⟨⟨⟨by decide, ByteText.notMem_str (by decide) m⟩, by decide⟩, ByteText.notMem_str (by decide) n⟩, by decide⟩

section Post

variable {ι : Type} [DecidableEq ι]

/-- **What a server takes out** of the body are the fields of the form exactly if each header line can be read and no
line of the data begins with the delimiter. -/
theorem readsBack_iff {fields : List (Str × Value (Data ι))} (henc : ∀ f ∈ fields, f.2.Encodable) (c : Call)
    (m n : Nat) (w : World ι) : ∃ w' h, postMultipart c fields (boundaryOf m n) true ⟨none, w⟩ = .ok () ⟨none, w'⟩ ∧
      w'.conn = some h ∧ (readForm (boundaryOf m n) h.sent.flatten =
        some ((resolve w.files fields).map (partOf c.guessType)) ↔ ∀ f ∈ resolve w.files fields,
          (partOf c.guessType f).Plain ∧ ¬ Collides (boundaryOf m n) (partOf c.guessType f).data) := by
  obtain ⟨w', h, hsending, hpos, hpost⟩ := postMultipart_whole henc c (boundaryOf m n) true w
  refine ⟨w', h, hpost, hsending.conn, ?_⟩
  rw [hsending.sent, hpos, List.take_length]
  exact readForm_bodyText (notMem_boundaryOf m n) (encodable_resolve w.files henc)

end Post

theorem readsBack_iff_form : ∃ w' h, postMultipart upload form (boundaryOf 3 5) true ⟨none, formWorld⟩ =
    .ok () ⟨none, w'⟩ ∧ w'.conn = some h ∧ (readForm (boundaryOf 3 5) h.sent.flatten =
      some ((resolve formWorld.files form).map (partOf upload.guessType)) ↔ ∀ f ∈ resolve formWorld.files form,
        (partOf upload.guessType f).Plain ∧ ¬ Collides (boundaryOf 3 5) (partOf upload.guessType f).data) :=
  readsBack_iff encodable_form upload 3 5 formWorld

end ScribdMultipart
end Scrapcode
