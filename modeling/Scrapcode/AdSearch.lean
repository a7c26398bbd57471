import Mathlib.Data.Char
import Mathlib.Data.List.Infix
import Mathlib.Data.List.Lex
import Mathlib.Data.List.Sort
import Scrapcode.ByteText
import Scrapcode.Markup
/-!
# AdSearch — the pages of `adsearch.py`

The search term comes back on the page in up to three places: twice as the value of a field, and once in the text, where
`locate` has found nothing.  `cgi.escape` leaves the quotes as they are, so a quote ends the value; the text is not
escaped at all.  Without these characters the term does not show in the markup (`independent_iff`).
-/
namespace Scrapcode
namespace AdSearch

open ByteText (Str str)
open Markup (Context Piece read markup pageText outsideSlots Inert Fits reference)

/-- How a call of `locate` ends: with an output that is text, with an exit code that is not zero, or otherwise. -/
inductive Locate where
  | output (text : Str)
  | exited (returncode : Int)
  | raised
deriving DecidableEq

/-- `cgi.escape`, without `quote`. -/
def escapeChar (c : Char) : Str :=
  if c = '&' then "&amp;".toList else if c = '<' then "&lt;".toList else if c = '>' then "&gt;".toList else [c]

def escape (s : Str) : Str := s.flatMap escapeChar

/-- What `str.strip` takes off, in ranges. -/
def spaces : List (Nat × Nat) :=
  [(0x09, 0x0d), (0x1c, 0x20), (0x85, 0x85), (0xa0, 0xa0), (0x1680, 0x1680), (0x2000, 0x200a), (0x2028, 0x2029),
    (0x202f, 0x202f), (0x205f, 0x205f), (0x3000, 0x3000)]

def isSpace (c : Char) : Bool := spaces.any (fun r => decide (r.1 ≤ c.toNat ∧ c.toNat ≤ r.2))

/-- `print`, of text that is the same for every search term. -/
def print (s : Str) : List Piece := [.fixed (s ++ ['\n'])]

def printhttpheaders : List Piece := print "Content-Type: text/html".toList ++ print []

def printheading : List Piece :=
  print "\n\t<html>\n\t<head><title>Search Old Ads</title></head>\n\t<body>\n\t  <h1>Search Old Ads</h1>\n\t".toList

/-- The form, up to the term and after it. -/
def formOpening : Str :=
  "\n\t  <form method=\"get\">\n\t\tSearch for:\n\t\t<input type=\"text\" value=\"".toList

def formClosing : Str :=
  "\" name=\"searchterm\"/>\n\t\t<input type=\"submit\" value=\"Search\"/>\n\t  </form>\n\t".toList

def printform (searchterm : Str) : List Piece :=
  [.fixed formOpening, .slot (escape searchterm)] ++ print formClosing

def printfooter : List Piece := print "\n\t</body>\n\t</html>\n\t".toList

/-- The line for one result, without the directory. -/
def printResult (r : Str) : List Piece :=
  if r.all isSpace then [] else print ("<li>".toList ++ escape r ++ "</li>".toList)

/-- The results in descending order, not more than 400. -/
def shown (res : List Str) : List Str := (res.insertionSort (fun a b => b ≤ a)).take 400

def printResults (res : List Str) : List Piece :=
  print "<ul>".toList ++
  (((shown res).filter (fun x => !decide ("/._".toList <:+: x))).map (List.drop 20)).flatMap printResult ++
  print "</ul>".toList ++
  if 400 < res.length then
    print ("<h2>Only displayed first ".toList ++ str (shown res).length ++ " results of ".toList ++ str res.length ++
      ". Please choose a more specific search term.</h2>".toList)
  else print ("<h2>Found ".toList ++ str (shown res).length ++ " results</h2>".toList)

/-- The arguments of `locate`. -/
def command (searchterm : Str) : List Str :=
  ["/usr/bin/locate".toList, "/srv/archive/old_ads/*".toList ++ searchterm ++ "*".toList]

def notFound (searchterm : Str) : List Piece :=
  [.fixed "<h2>No results found for search term ".toList, .slot searchterm] ++ print "</h2>".toList

/-- What is printed, and the result if nothing is raised. -/
def search (locate : List Str → Locate) (searchterm : Str) : List Piece × Option Bool :=
  if searchterm = [] then ([], some false)
  else
    match locate (command searchterm) with
    | .output text => (printResults (text.splitOn '\n'), some true)
    | .exited 1    => (notFound searchterm, some false)
    | _            => ([], none)

/-- The page, as far as it is printed; `searchterm` is the field of the form, if there is one. -/
def main (locate : List Str → Locate) (searchterm : Option Str) : List Piece :=
  let term := searchterm.getD []
  let found := search locate term
  printhttpheaders ++ printheading ++ printform term ++ found.1 ++
    match found.2 with
    | some true  => printform term ++ printfooter
    | some false => printfooter
    | none       => []

/-! ## What is to be the same -/

variable (locate : List Str → Locate)

/-- The term is on the page with its characters `&`, `<`, `>` and `"` in escaped form only. -/
def EscapedOnly (term : Str) : Prop := ∀ s, Piece.slot s ∈ main locate (some term) → s = term.flatMap reference

/-- **The markup does not depend on the term**, of which nothing is on the page that is not escaped. -/
structure Independent (term₁ term₂ : Str) : Prop where
  markup   : markup .text (pageText (main locate (some term₁))) = markup .text (pageText (main locate (some term₂)))
  escaped₁ : EscapedOnly locate term₁
  escaped₂ : EscapedOnly locate term₂

/-- A term without quotes, and without anything to escape if `locate` finds nothing for it. -/
def Harmless (term : Str) : Prop :=
  '"' ∉ term ∧ (locate (command term) = .exited 1 → '&' ∉ term ∧ '<' ∉ term ∧ '>' ∉ term)

variable {locate : List Str → Locate} {term term₁ term₂ s : Str} {ps qs : List Piece} {c : Char}

/-! ## What is escaped -/

theorem escapeChar_of_ne (ha : c ≠ '&') (hl : c ≠ '<') (hg : c ≠ '>') : escapeChar c = [c] := by
  unfold escapeChar
  rw [if_neg ha, if_neg hl, if_neg hg]

/-- `cgi.escape` writes a reference for all but the quote. -/
theorem escapeChar_cases (c : Char) : c = '"' ∧ escapeChar c = [c] ∨ c ≠ '"' ∧ escapeChar c = reference c := by
  rcases Markup.char_cases c with (rfl | rfl | rfl | rfl) | ⟨ha, hl, hg, hq⟩
  · decide
  · decide
  · decide
  · decide
  · exact Or.inr ⟨hq, (escapeChar_of_ne ha hl hg).trans (Markup.reference_of_ne ha hl hg hq).symm⟩

theorem mem_escapeChar {d : Char} (h : d ∈ escapeChar c) (hd : d = '<' ∨ d = '"') : d = '"' ∧ c = '"' := by
  rcases Markup.char_cases c with (rfl | rfl | rfl | rfl) | ⟨ha, hl, hg, hq⟩
  · rcases hd with rfl | rfl <;> exact absurd h (by decide)
  · rcases hd with rfl | rfl <;> exact absurd h (by decide)
  · rcases hd with rfl | rfl <;> exact absurd h (by decide)
  · exact ⟨List.mem_singleton.1 h, rfl⟩
  · rw [escapeChar_of_ne ha hl hg, List.mem_singleton] at h
    subst h
    exact absurd hd (not_or.2 ⟨hl, hq⟩)

theorem notMem_escape (s : Str) : '<' ∉ escape s := by
  intro h
  obtain ⟨c, -, hc⟩ := List.mem_flatMap.1 h
  exact absurd (mem_escapeChar hc (Or.inl rfl)).1 (by decide)

theorem quote_notMem_escape (h : '"' ∉ s) : '"' ∉ escape s := by
  intro hmem
  obtain ⟨c, hcs, hc⟩ := List.mem_flatMap.1 hmem
  exact h ((mem_escapeChar hc (Or.inr rfl)).2 ▸ hcs)

/-- **`cgi.escape` is enough** where there are no quotes. -/
theorem escape_eq_iff (term : Str) : escape term = term.flatMap reference ↔ '"' ∉ term := by
  have hcases : ∀ c, escapeChar c = reference c ∨ escapeChar c = [c] :=
    fun c => (escapeChar_cases c).elim (fun h => Or.inr h.2) (fun h => Or.inl h.2)
  unfold escape
  rw [Markup.flatMap_reference_iff hcases]
  constructor
  · exact fun h hq => absurd (h _ hq) (by decide)
  · intro h c hc
    exact ((escapeChar_cases c).resolve_left (fun hq => h (hq.1 ▸ hc))).2

/-- **Nothing is enough** where there is nothing to escape. -/
theorem self_eq_iff (term : Str) :
    term = term.flatMap reference ↔ ('&' ∉ term ∧ '<' ∉ term ∧ '>' ∉ term) ∧ '"' ∉ term := by
  have hall := Markup.flatMap_reference_iff (f := fun c => [c]) (fun _ => Or.inr rfl) term
  rw [List.flatMap_singleton'] at hall
  rw [hall]
  constructor
  · intro h
    exact ⟨⟨fun hc => absurd (h _ hc) (by decide), fun hc => absurd (h _ hc) (by decide),
      fun hc => absurd (h _ hc) (by decide)⟩, fun hc => absurd (h _ hc) (by decide)⟩
  · rintro ⟨⟨ha, hl, hg⟩, hq⟩ c hc
    refine ((Markup.reference_eq_self_iff c).2 ?_).symm
    exact ⟨fun he => ha (he ▸ hc), fun he => hl (he ▸ hc), fun he => hg (he ▸ hc), fun he => hq (he ▸ hc)⟩

/-! ## What is printed -/

/-- Pieces that begin and end in the text, with nothing in their slots that ends its context. -/
def Closed (ps : List Piece) : Prop := Fits .text ps ∧ read .text (outsideSlots ps) = .text

theorem Closed.append (hp : Closed ps) (hq : Closed qs) : Closed (ps ++ qs) := by
  constructor
  · exact Markup.fits_append.2 ⟨hp.1, hp.2.symm ▸ hq.1⟩
  · rw [Markup.outsideSlots_append, Markup.read_append, hp.2, hq.2]

theorem closed_nil : Closed [] := ⟨trivial, rfl⟩

theorem closed_flatMap {f : Str → List Piece} (h : ∀ x, Closed (f x)) (xs : List Str) : Closed (xs.flatMap f) := by
  induction xs with
  | nil          => exact closed_nil
  | cons x xs ih => exact (h x).append ih

theorem closed_print (h : read .text (s ++ ['\n']) = .text) : Closed (print s) := by
  refine ⟨trivial, ?_⟩
  show read .text (s ++ ['\n'] ++ []) = .text
  rw [List.append_nil, h]

theorem closed_printResult (r : Str) : Closed (printResult r) := by
  unfold printResult
  split_ifs
  · exact closed_nil
  · refine closed_print ?_
    have hopen : read .text "<li>".toList = .text := by decide
    rw [Markup.read_append, Markup.read_append, Markup.read_append, hopen, (Markup.inert_text (notMem_escape r)).1]
    decide

theorem closed_printResults (res : List Str) : Closed (printResults res) := by
  have hnum : ∀ n, read .text (str n) = .text :=
    fun n => (Markup.inert_text (ByteText.notMem_str (by decide) n)).1
  have hcount : Closed (if 400 < res.length then
      print ("<h2>Only displayed first ".toList ++ str (shown res).length ++ " results of ".toList ++ str res.length ++
        ". Please choose a more specific search term.</h2>".toList)
      else print ("<h2>Found ".toList ++ str (shown res).length ++ " results</h2>".toList)) := by
    split_ifs
    · refine closed_print ?_
      simp only [Markup.read_append]
      rw [show read .text "<h2>Only displayed first ".toList = .text by decide, hnum,
        show read .text " results of ".toList = .text by decide, hnum]
      decide
    · refine closed_print ?_
      simp only [Markup.read_append]
      rw [show read .text "<h2>Found ".toList = .text by decide, hnum]
      decide
  have hlist : Closed ((((shown res).filter (fun x => !decide ("/._".toList <:+: x))).map (List.drop 20)).flatMap
      printResult) := closed_flatMap closed_printResult _
  exact (((closed_print (by decide)).append hlist).append (closed_print (by decide))).append hcount

theorem closed_printform (h : '"' ∉ term) : Closed (printform term) := by
  have hvalue : Inert (.value '"') (escape term) := Markup.inert_value (quote_notMem_escape h)
  have hopen : read .text formOpening = .value '"' := by decide
  have hclose : read (.value '"') (formClosing ++ ['\n']) = .text := by decide
  constructor
  · show Inert (read .text formOpening) (escape term) ∧ True
    rw [hopen]
    exact ⟨hvalue, trivial⟩
  · show read .text (formOpening ++ ([] ++ (formClosing ++ ['\n'] ++ []))) = .text
    rw [List.nil_append, List.append_nil, Markup.read_append, hopen, hclose]

theorem closed_notFound (h : '<' ∉ term) : Closed (notFound term) := by
  have hvalue : Inert .text term := Markup.inert_text h
  have hopen : read .text "<h2>No results found for search term ".toList = .text := by decide
  refine ⟨?_, rfl⟩
  show Inert (read .text "<h2>No results found for search term ".toList) term ∧ True
  rw [hopen]
  exact ⟨hvalue, trivial⟩

/-! ## The pages -/

/-- The page where `locate` finds something. -/
theorem main_of_output {text : Str} (hne : term ≠ []) (h : locate (command term) = .output text) :
    main locate (some term) = printhttpheaders ++ printheading ++ printform term ++ printResults (text.splitOn '\n') ++
      (printform term ++ printfooter) := by
  unfold main search
  simp only [Option.getD_some, if_neg hne, h]

/-- The page where it finds nothing. -/
theorem main_of_exited (hne : term ≠ []) (h : locate (command term) = .exited 1) : main locate (some term) =
    printhttpheaders ++ printheading ++ printform term ++ notFound term ++ printfooter := by
  unfold main search
  simp only [Option.getD_some, if_neg hne, h]

theorem closed_beginning : Closed (printhttpheaders ++ printheading) := by
  have hhead : Closed (printhttpheaders) := (closed_print (by decide)).append (closed_print (by decide))
  exact hhead.append (closed_print (by decide))

theorem closed_printfooter : Closed printfooter := closed_print (by decide)

theorem closed_main_of_output {text : Str} (hne : term ≠ []) (h : locate (command term) = .output text)
    (hq : '"' ∉ term) : Closed (main locate (some term)) := by
  rw [main_of_output hne h]
  have hform := closed_printform hq
  exact ((closed_beginning.append hform).append (closed_printResults _)).append (hform.append closed_printfooter)

theorem closed_main_of_exited (hne : term ≠ []) (h : locate (command term) = .exited 1) (hq : '"' ∉ term)
    (hl : '<' ∉ term) : Closed (main locate (some term)) := by
  rw [main_of_exited hne h]
  exact ((closed_beginning.append (closed_printform hq)).append (closed_notFound hl)).append closed_printfooter

/-- The terms are in the slots only. -/
theorem outsideSlots_printform (term₁ term₂ : Str) :
    outsideSlots (printform term₁) = outsideSlots (printform term₂) := rfl

theorem outsideSlots_notFound (term₁ term₂ : Str) : outsideSlots (notFound term₁) = outsideSlots (notFound term₂) := rfl

/-- Nothing but the terms is in a slot. -/
theorem slot_notMem_print (s t : Str) : Piece.slot s ∉ print t := fun h => Piece.noConfusion (List.mem_singleton.1 h)

theorem slot_notMem_printResults (s : Str) (res : List Str) : Piece.slot s ∉ printResults res := by
  intro h
  unfold printResults at h
  simp only [List.mem_append, slot_notMem_print, false_or, or_false] at h
  rcases h with h | h
  · obtain ⟨r, -, hr⟩ := List.mem_flatMap.1 h
    unfold printResult at hr
    split_ifs at hr
    · exact absurd hr List.not_mem_nil
    · exact slot_notMem_print _ _ hr
  · split_ifs at h <;> exact slot_notMem_print _ _ h

theorem slot_mem_printform : Piece.slot s ∈ printform term ↔ s = escape term := by
  unfold printform
  simp [slot_notMem_print]

theorem slot_mem_notFound : Piece.slot s ∈ notFound term ↔ s = term := by
  unfold notFound
  simp [slot_notMem_print]

theorem escapedOnly_of_output {text : Str} (hne : term ≠ []) (h : locate (command term) = .output text) :
    EscapedOnly locate term ↔ '"' ∉ term := by
  have hmem : ∀ s, Piece.slot s ∈ main locate (some term) ↔ s = escape term := by
    intro s
    rw [main_of_output hne h]
    simp only [printhttpheaders, printheading, printfooter, List.mem_append, slot_notMem_print,
      slot_notMem_printResults, slot_mem_printform, or_false, false_or, or_self]
  unfold EscapedOnly
  rw [← escape_eq_iff]
  exact ⟨fun hs => hs _ ((hmem _).2 rfl), fun he s hs => ((hmem s).1 hs).trans he⟩

theorem escapedOnly_of_exited (hne : term ≠ []) (h : locate (command term) = .exited 1) :
    EscapedOnly locate term ↔ ('&' ∉ term ∧ '<' ∉ term ∧ '>' ∉ term) ∧ '"' ∉ term := by
  have hmem : ∀ s, Piece.slot s ∈ main locate (some term) ↔ s = escape term ∨ s = term := by
    intro s
    rw [main_of_exited hne h]
    simp only [printhttpheaders, printheading, printfooter, List.mem_append, slot_notMem_print, slot_mem_printform,
      slot_mem_notFound, or_false, false_or, or_self]
  unfold EscapedOnly
  rw [← self_eq_iff]
  constructor
  · exact fun hs => hs _ ((hmem _).2 (Or.inr rfl))
  · intro hself s hs
    rcases (hmem s).1 hs with rfl | rfl
    · exact (escape_eq_iff term).2 ((self_eq_iff term).1 hself).2
    · exact hself

/-- **Each character of a term is escaped** exactly if the term is harmless. -/
theorem escapedOnly_iff (hne : term ≠ [])
    (houtcome : (∃ text, locate (command term) = .output text) ∨ locate (command term) = .exited 1) :
    EscapedOnly locate term ↔ Harmless locate term := by
  unfold Harmless
  rcases houtcome with ⟨text, hl⟩ | hl
  · rw [escapedOnly_of_output hne hl]
    exact (and_iff_left (fun he => by rw [hl] at he; cases he)).symm
  · rw [escapedOnly_of_exited hne hl, forall_prop_of_true hl, and_comm]

theorem closed_main (hne : term ≠ [])
    (houtcome : (∃ text, locate (command term) = .output text) ∨ locate (command term) = .exited 1)
    (h : Harmless locate term) : Closed (main locate (some term)) := by
  obtain ⟨hq, hescaped⟩ := h
  rcases houtcome with ⟨text, hl⟩ | hl
  · exact closed_main_of_output hne hl hq
  · exact closed_main_of_exited hne hl hq (hescaped hl).2.1

/-- **The fixed parts** of two pages with the same outcome are the same. -/
theorem outsideSlots_main (h₁ : term₁ ≠ []) (h₂ : term₂ ≠ [])
    (hsame : locate (command term₁) = locate (command term₂))
    (houtcome : (∃ text, locate (command term₁) = .output text) ∨ locate (command term₁) = .exited 1) :
    outsideSlots (main locate (some term₁)) = outsideSlots (main locate (some term₂)) := by
  rcases houtcome with ⟨text, hl⟩ | hl
  · rw [main_of_output h₁ hl, main_of_output h₂ (hsame.symm.trans hl)]
    simp only [Markup.outsideSlots_append, outsideSlots_printform term₁ term₂]
  · rw [main_of_exited h₁ hl, main_of_exited h₂ (hsame.symm.trans hl)]
    simp only [Markup.outsideSlots_append, outsideSlots_printform term₁ term₂, outsideSlots_notFound term₁ term₂]

/-- **The markup does not depend on the term** exactly for terms without quotes, and without anything to escape where
nothing is found. -/
theorem independent_iff (locate : List Str → Locate) {term₁ term₂ : Str} (h₁ : term₁ ≠ []) (h₂ : term₂ ≠ [])
    (hsame : locate (command term₁) = locate (command term₂))
    (houtcome : (∃ text, locate (command term₁) = .output text) ∨ locate (command term₁) = .exited 1) :
    Independent locate term₁ term₂ ↔ Harmless locate term₁ ∧ Harmless locate term₂ := by
  have houtcome₂ : (∃ text, locate (command term₂) = .output text) ∨ locate (command term₂) = .exited 1 :=
    hsame ▸ houtcome
  constructor
  · exact fun h => ⟨(escapedOnly_iff h₁ houtcome).1 h.escaped₁, (escapedOnly_iff h₂ houtcome₂).1 h.escaped₂⟩
  · rintro ⟨hs₁, hs₂⟩
    refine ⟨?_, (escapedOnly_iff h₁ houtcome).2 hs₁, (escapedOnly_iff h₂ houtcome₂).2 hs₂⟩
    rw [Markup.markup_of_fits (closed_main h₁ houtcome hs₁).1, Markup.markup_of_fits (closed_main h₂ houtcome₂ hs₂).1,
      outsideSlots_main h₁ h₂ hsame houtcome]

theorem independent_words : Independent (fun _ => .exited 1) "car".toList "boat".toList :=
  (independent_iff (fun _ => .exited 1) (by decide) (by decide) rfl (Or.inr rfl)).2
    ⟨⟨by decide, fun _ => by decide⟩, by decide, fun _ => by decide⟩

/-- A quote ends the value. -/
theorem not_independent_quote : ¬ Independent (fun _ => .exited 1) ['"'] ['a'] :=
  fun h => absurd h.markup (by decide +kernel)

end AdSearch
end Scrapcode
