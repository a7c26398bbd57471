import Scrapcode.ByteText
import Scrapcode.TextPieces
/-!
# StderrFilter — `filter_stderr` of `passthrough_simple_perlsub.pl`

The substitution empties the lines of a chunk that begin with a keyword.  A line of the stream may come in several
chunks, though, and then its first piece may end within the keyword, its other pieces are printed, and a piece may begin
with a keyword where the line does not.  What comes out is the stream with the lines emptied exactly if no piece is
taken for something else than its line (`chunkIndependent_iff`).
-/
namespace Scrapcode
namespace StderrFilter

open ByteText (Str)
open TextPieces (linePieces mapLines)

/-- `(?:ERROR|DETAIL|CONTEXT):`. -/
def keywords : List Str := ["ERROR:".toList, "DETAIL:".toList, "CONTEXT:".toList]

def startsWithKeyword (s : Str) : Bool := keywords.any (fun k => k.isPrefixOf s)

/-- Where the scan is: at the beginning of a line, within one, or in what is matched by `.*`. -/
inductive Place where
  | bol
  | within
  | matched
deriving DecidableEq, Repr

/-- `s/^(?:ERROR|DETAIL|CONTEXT):.*$//mg`, from a place on. -/
def substitute : Place → Str → Str
  | _, []             => []
  | .bol, c :: cs     =>
    if startsWithKeyword (c :: cs) = true then substitute .matched cs
    else c :: substitute (if c = '\n' then .bol else .within) cs
  | .within, c :: cs  => c :: substitute (if c = '\n' then .bol else .within) cs
  | .matched, c :: cs => if c = '\n' then c :: substitute .bol cs else substitute .matched cs

/-- One call, with what was printed on `STDERR` before and after, and its value. -/
def filterStderr (stderr chunk : Str) (inputAvail : Bool) : Str × Bool :=
  if inputAvail = true then (stderr ++ substitute .bol chunk, true) else (stderr, false)

/-- The calls for the chunks of a stream. -/
def filtered (chunks : List Str) : Str := chunks.foldl (fun stderr chunk => (filterStderr stderr chunk true).1) []

/-! ## What is to come out -/

def emptied (line : Str) : Str := if startsWithKeyword line = true then [] else line

/-- **Two ways to split a stream** come out the same, as the stream with the lines emptied that start with a keyword. -/
structure ChunkIndependent (chunks₁ chunks₂ : List Str) : Prop where
  same     : filtered chunks₁ = filtered chunks₂
  filtered : filtered chunks₁ = mapLines '\n' emptied chunks₁.flatten

/-- Of each line, all the pieces that the chunks have of it start with a keyword, or none does, as the line does. -/
def PiecesAgree (chunks : List Str) : Prop :=
  ∀ ps ∈ linePieces '\n' chunks, ∀ p ∈ ps, p ≠ [] → startsWithKeyword p = startsWithKeyword ps.flatten

instance (chunks : List Str) : Decidable (PiecesAgree chunks) :=
  inferInstanceAs (Decidable (∀ ps ∈ linePieces '\n' chunks, ∀ p ∈ ps, p ≠ [] →
    startsWithKeyword p = startsWithKeyword ps.flatten))

variable {s l : Str} {ps ls : List Str} {chunks chunks₁ chunks₂ : List Str}

/-! ## One chunk -/

theorem startsWithKeyword_iff : startsWithKeyword s = true ↔ ∃ k ∈ keywords, k <+: s := by
  unfold startsWithKeyword
  rw [List.any_eq_true]
  exact exists_congr (fun k => and_congr_right (fun _ => List.isPrefixOf_iff_prefix))

theorem prefix_of_prefix_append {k : Str} (hk : '\n' ∉ k) (l t : Str) (h : k <+: l ++ '\n' :: t) : k <+: l := by
  induction l generalizing k with
  | nil         =>
    rcases List.prefix_cons_iff.1 h with rfl | ⟨k', rfl, -⟩
    · exact List.nil_prefix
    · exact absurd List.mem_cons_self hk
  | cons c l ih =>
    rcases List.prefix_cons_iff.1 h with rfl | ⟨k', rfl, hk'⟩
    · exact List.nil_prefix
    · exact List.cons_prefix_cons.2 ⟨rfl, ih (fun hmem => hk (List.mem_cons_of_mem c hmem)) hk'⟩

theorem startsWithKeyword_append (l t : Str) : startsWithKeyword (l ++ '\n' :: t) = startsWithKeyword l := by
  have hkeywords : ∀ k ∈ keywords, '\n' ∉ k := by decide
  rw [Bool.eq_iff_iff, startsWithKeyword_iff, startsWithKeyword_iff]
  refine exists_congr (fun k => and_congr_right (fun hk => ?_))
  exact ⟨prefix_of_prefix_append (hkeywords k hk) l t, fun h => h.trans (List.prefix_append _ _)⟩

/-- **Whether a text starts with a keyword** is seen in its first line. -/
theorem startsWithKeyword_splitOn (h : s.splitOn '\n' = l :: ls) : startsWithKeyword s = startsWithKeyword l := by
  have hs : ['\n'].intercalate (s.splitOn '\n') = s := List.intercalate_splitOn '\n'
  rw [h] at hs
  cases ls with
  | nil       => rw [← hs, List.intercalate_singleton]
  | cons m ls =>
    rw [← hs, List.intercalate_cons_cons, List.append_assoc, List.singleton_append, startsWithKeyword_append]

theorem splitOn_cons_newline (s : Str) : ('\n' :: s).splitOn '\n' = [] :: s.splitOn '\n' := by
  rw [List.splitOn_cons_eq_if_modifyHead, if_pos (beq_self_eq_true _)]

theorem splitOn_cons_of_ne {c : Char} (hc : c ≠ '\n') (h : s.splitOn '\n' = l :: ls) :
    (c :: s).splitOn '\n' = (c :: l) :: ls := by
  rw [List.splitOn_cons_eq_if_modifyHead, if_neg (mt beq_iff_eq.1 hc), h, List.modifyHead_cons]

theorem intercalate_cons_cons_of_ne {c : Char} (l : Str) (ls : List Str) :
    ['\n'].intercalate ((c :: l) :: ls) = c :: ['\n'].intercalate (l :: ls) :=
  TextPieces.intercalate_append_cons ['\n'] [c] l ls

/-- From any place, the rest of the line is printed or not, and the later lines are emptied where they should be. -/
def expected (place : Place) (l : Str) (ls : List Str) : Str :=
  ['\n'].intercalate ((match place with
    | .bol     => emptied l
    | .within  => l
    | .matched => []) :: ls.map emptied)

theorem substitute_spec (place : Place) (s l : Str) (ls : List Str) (h : s.splitOn '\n' = l :: ls) :
    substitute place s = expected place l ls := by
  induction s generalizing place l ls with
  | nil         =>
    obtain ⟨rfl, rfl⟩ := List.cons.inj h
    cases place <;> rfl
  | cons c s ih =>
    obtain ⟨m, ms, hsplit⟩ := List.exists_cons_of_ne_nil (List.splitOn_ne_nil '\n' s)
    by_cases hc : c = '\n'
    · subst hc
      rw [splitOn_cons_newline, hsplit] at h
      obtain ⟨rfl, rfl⟩ := List.cons.inj h
      have hnext : '\n' :: substitute .bol s = ['\n'].intercalate ([] :: (m :: ms).map emptied) := by
        rw [ih .bol m ms hsplit, List.map_cons, List.intercalate_cons_cons]
        rfl
      cases place with
      | bol     => exact hnext
      | within  => exact hnext
      | matched => exact hnext
    · rw [splitOn_cons_of_ne hc hsplit] at h
      obtain ⟨rfl, rfl⟩ := List.cons.inj h
      have hwithin : c :: substitute .within s = ['\n'].intercalate ((c :: m) :: ms.map emptied) := by
        rw [ih .within m ms hsplit, expected, intercalate_cons_cons_of_ne]
      cases place with
      | bol     =>
        have hstart : startsWithKeyword (c :: s) = startsWithKeyword (c :: m) :=
          startsWithKeyword_splitOn (splitOn_cons_of_ne hc hsplit)
        unfold substitute expected emptied
        rw [hstart, if_neg hc]
        split_ifs
        · exact ih .matched m ms hsplit
        · exact hwithin
      | within  =>
        unfold substitute
        rw [if_neg hc, hwithin]
        rfl
      | matched =>
        unfold substitute
        rw [if_neg hc]
        exact ih .matched m ms hsplit

/-- **The substitution empties the lines** of a chunk that start with a keyword. -/
theorem substitute_eq (s : Str) : substitute .bol s = mapLines '\n' emptied s := by
  obtain ⟨l, ls, h⟩ := List.exists_cons_of_ne_nil (List.splitOn_ne_nil '\n' s)
  rw [substitute_spec .bol s l ls h, mapLines, h]
  rfl

/-! ## The stream -/

theorem filtered_eq (chunks : List Str) : filtered chunks = (chunks.map (mapLines '\n' emptied)).flatten := by
  have hfold : ∀ (chunks : List Str) (stderr : Str),
      chunks.foldl (fun stderr chunk => (filterStderr stderr chunk true).1) stderr =
        stderr ++ (chunks.map (mapLines '\n' emptied)).flatten := by
    intro chunks
    induction chunks with
    | nil               => exact fun stderr => (List.append_nil stderr).symm
    | cons chunk rest ih =>
      intro stderr
      rw [List.foldl_cons, ih, List.map_cons, List.flatten_cons, ← List.append_assoc, ← substitute_eq]
      rfl
  exact hfold chunks []

theorem notMem_emptied (line : Str) (h : '\n' ∉ line) : '\n' ∉ emptied line := by
  unfold emptied
  split_ifs
  · exact List.not_mem_nil
  · exact h

theorem emptied_eq_self_iff (p : Str) : emptied p = p ↔ (p ≠ [] → startsWithKeyword p = false) := by
  unfold emptied
  split_ifs with h
  · rw [h, eq_comm]
    exact ⟨fun he hne => absurd he hne, fun hne => by_contra (fun he => absurd (hne he) (by decide))⟩
  · exact iff_of_true rfl (fun _ => Bool.eq_false_iff.2 h)

theorem emptied_eq_nil_iff (p : Str) : emptied p = [] ↔ (p ≠ [] → startsWithKeyword p = true) := by
  unfold emptied
  split_ifs with h
  · exact iff_of_true rfl (fun _ => h)
  · exact ⟨fun he hne => absurd he hne, fun hne => by_contra (fun he => h (hne he))⟩

/-- **A line comes out right** if each of its pieces is taken for what the line is. -/
theorem emptied_flatten_iff (ps : List Str) : (ps.map emptied).flatten = emptied ps.flatten ↔
    ∀ p ∈ ps, p ≠ [] → startsWithKeyword p = startsWithKeyword ps.flatten := by
  by_cases h : startsWithKeyword ps.flatten = true
  · rw [h, emptied, if_pos h, List.flatten_eq_nil_iff, List.forall_mem_map]
    exact forall₂_congr (fun p _ => emptied_eq_nil_iff p)
  · have hkept : (ps.map emptied).flatten = ps.flatten ↔ ∀ p ∈ ps, emptied p = p := by
      have hle : ∀ p, (emptied p).length ≤ p.length := by
        intro p
        unfold emptied
        split_ifs
        · exact Nat.zero_le _
        · exact le_rfl
      have hlen : ∀ p, (emptied p).length = p.length → emptied p = p := by
        intro p hp
        unfold emptied at hp ⊢
        split_ifs at hp ⊢
        · exact (List.length_eq_zero_iff.1 hp.symm).symm
        · rfl
      have hall := TextPieces.flatMap_eq_iff (f := emptied) (g := id) hle hlen ps
      rwa [List.flatMap_id, List.flatMap_def] at hall
    rw [Bool.eq_false_iff.2 h, emptied, if_neg h, hkept]
    exact forall₂_congr (fun p _ => emptied_eq_self_iff p)

theorem filtered_iff (chunks : List Str) :
    filtered chunks = mapLines '\n' emptied chunks.flatten ↔ PiecesAgree chunks := by
  rw [filtered_eq, TextPieces.mapLines_chunks_iff notMem_emptied]
  exact forall₂_congr (fun ps _ => emptied_flatten_iff ps)

/-- **The output does not depend on the chunks**, and is what it should be, exactly where no piece of a line is taken
for something else than its line. -/
theorem chunkIndependent_iff (h : chunks₁.flatten = chunks₂.flatten) :
    ChunkIndependent chunks₁ chunks₂ ↔ PiecesAgree chunks₁ ∧ PiecesAgree chunks₂ := by
  rw [← filtered_iff, ← filtered_iff]
  constructor
  · rintro ⟨hsame, hfiltered⟩
    exact ⟨hfiltered, by rw [← hsame, hfiltered, h]⟩
  · rintro ⟨h₁, h₂⟩
    exact ⟨by rw [h₁, h₂, h], h₁⟩

theorem chunkIndependent_whole_lines :
    ChunkIndependent ["ERROR: a\nb\n".toList] ["ERROR: a\n".toList, "b\n".toList] :=
  (chunkIndependent_iff (by decide)).2 (by decide)

/-- A keyword that comes in two chunks. -/
theorem not_chunkIndependent_cut : ¬ ChunkIndependent ["ERROR: a\n".toList] ["ERR".toList, "OR: a\n".toList] :=
  fun h => absurd h.same (by decide)

end StderrFilter
end Scrapcode
