import Mathlib.Data.List.Basic
/-!
# TextPieces — texts that are rewritten piece by piece

A text comes in chunks, and a chunk need not end where a line does.  `linePieces` are the lines of the text, each as the
pieces that the chunks have of it.  To rewrite the lines of each chunk is to rewrite those of the text exactly if each
line comes out the same as its pieces do (`mapLines_chunks_iff`).
-/
namespace Scrapcode
namespace TextPieces

/-- **Two ways to write the pieces one by one**, one of them never longer than the other, make the same of a text only
where they agree on each piece. -/
theorem flatMap_eq_iff {α β : Type} {f g : α → List β} (hle : ∀ a, (f a).length ≤ (g a).length)
    (heq : ∀ a, (f a).length = (g a).length → f a = g a) (as : List α) :
    as.flatMap f = as.flatMap g ↔ ∀ a ∈ as, f a = g a := by
  have hlen : ∀ as : List α, (as.flatMap f).length ≤ (as.flatMap g).length := by
    intro as
    induction as with
    | nil          => exact Nat.le_refl _
    | cons a as ih =>
      rw [List.flatMap_cons, List.flatMap_cons, List.length_append, List.length_append]
      exact Nat.add_le_add (hle a) ih
  constructor
  · intro h
    induction as with
    | nil          => exact fun a ha => absurd ha List.not_mem_nil
    | cons a as ih =>
      rw [List.flatMap_cons, List.flatMap_cons] at h
      have htotal := congrArg List.length h
      rw [List.length_append, List.length_append] at htotal
      have hfirst : f a = g a := heq a (by have := hle a; have := hlen as; omega)
      rw [hfirst] at h
      exact List.forall_mem_cons.2 ⟨hfirst, ih (List.append_cancel_left h)⟩
  · intro h
    induction as with
    | nil          => rfl
    | cons a as ih =>
      have hrest := ih (fun x hx => h x (List.mem_cons_of_mem a hx))
      rw [List.flatMap_cons, List.flatMap_cons, h a List.mem_cons_self, hrest]

/-! ## Lines -/

variable {α : Type}

/-- The lines of a chunk, the last of which goes on in the first of the lines that come later. -/
def joinPieces : List (List α) → List (List (List α)) → List (List (List α))
  | [], later      => later
  | [p], later     => later.modifyHead (p :: ·)
  | p :: ps, later => [p] :: joinPieces ps later

/-- What is made of each line from its pieces. -/
def rewritten (f : List α → List α) (lines : List (List (List α))) : List (List α) :=
  lines.map (fun ps => (ps.map f).flatten)

variable {sep : α} {f : List α → List α} {p : List α} {ps : List (List α)} {later : List (List (List α))}
  {cs : List (List α)}

theorem joinPieces_ne_nil (ps : List (List α)) (h : later ≠ []) : joinPieces ps later ≠ [] := by
  induction ps with
  | nil          => exact h
  | cons p ps ih =>
    cases ps with
    | nil       =>
      obtain ⟨l, ls, rfl⟩ := List.exists_cons_of_ne_nil h
      exact List.cons_ne_nil _ _
    | cons q ps => exact List.cons_ne_nil _ _

/-- Each piece is one of the chunk or a later one. -/
theorem mem_joinPieces {line : List (List α)} (h : line ∈ joinPieces ps later) (hp : p ∈ line) :
    p ∈ ps ∨ ∃ l ∈ later, p ∈ l := by
  induction ps with
  | nil          => exact Or.inr ⟨line, h, hp⟩
  | cons q ps ih =>
    cases ps with
    | nil       =>
      cases later with
      | nil       => exact absurd h List.not_mem_nil
      | cons l ls =>
        rcases List.mem_cons.1 h with rfl | h
        · rcases List.mem_cons.1 hp with rfl | hp
          · exact Or.inl List.mem_cons_self
          · exact Or.inr ⟨l, List.mem_cons_self, hp⟩
        · exact Or.inr ⟨line, List.mem_cons_of_mem l h, hp⟩
    | cons r ps =>
      rcases List.mem_cons.1 h with rfl | h
      · exact Or.inl (List.mem_singleton.1 hp ▸ List.mem_cons_self)
      · exact (ih h).imp_left (List.mem_cons_of_mem q)

theorem intercalate_append_cons (sep s t : List α) (ls : List (List α)) :
    sep.intercalate ((s ++ t) :: ls) = s ++ sep.intercalate (t :: ls) := by
  cases ls with
  | nil       => rw [List.intercalate_singleton, List.intercalate_singleton]
  | cons l ls => rw [List.intercalate_cons_cons, List.intercalate_cons_cons, List.append_assoc, List.append_assoc,
      List.append_assoc]

/-- **Lines that are joined** and ended once more are each ended. -/
theorem intercalate_append_sep (sep : List α) : ∀ {ls : List (List α)}, ls ≠ [] →
    sep.intercalate ls ++ sep = ls.flatMap (· ++ sep)
  | [], h           => absurd rfl h
  | [l], _          => by rw [List.intercalate_singleton, List.flatMap_singleton]
  | l :: m :: ls, _ => by
    rw [List.intercalate_cons_cons, List.append_assoc, intercalate_append_sep sep (List.cons_ne_nil m ls)]
    rfl

theorem intercalate_joinPieces (sep : List α) (f : List α → List α) (hps : ps ≠ []) (h : later ≠ []) :
    sep.intercalate (rewritten f (joinPieces ps later)) =
      sep.intercalate (ps.map f) ++ sep.intercalate (rewritten f later) := by
  induction ps with
  | nil          => exact absurd rfl hps
  | cons p ps ih =>
    cases ps with
    | nil       =>
      obtain ⟨l, ls, rfl⟩ := List.exists_cons_of_ne_nil h
      show sep.intercalate ((f p ++ (l.map f).flatten) :: rewritten f ls) = _
      rw [intercalate_append_cons, List.map_singleton, List.intercalate_singleton]
      rfl
    | cons q ps =>
      have hrest := ih (List.cons_ne_nil q ps)
      have hne : rewritten f (joinPieces (q :: ps) later) ≠ [] := by
        simpa [rewritten] using joinPieces_ne_nil (q :: ps) h
      show sep.intercalate ((f p ++ []) :: rewritten f (joinPieces (q :: ps) later)) = _
      rw [List.append_nil, List.intercalate_cons_of_ne_nil hne, hrest, List.map_cons (l := q :: ps),
        List.intercalate_cons_of_ne_nil (mt List.map_eq_nil_iff.1 (List.cons_ne_nil q ps)), List.append_assoc,
        List.append_assoc, List.append_assoc]

variable [DecidableEq α]

/-- The lines of the text that the chunks make, each in its pieces. -/
def linePieces (sep : α) : List (List α) → List (List (List α))
  | []      => [[]]
  | c :: cs => joinPieces (c.splitOn sep) (linePieces sep cs)

def mapLines (sep : α) (f : List α → List α) (s : List α) : List α := [sep].intercalate ((s.splitOn sep).map f)

theorem linePieces_ne_nil (sep : α) (cs : List (List α)) : linePieces sep cs ≠ [] := by
  induction cs with
  | nil          => exact List.cons_ne_nil _ _
  | cons c cs ih => exact joinPieces_ne_nil _ ih

theorem notMem_of_mem_splitOn {s : List α} (h : p ∈ s.splitOn sep) : sep ∉ p := by
  induction s generalizing p with
  | nil         =>
    rw [List.splitOn_nil, List.mem_singleton] at h
    rw [h]
    exact List.not_mem_nil
  | cons a s ih =>
    obtain ⟨l, ls, hsplit⟩ := List.exists_cons_of_ne_nil (List.splitOn_ne_nil sep s)
    rw [List.splitOn_cons_eq_if_modifyHead, hsplit] at h
    split_ifs at h with ha
    · rcases List.mem_cons.1 h with rfl | h
      · exact List.not_mem_nil
      · exact ih (hsplit ▸ h)
    · rcases List.mem_cons.1 h with rfl | h
      · refine List.not_mem_cons_of_ne_of_not_mem (fun he => ha (beq_iff_eq.2 he.symm)) (ih ?_)
        exact hsplit ▸ List.mem_cons_self
      · exact ih (hsplit ▸ List.mem_cons_of_mem l h)

theorem notMem_of_mem_linePieces (h : ps ∈ linePieces sep cs) (hp : p ∈ ps) : sep ∉ p := by
  induction cs generalizing ps with
  | nil          =>
    rw [List.mem_singleton.1 h] at hp
    exact absurd hp List.not_mem_nil
  | cons c cs ih =>
    rcases mem_joinPieces h hp with hc | ⟨l, hl, hp⟩
    · exact notMem_of_mem_splitOn hc
    · exact ih hl hp

/-- **The lines of the chunks**, one chunk after the other. -/
theorem flatten_mapLines (sep : α) (f : List α → List α) (cs : List (List α)) :
    (cs.map (mapLines sep f)).flatten = [sep].intercalate (rewritten f (linePieces sep cs)) := by
  induction cs with
  | nil          => rfl
  | cons c cs ih =>
    rw [List.map_cons, List.flatten_cons, ih, linePieces,
      intercalate_joinPieces [sep] f (List.splitOn_ne_nil sep c) (linePieces_ne_nil sep cs)]
    rfl

/-- The pieces make the lines of the text. -/
theorem splitOn_flatten (sep : α) (cs : List (List α)) :
    cs.flatten.splitOn sep = (linePieces sep cs).map List.flatten := by
  have hself : mapLines sep id = id := funext fun s => by
    rw [mapLines, List.map_id, List.intercalate_splitOn, id]
  have htext := flatten_mapLines sep id cs
  rw [hself, List.map_id] at htext
  rw [htext, rewritten, List.splitOn_intercalate]
  · exact List.map_congr_left (fun ps _ => congrArg List.flatten (List.map_id ps))
  · intro line hline hsep
    obtain ⟨ps, hps, rfl⟩ := List.mem_map.1 hline
    rw [List.map_id] at hsep
    obtain ⟨p, hp, hmem⟩ := List.mem_flatten.1 hsep
    exact notMem_of_mem_linePieces hps hp hmem
  · exact mt List.map_eq_nil_iff.1 (linePieces_ne_nil sep cs)

theorem intercalate_inj {ls ms : List (List α)} (hl : ∀ l ∈ ls, sep ∉ l) (hm : ∀ l ∈ ms, sep ∉ l) (hls : ls ≠ [])
    (hms : ms ≠ []) : [sep].intercalate ls = [sep].intercalate ms ↔ ls = ms := by
  refine ⟨fun h => ?_, congrArg _⟩
  rw [← List.splitOn_intercalate sep hl hls, h, List.splitOn_intercalate sep hm hms]

/-- **To rewrite the lines of each chunk** is to rewrite those of the text where each line comes out as its pieces
do. -/
theorem mapLines_chunks_iff (hf : ∀ s, sep ∉ s → sep ∉ f s) (cs : List (List α)) :
    (cs.map (mapLines sep f)).flatten = mapLines sep f cs.flatten ↔
      ∀ ps ∈ linePieces sep cs, (ps.map f).flatten = f ps.flatten := by
  have hline : ∀ ps ∈ linePieces sep cs, sep ∉ ps.flatten := by
    intro ps hps hsep
    obtain ⟨p, hp, hmem⟩ := List.mem_flatten.1 hsep
    exact notMem_of_mem_linePieces hps hp hmem
  rw [flatten_mapLines, mapLines, splitOn_flatten, List.map_map, intercalate_inj]
  · exact List.map_inj_left
  · intro l hl hsep
    obtain ⟨ps, hps, rfl⟩ := List.mem_map.1 hl
    obtain ⟨q, hq, hmem⟩ := List.mem_flatten.1 hsep
    obtain ⟨p, hp, rfl⟩ := List.mem_map.1 hq
    exact hf p (notMem_of_mem_linePieces hps hp) hmem
  · intro l hl
    obtain ⟨ps, hps, rfl⟩ := List.mem_map.1 hl
    exact hf _ (hline ps hps)
  · exact mt List.map_eq_nil_iff.1 (linePieces_ne_nil sep cs)
  · exact mt List.map_eq_nil_iff.1 (linePieces_ne_nil sep cs)

end TextPieces
end Scrapcode
