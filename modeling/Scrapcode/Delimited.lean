import Mathlib.Data.List.Basic
import Mathlib.Data.List.Infix
/-!
# Delimited — texts that are cut at a separator of several characters

`cut` finds the separators from left to right.  Where the first character of the separator is not in the rest of it, as
in a line end or in a delimiter that begins with one, two separators never overlap, and a text that is joined is cut at
each place it was joined at (`cut_append`).  So the pieces come back exactly if none of them has a separator in it
(`cut_join`, `flatMap_cut_eq_iff`).
-/
namespace Scrapcode
namespace Delimited

variable {α : Type}

/-- The first character of the separator is not in the rest of it. -/
def Sharp : List α → Prop
  | []       => False
  | c :: sep => c ∉ sep

variable {sep s t p : List α} {ps : List (List α)}

theorem modifyHead_ne_nil {f : List α → List α} (h : ps ≠ []) : ps.modifyHead f ≠ [] := by
  cases ps with
  | nil       => exact absurd rfl h
  | cons p ps => exact List.cons_ne_nil _ _

theorem modifyHead_append {f : List α → List α} (h : ps ≠ []) (qs : List (List α)) :
    (ps ++ qs).modifyHead f = ps.modifyHead f ++ qs := by
  cases ps with
  | nil       => exact absurd rfl h
  | cons p ps => rfl

theorem append_drop_of_prefix {a : α} (hne : sep ≠ []) (hp : sep <+: a :: s) :
    sep ++ s.drop (sep.length - 1) = a :: s := by
  cases sep with
  | nil        => exact absurd rfl hne
  | cons b sep =>
    obtain ⟨rfl, hs⟩ := List.cons_prefix_cons.1 hp
    rw [List.length_cons, Nat.add_sub_cancel, List.cons_append, List.prefix_iff_eq_append.1 hs]

theorem Sharp.ne_nil (h : Sharp sep) : sep ≠ [] := by
  cases sep with
  | nil      => exact absurd h id
  | cons c s => exact List.cons_ne_nil c s

/-- A separator that begins in a text before another one ends in it. -/
theorem Sharp.prefix_of_append (h : Sharp sep) (hs : s ≠ []) (hp : sep <+: s ++ (sep ++ t)) : sep <+: s := by
  cases sep with
  | nil        => exact absurd h id
  | cons c sep =>
    rcases List.prefix_or_prefix_of_prefix hp (List.prefix_append s _) with hshort | ⟨r, hr⟩
    · exact hshort
    · cases r with
      | nil      => rw [List.append_nil] at hr; exact hr ▸ List.prefix_refl _
      | cons d r =>
        obtain ⟨b, s, rfl⟩ := List.exists_cons_of_ne_nil hs
        rw [← hr] at hp
        rw [List.prefix_append_right_inj, List.cons_append] at hp
        obtain ⟨rfl, -⟩ := List.cons_prefix_cons.1 hp
        cases hr
        exact absurd (List.mem_append_right s List.mem_cons_self) h

theorem intercalate_cons (sep s : List α) : ∀ ps : List (List α), sep.intercalate (s :: ps) = s ++ ps.flatMap (sep ++ ·)
  | []      => by rw [List.intercalate_singleton, List.flatMap_nil, List.append_nil]
  | p :: ps => by
    rw [List.intercalate_cons_cons, intercalate_cons sep p ps, List.flatMap_cons, List.append_assoc, List.append_assoc]

theorem intercalate_append (sep : List α) {qs : List (List α)} (hqs : qs ≠ []) : ∀ ps : List (List α),
    sep.intercalate (ps ++ qs) = ps.flatMap (· ++ sep) ++ sep.intercalate qs
  | []      => rfl
  | p :: ps => by
    rw [List.cons_append, List.intercalate_cons_of_ne_nil (List.append_ne_nil_of_right_ne_nil ps hqs),
      intercalate_append sep hqs ps, List.flatMap_cons, List.append_assoc, List.append_assoc, List.append_assoc]

/-- A separator is in one of two texts, if it has not the character between them. -/
theorem infix_append_cons_iff {d : α} (hd : d ∉ sep) : sep <:+: s ++ d :: t ↔ sep <:+: s ∨ sep <:+: t := by
  constructor
  · intro h
    rcases List.infix_append_iff_ne_nil.1 h with hs | hs | ⟨l, r, -, hr, rfl, -, hpre⟩
    · exact Or.inl hs
    · rcases List.infix_cons_iff.1 hs with hpre | ht
      · cases sep with
        | nil        => exact Or.inr List.nil_infix
        | cons c sep => exact absurd ((List.cons_prefix_cons.1 hpre).1 ▸ List.mem_cons_self) hd
      · exact Or.inr ht
    · obtain ⟨c, r, rfl⟩ := List.exists_cons_of_ne_nil hr
      obtain ⟨rfl, -⟩ := List.cons_prefix_cons.1 hpre
      exact absurd (List.mem_append_right l List.mem_cons_self) hd
  · rintro (h | h)
    · exact h.trans (List.prefix_append s _).isInfix
    · exact h.trans ((List.suffix_cons d t).trans (List.suffix_append s _)).isInfix

/-- A text that begins with a separator does not begin before the first of them. -/
theorem Sharp.infix_append_iff (h : Sharp sep) (hs : ¬ sep <:+: s) (p t : List α) :
    sep ++ p <:+: s ++ (sep ++ t) ↔ sep ++ p <:+: sep ++ t := by
  refine ⟨fun hp => ?_, fun hp => hp.trans (List.suffix_append s _).isInfix⟩
  rcases List.infix_append_iff_ne_nil.1 hp with hin | hin | ⟨l, r, hl, -, heq, hsuf, hpre⟩
  · exact absurd ((List.prefix_append sep p).isInfix.trans hin) hs
  · exact hin
  · have hbegins : sep <+: l ++ (sep ++ t) :=
      (List.prefix_append sep p).trans (heq ▸ (List.prefix_append_right_inj l).2 hpre)
    exact absurd ((h.prefix_of_append hl hbegins).isInfix.trans hsuf.isInfix) hs

theorem Sharp.infix_cons_iff (h : Sharp sep) (p t : List α) :
    sep ++ p <:+: sep ++ t ↔ p <+: t ∨ sep ++ p <:+: t := by
  cases sep with
  | nil        => exact absurd h id
  | cons c sep =>
    have hc : c ∉ sep := h
    constructor
    · intro hp
      rcases List.infix_cons_iff.1 hp with hpre | hin
      · exact Or.inl ((List.prefix_append_right_inj (c :: sep)).1 hpre)
      · rcases List.infix_append_iff_ne_nil.1 hin with hin | hin | ⟨l, r, hl, -, heq, hsuf, -⟩
        · exact absurd (hin.subset List.mem_cons_self) hc
        · exact Or.inr hin
        · obtain ⟨d, l, rfl⟩ := List.exists_cons_of_ne_nil hl
          obtain ⟨rfl, -⟩ := List.cons.inj heq
          exact absurd (hsuf.subset List.mem_cons_self) hc
    · rintro (hp | hp)
      · exact ((List.prefix_append_right_inj (c :: sep)).2 hp).isInfix
      · exact hp.trans (List.suffix_append _ t).isInfix

/-! ## Cutting -/

variable [DecidableEq α]

/-- The pieces of a text, when `skip` more characters are of a separator. -/
def cutFrom (sep : List α) : Nat → List α → List (List α)
  | _, []            => [[]]
  | skip + 1, _ :: s => cutFrom sep skip s
  | 0, a :: s        =>
    if sep <+: a :: s then [] :: cutFrom sep (sep.length - 1) s else (cutFrom sep 0 s).modifyHead (a :: ·)

/-- The pieces of a text between the separators. -/
def cut (sep s : List α) : List (List α) := cutFrom sep 0 s

theorem cutFrom_ne_nil (sep : List α) : ∀ (skip : Nat) (s : List α), cutFrom sep skip s ≠ []
  | _, []            => List.cons_ne_nil _ _
  | skip + 1, _ :: s => cutFrom_ne_nil sep skip s
  | 0, a :: s        => by
    rw [cutFrom]
    split
    · exact List.cons_ne_nil _ _
    · exact modifyHead_ne_nil (cutFrom_ne_nil sep 0 s)

theorem cut_ne_nil (sep s : List α) : cut sep s ≠ [] := cutFrom_ne_nil sep 0 s

theorem cutFrom_skip (sep : List α) : ∀ (p s : List α), cutFrom sep p.length (p ++ s) = cutFrom sep 0 s
  | [], _     => rfl
  | _ :: p, s => cutFrom_skip sep p s

/-- **A text without a separator** is one piece. -/
theorem cut_whole : ∀ {s : List α}, ¬ sep <:+: s → cut sep s = [s]
  | [], _     => rfl
  | a :: s, h => by
    have hs : ¬ sep <:+: s := fun hs => h (hs.trans (List.suffix_cons a s).isInfix)
    rw [cut, cutFrom, if_neg (fun hp => h hp.isInfix)]
    exact congrArg (List.modifyHead (a :: ·)) (cut_whole hs)

/-- The first piece begins the text, and is all of it only where there is no separator. -/
theorem cut_head : ∀ (s : List α) {p : List α} {ps : List (List α)}, cut sep s = p :: ps →
    p <+: s ∧ (p = s → sep ≠ [] → ¬ sep <:+: s)
  | [], p, ps, h     => by
    cases h
    exact ⟨List.prefix_refl _, fun _ hne hs => hne (List.infix_nil.1 hs)⟩
  | a :: s, p, ps, h => by
    rw [cut, cutFrom] at h
    split at h
    · cases h
      exact ⟨List.nil_prefix, fun he => nomatch he⟩
    · rename_i hpre
      obtain ⟨q, qs, hq⟩ := List.exists_cons_of_ne_nil (cut_ne_nil sep s)
      obtain ⟨hqs, hno⟩ := cut_head s hq
      rw [cut] at hq
      rw [hq] at h
      cases h
      refine ⟨(List.prefix_cons_inj a).2 hqs, fun he hne hs => ?_⟩
      rcases List.infix_cons_iff.1 hs with hs | hs
      · exact hpre hs
      · exact hno (List.cons.inj he).2 hne hs

/-! ## Texts that are joined -/

/-- **A text that is joined** is cut where it was joined. -/
theorem cutFrom_append (h : Sharp sep) : ∀ (s : List α) (skip : Nat), skip ≤ s.length → ∀ t,
    cutFrom sep skip (s ++ (sep ++ t)) = cutFrom sep skip s ++ cut sep t
  | [], skip, hskip, t     => by
    obtain rfl := Nat.le_zero.1 hskip
    cases sep with
    | nil        => exact absurd h id
    | cons c sep =>
      show cutFrom (c :: sep) 0 (c :: (sep ++ t)) = [] :: cut (c :: sep) t
      rw [cutFrom, if_pos ((List.prefix_cons_inj c).2 (List.prefix_append sep t))]
      exact congrArg _ (cutFrom_skip (c :: sep) sep t)
  | _ :: s, k + 1, hskip, t => cutFrom_append h s k (Nat.le_of_succ_le_succ hskip) t
  | a :: s, 0, _, t        => by
    rw [List.cons_append, cutFrom, cutFrom]
    by_cases hp : sep <+: a :: s
    · have hp' : sep <+: a :: (s ++ (sep ++ t)) := hp.trans (List.prefix_append (a :: s) _)
      have hlen := hp.length_le
      rw [List.length_cons] at hlen
      rw [if_pos hp, if_pos hp', List.cons_append, cutFrom_append h s _ (by omega)]
    · have hp' : ¬ sep <+: a :: (s ++ (sep ++ t)) := fun hp' => hp (h.prefix_of_append (List.cons_ne_nil a s) hp')
      rw [if_neg hp, if_neg hp', cutFrom_append h s 0 (Nat.zero_le _), modifyHead_append (cutFrom_ne_nil sep 0 s)]

theorem cut_append (h : Sharp sep) (s t : List α) : cut sep (s ++ (sep ++ t)) = cut sep s ++ cut sep t :=
  cutFrom_append h s 0 (Nat.zero_le _) t

/-- **To join the pieces is to have the text.** -/
theorem intercalate_cutFrom (hne : sep ≠ []) : ∀ (s : List α) (skip : Nat),
    sep.intercalate (cutFrom sep skip s) = s.drop skip
  | [], _            => by rw [cutFrom, List.intercalate_singleton, List.drop_nil]
  | _ :: s, skip + 1 => intercalate_cutFrom hne s skip
  | a :: s, 0        => by
    rw [cutFrom]
    split
    · rename_i hp
      rw [List.intercalate_cons_of_ne_nil (cutFrom_ne_nil _ _ _), intercalate_cutFrom hne, List.nil_append,
        append_drop_of_prefix hne hp]
      rfl
    · obtain ⟨p, ps, hcut⟩ := List.exists_cons_of_ne_nil (cutFrom_ne_nil sep 0 s)
      have hs := intercalate_cutFrom hne s 0
      rw [hcut] at hs ⊢
      rw [List.modifyHead_cons, List.intercalate_cons_cons_left, hs]
      rfl

theorem intercalate_cut (hne : sep ≠ []) (s : List α) : sep.intercalate (cut sep s) = s := intercalate_cutFrom hne s 0

theorem cut_join (h : Sharp sep) (s : List α) : ∀ ps : List (List α),
    cut sep (s ++ ps.flatMap (sep ++ ·)) = cut sep s ++ ps.flatMap (cut sep)
  | []      => by rw [List.flatMap_nil, List.flatMap_nil, List.append_nil, List.append_nil]
  | p :: ps => by
    rw [List.flatMap_cons, List.flatMap_cons, List.append_assoc, cut_append h, cut_join h p ps]

/-- **Lines that each end with the separator** are cut off one by one. -/
theorem cut_ended (h : Sharp sep) (t : List α) : ∀ {ls : List (List α)}, (∀ l ∈ ls, ¬ sep <:+: l) →
    cut sep (ls.flatMap (· ++ sep) ++ t) = ls ++ cut sep t
  | [], _      => rfl
  | l :: ls, hl => by
    rw [List.forall_mem_cons] at hl
    rw [List.flatMap_cons, List.append_assoc, List.append_assoc, cut_append h, cut_whole hl.1,
      cut_ended h t hl.2]
    rfl

/-- **The pieces come back** exactly if none of them has a separator in it. -/
theorem flatMap_cut_eq_iff (hne : sep ≠ []) (qs : List (List α)) : ∀ ps : List (List α),
    ps.flatMap (cut sep) ++ qs = ps ++ qs ↔ ∀ p ∈ ps, ¬ sep <:+: p
  | []      => iff_of_true rfl (fun _ h => absurd h List.not_mem_nil)
  | p :: ps => by
    rw [List.forall_mem_cons, ← flatMap_cut_eq_iff hne qs ps, List.flatMap_cons, List.append_assoc, List.cons_append]
    constructor
    · intro h
      obtain ⟨p', ps', hcut⟩ := List.exists_cons_of_ne_nil (cut_ne_nil sep p)
      rw [hcut, List.cons_append] at h
      obtain ⟨rfl, -⟩ := List.cons.inj h
      have hno := (cut_head p' hcut).2 rfl hne
      refine ⟨hno, ?_⟩
      rw [cut_whole hno] at hcut
      cases hcut
      exact (List.cons.inj h).2
    · rintro ⟨hno, h⟩
      rw [cut_whole hno, List.singleton_append, h]

/-- **No piece has a separator in it.** -/
theorem not_infix_of_mem_cut (h : Sharp sep) (hp : p ∈ cut sep s) : ¬ sep <:+: p := by
  have hne := h.ne_nil
  obtain ⟨q, qs, hcut⟩ := List.exists_cons_of_ne_nil (cut_ne_nil sep s)
  have hagain : (cut sep s).flatMap (cut sep) = cut sep s := by
    have hs := intercalate_cut hne s
    rw [hcut, intercalate_cons] at hs
    rw [hcut, List.flatMap_cons, ← cut_join h, hs, hcut]
  have hall := flatMap_cut_eq_iff hne [] (cut sep s)
  rw [List.append_nil, List.append_nil] at hall
  exact hall.1 hagain p hp

end Delimited
end Scrapcode
