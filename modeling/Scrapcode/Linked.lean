/-!
# Linked — chains through a link field

A cell at `a` holds one link: `nxt a` is `none` where there is no cell, `some none` where the link is null.
`Linked nxt p l` says that following the links from `p` visits exactly the cells `l`, in that order, and ends at a
null link.  The list is unique (`Linked.unique`), so a chain that ends visits no cell twice (`Linked.nodup`).

`Leads nxt p l q` is a part of a chain: from `p` over the cells `l` to the link `q`, which may be any.
-/
namespace Scrapcode

variable {α : Type}

def Linked (nxt : α → Option (Option α)) : Option α → List α → Prop
  | p, []     => p = none
  | p, a :: l => p = some a ∧ ∃ q, nxt a = some q ∧ Linked nxt q l

namespace Linked

variable {nxt nxt' : α → Option (Option α)} {p : Option α} {a b : α} {l l' : List α}

theorem head? : ∀ {l : List α}, Linked nxt p l → l.head? = p
  | [], h     => h.symm
  | _ :: _, h => h.1.symm

theorem null_iff (h : Linked nxt p l) : p = none ↔ l = [] := by
  rw [← h.head?, List.head?_eq_none_iff]

theorem unique : ∀ {l l' : List α} {p : Option α}, Linked nxt p l → Linked nxt p l' → l = l'
  | [], l', p, h, h' => by
    have hp : p = none := h
    exact ((h'.null_iff).1 hp).symm
  | a :: l, [], p, h, h' => by rw [h.1] at h'; cases h'
  | a :: l, b :: l', p, ⟨hp, q, hq, h⟩, ⟨hp', q', hq', h'⟩ => by
    rw [hp] at hp'; cases hp'
    rw [hq] at hq'; cases hq'
    rw [unique h h']

theorem drop : ∀ {l₁ : List α} {p : Option α}, Linked nxt p (l₁ ++ a :: l) → Linked nxt (some a) (a :: l)
  | [], _, ⟨_, hq⟩         => ⟨rfl, hq⟩
  | _ :: _, _, ⟨_, _, _, h⟩ => h.drop

/-- **A chain that ends visits no cell twice.** -/
theorem nodup : ∀ {l : List α} {p : Option α}, Linked nxt p l → l.Nodup
  | [], _, _ => List.nodup_nil
  | a :: l, p, h => by
    obtain ⟨hp, q, hq, hl⟩ := h
    refine List.nodup_cons.2 ⟨fun ha => ?_, hl.nodup⟩
    obtain ⟨l₁, l₂, rfl⟩ := List.append_of_mem ha
    -- the chain from `a` would be both the whole list and its own proper part
    have h₁ : Linked nxt (some a) (a :: (l₁ ++ a :: l₂)) := ⟨rfl, q, hq, hl⟩
    have := congrArg List.length (h₁.unique hl.drop)
    simp at this
    omega

theorem congr : ∀ {l : List α} {p : Option α}, Linked nxt p l → (∀ x ∈ l, nxt' x = nxt x) → Linked nxt' p l
  | [], _, h, _ => h
  | a :: l, _, ⟨hp, q, hq, h⟩, hn =>
    ⟨hp, q, (hn a (by simp)).trans hq, h.congr (fun x hx => hn x (by simp [hx]))⟩

theorem cell : ∀ {l : List α} {p : Option α}, Linked nxt p l → ∀ x ∈ l, ∃ q, nxt x = some q
  | a :: l, _, ⟨_, q, hq, h⟩, x, hx => by
    rcases List.mem_cons.1 hx with rfl | hx
    · exact ⟨q, hq⟩
    · exact h.cell x hx

theorem last (h : Linked nxt p (l ++ [a])) : nxt a = some none := by
  obtain ⟨-, q, hq, hnil⟩ := h.drop
  rw [hq, show q = none from hnil]

/-- **Appending a cell**: the last link is set to a cell whose own link is null, and no other link on the way changes. -/
theorem concat : ∀ {l : List α} {p : Option α}, Linked nxt p (l ++ [a]) → (∀ x ∈ l, nxt' x = nxt x) →
    nxt' a = some (some b) → nxt' b = some none → Linked nxt' p (l ++ [a, b])
  | [], _, ⟨hp, _⟩, _, ha, hb => ⟨hp, some b, ha, rfl, none, hb, rfl⟩
  | x :: l, _, ⟨hp, q, hq, h⟩, hn, ha, hb =>
    ⟨hp, q, (hn x (by simp)).trans hq, h.concat (fun y hy => hn y (by simp [hy])) ha hb⟩

end Linked

def Leads (nxt : α → Option (Option α)) : Option α → List α → Option α → Prop
  | p, [], q     => p = q
  | p, a :: l, q => p = some a ∧ ∃ r, nxt a = some r ∧ Leads nxt r l q

namespace Leads

variable {nxt nxt' : α → Option (Option α)} {p q q' : Option α} {a b : α} {l : List α}

theorem congr : ∀ {l : List α} {p : Option α}, Leads nxt p l q → (∀ x ∈ l, nxt' x = nxt x) → Leads nxt' p l q
  | [], _, h, _ => h
  | a :: l, _, ⟨hp, r, hr, h⟩, hn =>
    ⟨hp, r, (hn a (by simp)).trans hr, h.congr (fun x hx => hn x (by simp [hx]))⟩

/-- **The last link of a part** decides where it leads. -/
theorem relink : ∀ {l : List α} {p : Option α}, Leads nxt p (l ++ [a]) q → (∀ x ∈ l, nxt' x = nxt x) →
    nxt' a = some q' → Leads nxt' p (l ++ [a]) q'
  | [], _, ⟨hp, _⟩, _, ha => ⟨hp, q', ha, rfl⟩
  | x :: l, _, ⟨hp, r, hr, h⟩, hn, ha =>
    ⟨hp, r, (hn x (by simp)).trans hr, h.relink (fun y hy => hn y (by simp [hy])) ha⟩

theorem concat : ∀ {l : List α} {p : Option α}, Leads nxt p l (some a) → nxt a = some q → Leads nxt p (l ++ [a]) q
  | [], _, h, ha => ⟨h, q, ha, rfl⟩
  | _ :: _, _, ⟨hp, r, hr, h⟩, ha => ⟨hp, r, hr, h.concat ha⟩

theorem last : ∀ {l : List α} {p : Option α}, Leads nxt p (l ++ [a]) q → nxt a = some q
  | [], _, ⟨_, r, hr, h⟩     => by rw [hr, show r = q from h]
  | _ :: _, _, ⟨_, _, _, h⟩ => h.last

theorem null_iff : ∀ {l : List α} {p : Option α}, Leads nxt p l q → (p = none ↔ l = [] ∧ q = none)
  | [], _, h         => by rw [show _ = q from h]; simp
  | _ :: _, _, ⟨h, _⟩ => by rw [h]; simp

/-- Only the last link of a chain is null. -/
theorem ne_null : ∀ {l : List α} {p : Option α}, Leads nxt p l q → q ≠ none → ∀ x ∈ l, nxt x ≠ some none
  | a :: l, _, ⟨_, r, hr, h⟩, hq, x, hx => by
    rcases List.mem_cons.1 hx with rfl | hx
    · intro hn
      rw [hr] at hn
      exact hq (h.null_iff.1 (Option.some.inj hn)).2
    · exact h.ne_null hq x hx

end Leads
end Scrapcode
