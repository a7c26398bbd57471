import Mathlib.Logic.Function.Basic
import Scrapcode.Runs
import Scrapcode.Linked
/-!
# GuardChain — guards on the stack, chained through a global pointer

`set_guard` pushes a guard of some live frame on the chain at `guard_ptr`, `clear_guard` pops it, and both assert that
they are used in that order.  A frame that returns or is jumped over with a guard set leaves the chain running through
memory that is no longer its own: later frames put their guards there, and anything else may be written there.

`Unmasked` is what `check_guard` rests on: without a leak the chain is exactly the guards that are set, and after a
leak `guard_ptr` is never null again.  For the second part one follows the guards that were set before the leaked one
(`Below`): nothing that can be cleared leads to them any more, and only they lead to null.
-/
namespace Scrapcode
namespace Guards

variable {α : Type} [DecidableEq α]

/-! ## The code -/

structure Guard (α : Type) where
  guardSet : Int8
  previous : Option α
deriving DecidableEq

/-- The memory holds what was last written at each address, live or not. -/
structure Stack (α : Type) where
  guardPtr : Option α
  mem      : α → Guard α
  frames   : List (List α)
  setOrder : List α
  leaked   : Bool

def Stack.live (s : Stack α) : List α := s.frames.flatten

def setGuard (s : Stack α) (g : α) : Option (Stack α) :=
  if (s.mem g).guardSet = 0 then
    some { s with
      guardPtr := some g
      mem      := Function.update s.mem g { guardSet := 1, previous := s.guardPtr }
      setOrder := g :: s.setOrder }
  else none

def clearGuard (s : Stack α) (g : α) : Option (Stack α) :=
  if (s.mem g).guardSet ≠ 0 ∧ s.guardPtr = some g then
    some { s with
      guardPtr := (s.mem g).previous
      mem      := Function.update s.mem g { s.mem g with guardSet := 0 }
      setOrder := s.setOrder.erase g }
  else none

/-- Null is "guard ok". -/
def checkGuard (s : Stack α) : Bool := s.guardPtr.isNone

inductive Event (α : Type) where
  | enter
  | declare (a : α)
  | setGuard (g : α)
  | clearGuard (g : α)
  | exit (n : Nat)
  | overwrite (a : α) (g : Guard α)

def step (s : Stack α) : Event α → Option (Stack α)
  | .enter         => some { s with frames := [] :: s.frames }
  | .declare a     =>
    match s.frames with
    | []      => none
    | f :: fs =>
      if a ∈ s.live then none
      else some { s with
        mem    := Function.update s.mem a { guardSet := 0, previous := none }
        frames := (a :: f) :: fs }
  | .setGuard g    => if g ∈ s.live then setGuard s g else none
  | .clearGuard g  => if g ∈ s.live then clearGuard s g else none
  | .exit n        =>
    if n ≤ s.frames.length then
      some { s with
        frames := s.frames.drop n
        leaked := s.leaked || (s.frames.take n).flatten.any (fun g => (s.mem g).guardSet != 0) }
    else none
  | .overwrite a g => if a ∈ s.live then none else some { s with mem := Function.update s.mem a g }

def Stack.start (mem : α → Guard α) : Stack α :=
  { guardPtr := none, mem := mem, frames := [], setOrder := [], leaked := false }

/-! ## The law -/

/-- The link of a live guard. -/
def link (mem : α → Guard α) (live : List α) (a : α) : Option (Option α) :=
  if a ∈ live then some (mem a).previous else none

/-- The chain at `p` is the guards that are set, the last set first, and ends in null. -/
structure Exact (p : Option α) (mem : α → Guard α) (live order : List α) : Prop where
  chain : Linked (link mem live) p order
  set   : ∀ g, g ∈ order ↔ g ∈ live ∧ (mem g).guardSet ≠ 0

def Unmasked (s : Stack α) : Prop :=
  (s.leaked = false → Exact s.guardPtr s.mem s.live s.setOrder) ∧
  (s.leaked = true → s.guardPtr ≠ none ∧ checkGuard s = false)

/-! ## The invariant -/

/-- The guards `B` were set before a leaked one: no other guard that is set leads to them or to null, and neither does
`guard_ptr`. -/
structure Below (p : Option α) (mem : α → Guard α) (live : List α) (B : α → Prop) : Prop where
  alive : ∀ b, B b → b ∈ live ∧ (mem b).guardSet ≠ 0
  ptr   : ∃ q, p = some q ∧ ¬ B q
  prev  : ∀ g, g ∈ live → (mem g).guardSet ≠ 0 → ¬ B g → ∃ q, (mem g).previous = some q ∧ ¬ B q

/-- One of the two, by whether a guard has leaked. -/
def Chained (leaked : Bool) (p : Option α) (mem : α → Guard α) (live order : List α) : Prop :=
  match leaked with
  | false => Exact p mem live order
  | true  => ∃ B, Below p mem live B

structure Sound (s : Stack α) : Prop where
  nodup   : s.live.Nodup
  chained : Chained s.leaked s.guardPtr s.mem s.live s.setOrder

theorem sound_start (mem : α → Guard α) : Sound (Stack.start mem) :=
  ⟨List.nodup_nil, rfl, fun _ => ⟨(nomatch ·), fun h => (nomatch h.1)⟩⟩

theorem Sound.unmasked {s : Stack α} (h : Sound s) : Unmasked s := by
  have hc := h.chained
  unfold Chained at hc
  refine ⟨fun hl => ?_, fun hl => ?_⟩
  · rw [hl] at hc; exact hc
  · rw [hl] at hc
    obtain ⟨B, hB⟩ := hc
    obtain ⟨q, hq, -⟩ := hB.ptr
    exact ⟨by rw [hq]; exact (nomatch ·), by unfold checkGuard; rw [hq]; rfl⟩

/-! ## What keeps the chain -/

variable {s s' : Stack α} {a g : α} {p : Option α} {mem mem' : α → Guard α} {live live' order : List α}
  {B : α → Prop}

/-- The same chain, over guards that are as live and as set as before. -/
theorem Exact.congr (h : Exact p mem live order) (hm : ∀ x ∈ order, mem' x = mem x ∧ x ∈ live')
    (hnew : ∀ x, x ∈ live' → (mem' x).guardSet ≠ 0 → x ∈ order) : Exact p mem' live' order where
  chain := h.chain.congr (fun x hx => by
    unfold link
    rw [if_pos (hm x hx).2, if_pos ((h.set x).1 hx).1, (hm x hx).1])
  set   := fun x =>
    ⟨fun hx => ⟨(hm x hx).2, by rw [(hm x hx).1]; exact ((h.set x).1 hx).2⟩, fun hx => hnew x hx.1 hx.2⟩

omit [DecidableEq α] in
/-- The same guards below a leak, over guards that are as live and as set as before. -/
theorem Below.congr (h : Below p mem live B) (hB : ∀ b, B b → mem' b = mem b ∧ b ∈ live')
    (hold : ∀ x, x ∈ live' → (mem' x).guardSet ≠ 0 → mem' x = mem x ∧ x ∈ live) : Below p mem' live' B where
  alive := fun b hb => ⟨(hB b hb).2, by rw [(hB b hb).1]; exact (h.alive b hb).2⟩
  ptr   := h.ptr
  prev  := fun x hx hset hxB => by
    obtain ⟨hm, hl⟩ := hold x hx hset
    rw [hm] at hset ⊢
    exact h.prev x hl hset hxB

/-- **A write to memory that is not a live guard**, or becomes one that is not set. -/
theorem Chained.write {leaked : Bool} (h : Chained leaked p mem live order) (ha : a ∉ live)
    (hm : ∀ x, x ≠ a → mem' x = mem x) (hlive : ∀ x, x ∈ live → x ∈ live')
    (hnew : ∀ x, x ∈ live' → (mem' x).guardSet ≠ 0 → x ∈ live) : Chained leaked p mem' live' order := by
  have hsame : ∀ x, x ∈ live → mem' x = mem x := fun x hx => hm x (fun he => ha (he ▸ hx))
  cases leaked with
  | false =>
    have hex : Exact p mem live order := h
    refine hex.congr (fun x hx => ?_) (fun x hx hset => ?_)
    · have hxl := ((hex.set x).1 hx).1
      exact ⟨hsame x hxl, hlive x hxl⟩
    · have hxl := hnew x hx hset
      rw [hsame x hxl] at hset
      exact (hex.set x).2 ⟨hxl, hset⟩
  | true =>
    obtain ⟨B, hB⟩ := h
    refine ⟨B, hB.congr (fun b hb => ?_) (fun x hx hset => ?_)⟩
    · have hbl := (hB.alive b hb).1
      exact ⟨hsame b hbl, hlive b hbl⟩
    · have hxl := hnew x hx hset
      exact ⟨hsame x hxl, hxl⟩

/-! ## `set_guard` and `clear_guard` -/

theorem Exact.setGuard (h : Exact p mem live order) (hg : g ∈ live) (h0 : (mem g).guardSet = 0) :
    Exact (some g) (Function.update mem g { guardSet := 1, previous := p }) live (g :: order) := by
  have hne : ∀ x ∈ order, x ≠ g := fun x hx he => ((h.set x).1 hx).2 (he ▸ h0)
  constructor
  · refine ⟨rfl, p, ?_, h.chain.congr (fun x hx => ?_)⟩
    · unfold link; rw [if_pos hg, Function.update_self]
    · unfold link; rw [Function.update_of_ne (hne x hx)]
  · intro x
    by_cases hx : x = g
    · subst hx
      rw [Function.update_self]
      have h1 : (1 : Int8) ≠ 0 := by decide
      exact ⟨fun _ => ⟨hg, h1⟩, fun _ => List.mem_cons_self⟩
    · rw [List.mem_cons, h.set x, Function.update_of_ne hx]
      exact ⟨fun h => h.resolve_left hx, Or.inr⟩

/-- A guard that is set after a leak leads to whatever `guard_ptr` was, and that was not below. -/
theorem Below.setGuard (h : Below p mem live B) (h0 : (mem g).guardSet = 0) :
    Below (some g) (Function.update mem g { guardSet := 1, previous := p }) live B := by
  have hgB : ¬ B g := fun hb => (h.alive g hb).2 h0
  refine ⟨fun b hb => ?_, ⟨g, rfl, hgB⟩, fun x hx hset hxB => ?_⟩
  · have hbg : b ≠ g := fun he => hgB (he ▸ hb)
    rw [Function.update_of_ne hbg]; exact h.alive b hb
  · by_cases hxg : x = g
    · subst hxg; rw [Function.update_self]; exact h.ptr
    · rw [Function.update_of_ne hxg] at hset ⊢; exact h.prev x hx hset hxB

theorem Exact.clearGuard (h : Exact (some g) mem live order) :
    Exact (mem g).previous (Function.update mem g { mem g with guardSet := 0 }) live (order.erase g) := by
  cases order with
  | nil => cases h.chain
  | cons x rest =>
    have hnodup := h.chain.nodup
    obtain ⟨hx, q, hq, hrest⟩ := h.chain
    cases hx
    have hgl := ((h.set g).1 List.mem_cons_self).1
    unfold link at hq
    rw [if_pos hgl] at hq
    cases hq
    have hne : ∀ y ∈ rest, y ≠ g := fun y hy he => (List.nodup_cons.1 hnodup).1 (he ▸ hy)
    rw [List.erase_cons_head]
    constructor
    · refine hrest.congr (fun y hy => ?_)
      unfold link; rw [Function.update_of_ne (hne y hy)]
    · intro y
      by_cases hy : y = g
      · subst hy
        rw [Function.update_self]
        exact ⟨fun hm => absurd rfl (hne y hm), fun hm => absurd rfl hm.2⟩
      · rw [Function.update_of_ne hy, ← h.set y, List.mem_cons]
        exact ⟨Or.inr, fun hm => hm.resolve_left hy⟩

/-- The guard that is cleared is not below a leak, so neither is the one it leads to. -/
theorem Below.clearGuard (h : Below (some g) mem live B) (hg : g ∈ live) (hset : (mem g).guardSet ≠ 0) :
    Below (mem g).previous (Function.update mem g { mem g with guardSet := 0 }) live B := by
  obtain ⟨q, hq, hgB⟩ := h.ptr
  cases hq
  refine ⟨fun b hb => ?_, h.prev g hg hset hgB, fun x hx hset' hxB => ?_⟩
  · have hbg : b ≠ g := fun he => hgB (he ▸ hb)
    rw [Function.update_of_ne hbg]; exact h.alive b hb
  · by_cases hxg : x = g
    · subst hxg; rw [Function.update_self] at hset'; exact absurd rfl hset'
    · rw [Function.update_of_ne hxg] at hset' ⊢; exact h.prev x hx hset' hxB

/-! ## Exits -/

/-- **Frames whose guards are all clear** take nothing of the chain with them. -/
theorem Exact.exit {dead : List α} (h : Exact p mem (dead ++ live) order) (hdead : ∀ x ∈ dead, (mem x).guardSet = 0) :
    Exact p mem live order :=
  h.congr (fun x hx => by
    obtain ⟨hxl, hset⟩ := (h.set x).1 hx
    rcases List.mem_append.1 hxl with hxd | hxl
    · exact absurd (hdead x hxd) hset
    · exact ⟨rfl, hxl⟩) (fun x hx hset => (h.set x).2 ⟨List.mem_append_right _ hx, hset⟩)

/-- **A leak**: what was set before the leaked guard is below it from now on. -/
theorem Exact.leak {dead : List α} {l : α} (h : Exact p mem (dead ++ live) order) (hnodup : (dead ++ live).Nodup)
    (hl : l ∈ dead) (hset : (mem l).guardSet ≠ 0) : ∃ B, Below p mem live B := by
  obtain ⟨o₁, o₂, rfl⟩ := List.append_of_mem ((h.set l).2 ⟨List.mem_append_left _ hl, hset⟩)
  have hchain := h.chain.nodup
  have hdisjoint : ∀ x, x ∈ o₁ ++ [l] → x ∉ o₂ := by
    rw [List.append_cons] at hchain
    exact fun x hx hx₂ => (List.nodup_append.1 hchain).2.2 x hx x hx₂ rfl
  have hllive : l ∉ live := fun hx => (List.nodup_append.1 hnodup).2.2 l hl l hx rfl
  -- along the chain as far as `l` no link is null or leads below
  have hprev : ∀ (o : List α) (q : Option α), Linked (link mem (dead ++ live)) q (o ++ l :: o₂) →
      (∀ x ∈ o ++ [l], x ∉ o₂) → (∃ r, q = some r ∧ r ∉ o₂) ∧
        ∀ x ∈ o, ∃ r, (mem x).previous = some r ∧ r ∉ o₂ := by
    intro o
    induction o with
    | nil => exact fun q hq hd => ⟨⟨l, hq.1, hd l (by simp)⟩, fun _ hx => (nomatch hx)⟩
    | cons y o ih =>
      rintro q ⟨rfl, r, hr, hlink⟩ hd
      obtain ⟨hnext, hrest⟩ := ih r hlink (fun x hx => hd x (by simpa using Or.inr (by simpa using hx)))
      refine ⟨⟨y, rfl, hd y (by simp)⟩, fun x hx => ?_⟩
      rcases List.mem_cons.1 hx with rfl | hx
      · unfold link at hr
        split at hr
        · rw [Option.some.inj hr]; exact hnext
        · cases hr
      · exact hrest x hx
  obtain ⟨⟨r, hr, hro⟩, hlinks⟩ := hprev o₁ p h.chain hdisjoint
  refine ⟨fun b => b ∈ o₂ ∧ b ∈ live, fun b hb => ⟨hb.2, ?_⟩, ⟨r, hr, fun hb => hro hb.1⟩, fun x hx hxset hxB => ?_⟩
  · exact ((h.set b).1 (by simp [hb.1])).2
  · have hxo := (h.set x).2 ⟨List.mem_append_right _ hx, hxset⟩
    rcases List.mem_append.1 hxo with hx₁ | hx₂
    · obtain ⟨q, hq, hqo⟩ := hlinks x hx₁
      exact ⟨q, hq, fun hb => hqo hb.1⟩
    · rcases List.mem_cons.1 hx₂ with rfl | hx₂
      · exact absurd hx hllive
      · exact absurd ⟨hx₂, hx⟩ hxB

omit [DecidableEq α] in
theorem Below.exit {dead : List α} (h : Below p mem (dead ++ live) B) :
    Below p mem live (fun b => B b ∧ b ∈ live) where
  alive := fun b hb => ⟨hb.2, (h.alive b hb.1).2⟩
  ptr   := by
    obtain ⟨q, hq, hqB⟩ := h.ptr
    exact ⟨q, hq, fun hb => hqB hb.1⟩
  prev  := fun x hx hset hxB => by
    obtain ⟨q, hq, hqB⟩ := h.prev x (List.mem_append_right _ hx) hset (fun hb => hxB ⟨hb, hx⟩)
    exact ⟨q, hq, fun hb => hqB hb.1⟩

/-! ## One step -/

section
variable {leaked : Bool}

theorem Chained.setGuard (h : Chained leaked p mem live order) (hg : g ∈ live) (h0 : (mem g).guardSet = 0) :
    Chained leaked (some g) (Function.update mem g { guardSet := 1, previous := p }) live (g :: order) := by
  cases leaked with
  | false => exact Exact.setGuard h hg h0
  | true  => obtain ⟨B, hB⟩ := h; exact ⟨B, hB.setGuard h0⟩

theorem Chained.clearGuard (h : Chained leaked (some g) mem live order) (hg : g ∈ live) (hset : (mem g).guardSet ≠ 0) :
    Chained leaked (mem g).previous (Function.update mem g { mem g with guardSet := 0 }) live (order.erase g) := by
  cases leaked with
  | false => exact Exact.clearGuard h
  | true  => obtain ⟨B, hB⟩ := h; exact ⟨B, hB.clearGuard hg hset⟩

/-- Frames that end leak where one of their guards is set. -/
theorem Chained.exit {dead : List α} (h : Chained leaked p mem (dead ++ live) order) (hnodup : (dead ++ live).Nodup) :
    Chained (leaked || dead.any (fun g => (mem g).guardSet != 0)) p mem live order := by
  cases leaked with
  | true  => obtain ⟨B, hB⟩ := h; exact ⟨_, hB.exit⟩
  | false =>
    rw [Bool.false_or]
    cases hany : dead.any (fun g => (mem g).guardSet != 0) with
    | false =>
      refine Exact.exit h (fun x hx => ?_)
      have := List.any_eq_false.1 hany x hx
      simpa using this
    | true =>
      obtain ⟨l, hl, hset⟩ := List.any_eq_true.1 hany
      exact Exact.leak h hnodup hl (by simpa using hset)

end

/-- **A guard comes into scope**, not set: its frame grows by it. -/
theorem Sound.declare {s : Stack α} (h : Sound s) {f : List α} {fs : List (List α)} (hf : s.frames = f :: fs) {a : α}
    (ha : a ∉ s.live) : Sound { s with
      mem := Function.update s.mem a { guardSet := 0, previous := none }, frames := (a :: f) :: fs } := by
  have hlive : s.live = f ++ fs.flatten := by unfold Stack.live; rw [hf, List.flatten_cons]
  have hlive' : ((a :: f) :: fs).flatten = a :: s.live := by rw [hlive]; rfl
  refine ⟨?_, ?_⟩
  · show ((a :: f) :: fs).flatten.Nodup
    rw [hlive']; exact List.nodup_cons.2 ⟨ha, h.nodup⟩
  · refine h.chained.write ha (fun x hx => Function.update_of_ne hx _ _) (fun x hx => ?_) (fun x hx hset => ?_)
    · show x ∈ ((a :: f) :: fs).flatten
      rw [hlive']; exact List.mem_cons_of_mem a hx
    · have hx' : x ∈ a :: s.live := hlive' ▸ hx
      rcases List.mem_cons.1 hx' with rfl | hx'
      · have hself : Function.update s.mem x { guardSet := 0, previous := none } x = ⟨0, none⟩ :=
          Function.update_self ..
        exact absurd (congrArg Guard.guardSet hself) hset
      · exact hx'

theorem sound_step (s : Stack α) (e : Event α) (s' : Stack α) (h : Sound s) (hs : step s e = some s') : Sound s' := by
  cases e with
  | enter => cases hs; exact ⟨h.nodup, h.chained⟩
  | declare a =>
    simp only [step] at hs
    cases hf : s.frames with
    | nil => rw [hf] at hs; cases hs
    | cons f fs =>
      simp only [hf] at hs
      by_cases ha : a ∈ s.live
      · rw [if_pos ha] at hs; cases hs
      · rw [if_neg ha] at hs
        cases hs
        exact h.declare hf ha
  | setGuard g =>
    simp only [step, Guards.setGuard, Option.ite_none_right_eq_some] at hs
    obtain ⟨hg, h0, hs⟩ := hs
    cases hs
    exact ⟨h.nodup, h.chained.setGuard hg h0⟩
  | clearGuard g =>
    simp only [step, Guards.clearGuard, Option.ite_none_right_eq_some] at hs
    obtain ⟨hg, ⟨hset, hp⟩, hs⟩ := hs
    cases hs
    have hc := h.chained
    rw [hp] at hc
    exact ⟨h.nodup, hc.clearGuard hg hset⟩
  | exit n =>
    simp only [step, Option.ite_none_right_eq_some] at hs
    obtain ⟨-, hs⟩ := hs
    cases hs
    have hlive : s.live = (s.frames.take n).flatten ++ (s.frames.drop n).flatten := by
      rw [← List.flatten_append, List.take_append_drop]; rfl
    have hnodup := h.nodup
    have hc := h.chained
    rw [hlive] at hnodup hc
    exact ⟨(List.nodup_append.1 hnodup).2.1, hc.exit hnodup⟩
  | overwrite a c =>
    simp only [step] at hs
    by_cases ha : a ∈ s.live
    · rw [if_pos ha] at hs; cases hs
    · rw [if_neg ha] at hs
      cases hs
      exact ⟨h.nodup, h.chained.write ha (fun x hx => Function.update_of_ne hx _ _) (fun _ hx => hx) (fun _ hx _ => hx)⟩

/-- **In every run a leaked guard is never masked.** -/
theorem unmasked_always (mem : α → Guard α) (es : List (Event α)) :
    Runs.Always step Unmasked (Stack.start mem) es :=
  Runs.always_of_invariant (fun _ h => h.unmasked) sound_step es (sound_start mem)

/-- `foo` that returns early, and a later frame with a guard in the same place that is set and cleared. -/
example : (Runs.run step (Stack.start (fun _ : Nat => ⟨0, none⟩)) [.enter, .declare 7, .setGuard 7, .exit 1, .enter,
    .declare 7, .setGuard 7, .clearGuard 7, .exit 1]).map (fun s => (s.guardPtr, s.leaked, checkGuard s)) =
    some (some 7, true, false) := by decide

end Guards
end Scrapcode
