import Mathlib.Algebra.GroupWithZero.Nat
import Mathlib.Data.List.Rotate
/-!
# RingBuffer — the values last written to a ring

A ring has `n` cells and the index of the next one to be written, which goes back to the first cell only when it is
used.  `window` is what is in the cells, the oldest first: a push drops its first value and appends the new one
(`window_push`), so that after any number of pushes it is the last `n` values of all there ever were (`window_pushes`).
-/
namespace Scrapcode

structure Ring (α : Type) (n : Nat) where
  cells  : List α
  next   : Nat
  length : cells.length = n
  le     : next ≤ n

namespace Ring

variable {α : Type} {n : Nat}

/-- Where the next value goes. -/
def slot (r : Ring α n) : Nat := if r.next = n then 0 else r.next

theorem slot_lt [NeZero n] (r : Ring α n) : r.slot < n := by
  have hle := r.le
  have hpos := Nat.pos_of_neZero n
  unfold slot
  split <;> omega

def push [NeZero n] (r : Ring α n) (x : α) : Ring α n where
  cells  := r.cells.set r.slot x
  next   := r.slot + 1
  length := List.length_set.trans r.length
  le     := r.slot_lt

def pushes [NeZero n] (r : Ring α n) (xs : List α) : Ring α n := xs.foldl push r

/-- The values in the cells, the oldest first. -/
def window (r : Ring α n) : List α := r.cells.rotate r.next

theorem window_perm (r : Ring α n) : r.window.Perm r.cells := List.rotate_perm _ _

theorem length_window (r : Ring α n) : r.window.length = n := (List.length_rotate _ _).trans r.length

theorem window_eq_rotate_slot (r : Ring α n) : r.window = r.cells.rotate r.slot := by
  unfold window slot
  split_ifs with h
  · have hnext : r.next = r.cells.length := h.trans r.length.symm
    rw [List.rotate_zero, hnext, List.rotate_length]
  · rfl

variable [NeZero n]

/-- **A push** takes the place of the oldest value. -/
theorem window_push (r : Ring α n) (x : α) : (r.push x).window = r.window.tail ++ [x] := by
  have hlt : r.slot < r.cells.length := r.slot_lt.trans_eq r.length.symm
  have hold : r.window = r.cells[r.slot] :: (r.cells.drop (r.slot + 1) ++ r.cells.take r.slot) := by
    rw [window_eq_rotate_slot, List.rotate_eq_drop_append_take hlt.le, List.drop_eq_getElem_cons hlt, List.cons_append]
  have hnew : (r.push x).window =
      (r.cells.set r.slot x).drop (r.slot + 1) ++ (r.cells.set r.slot x).take (r.slot + 1) :=
    List.rotate_eq_drop_append_take (List.length_set.symm ▸ hlt)
  rw [hnew, hold, List.tail_cons, List.drop_set_of_lt (Nat.lt_succ_self _), List.take_add_one,
    List.take_set_of_le le_rfl, List.getElem?_set_self hlt, Option.toList_some, List.append_assoc]

/-- **After any pushes** the window is what was written last. -/
theorem window_pushes (r : Ring α n) (xs : List α) : (r.pushes xs).window = (r.window ++ xs).drop xs.length := by
  induction xs generalizing r with
  | nil          => exact (List.append_nil _).symm
  | cons x xs ih =>
    have hne : r.window ≠ [] := List.ne_nil_of_length_pos (r.length_window.symm ▸ Nat.pos_of_neZero n)
    obtain ⟨y, ys, hw⟩ := List.exists_cons_of_ne_nil hne
    have hx : (r.push x).window = ys ++ [x] := by rw [window_push, hw, List.tail_cons]
    show ((r.push x).pushes xs).window = _
    rw [ih, hx, hw, List.append_assoc, List.singleton_append, List.length_cons, List.cons_append, List.drop_succ_cons]

theorem pushes_concat (r : Ring α n) (xs : List α) (x : α) : r.pushes (xs ++ [x]) = (r.pushes xs).push x :=
  List.foldl_concat _ _ _ _

end Ring
end Scrapcode
