/-!
# FileBuffer — a file with a position

Writes overwrite from the position on, and fill with zeros what is missing before it.  To write in pieces is to write
the whole (`write_append`); what was written from the start and cut off there is all of the file (`written`).
-/
namespace Scrapcode
namespace FileBuffer

structure Buffer (α : Type) where
  content : List α
  pos     : Nat
deriving DecidableEq, Repr

variable {α : Type}

namespace Buffer

def empty : Buffer α := ⟨[], 0⟩

def seek (n : Nat) (b : Buffer α) : Buffer α := { b with pos := n }

/-- The content up to the position. -/
def front (zero : α) (b : Buffer α) : List α :=
  b.content.take b.pos ++ List.replicate (b.pos - b.content.length) zero

/-- Nothing is done to write nothing. -/
def write (zero : α) (s : List α) (b : Buffer α) : Buffer α :=
  match s with
  | []     => b
  | c :: s => ⟨b.front zero ++ (c :: s) ++ b.content.drop (b.pos + (c :: s).length), b.pos + (c :: s).length⟩

def truncate (b : Buffer α) : Buffer α := { b with content := b.content.take b.pos }

def read (n : Nat) (b : Buffer α) : List α × Buffer α :=
  ((b.content.drop b.pos).take n, { b with pos := b.pos + ((b.content.drop b.pos).take n).length })

variable {zero : α} {b : Buffer α} {s : List α}

@[simp] theorem length_front (zero : α) (b : Buffer α) : (b.front zero).length = b.pos := by
  rw [front, List.length_append, List.length_take, List.length_replicate]
  omega

@[simp] theorem write_nil (zero : α) (b : Buffer α) : b.write zero [] = b := rfl

theorem write_of_ne_nil (h : s ≠ []) (zero : α) (b : Buffer α) :
    b.write zero s = ⟨b.front zero ++ s ++ b.content.drop (b.pos + s.length), b.pos + s.length⟩ := by
  cases s with
  | nil      => exact absurd rfl h
  | cons c s => rfl

@[simp] theorem write_pos (zero : α) (s : List α) (b : Buffer α) : (b.write zero s).pos = b.pos + s.length := by
  cases s <;> rfl

theorem front_write (h : s ≠ []) : (b.write zero s).front zero = b.front zero ++ s := by
  have hlen : (b.front zero ++ s).length = b.pos + s.length := by rw [List.length_append, length_front]
  have hpad : b.pos + s.length - (b.front zero ++ s ++ b.content.drop (b.pos + s.length)).length = 0 := by
    rw [List.length_append, hlen]
    omega
  rw [write_of_ne_nil h, front, List.take_left' hlen, hpad]
  exact List.append_nil _

theorem drop_content_write (h : s ≠ []) (n : Nat) : (b.write zero s).content.drop (b.pos + s.length + n) =
    b.content.drop (b.pos + (s.length + n)) := by
  have hlen : b.pos + s.length = (b.front zero ++ s).length := by rw [List.length_append, length_front]
  rw [write_of_ne_nil h, ← Nat.add_assoc, hlen]
  exact (List.drop_length_add_append n).trans List.drop_drop

/-- **To write in pieces** is to write the whole. -/
theorem write_append (zero : α) (s t : List α) (b : Buffer α) :
    b.write zero (s ++ t) = (b.write zero s).write zero t := by
  by_cases hs : s = []
  · rw [hs, List.nil_append, write_nil]
  by_cases ht : t = []
  · rw [ht, List.append_nil, write_nil]
  rw [write_of_ne_nil (List.append_ne_nil_of_left_ne_nil hs t), write_of_ne_nil ht, front_write hs, write_pos,
    drop_content_write hs, List.length_append, ← List.append_assoc, Nat.add_assoc]

/-- **What is written from the start and cut off** is all of the content. -/
theorem written (zero : α) (s : List α) (b : Buffer α) : (((b.seek 0).write zero s).truncate).seek 0 = ⟨s, 0⟩ := by
  by_cases hs : s = []
  · rw [hs]; rfl
  · rw [write_of_ne_nil hs]
    simp [truncate, seek, front]

theorem read_eq_self {n : Nat} (h : (b.read n).1 = []) : (b.read n).2 = b := by
  show (⟨b.content, b.pos + (b.read n).1.length⟩ : Buffer α) = b
  rw [h]; rfl

theorem read_pos (n : Nat) (b : Buffer α) : (b.read n).2.pos = b.pos + (b.read n).1.length := rfl

theorem read_pos_le {n : Nat} (h : b.pos ≤ b.content.length) : (b.read n).2.pos ≤ b.content.length := by
  have hlen : (b.read n).1.length ≤ b.content.length - b.pos := by
    rw [read, List.length_take, List.length_drop]
    exact Nat.min_le_right _ _
  rw [read_pos]
  omega

/-- What was read so far, after one more read. -/
theorem take_read (n : Nat) (b : Buffer α) :
    b.content.take b.pos ++ (b.read n).1 = (b.read n).2.content.take (b.read n).2.pos := by
  show _ = b.content.take (b.pos + ((b.content.drop b.pos).take n).length)
  rw [List.take_add, List.length_take, ← List.take_eq_take_min]
  rfl

/-- **A read delivers nothing** only at the end. -/
theorem length_le_of_read_nil {n : Nat} (hn : 0 < n) (h : (b.read n).1 = []) : b.content.length ≤ b.pos := by
  rcases List.take_eq_nil_iff.1 h with h0 | hd
  · exact absurd h0 (Nat.ne_of_gt hn)
  · exact List.drop_eq_nil_iff.1 hd

end Buffer

end FileBuffer
end Scrapcode
