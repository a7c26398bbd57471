import Mathlib.Data.List.Basic
/-!
# ShiftRegisters — serial in, parallel out, behind a latch

A chip with three pins.  When the clock pin rises the register takes in what is at the data pin, and drops its oldest
bit; when the latch pin goes to the level `edge` the outputs take over what is in the register.

Writes that shift in as many bits as the register has leave exactly these bits (`ShiftsIn.register_eq`), and nothing
is seen of them before the latch (`outputs_of_quiet`).  So the two ways to frame them with the latch are not alike:
`latched_after` shows the bits, `latched_before` shows what was in the register before them.
-/
namespace Scrapcode
namespace ShiftRegisters

inductive Pin where
  | data
  | clock
  | latch
deriving DecidableEq, Repr

structure Write where
  pin   : Pin
  level : Bool
deriving DecidableEq, Repr

/-- `n` bits, the oldest first. -/
abbrev Register (n : Nat) := { bits : List Bool // bits.length = n }

def Register.shiftIn {n : Nat} (r : Register n) (b : Bool) : Register n :=
  ⟨(r.1 ++ [b]).drop 1, by rw [List.length_drop, List.length_append, List.length_singleton, r.2, Nat.add_sub_cancel]⟩

structure Chip (n : Nat) where
  data     : Bool
  clock    : Bool
  latch    : Bool
  register : Register n
  outputs  : Register n
deriving DecidableEq

variable {n : Nat}

/-- A level is written to a pin. -/
def Chip.write (edge : Bool) (c : Chip n) (w : Write) : Chip n :=
  match w.pin with
  | .data  => { c with data := w.level }
  | .clock =>
    { c with
      clock    := w.level
      register := if c.clock = false ∧ w.level = true then c.register.shiftIn c.data else c.register }
  | .latch =>
    { c with latch := w.level, outputs := if c.latch = !edge ∧ w.level = edge then c.register else c.outputs }

def Chip.run (edge : Bool) (c : Chip n) (ws : List Write) : Chip n := ws.foldl (Chip.write edge) c

/-- What is to be seen after each write. -/
def Chip.shows (edge : Bool) : Chip n → List Write → List (Register n)
  | _, []      => []
  | c, w :: ws => (c.write edge w).outputs :: Chip.shows edge (c.write edge w) ws

def shiftAll (r : Register n) (bits : List Bool) : Register n := bits.foldl Register.shiftIn r

/-- **The writes shift in `bits`**: they leave the latch alone, and start and end with the clock low. -/
structure ShiftsIn (ws : List Write) (bits : List Bool) : Prop where
  quiet    : ∀ w ∈ ws, w.pin ≠ .latch
  clock    : ∀ (n : Nat) (edge : Bool) (c : Chip n), c.clock = false → (c.run edge ws).clock = false
  register : ∀ (n : Nat) (edge : Bool) (c : Chip n), c.clock = false →
    (c.run edge ws).register = shiftAll c.register bits

variable {edge : Bool} {c : Chip n} {ws : List Write} {bits : List Bool}

theorem run_append (edge : Bool) (c : Chip n) (ws vs : List Write) :
    c.run edge (ws ++ vs) = (c.run edge ws).run edge vs :=
  List.foldl_append

theorem shows_append (edge : Bool) : ∀ (ws : List Write) (c : Chip n) (vs : List Write),
    c.shows edge (ws ++ vs) = c.shows edge ws ++ (c.run edge ws).shows edge vs
  | [], _, _ => rfl
  | w :: ws, c, vs => by
    rw [List.cons_append, Chip.shows, shows_append edge ws (c.write edge w) vs, Chip.shows, List.cons_append]
    rfl

/-- **A full register holds what was shifted in last.** -/
theorem shiftAll_eq : ∀ (bits : List Bool) (r : Register n), (shiftAll r bits).1 = (r.1 ++ bits).drop bits.length
  | [], r => by rw [List.append_nil]; rfl
  | b :: bits, r => by
    have ih := shiftAll_eq bits (r.shiftIn b)
    show (shiftAll (r.shiftIn b) bits).1 = _
    cases hr : r.1 with
    | nil =>
      have hshift : (r.shiftIn b).1 = [] := by show (r.1 ++ [b]).drop 1 = []; rw [hr]; rfl
      rw [ih, hshift, List.nil_append, List.nil_append, List.drop_length, List.drop_length]
    | cons a as =>
      have hshift : (r.shiftIn b).1 = as ++ [b] := by show (r.1 ++ [b]).drop 1 = as ++ [b]; rw [hr]; rfl
      rw [ih, hshift, List.append_assoc, List.singleton_append, List.cons_append, List.length_cons, List.drop_succ_cons]

theorem ShiftsIn.register_eq (h : ShiftsIn ws bits) (hbits : bits.length = n) (hc : c.clock = false) :
    (c.run edge ws).register = ⟨bits, hbits⟩ := by
  rw [h.register n edge c hc]
  apply Subtype.ext
  rw [shiftAll_eq, hbits, List.drop_append_of_le_length (Nat.le_of_eq c.register.2.symm), List.drop_eq_nil_of_le
    (Nat.le_of_eq c.register.2), List.nil_append]

theorem write_quiet (edge : Bool) {w : Write} (hw : w.pin ≠ .latch) (c : Chip n) :
    (c.write edge w).outputs = c.outputs ∧ (c.write edge w).latch = c.latch := by
  unfold Chip.write
  cases hp : w.pin with
  | latch => exact absurd hp hw
  | data  => exact ⟨rfl, rfl⟩
  | clock => exact ⟨rfl, rfl⟩

/-- **Nothing is seen before the latch.** -/
theorem outputs_of_quiet (edge : Bool) : ∀ {ws : List Write} {c : Chip n}, (∀ w ∈ ws, w.pin ≠ .latch) →
    (∀ o ∈ c.shows edge ws, o = c.outputs) ∧ (c.run edge ws).outputs = c.outputs ∧ (c.run edge ws).latch = c.latch
  | [], _, _ => ⟨fun _ h => absurd h List.not_mem_nil, rfl, rfl⟩
  | w :: ws, c, h => by
    obtain ⟨hout, hlatch⟩ := write_quiet edge (h w List.mem_cons_self) c
    obtain ⟨hshows, hout', hlatch'⟩ := outputs_of_quiet edge (c := c.write edge w)
      (fun v hv => h v (List.mem_cons_of_mem w hv))
    refine ⟨fun o ho => ?_, hout'.trans hout, hlatch'.trans hlatch⟩
    rcases List.mem_cons.1 ho with rfl | ho
    · exact hout
    · exact (hshows o ho).trans hout

/-- The latch is set to `first`, the bits are shifted in, the latch is set to `last`. -/
def framed (first last : Bool) (ws : List Write) : List Write := [⟨.latch, first⟩] ++ ws ++ [⟨.latch, last⟩]

theorem framed_register (edge : Bool) (h : ShiftsIn ws bits) (hbits : bits.length = n) (hc : c.clock = false)
    (first last : Bool) :
    (c.run edge (framed first last ws)).register = ⟨bits, hbits⟩ ∧ (c.run edge (framed first last ws)).clock = false ∧
    (c.run edge (framed first last ws)).latch = last := by
  unfold framed
  rw [run_append, run_append]
  have hc' : (c.run edge [⟨.latch, first⟩]).clock = false := hc
  exact ⟨h.register_eq hbits hc', h.clock n edge _ hc', rfl⟩

theorem latch_outputs (edge level : Bool) (c : Chip n) :
    (c.run edge [⟨.latch, level⟩]).outputs = c.register ∨ (c.run edge [⟨.latch, level⟩]).outputs = c.outputs := by
  by_cases h : c.latch = !edge ∧ level = edge
  · exact Or.inl (if_pos h)
  · exact Or.inr (if_neg h)

/-- **However they are framed**, nothing is seen but what was seen before, what was in the register, or the bits. -/
theorem framed_shows (h : ShiftsIn ws bits) (hbits : bits.length = n) (hc : c.clock = false) (first last : Bool)
    {o : Register n}
    (ho : o ∈ c.shows edge (framed first last ws) ∨ o = (c.run edge (framed first last ws)).outputs) :
    o = c.outputs ∨ o = c.register ∨ o = ⟨bits, hbits⟩ := by
  have hfirst := latch_outputs edge first c
  have hregister : ((c.run edge [⟨.latch, first⟩]).run edge ws).register = ⟨bits, hbits⟩ := h.register_eq hbits hc
  obtain ⟨hshows, hout, -⟩ := outputs_of_quiet edge (c := c.run edge [⟨.latch, first⟩]) h.quiet
  have hlast := latch_outputs edge last ((c.run edge [⟨.latch, first⟩]).run edge ws)
  rw [hregister, hout] at hlast
  have hbefore : ∀ {o}, o = (c.run edge [⟨.latch, first⟩]).outputs →
      o = c.outputs ∨ o = c.register ∨ o = ⟨bits, hbits⟩ :=
    fun ho => hfirst.elim (fun h => Or.inr (Or.inl (ho.trans h))) (fun h => Or.inl (ho.trans h))
  have hafter : ∀ {o}, o = (((c.run edge [⟨.latch, first⟩]).run edge ws).run edge [⟨.latch, last⟩]).outputs →
      o = c.outputs ∨ o = c.register ∨ o = ⟨bits, hbits⟩ := fun ho =>
    hlast.elim (fun h => Or.inr (Or.inr (ho.trans h))) (fun h => hbefore (ho.trans h))
  unfold framed at ho
  rw [shows_append, shows_append, run_append, run_append, List.mem_append, List.mem_append] at ho
  rcases ho with ((ho | ho) | ho) | ho
  · exact hbefore (List.mem_singleton.1 ho)
  · exact hbefore (hshows o ho)
  · exact hafter (List.mem_singleton.1 ho)
  · exact hafter ho

/-- **What is sent decides, not how**: writes that shift in the same bits leave the same chip, but for the data pin. -/
theorem framed_congr {vs : List Write} (h : ShiftsIn ws bits) (h' : ShiftsIn vs bits) (hbits : bits.length = n)
    (hc : c.clock = false) (first last : Bool) :
    { c.run edge (framed first last ws) with data := false } =
        { c.run edge (framed first last vs) with data := false } := by
  obtain ⟨hregister, hclock, hlatch⟩ := framed_register edge h hbits hc first last
  obtain ⟨hregister', hclock', hlatch'⟩ := framed_register edge h' hbits hc first last
  have hmiddle : ((c.run edge [⟨.latch, first⟩]).run edge ws).register = ⟨bits, hbits⟩ := h.register_eq hbits hc
  have hmiddle' : ((c.run edge [⟨.latch, first⟩]).run edge vs).register = ⟨bits, hbits⟩ := h'.register_eq hbits hc
  obtain ⟨-, hout, hl⟩ := outputs_of_quiet edge (c := c.run edge [⟨.latch, first⟩]) h.quiet
  obtain ⟨-, hout', hl'⟩ := outputs_of_quiet edge (c := c.run edge [⟨.latch, first⟩]) h'.quiet
  have houtputs : (c.run edge (framed first last ws)).outputs = (c.run edge (framed first last vs)).outputs := by
    unfold framed
    rw [run_append, run_append, run_append, run_append]
    show (if _ then _ else _) = (if _ then _ else _)
    rw [hmiddle, hmiddle', hout, hout', hl, hl']
  dsimp only
  rw [hregister, hclock, hlatch, hregister', hclock', hlatch', houtputs]

/-- **Latched after them**, the bits are seen. -/
theorem latched_after (h : ShiftsIn ws bits) (hbits : bits.length = n) (hc : c.clock = false) :
    (c.run edge (framed (!edge) edge ws)).outputs = ⟨bits, hbits⟩ := by
  have hregister : ((c.run edge [⟨.latch, !edge⟩]).run edge ws).register = ⟨bits, hbits⟩ := h.register_eq hbits hc
  obtain ⟨-, -, hlatch⟩ := outputs_of_quiet edge (c := c.run edge [⟨.latch, !edge⟩]) h.quiet
  have hlast : (((c.run edge [⟨.latch, !edge⟩]).run edge ws).run edge [⟨.latch, edge⟩]).outputs = ⟨bits, hbits⟩ := by
    rw [← hregister]
    exact if_pos ⟨hlatch, rfl⟩
  unfold framed
  rw [run_append, run_append]
  exact hlast

/-- **Latched before them**, what is seen is what was in the register. -/
theorem latched_before (h : ShiftsIn ws bits) (hlatch : c.latch = !edge) :
    (c.run edge (framed edge (!edge) ws)).outputs = c.register ∧
    ∀ o ∈ c.shows edge (framed edge (!edge) ws), o = c.register := by
  have hfirst : (c.run edge [⟨.latch, edge⟩]).outputs = c.register := if_pos ⟨hlatch, rfl⟩
  obtain ⟨hshows, hout, -⟩ := outputs_of_quiet edge (c := c.run edge [⟨.latch, edge⟩]) h.quiet
  have hlast : (((c.run edge [⟨.latch, edge⟩]).run edge ws).run edge [⟨.latch, !edge⟩]).outputs = c.register := by
    refine Eq.trans ?_ (hout.trans hfirst)
    exact if_neg fun hne => (Bool.not_eq_self edge).1 hne.2
  unfold framed
  refine ⟨by rw [run_append, run_append]; exact hlast, fun o ho => ?_⟩
  rw [shows_append, shows_append, run_append, List.mem_append, List.mem_append] at ho
  rcases ho with (ho | ho) | ho
  · exact (List.mem_singleton.1 ho).trans hfirst
  · exact (hshows o ho).trans hfirst
  · exact (List.mem_singleton.1 ho).trans hlast

end ShiftRegisters
end Scrapcode
