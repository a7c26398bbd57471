import Scrapcode.ShiftRegisters
/-!
# Circ05 — `Arduino_Tutorial_CIRC05_hardware_spi.c`

Eight LEDs behind a shift register show a counter.  `updateLEDs` sends a value with `shiftOut` and `updateLEDsSPI`
with `SPI.transfer`, both library code; `updateLEDsLong` sends it itself.  `updateLEDs` raises the latch at the end,
"displaying the data"; `updateLEDsSPI`, "functionally same", raises it at the start and lowers it at the end "to apply
the changes".

On a chip whose outputs change when the latch rises the LEDs show each value of the counter with `updateLEDs` but with
`updateLEDsSPI` always the one before it, and on one whose outputs change when it falls it is the other way round
(`loop_shows`).
-/
namespace Scrapcode
namespace Circ05

open ShiftRegisters

abbrev Byte := BitVec 8

/-! ## The sketch -/

/-- The loop of `updateLEDsLong`, with `i` rounds left. -/
def shiftLong : Nat → Byte → List Write
  | 0, _         => []
  | i + 1, value =>
    let bit := value &&& 0b10000000
    let value := value <<< 1
    [⟨.data, if bit = 128 then true else false⟩, ⟨.clock, true⟩, ⟨.clock, false⟩] ++ shiftLong i value

def updateLEDsLong (value : Byte) : List Write := framed false true (shiftLong 8 value)

section
variable (shiftOut transfer : Byte → List Write) (useSPI : Bool)

def updateLEDs (value : Byte) : List Write := framed false true (shiftOut value)

def updateLEDsSPI (value : Byte) : List Write := framed true false (transfer value)

/-- What `setup` writes, but for what `SPI.begin` does. -/
def setup : List Write := [⟨.latch, false⟩]

def update (value : Byte) : List Write :=
  if useSPI then updateLEDsSPI transfer value else updateLEDs shiftOut value

/-- The next `n` updates of `loop`, when its counter is `i`; where the counter has come to 256 `loop` returns and is
called again. -/
def loop : Nat → Byte → List Write
  | 0, _     => []
  | n + 1, i => if i.toNat < 256 then update shiftOut transfer useSPI i ++ loop n (i + 1) else loop n 0

/-- The sketch up to its `n`-th update. -/
def sketch (n : Nat) : List Write := setup ++ loop shiftOut transfer useSPI n 0

end

/-! ## What is sent -/

/-- The bits of a byte, the most significant first. -/
def bitsOf (value : Byte) : List Bool := (List.range 8).map value.getMsbD

theorem length_bitsOf (value : Byte) : (bitsOf value).length = 8 := by rw [bitsOf, List.length_map, List.length_range]

/-- What the LEDs show of a value. -/
def lit (value : Byte) : Register 8 := ⟨bitsOf value, length_bitsOf value⟩

variable {n : Nat} {edge : Bool} {value : Byte}

theorem bit_eq_msb (value : Byte) : (if value &&& 0b10000000 = 128 then true else false) = value.getMsbD 0 := by
  revert value
  decide

theorem shiftLong_register : ∀ (k : Nat) (value : Byte) (c : Chip n), c.clock = false →
    (c.run edge (shiftLong k value)).clock = false ∧
    (c.run edge (shiftLong k value)).register = shiftAll c.register ((List.range k).map value.getMsbD)
  | 0, _, _, hc => ⟨hc, rfl⟩
  | k + 1, value, c, hc => by
    have hone : c.run edge [⟨.data, value.getMsbD 0⟩, ⟨.clock, true⟩, ⟨.clock, false⟩] =
        { c with data := value.getMsbD 0, clock := false, register := c.register.shiftIn (value.getMsbD 0) } := by
      unfold Chip.run Chip.write
      simp [hc]
    obtain ⟨hclock, hregister⟩ := shiftLong_register k (value <<< 1)
      (c.run edge [⟨.data, value.getMsbD 0⟩, ⟨.clock, true⟩, ⟨.clock, false⟩]) (by rw [hone])
    have hbits : (List.range (k + 1)).map value.getMsbD =
        value.getMsbD 0 :: (List.range k).map (value <<< 1).getMsbD := by
      rw [List.range_succ_eq_map, List.map_cons, List.map_map]
      congr 1
      exact List.map_congr_left fun i _ => (BitVec.getMsbD_shiftLeft value 1).symm
    unfold shiftLong
    dsimp only
    rw [bit_eq_msb, run_append]
    refine ⟨hclock, ?_⟩
    rw [hregister, hone, hbits]
    rfl

theorem quiet_shiftLong : ∀ (k : Nat) (value : Byte), ∀ w ∈ shiftLong k value, w.pin ≠ .latch
  | 0, _, _, h => absurd h List.not_mem_nil
  | k + 1, value, w, h => by
    unfold shiftLong at h
    rcases List.mem_append.1 h with h | h
    · simp only [List.mem_cons, List.not_mem_nil, or_false] at h
      rcases h with rfl | rfl | rfl <;> exact (nomatch ·)
    · exact quiet_shiftLong k _ w h

/-- **`updateLEDsLong` shifts the byte in**, the most significant bit first. -/
theorem shiftsIn_long (value : Byte) : ShiftsIn (shiftLong 8 value) (bitsOf value) where
  quiet    := quiet_shiftLong 8 value
  clock    := fun _ _ c hc => (shiftLong_register 8 value c hc).1
  register := fun _ _ c hc => (shiftLong_register 8 value c hc).2

/-! ## The loop -/

section
variable {shiftOut transfer : Byte → List Write} {useSPI : Bool} {c : Chip 8}

/-- What the library sends of a byte. -/
def sent (shiftOut transfer : Byte → List Write) (useSPI : Bool) (value : Byte) : List Write :=
  if useSPI then transfer value else shiftOut value

theorem update_eq (value : Byte) :
    update shiftOut transfer useSPI value = framed useSPI (!useSPI) (sent shiftOut transfer useSPI value) := by
  cases useSPI <;> rfl

/-- The counter never comes to 256: it is a byte. -/
theorem loop_cons (n : Nat) (i : Byte) : loop shiftOut transfer useSPI (n + 1) i =
    update shiftOut transfer useSPI i ++ loop shiftOut transfer useSPI n (i + 1) := if_pos i.isLt

theorem loop_succ : ∀ (n : Nat) (i : Byte), loop shiftOut transfer useSPI (n + 1) i =
    loop shiftOut transfer useSPI n i ++ update shiftOut transfer useSPI (i + BitVec.ofNat 8 n)
  | 0, i => by rw [loop_cons, loop, loop, List.append_nil, List.nil_append, BitVec.add_zero]
  | n + 1, i => by
    have hsum : i + 1 + BitVec.ofNat 8 n = i + BitVec.ofNat 8 (n + 1) := by
      rw [BitVec.add_assoc, Nat.add_comm n 1, BitVec.ofNat_add]
      rfl
    rw [loop_cons, loop_succ n (i + 1), hsum, loop_cons n, List.append_assoc]

theorem sketch_succ (n : Nat) : sketch shiftOut transfer useSPI (n + 1) =
    sketch shiftOut transfer useSPI n ++ update shiftOut transfer useSPI (BitVec.ofNat 8 n) := by
  rw [sketch, sketch, loop_succ, List.append_assoc, show 0 + BitVec.ofNat 8 n = BitVec.ofNat 8 n from BitVec.zero_add _]

section
variable (hsent : ∀ value, ShiftsIn (sent shiftOut transfer useSPI value) (bitsOf value)) (hc : c.clock = false)
include hsent hc

/-- After its first update the chip holds the last value, whatever it shows. -/
theorem sketch_holds (edge : Bool) : ∀ n, (c.run edge (sketch shiftOut transfer useSPI n)).clock = false ∧
    (∀ k, n = k + 1 → (c.run edge (sketch shiftOut transfer useSPI n)).register = lit (BitVec.ofNat 8 k) ∧
      (c.run edge (sketch shiftOut transfer useSPI n)).latch = !useSPI)
  | 0 => ⟨hc, fun _ h => nomatch h⟩
  | n + 1 => by
    obtain ⟨hclock, -⟩ := sketch_holds edge n
    rw [sketch_succ, run_append, update_eq]
    obtain ⟨hregister, hclock', hlatch⟩ :=
      framed_register edge (hsent (BitVec.ofNat 8 n)) (length_bitsOf _) hclock useSPI (!useSPI)
    refine ⟨hclock', fun k hk => ?_⟩
    obtain rfl := Nat.succ.inj hk
    exact ⟨hregister, hlatch⟩

theorem outputs_in_time (hedge : useSPI = !edge) (n : Nat) :
    (c.run edge (sketch shiftOut transfer useSPI (n + 1))).outputs = lit (BitVec.ofNat 8 n) := by
  have hclock := (sketch_holds hsent hc edge n).1
  rw [sketch_succ, run_append, update_eq]
  subst hedge
  rw [Bool.not_not]
  exact latched_after (hsent _) (length_bitsOf _) hclock

theorem outputs_late (hedge : useSPI = edge) (n : Nat) :
    (c.run edge (sketch shiftOut transfer useSPI (n + 2))).outputs = lit (BitVec.ofNat 8 n) ∧
    ∀ o ∈ (c.run edge (sketch shiftOut transfer useSPI (n + 1))).shows edge
      (update shiftOut transfer useSPI (BitVec.ofNat 8 (n + 1))), o = lit (BitVec.ofNat 8 n) := by
  obtain ⟨hregister, hlatch⟩ := (sketch_holds hsent hc edge (n + 1)).2 n rfl
  rw [sketch_succ, run_append, update_eq]
  subst hedge
  have hlate := latched_before (hsent (BitVec.ofNat 8 (n + 1))) hlatch
  rw [hregister] at hlate
  exact hlate

/-- Nothing is seen in an update but what was seen before it, what the chip held, and the value. -/
theorem update_shows (edge : Bool) (n : Nat) {o : Register 8}
    (ho : o ∈ (c.run edge (sketch shiftOut transfer useSPI n)).shows edge
        (update shiftOut transfer useSPI (BitVec.ofNat 8 n)) ∨
      o = (c.run edge (sketch shiftOut transfer useSPI (n + 1))).outputs) :
    o = (c.run edge (sketch shiftOut transfer useSPI n)).outputs ∨
      o = (c.run edge (sketch shiftOut transfer useSPI n)).register ∨ o = lit (BitVec.ofNat 8 n) := by
  have hclock := (sketch_holds hsent hc edge n).1
  rw [sketch_succ, run_append, update_eq] at ho
  exact framed_shows (hsent (BitVec.ofNat 8 n)) (length_bitsOf _) hclock useSPI (!useSPI) ho

/-- Nothing is ever seen but the values that were sent, and what the chip held at first. -/
theorem shows_whole (edge : Bool) : ∀ (n : Nat) (o : Register 8),
    o ∈ c.shows edge (sketch shiftOut transfer useSPI n) ∨
      o = (c.run edge (sketch shiftOut transfer useSPI n)).outputs →
    o = c.outputs ∨ o = c.register ∨ ∃ k < n, o = lit (BitVec.ofNat 8 k)
  | 0, o, ho => by
    have hlatch := latch_outputs edge false c
    have heq : o = (c.run edge [⟨.latch, false⟩]).outputs := ho.elim List.mem_singleton.1 id
    exact hlatch.elim (fun h => Or.inr (Or.inl (heq.trans h))) (fun h => Or.inl (heq.trans h))
  | n + 1, o, ho => by
    have hold : ∀ {o}, o ∈ c.shows edge (sketch shiftOut transfer useSPI n) ∨
        o = (c.run edge (sketch shiftOut transfer useSPI n)).outputs →
        o = c.outputs ∨ o = c.register ∨ ∃ k < n + 1, o = lit (BitVec.ofNat 8 k) := fun ho =>
      (shows_whole edge n _ ho).imp id (Or.imp id fun ⟨k, hk, h⟩ => ⟨k, Nat.lt_succ_of_lt hk, h⟩)
    have hregister : (c.run edge (sketch shiftOut transfer useSPI n)).register = c.register ∨
        ∃ k < n + 1, (c.run edge (sketch shiftOut transfer useSPI n)).register = lit (BitVec.ofNat 8 k) := by
      cases n with
      | zero   => exact Or.inl rfl
      | succ n => exact Or.inr ⟨n, by omega, ((sketch_holds hsent hc edge (n + 1)).2 n rfl).1⟩
    rw [sketch_succ, shows_append, List.mem_append, or_assoc, ← sketch_succ] at ho
    rcases ho with ho | ho
    · exact hold (Or.inl ho)
    · rcases update_shows hsent hc edge n ho with h | h | h
      · exact hold (Or.inr h)
      · exact hregister.elim (fun hr => Or.inr (Or.inl (h.trans hr)))
          (fun ⟨k, hk, hr⟩ => Or.inr (Or.inr ⟨k, hk, h.trans hr⟩))
      · exact Or.inr (Or.inr ⟨n, Nat.lt_succ_self n, h⟩)

end

/-- **What the LEDs show**, in every step of the loop for ever, with library code that shifts a byte in: on a chip whose
latch edge is the one at the end of an update the value of the counter, and on one whose latch edge is the one at its
start, always the value before; and nothing in between but values that were sent, in an update the last two of them. -/
theorem loop_shows (shiftOut transfer : Byte → List Write) (useSPI edge : Bool) (c : Chip 8) (hc : c.clock = false)
    (hshiftOut : ∀ value, ShiftsIn (shiftOut value) (bitsOf value))
    (htransfer : ∀ value, ShiftsIn (transfer value) (bitsOf value)) (n : Nat) :
    (useSPI = !edge → (c.run edge (sketch shiftOut transfer useSPI (n + 1))).outputs = lit (BitVec.ofNat 8 n)) ∧
    (useSPI = edge → (c.run edge (sketch shiftOut transfer useSPI (n + 2))).outputs = lit (BitVec.ofNat 8 n) ∧
      ∀ o ∈ (c.run edge (sketch shiftOut transfer useSPI (n + 1))).shows edge
        (update shiftOut transfer useSPI (BitVec.ofNat 8 (n + 1))), o = lit (BitVec.ofNat 8 n)) ∧
    (∀ o ∈ c.shows edge (sketch shiftOut transfer useSPI n),
      o = c.outputs ∨ o = c.register ∨ ∃ k < n, o = lit (BitVec.ofNat 8 k)) ∧
    ∀ o ∈ (c.run edge (sketch shiftOut transfer useSPI (n + 1))).shows edge
        (update shiftOut transfer useSPI (BitVec.ofNat 8 (n + 1))),
      o = (c.run edge (sketch shiftOut transfer useSPI (n + 1))).outputs ∨ o = lit (BitVec.ofNat 8 n) ∨
        o = lit (BitVec.ofNat 8 (n + 1)) := by
  have hsent : ∀ value, ShiftsIn (sent shiftOut transfer useSPI value) (bitsOf value) := fun value => by
    cases useSPI
    · exact hshiftOut value
    · exact htransfer value
  refine ⟨fun h => outputs_in_time hsent hc h n, fun h => outputs_late hsent hc h n,
    fun o ho => shows_whole hsent hc edge n o (Or.inl ho), fun o ho => ?_⟩
  have hshown := update_shows hsent hc edge (n + 1) (Or.inl ho)
  rwa [((sketch_holds hsent hc edge (n + 1)).2 n rfl).1] at hshown

/-- A chip with all LEDs off, its outputs taken over when the latch rises: after the 257th update, the one of 0, the
sketch shows 255. -/
theorem loop_shows_late : ((⟨false, false, false, lit 0, lit 0⟩ : Chip 8).run true
    (sketch (shiftLong 8) (shiftLong 8) true 257)).outputs = lit 255 :=
  ((loop_shows (shiftLong 8) (shiftLong 8) true true ⟨false, false, false, lit 0, lit 0⟩ rfl shiftsIn_long shiftsIn_long
    255).2.1 rfl).1

/-- **`updateLEDsLong` does what `updateLEDs` does**: it leaves the same chip, but for the data pin, and shows nothing
on the way that `updateLEDs` may not show. -/
theorem updateLEDsLong_agrees (shiftOut : Byte → List Write) (edge : Bool) (c : Chip 8) (value : Byte)
    (hc : c.clock = false)
    (hshiftOut : ∀ value, ShiftsIn (shiftOut value) (bitsOf value)) :
    { c.run edge (updateLEDsLong value) with data := false } =
      { c.run edge (updateLEDs shiftOut value) with data := false } ∧
    ∀ o ∈ c.shows edge (updateLEDsLong value), o = c.outputs ∨ o = c.register ∨ o = lit value :=
  ⟨framed_congr (shiftsIn_long value) (hshiftOut value) (length_bitsOf value) hc false true,
    fun _ ho => framed_shows (shiftsIn_long value) (length_bitsOf value) hc false true (Or.inl ho)⟩

theorem updateLEDsLong_agrees_dark :
    { (⟨false, false, false, lit 0, lit 0⟩ : Chip 8).run true (updateLEDsLong 0xA5) with data := false } =
      { (⟨false, false, false, lit 0, lit 0⟩ : Chip 8).run true (updateLEDs (shiftLong 8) 0xA5) with data := false } :=
  (updateLEDsLong_agrees (shiftLong 8) true ⟨false, false, false, lit 0, lit 0⟩ 0xA5 rfl shiftsIn_long).1

end

end Circ05
end Scrapcode
