import Mathlib.Data.Nat.Basic
import Mathlib.Logic.Function.Iterate
import Mathlib.Tactic.IntervalCases
/-!
# RandomBytea — `random_bytea.c`

The function allocates a header and the bytes it is asked for, writes the header and then the bytes, three from each
value of `random()`: of the 31 bits that `RAND_MAX` leaves in it there are three whole bytes.

The size is computed from an argument that nobody checked.  `palloc` refuses what is negative, being unsigned then, but
from −4 to −1 the block is smaller than the header that is written to it (`failsOrWellFormed_iff`).
-/
namespace Scrapcode
namespace RandomBytea

/-- `VARHDRSZ`. -/
def varhdrsz : BitVec 32 := 4

/-- `RAND_MAX`, in a `long int`. -/
def randMax : BitVec 64 := 2147483647

/-- `MaxAllocSize`. -/
def maxAllocSize : Nat := 0x3fffffff

inductive Error where
  | invalidAllocSize (size : Nat)
deriving DecidableEq, Repr

/-- An allocated block: its size, the bytes from its start on, its own and those after it, and the offsets written. -/
structure Block where
  size   : Nat
  mem    : Nat → BitVec 8
  writes : List Nat

def palloc (mem : Nat → BitVec 8) (size : BitVec 64) : Except Error Block :=
  if maxAllocSize < size.toNat then .error (.invalidAllocSize size.toNat) else .ok ⟨size.toNat, mem, []⟩

def Block.write (b : Block) (i : Nat) (x : BitVec 8) : Block :=
  { b with mem := fun j => if j = i then x else b.mem j, writes := b.writes ++ [i] }

/-- `SET_VARSIZE`, on a little-endian machine. -/
def Block.setVarsize (b : Block) (len : BitVec 32) : Block :=
  (((b.write 0 ((len <<< 2).extractLsb' 0 8)).write 1 ((len <<< 2).extractLsb' 8 8)).write 2
    ((len <<< 2).extractLsb' 16 8)).write 3 ((len <<< 2).extractLsb' 24 8)

/-- `VARSIZE`. -/
def Block.varsize (b : Block) : Nat := ((b.mem 3 ++ b.mem 2 ++ b.mem 1 ++ b.mem 0) >>> (2 : Nat)).toNat

/-- The data of the value: what `VARSIZE` says comes after the header. -/
def Block.data (b : Block) : List (BitVec 8) := (List.range (b.varsize - 4)).map (fun k => b.mem (4 + k))

/-- The variables of the loop, the offset in place of the pointer, and how many values were drawn. -/
structure Locals where
  curDataPtr : Nat
  lastrand   : BitVec 64
  remaining  : BitVec 64
  drawn      : Nat
  block      : Block

section Loop
variable (random : Nat → BitVec 31)

def Locals.shift (s : Locals) : Locals :=
  { s with remaining := s.remaining.sshiftRight 8, lastrand := s.lastrand.sshiftRight 8 }

def Locals.refill (s : Locals) : Locals :=
  if s.remaining.slt 256 then
    { s with lastrand := (random s.drawn).setWidth 64, remaining := randMax, drawn := s.drawn + 1 }
  else s

def Locals.store (s : Locals) : Locals :=
  { s with block := s.block.write s.curDataPtr (s.lastrand.setWidth 8), curDataPtr := s.curDataPtr + 1 }

/-- One pass of the loop. -/
def body (s : Locals) : Locals := (s.shift.refill random).store

theorem toInt_pred {numbytes : BitVec 32} (h : 0 < numbytes.toInt) : (numbytes - 1).toInt = numbytes.toInt - 1 := by
  have hlt : numbytes.toInt < 2147483648 := BitVec.toInt_lt
  rw [BitVec.toInt_sub, show (1 : BitVec 32).toInt = 1 from rfl, Int.bmod_def]
  split_ifs <;> omega

/-- `while ((numbytes--) > 0)`. -/
def loop (numbytes : BitVec 32) (s : Locals) : Locals :=
  if 0 < numbytes.toInt then loop (numbytes - 1) (body random s) else s
termination_by numbytes.toInt.toNat
decreasing_by
  rename_i h
  rw [toInt_pred h]
  omega

/-- The function.  `lastrand` and `mem` are what the variable and the memory held before. -/
def randomBytea (lastrand : BitVec 64) (mem : Nat → BitVec 8) (numbytes : BitVec 32) : Except Error Locals :=
  match palloc mem ((varhdrsz + numbytes).signExtend 64) with
  | .error e     => .error e
  | .ok randbytea =>
    .ok (loop random numbytes ⟨4, lastrand, 0, 0, randbytea.setVarsize (varhdrsz + numbytes)⟩)

end Loop

variable {random : Nat → BitVec 31} {lastrand : BitVec 64} {mem : Nat → BitVec 8} {n : BitVec 32} {b : Block}

/-! ## The header -/

theorem Block.write_mem_of_ne (x : BitVec 8) {i j : Nat} (h : j ≠ i) : (b.write i x).mem j = b.mem j := if_neg h

theorem Block.write_mem_self (b : Block) (i : Nat) (x : BitVec 8) : (b.write i x).mem i = x := if_pos rfl

/-- The header is read back, but for the two bits that are shifted out. -/
theorem Block.varsize_setVarsize (b : Block) (len : BitVec 32) : (b.setVarsize len).varsize = len.toNat % 2 ^ 30 := by
  have hbytes : (len <<< 2).extractLsb' 24 8 ++ (len <<< 2).extractLsb' 16 8 ++ (len <<< 2).extractLsb' 8 8 ++
      (len <<< 2).extractLsb' 0 8 = len <<< 2 := by
    apply BitVec.eq_of_getLsbD_eq
    intro i hi
    simp only [BitVec.getLsbD_append, BitVec.getLsbD_extractLsb']
    grind
  have hheader : ((b.setVarsize len).mem 3 ++ (b.setVarsize len).mem 2 ++ (b.setVarsize len).mem 1 ++
      (b.setVarsize len).mem 0) = len <<< 2 := hbytes
  rw [Block.varsize, hheader, BitVec.toNat_ushiftRight, BitVec.toNat_shiftLeft, Nat.shiftLeft_eq,
    Nat.shiftRight_eq_div_pow]
  omega

/-! ## The loop -/

/-- The loop is as many passes as the argument says. -/
theorem loop_eq (numbytes : BitVec 32) (s : Locals) :
    loop random numbytes s = (body random)^[numbytes.toInt.toNat] s := by
  fun_induction loop random numbytes s with
  | case1 numbytes s h ih =>
    have hsucc : numbytes.toInt.toNat = (numbytes - 1).toInt.toNat + 1 := by rw [toInt_pred h]; omega
    rw [ih, hsucc, Function.iterate_succ_apply]
  | case2 numbytes s h =>
    have hzero : numbytes.toInt.toNat = 0 := by omega
    rw [hzero, Function.iterate_zero_apply]

theorem Locals.refill_block (s : Locals) : (s.refill random).block = s.block := by
  unfold Locals.refill
  split_ifs <;> rfl

theorem Locals.refill_curDataPtr (s : Locals) : (s.refill random).curDataPtr = s.curDataPtr := by
  unfold Locals.refill
  split_ifs <;> rfl

theorem body_block (s : Locals) : (body random s).block =
    s.block.write s.curDataPtr ((s.shift.refill random).lastrand.setWidth 8) := by
  change (s.shift.refill random).block.write (s.shift.refill random).curDataPtr _ = _
  rw [Locals.refill_block, Locals.refill_curDataPtr]
  rfl

theorem body_curDataPtr (s : Locals) : (body random s).curDataPtr = s.curDataPtr + 1 :=
  congrArg (· + 1) (Locals.refill_curDataPtr s.shift)

theorem passes_curDataPtr (n : Nat) (s : Locals) : ((body random)^[n] s).curDataPtr = s.curDataPtr + n := by
  induction n with
  | zero      => rfl
  | succ n ih => rw [Function.iterate_succ_apply', body_curDataPtr, ih, Nat.add_assoc]

theorem passes_size (n : Nat) (s : Locals) : ((body random)^[n] s).block.size = s.block.size := by
  induction n with
  | zero      => rfl
  | succ n ih => rw [Function.iterate_succ_apply', body_block]; exact ih

/-- The loop writes one byte after the other. -/
theorem passes_writes (n : Nat) (s : Locals) :
    ((body random)^[n] s).block.writes = s.block.writes ++ List.range' s.curDataPtr n := by
  induction n with
  | zero      => exact (List.append_nil _).symm
  | succ n ih =>
    have hptr : ((body random)^[n] s).curDataPtr = s.curDataPtr + n := passes_curDataPtr n s
    rw [Function.iterate_succ_apply', body_block, List.range'_1_concat, ← List.append_assoc, ← ih, ← hptr]
    rfl

/-- What is before the pointer stays. -/
theorem passes_mem_of_lt (n : Nat) (s : Locals) {i : Nat} (hi : i < s.curDataPtr) :
    ((body random)^[n] s).block.mem i = s.block.mem i := by
  induction n with
  | zero      => rfl
  | succ n ih =>
    have hne : i ≠ ((body random)^[n] s).curDataPtr := by rw [passes_curDataPtr]; omega
    rw [Function.iterate_succ_apply', body_block, Block.write_mem_of_ne _ hne, ih]

theorem passes_varsize (n : Nat) {s : Locals} (hs : 4 ≤ s.curDataPtr) :
    ((body random)^[n] s).block.varsize = s.block.varsize := by
  unfold Block.varsize
  rw [passes_mem_of_lt n s (i := 0) (by omega), passes_mem_of_lt n s (i := 1) (by omega),
    passes_mem_of_lt n s (i := 2) (by omega), passes_mem_of_lt n s (i := 3) (by omega)]

/-! ## The size -/

/-- `palloc` gets a size that it accepts. -/
def Fits (n : BitVec 32) : Prop := -4 ≤ n.toInt ∧ n.toInt ≤ 0x3ffffffb

instance : Decidable (Fits n) := inferInstanceAs (Decidable (_ ∧ _))

theorem toInt_size (n : BitVec 32) :
    (varhdrsz + n).toInt = if n.toInt < 0x7ffffffc then n.toInt + 4 else n.toInt - 0xfffffffc := by
  have hge : -2147483648 ≤ n.toInt := BitVec.le_toInt n
  have hlt : n.toInt < 2147483648 := BitVec.toInt_lt
  rw [BitVec.toInt_add, show varhdrsz.toInt = 4 from rfl, Int.bmod_def]
  split_ifs <;> omega

/-- What `palloc` is asked for: what is negative in 32 bits is a size near 2^64. -/
theorem toNat_size (n : BitVec 32) : (((varhdrsz + n).signExtend 64).toNat : Int) =
    if -4 ≤ n.toInt ∧ n.toInt < 0x7ffffffc then n.toInt + 4
    else if n.toInt < -4 then n.toInt + 4 + 2 ^ 64 else n.toInt - 0xfffffffc + 2 ^ 64 := by
  have hsize := toInt_size n
  have hge : -2147483648 ≤ n.toInt := BitVec.le_toInt n
  have hlt : n.toInt < 2147483648 := BitVec.toInt_lt
  have hext : ((varhdrsz + n).signExtend 64).toInt = (varhdrsz + n).toInt := BitVec.toInt_signExtend_of_le (by decide)
  rw [hsize, BitVec.toInt_eq_toNat_cond] at hext
  have hbound := ((varhdrsz + n).signExtend 64).isLt
  split_ifs at hext ⊢ <;> omega

theorem not_fits_iff : ¬ Fits n ↔ maxAllocSize < ((varhdrsz + n).signExtend 64).toNat := by
  have hsize := toNat_size n
  have hge : -2147483648 ≤ n.toInt := BitVec.le_toInt n
  unfold Fits maxAllocSize
  split_ifs at hsize <;> omega

theorem randomBytea_of_not_fits (h : ¬ Fits n) : randomBytea random lastrand mem n =
    .error (.invalidAllocSize ((varhdrsz + n).signExtend 64).toNat) := by
  rw [randomBytea, palloc, if_pos (not_fits_iff.1 h)]

/-- The block with the header in it. -/
def allocated (mem : Nat → BitVec 8) (n : BitVec 32) : Block :=
  (Block.mk (n.toInt + 4).toNat mem []).setVarsize (varhdrsz + n)

theorem randomBytea_of_fits (random : Nat → BitVec 31) (lastrand : BitVec 64) (mem : Nat → BitVec 8) (h : Fits n) :
    randomBytea random lastrand mem n = .ok ((body random)^[n.toInt.toNat] ⟨4, lastrand, 0, 0, allocated mem n⟩) := by
  have hsize : ((varhdrsz + n).signExtend 64).toNat = (n.toInt + 4).toNat := by
    have hsize := toNat_size n
    have hfits := h
    unfold Fits at hfits
    rw [if_pos (by omega)] at hsize
    omega
  rw [randomBytea, palloc, if_neg (fun hlt => not_fits_iff.2 hlt h), hsize, ← loop_eq]
  rfl

theorem allocated_varsize (h : Fits n) : (allocated mem n).varsize = (n.toInt + 4).toNat := by
  have hlen := toInt_size n
  unfold Fits at h
  rw [allocated, Block.varsize_setVarsize]
  rw [BitVec.toInt_eq_toNat_cond] at hlen
  split_ifs at hlen <;> omega

/-- What comes back is what the loop made of the block with its header. -/
theorem eq_passes {s : Locals} (h : Fits n) (hs : randomBytea random lastrand mem n = .ok s) :
    s = (body random)^[n.toInt.toNat] ⟨4, lastrand, 0, 0, allocated mem n⟩ := by
  rw [randomBytea_of_fits _ _ _ h, Except.ok.injEq] at hs
  exact hs.symm

theorem randomBytea_varsize {s : Locals} (h : Fits n) (hs : randomBytea random lastrand mem n = .ok s) :
    s.block.varsize = (n.toInt + 4).toNat := by
  rw [eq_passes h hs, passes_varsize _ (le_refl 4), allocated_varsize h]

theorem randomBytea_size {s : Locals} (h : Fits n) (hs : randomBytea random lastrand mem n = .ok s) :
    s.block.size = (n.toInt + 4).toNat := by
  rw [eq_passes h hs, passes_size]
  rfl

theorem randomBytea_writes {s : Locals} (h : Fits n) (hs : randomBytea random lastrand mem n = .ok s) :
    s.block.writes = [0, 1, 2, 3] ++ List.range' 4 n.toInt.toNat := by
  rw [eq_passes h hs, passes_writes]
  rfl

/-! ## What is written where -/

/-- A value of type `bytea` with as many bytes as were asked for, and nothing written outside its block. -/
structure WellFormed (n : BitVec 32) (b : Block) : Prop where
  header : 4 ≤ b.varsize
  length : (b.varsize : Int) - 4 = max n.toInt 0
  inside : ∀ i ∈ b.writes, i < b.size

/-- Whatever the memory held and `random()` returns, there is an error or a well-formed value. -/
def FailsOrWellFormed (n : BitVec 32) : Prop :=
  ∀ random lastrand mem s, randomBytea random lastrand mem n = .ok s → WellFormed n s.block

theorem wellFormed_of_nonneg {s : Locals} (h : Fits n) (h0 : 0 ≤ n.toInt)
    (hs : randomBytea random lastrand mem n = .ok s) : WellFormed n s.block := by
  have hvarsize := randomBytea_varsize h hs
  constructor
  · omega
  · omega
  · intro i hi
    rw [randomBytea_writes h hs, List.mem_append, List.mem_range'_1] at hi
    rw [randomBytea_size h hs]
    rcases hi with hi | hi
    · have hi4 : i < 4 := List.mem_range.1 hi
      omega
    · omega

/-- The last byte of the header is outside of a block that has less than four. -/
theorem not_wellFormed_of_neg {s : Locals} (h : Fits n) (h0 : n.toInt < 0)
    (hs : randomBytea random lastrand mem n = .ok s) : ¬ WellFormed n s.block := by
  intro hw
  have hinside := hw.inside 3 (by rw [randomBytea_writes h hs]; exact List.mem_append_left _ (by decide))
  rw [randomBytea_size h hs] at hinside
  omega

/-- **Every argument but −1 to −4 ends in an error or a well-formed value**, and these do not. -/
theorem failsOrWellFormed_iff (n : BitVec 32) : FailsOrWellFormed n ↔ ¬ (-4 ≤ n.toInt ∧ n.toInt ≤ -1) := by
  constructor
  · rintro hsafe ⟨hge, hle⟩
    have hfits : Fits n := ⟨hge, by omega⟩
    have hok := randomBytea_of_fits (fun _ => 0) 0 (fun _ => 0) hfits
    exact not_wellFormed_of_neg hfits (by omega) hok (hsafe _ _ _ _ hok)
  · intro hn random lastrand mem s hs
    by_cases hfits : Fits n
    · have hge := hfits.1
      exact wellFormed_of_nonneg hfits (by omega) hs
    · rw [randomBytea_of_not_fits hfits] at hs
      cases hs

/-- With −1, three bytes are allocated and four are written. -/
theorem not_failsOrWellFormed_minusOne : ¬ FailsOrWellFormed (-1) := by
  intro h
  have hfits : Fits (-1) := by decide
  have hok := randomBytea_of_fits (fun _ => 0) 0 (fun _ => 0) hfits
  exact not_wellFormed_of_neg hfits (by decide) hok (h _ _ _ _ hok)

end RandomBytea
end Scrapcode
