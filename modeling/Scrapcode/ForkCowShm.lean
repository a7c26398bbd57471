import Mathlib.Data.Nat.Count
/-!
# ForkCowShm — the shared memory of `fork_cow_demo.c`

The three chunks are to be parts of one segment: one that is not touched, one that the parent writes, and one that the
child writes, too.  `shmAlloc` maps each of them from the start of the segment, so that the untouched chunk is the first
part of both that are written, and the larger of these has all bytes of the smaller.  The parent dirties four times the
size of a chunk and reports six times (`exists_not_accounts`).

The system calls are those that succeed.
-/
namespace Scrapcode
namespace ForkCow
namespace Shm

abbrev SizeT := BitVec 64

/-- The file behind the mappings. -/
structure Segment where
  size : Nat
  byte : Nat → BitVec 8

/-- The part of the file that is mapped. -/
structure Mapping where
  offset : Nat
  length : Nat

structure Sizes where
  untouched   : SizeT
  parentDirty : SizeT
  cow         : SizeT
  total       : Int

/-- From `shm_chunk_size_bytes`, unless `usage_die` ends the program; `total` is a `long`. -/
def shmSizes (arg : Int) : Option Sizes :=
  if arg ≤ 0 then none
  else some {
    untouched   := BitVec.ofInt 64 arg
    parentDirty := 2 * BitVec.ofInt 64 arg
    cow         := 4 * BitVec.ofInt 64 arg
    total       := (BitVec.ofInt 64 arg + 2 * BitVec.ofInt 64 arg + 4 * BitVec.ofInt 64 arg).toInt }

def setupShmem (shmTotalSize : SizeT) : Segment where
  size := shmTotalSize.toNat
  byte := fun _ => 0

def shmAlloc (sz : SizeT) : Mapping where
  offset := 0
  length := sz.toNat

/-- `memset` through a mapping of the segment. -/
def memset (m : Mapping) (c : BitVec 8) (n : SizeT) (seg : Segment) : Segment where
  size := seg.size
  byte := fun i => if m.offset ≤ i ∧ i < m.offset + n.toNat then c else seg.byte i

/-- The parent before the fork. -/
structure Parent where
  untouched   : Mapping
  parentDirty : Mapping
  cow         : Mapping
  segment     : Segment
  dirtyShared : Int

def parent (s : Sizes) : Parent where
  untouched   := shmAlloc s.untouched
  parentDirty := shmAlloc s.parentDirty
  cow         := shmAlloc s.cow
  segment     := memset (shmAlloc s.cow) 0x7f s.cow
    (memset (shmAlloc s.parentDirty) 0x7f s.parentDirty (setupShmem (BitVec.ofInt 64 s.total)))
  dirtyShared := (s.parentDirty + s.cow).toInt

def run (arg : Int) : Option Parent := (shmSizes arg).map parent

/-! ## The accounts -/

def Mapping.Covers (m : Mapping) (i : Nat) : Prop := m.offset ≤ i ∧ i < m.offset + m.length

def Mapping.Disjoint (m n : Mapping) : Prop := ∀ i, ¬(m.Covers i ∧ n.Covers i)

/-- A byte is dirty where something else than the 0 of a new file was written. -/
def Segment.Dirty (seg : Segment) (i : Nat) : Prop := seg.byte i ≠ 0

instance (seg : Segment) : DecidablePred seg.Dirty := fun i => inferInstanceAs (Decidable (seg.byte i ≠ 0))

/-- The bytes of the segment that are dirty. -/
def Segment.dirtyBytes (seg : Segment) : Nat := Nat.count seg.Dirty seg.size

/-- **The chunks are what they are reported to be.** -/
structure Parent.Accounts (p : Parent) : Prop where
  within    : ∀ m ∈ [p.untouched, p.parentDirty, p.cow], ∀ i, m.Covers i → i < p.segment.size
  disjoint  : [p.untouched, p.parentDirty, p.cow].Pairwise Mapping.Disjoint
  untouched : ∀ i, p.untouched.Covers i → ¬ p.segment.Dirty i
  counted   : (p.segment.dirtyBytes : Int) = p.dirtyShared

variable {c : Int}

theorem dirty_memset (m : Mapping) (n : SizeT) (seg : Segment) (i : Nat) :
    (memset m 0x7f n seg).Dirty i ↔ (m.offset ≤ i ∧ i < m.offset + n.toNat) ∨ seg.Dirty i := by
  unfold Segment.Dirty memset
  by_cases h : m.offset ≤ i ∧ i < m.offset + n.toNat
  · simp [h]
  · simp [h]

theorem not_dirty_setupShmem (n : SizeT) (i : Nat) : ¬ (setupShmem n).Dirty i := fun h => h rfl

theorem count_lt {k n : Nat} (h : k ≤ n) : Nat.count (fun i => i < k) n = k := by
  obtain ⟨d, rfl⟩ := Nat.exists_eq_add_of_le h
  rw [Nat.count_add, Nat.count_of_forall (fun i hi => hi), Nat.count_of_forall_not (fun i _ => by omega), Nat.add_zero]

theorem toNat_ofInt_of_lt {n : Nat} (h : n < 0x10000000000000000) : (BitVec.ofInt 64 (n : Int)).toNat = n := by
  rw [BitVec.toNat_ofInt]
  omega

theorem toNat_mul_of_lt {k n : Nat} {x : SizeT} (hx : x.toNat = n) (hk : k * n < 0x10000000000000000) :
    (BitVec.ofNat 64 k * x).toNat = k * n := by
  rw [BitVec.toNat_mul, BitVec.toNat_ofNat, hx, Nat.mod_mul_mod]
  exact Nat.mod_eq_of_lt hk

theorem toNat_add_of_lt {m n : Nat} {x y : SizeT} (hx : x.toNat = m) (hy : y.toNat = n)
    (h : m + n < 0x10000000000000000) : (x + y).toNat = m + n := by
  rw [BitVec.toNat_add, hx, hy]
  exact Nat.mod_eq_of_lt h

theorem toInt_of_lt {n : Nat} {x : SizeT} (hx : x.toNat = n) (h : n < 0x8000000000000000) : x.toInt = n := by
  rw [BitVec.toInt_eq_toNat_of_lt (by omega), hx]

/-- **The sizes**, where the total fits. -/
theorem sizes_eq {n : Nat} (h0 : 0 < n) (h7 : 7 * n < 0x8000000000000000) : ∃ s, shmSizes n = some s ∧
    s.untouched.toNat = n ∧ s.parentDirty.toNat = 2 * n ∧ s.cow.toNat = 4 * n ∧ s.total = (7 * n : Nat) ∧
      (s.parentDirty + s.cow).toInt = (6 * n : Nat) := by
  have hx := toNat_ofInt_of_lt (n := n) (by omega)
  have h2 := toNat_mul_of_lt (k := 2) hx (by omega)
  have h4 := toNat_mul_of_lt (k := 4) hx (by omega)
  have h3 := toNat_add_of_lt hx h2 (by omega)
  have hsum := toInt_of_lt (toNat_add_of_lt h3 h4 (by omega)) (by omega)
  have hdirty := toInt_of_lt (toNat_add_of_lt h2 h4 (by omega)) (by omega)
  exact ⟨_, if_neg (by omega), hx, h2, h4, hsum.trans (by omega), hdirty.trans (by omega)⟩

theorem size_parent (s : Sizes) : (parent s).segment.size = (BitVec.ofInt 64 s.total).toNat := rfl

/-- **What the parent does**: four times the size is dirty, the untouched chunk too, and six times is reported. -/
theorem run_eq {n : Nat} (h0 : 0 < n) (h7 : 7 * n < 0x8000000000000000) : ∃ p, run n = some p ∧
    p.segment.size = 7 * n ∧ p.untouched = ⟨0, n⟩ ∧ p.parentDirty = ⟨0, 2 * n⟩ ∧ p.cow = ⟨0, 4 * n⟩ ∧
      (∀ i, p.segment.Dirty i ↔ i < 4 * n) ∧ p.dirtyShared = (6 * n : Nat) := by
  obtain ⟨s, hs, hu, hp, hc, ht, hsum⟩ := sizes_eq h0 h7
  have hsize : (parent s).segment.size = 7 * n := by
    rw [size_parent, ht, toNat_ofInt_of_lt (Nat.lt_trans h7 (by decide))]
  have hdirty : ∀ i, (parent s).segment.Dirty i ↔ i < 4 * n := by
    intro i
    rw [parent, dirty_memset, dirty_memset, hp, hc, iff_false_intro (not_dirty_setupShmem (BitVec.ofInt 64 s.total) i)]
    simp only [shmAlloc, Nat.zero_le, Nat.zero_add, true_and, or_false]
    clear hs ht hsum
    omega
  refine ⟨parent s, by rw [run, hs, Option.map_some], hsize, ?_, ?_, ?_, hdirty, hsum⟩
  · exact congrArg (Mapping.mk 0) hu
  · exact congrArg (Mapping.mk 0) hp
  · exact congrArg (Mapping.mk 0) hc

theorem not_accounts_of_run {n : Nat} (h0 : 0 < n) (h7 : 7 * n < 0x8000000000000000) :
    ∃ p, run n = some p ∧ ¬ p.Accounts := by
  obtain ⟨p, hp, hsize, -, -, -, hdirty, hreport⟩ := run_eq h0 h7
  refine ⟨p, hp, fun h => ?_⟩
  have hcount : p.segment.dirtyBytes = 4 * n := by
    rw [Segment.dirtyBytes, hsize, ← count_lt (show 4 * n ≤ 7 * n by omega)]
    congr 1
    funext i
    exact propext (hdirty i)
  have hc := h.counted
  rw [hcount, hreport] at hc
  omega

/-- **No chunk size is accounted for as reported.** -/
theorem exists_not_accounts (c : Int) (h0 : 0 < c) (h7 : 7 * c < 0x8000000000000000) :
    ∃ p, run c = some p ∧ ¬ p.Accounts := by
  obtain ⟨n, rfl⟩ := Int.eq_ofNat_of_zero_le (Int.le_of_lt h0)
  exact not_accounts_of_run (by omega) (by omega)

theorem exists_not_accounts_mib : ∃ p, run 0x100000 = some p ∧ ¬ p.Accounts :=
  exists_not_accounts 0x100000 (by decide) (by decide)

/-- Chunks of one page. -/
theorem not_accounts_page : ∃ p, run 4096 = some p ∧ ¬ p.Accounts :=
  not_accounts_of_run (n := 4096) (by decide) (by decide)

end Shm
end ForkCow
end Scrapcode
