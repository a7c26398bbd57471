import Mathlib.Data.Nat.Basic
import Scrapcode.ByteText
/-!
# ArrayAdd — `intarrayadd.c`

`int4_array_add` refuses what it cannot add element by element, and then adds the Datums.  A Datum of an `int4` has 64
bits, so the sum there is exact.  `construct_array` stores the low 32 of them, and nothing looks at the others: a sum
that an `int4` does not hold comes back as another number (`addsExactly_iff`).

The element type is `int4` by the declaration of the function; its width and alignment are left out.
-/
namespace Scrapcode
namespace ArrayAdd

open ByteText (Str str)

/-- `ArrayGetNItems`. -/
def nItems : List Nat → Nat
  | []      => 0
  | d :: ds => ds.foldl (fun n d => n * d) d

/-- `MaxArraySize`. -/
def maxArraySize : Nat := 134217727

/-- An array of `int4`; an element that is null is `none`. -/
structure ArrayType where
  dims     : List Nat
  elements : List (Option (BitVec 32))
  pos      : ∀ d ∈ dims, 0 < d
  length   : elements.length = nItems dims
  max      : elements.length ≤ maxArraySize

inductive Error where
  | nullArrays
  | notOneDimensional
  | differentLengths
  | nullElements
  | sizeExceeds
deriving DecidableEq, Repr

def Error.text : Error → Str
  | .nullArrays        => "Null arrays not accepted".toList
  | .notOneDimensional => "One-dimesional arrays are required".toList
  | .differentLengths  => "Arrays are of different lengths".toList
  | .nullElements      => "Array contains null elements".toList
  | .sizeExceeds       => "array size exceeds the maximum allowed (".toList ++ str maxArraySize ++ ")".toList

abbrev Datum := BitVec 64

def int4GetDatum (x : BitVec 32) : Datum := x.signExtend 64

def arrayContainsNulls (array : ArrayType) : Bool := array.elements.any Option.isNone

/-- The Datums, with 0 for a null, and how many there are. -/
def deconstructArray (array : ArrayType) : List Datum × Nat :=
  (array.elements.map (fun x => int4GetDatum (x.getD 0)), array.elements.length)

def emptyArray : ArrayType where
  dims     := []
  elements := []
  pos      := fun _ h => absurd h List.not_mem_nil
  length   := rfl
  max      := Nat.zero_le _

def constructArray (elems : List Datum) : Except Error ArrayType :=
  if hmax : elems.length ≤ maxArraySize then
    if hpos : 0 < elems.length then
      .ok {
        dims     := [elems.length]
        elements := elems.map (fun x => some (x.setWidth 32))
        pos      := fun _ h => List.mem_singleton.1 h ▸ hpos
        length   := List.length_map _
        max      := by rwa [List.length_map] }
    else .ok emptyArray
  else .error .sizeExceeds

/-- The loop over the contents. -/
def sums (content1 content2 : List Datum) (length1 : Nat) : List Datum :=
  (List.range length1).map (fun i => content1.getD i 0 + content2.getD i 0)

def int4ArrayAdd (arg1 arg2 : Option ArrayType) : Except Error ArrayType :=
  match arg1, arg2 with
  | some array1, some array2 =>
    if array1.dims.length ≠ 1 ∨ array2.dims.length ≠ 1 then .error .notOneDimensional
    else if array1.dims.head? ≠ array2.dims.head? then .error .differentLengths
    else if arrayContainsNulls array1 = true ∨ arrayContainsNulls array2 = true then .error .nullElements
    else constructArray
      (sums (deconstructArray array1).1 (deconstructArray array2).1 (deconstructArray array1).2)
  | _, _ => .error .nullArrays

/-- The arrays are there, of one dimension and equal length, and have these elements. -/
structure Operands (arg1 arg2 : Option ArrayType) (xs ys : List (BitVec 32)) : Prop where
  first  : ∃ a, arg1 = some a ∧ a.dims = [xs.length] ∧ a.elements = xs.map some
  second : ∃ b, arg2 = some b ∧ b.dims = [ys.length] ∧ b.elements = ys.map some
  length : xs.length = ys.length

/-- **What is added is added exactly**: a result comes of operands only, and has their sums as its elements. -/
def AddsExactly (arg1 arg2 : Option ArrayType) : Prop :=
  ∀ r, int4ArrayAdd arg1 arg2 = .ok r → ∃ xs ys, Operands arg1 arg2 xs ys ∧
    ∃ zs : List (BitVec 32), r.dims = [xs.length] ∧ r.elements = zs.map some ∧
      zs.map BitVec.toInt = List.zipWith (fun x y => x.toInt + y.toInt) xs ys

/-- The sum is one of the numbers of 32 bits. -/
def SumFits (x y : BitVec 32) : Prop := -0x80000000 ≤ x.toInt + y.toInt ∧ x.toInt + y.toInt < 0x80000000

variable {arg1 arg2 : Option ArrayType} {xs ys : List (BitVec 32)}

/-! ## Narrowing -/

theorem setWidth_add_datum (x y : BitVec 32) : (int4GetDatum x + int4GetDatum y).setWidth 32 = x + y := by
  have hself : ∀ z : BitVec 32, (int4GetDatum z).setWidth 32 = z := by
    intro z
    apply BitVec.eq_of_getLsbD_eq
    intro i hi
    have h64 : i < 64 := by omega
    rw [BitVec.getLsbD_setWidth, int4GetDatum, BitVec.getLsbD_signExtend]
    simp only [hi, h64, if_true, decide_true, Bool.true_and]
  rw [BitVec.setWidth_add _ _ (by decide), hself, hself]

theorem toInt_add_eq_iff (x y : BitVec 32) : (x + y).toInt = x.toInt + y.toInt ↔ SumFits x y := by
  have hx : -0x80000000 ≤ x.toInt := BitVec.le_toInt x
  have hx' : x.toInt < 0x80000000 := BitVec.toInt_lt
  have hy : -0x80000000 ≤ y.toInt := BitVec.le_toInt y
  have hy' : y.toInt < 0x80000000 := BitVec.toInt_lt
  rw [BitVec.toInt_add, Int.bmod_def]
  unfold SumFits
  split_ifs <;> omega

theorem map_toInt_zipWith_iff :
    (List.zipWith (fun x y => x + y) xs ys).map BitVec.toInt = List.zipWith (fun x y => x.toInt + y.toInt) xs ys ↔
      ∀ p ∈ xs.zip ys, SumFits p.1 p.2 := by
  rw [List.map_zipWith, ← List.map_uncurry_zip_eq_zipWith, ← List.map_uncurry_zip_eq_zipWith, List.map_inj_left]
  exact forall₂_congr (fun p _ => toInt_add_eq_iff p.1 p.2)

/-! ## The contents -/

theorem deconstructArray_fst {array : ArrayType} (h : array.elements = xs.map some) :
    (deconstructArray array).1 = xs.map int4GetDatum := by
  rw [deconstructArray, h, List.map_map]
  rfl

theorem sums_eq (h : xs.length = ys.length) : sums (xs.map int4GetDatum) (ys.map int4GetDatum) xs.length =
    List.zipWith (fun x y => int4GetDatum x + int4GetDatum y) xs ys := by
  apply List.ext_getElem
  · simp [sums, h]
  · intro i h1 h2
    have hx : i < xs.length := by simpa [sums] using h1
    have hy : i < ys.length := h ▸ hx
    simp [sums, hx, hy]

theorem constructArray_ok {elems : List Datum} (hpos : 0 < elems.length) (hmax : elems.length ≤ maxArraySize) :
    ∃ r, constructArray elems = .ok r ∧ r.dims = [elems.length] ∧
      r.elements = elems.map (fun x => some (x.setWidth 32)) := by
  unfold constructArray
  rw [dif_pos hmax, dif_pos hpos]
  exact ⟨_, rfl, rfl, rfl⟩

theorem exists_map_some : ∀ {l : List (Option (BitVec 32))}, l.any Option.isNone = false →
    ∃ xs : List (BitVec 32), l = xs.map some
  | [], _          => ⟨[], rfl⟩
  | none :: l, h   => by cases h
  | some x :: l, h => by
    obtain ⟨xs, hxs⟩ := exists_map_some (l := l) h
    exact ⟨x :: xs, by rw [hxs]; rfl⟩

theorem map_some_injective : Function.Injective (List.map (some : BitVec 32 → Option (BitVec 32))) :=
  List.map_injective_iff.2 (fun _ _ h => Option.some.inj h)

/-! ## The function -/

/-- **Operands are added** in 32 bits. -/
theorem Operands.run (h : Operands arg1 arg2 xs ys) : ∃ r, int4ArrayAdd arg1 arg2 = .ok r ∧ r.dims = [xs.length] ∧
    r.elements = (List.zipWith (fun x y => x + y) xs ys).map some := by
  obtain ⟨⟨a, rfl, hadims, ha⟩, ⟨b, rfl, hbdims, hb⟩, hlen⟩ := h
  have hnulls : ∀ (c : ArrayType) (zs : List (BitVec 32)), c.elements = zs.map some → arrayContainsNulls c = false := by
    intro c zs hc
    rw [arrayContainsNulls, hc]
    simp
  have halen : (deconstructArray a).2 = xs.length := by rw [deconstructArray, ha, List.length_map]
  have hpos : 0 < xs.length := a.pos _ (hadims ▸ List.mem_cons_self)
  have hmax : xs.length ≤ maxArraySize := by
    have := a.max
    rwa [ha, List.length_map] at this
  have hsums : (List.zipWith (fun x y => int4GetDatum x + int4GetDatum y) xs ys).length = xs.length := by
    rw [List.length_zipWith, ← hlen, Nat.min_self]
  obtain ⟨r, hr, hrdims, hrelems⟩ := constructArray_ok (hsums ▸ hpos) (hsums ▸ hmax)
  refine ⟨r, ?_, by rw [hrdims, hsums], ?_⟩
  · rw [int4ArrayAdd, hadims, hbdims, if_neg (by simp), if_neg (by simp [hlen]), hnulls a xs ha, hnulls b ys hb,
      if_neg (by decide), deconstructArray_fst ha, deconstructArray_fst hb, halen, sums_eq hlen]
    exact hr
  · rw [hrelems, List.map_zipWith, List.map_zipWith]
    simp only [setWidth_add_datum]

/-- **Nothing else is.** -/
theorem exists_operands {r : ArrayType} (h : int4ArrayAdd arg1 arg2 = .ok r) : ∃ xs ys, Operands arg1 arg2 xs ys := by
  unfold int4ArrayAdd at h
  split at h
  · rename_i a b
    split_ifs at h with hdims hlen hnulls
    rw [not_or, not_not, not_not] at hdims
    rw [not_not] at hlen
    rw [not_or, Bool.not_eq_true, Bool.not_eq_true] at hnulls
    obtain ⟨xs, hxs⟩ := exists_map_some hnulls.1
    obtain ⟨ys, hys⟩ := exists_map_some hnulls.2
    obtain ⟨m, hm⟩ := List.length_eq_one_iff.1 hdims.1
    obtain ⟨n, hn⟩ := List.length_eq_one_iff.1 hdims.2
    have hxlen : xs.length = m := by
      have := a.length
      rwa [hxs, List.length_map, hm] at this
    have hylen : ys.length = n := by
      have := b.length
      rwa [hys, List.length_map, hn] at this
    have hmn : m = n := by
      rw [hm, hn] at hlen
      exact Option.some.inj hlen
    exact ⟨xs, ys, ⟨a, rfl, by rw [hm, hxlen], hxs⟩, ⟨b, rfl, by rw [hn, hylen], hys⟩, by rw [hxlen, hylen, hmn]⟩
  · cases h

theorem Operands.unique {xs' ys' : List (BitVec 32)} (h : Operands arg1 arg2 xs ys) (h' : Operands arg1 arg2 xs' ys') :
    xs = xs' ∧ ys = ys' := by
  obtain ⟨⟨a, rfl, -, ha⟩, ⟨b, rfl, -, hb⟩, -⟩ := h
  obtain ⟨⟨a', haa, -, ha'⟩, ⟨b', hbb, -, hb'⟩, -⟩ := h'
  cases haa
  cases hbb
  exact ⟨map_some_injective (ha.symm.trans ha'), map_some_injective (hb.symm.trans hb')⟩

/-- **The sums are exact** where each of them fits, or the arrays are refused. -/
theorem addsExactly_iff (arg1 arg2 : Option ArrayType) : AddsExactly arg1 arg2 ↔
    ∀ xs ys, Operands arg1 arg2 xs ys → ∀ p ∈ xs.zip ys, SumFits p.1 p.2 := by
  constructor
  · intro h xs ys hops
    obtain ⟨r, hr, -, helems⟩ := hops.run
    obtain ⟨xs', ys', hops', zs, -, hzs, hexact⟩ := h r hr
    obtain ⟨rfl, rfl⟩ := hops.unique hops'
    obtain rfl := map_some_injective (helems.symm.trans hzs)
    exact map_toInt_zipWith_iff.1 hexact
  · intro h r hr
    obtain ⟨xs, ys, hops⟩ := exists_operands hr
    obtain ⟨r', hr', hdims, helems⟩ := hops.run
    obtain rfl := Except.ok.inj (hr.symm.trans hr')
    exact ⟨xs, ys, hops, _, hdims, helems, map_toInt_zipWith_iff.2 (h xs ys hops)⟩

/-- An array of one element. -/
def single (x : BitVec 32) : ArrayType where
  dims     := [1]
  elements := [some x]
  pos      := by decide
  length   := rfl
  max      := Nat.le_of_ble_eq_true rfl

/-- 2147483647 + 1 is −2147483648. -/
theorem not_addsExactly_max : ¬ AddsExactly (some (single 0x7fffffff)) (some (single 1)) := by
  intro h
  have hops : Operands (some (single 0x7fffffff)) (some (single 1)) [0x7fffffff] [1] :=
    ⟨⟨single 0x7fffffff, rfl, rfl, rfl⟩, ⟨single 1, rfl, rfl, rfl⟩, rfl⟩
  obtain ⟨r, hr, -, helems⟩ := hops.run
  obtain ⟨xs, ys, hops', zs, -, hzs, hexact⟩ := h r hr
  obtain ⟨rfl, rfl⟩ := hops.unique hops'
  obtain rfl : [0x7fffffff + 1] = zs := map_some_injective (helems.symm.trans hzs)
  exact absurd hexact (by decide)

end ArrayAdd
end Scrapcode
