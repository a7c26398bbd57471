import Mathlib.Algebra.BigOperators.Group.List.Basic
import Mathlib.Data.Rat.Cast.Order
import Scrapcode.RingBuffer
/-!
# SoilMoisture — `Arduino_Resistive_Soil_Moisture_Sensor_1.ino`

`loop()` samples until the ten samples it keeps are close together, and reports their mean.  The ten are a ring that is
kept from one call to the next, and from ten readings on they are the last ten.  Before, the zeros that the ring starts
with are taken for samples, too, and small readings are close to zero: what is reported then is no mean of readings
(`keepsLaw_iff`).

An `int` has 16 bits.  The arithmetic of `float` is exact here, and so the variance stands for the deviation: `stdDev`
is its square root, and below 5 where the variance is below 25.  `lastSample` and `msDelayed`, which nothing reads, are
left out.
-/
namespace Scrapcode
namespace SoilMoisture

/-- What `analogRead` gives. -/
abbrev Reading := Fin 1024

structure Stats where
  mean     : ℚ
  -- the square of `stdDev`
  variance : ℚ

inductive Output where
  | mean (stats : Stats)
  | waiting
  | dot

/-- One pass of the `do`: where the sample goes, what each addition comes to, and the mean if it is reported. -/
structure Pass where
  stored   : Int
  sums     : List Int
  reported : Option ℚ
deriving DecidableEq

/-- The static variables, and what was done so far. -/
structure Sketch where
  samples        : List Int    := List.replicate 10 0
  nextSample     : Int         := 0
  lastResultGood : Bool        := true
  output         : List Output := []
  passes         : List Pass   := []

/-- `sampleSum + samples[i]`, which is noted as it is before it is cut to an `int`. -/
def addSample (acc : Int × List Int) (x : Int) : Int × List Int :=
  ((acc.1 + x).bmod (2 ^ 16), acc.2 ++ [acc.1 + x])

def sampleSum (samples : List Int) : Int × List Int := samples.foldl addSample (0, [])

def sqDevSum (sampleMean : ℚ) (samples : List Int) : ℚ :=
  samples.foldl (fun (sum : ℚ) (x : Int) => sum + (sampleMean - x) ^ 2) 0

def calcSampleStats (samples : List Int) : Stats where
  mean     := (sampleSum samples).1 / 10
  variance := sqDevSum ((sampleSum samples).1 / 10) samples / 10

def reportResult (s : Sketch) (stats : Stats) : Sketch × Bool :=
  if stats.variance < 25 then ({ s with lastResultGood := true, output := s.output ++ [.mean stats] }, true)
  else ({ s with
    lastResultGood := false
    output         := s.output ++ [if s.lastResultGood then Output.waiting else Output.dot] }, false)

/-- The index of the next store. -/
def slot (s : Sketch) : Int := if s.nextSample = 10 then 0 else s.nextSample

def store (s : Sketch) (reading : Reading) : Sketch :=
  { s with
    samples    := if 0 ≤ slot s then s.samples.set (slot s).toNat reading.val else s.samples
    nextSample := slot s + 1 }

def pass (s : Sketch) (reading : Reading) : Sketch × Bool :=
  let stored := store s reading
  let stats := calcSampleStats stored.samples
  let (s', good) := reportResult stored stats
  ({ s' with passes := s'.passes ++ [⟨slot s, (sampleSum stored.samples).2, if good then some stats.mean else none⟩] },
    good)

/-- One call, and the readings that are left after it, unless they end before it does. -/
def loop (s : Sketch) : List Reading → Sketch × Option (List Reading)
  | []                  => (s, none)
  | reading :: readings =>
    match pass s reading with
    | (s', true)  => (s', some readings)
    | (s', false) => loop s' readings

/-- Any number of calls. -/
def calls : Nat → Sketch → List Reading → Sketch
  | 0, s, _            => s
  | k + 1, s, readings =>
    match loop s readings with
    | (s', some rest) => calls k s' rest
    | (s', none)      => s'

/-! ## What is to be reported -/

def values (readings : List Reading) : List Int := readings.map (fun r => (r.val : Int))

def average (xs : List Int) : ℚ := (xs.sum : ℚ) / xs.length

def variance (xs : List Int) : ℚ := (xs.map (fun x : Int => (average xs - x) ^ 2)).sum / xs.length

/-- The last ten. -/
def recent (readings : List Reading) : List Reading := readings.drop (readings.length - 10)

/-- A pass is as it should be, after the readings `taken`. -/
structure Pass.Sound (p : Pass) (taken : List Reading) : Prop where
  stored   : 0 ≤ p.stored ∧ p.stored ≤ 9
  sums     : ∀ x ∈ p.sums, -2 ^ 15 ≤ x ∧ x < 2 ^ 15
  reported : ∀ mean, p.reported = some mean → 10 ≤ taken.length ∧ mean = average (values (recent taken))

/-- **Every pass is as it should be**: stores in the array, sums without overflow, and means of ten readings. -/
def KeepsLaw (k : Nat) (readings : List Reading) : Prop :=
  ∀ (i : Nat) (p : Pass), (calls k {} readings).passes[i]? = some p → p.Sound (readings.take (i + 1))

/-- The first readings and the zeros that are still in the ring. -/
def padded (readings : List Reading) : List Int := values readings ++ List.replicate (10 - readings.length) 0

/-! ## The statistics -/

theorem foldl_addSample (xs : List Int) (a : Int) (noted : List Int) (ha : 0 ≤ a) (hxs : ∀ x ∈ xs, 0 ≤ x ∧ x ≤ 1023)
    (hlen : a + 1023 * xs.length < 2 ^ 15) :
    (xs.foldl addSample (a, noted)).1 = a + xs.sum ∧
      ∀ x ∈ (xs.foldl addSample (a, noted)).2, x ∈ noted ∨ -2 ^ 15 ≤ x ∧ x < 2 ^ 15 := by
  induction xs generalizing a noted with
  | nil          => exact ⟨(Int.add_zero a).symm, fun x hx => Or.inl hx⟩
  | cons y xs ih =>
    have hy := hxs y List.mem_cons_self
    rw [List.length_cons] at hlen
    have hstep : addSample (a, noted) y = (a + y, noted ++ [a + y]) := by
      unfold addSample
      rw [Int.bmod_eq_of_le (by omega) (by omega)]
    have hrest := ih (a + y) (noted ++ [a + y]) (by omega) (fun x hx => hxs x (List.mem_cons_of_mem y hx)) (by omega)
    rw [List.foldl_cons, hstep, List.sum_cons]
    refine ⟨hrest.1.trans (Int.add_assoc a y xs.sum), fun x hx => ?_⟩
    rcases hrest.2 x hx with hnoted | hin
    · rcases List.mem_append.1 hnoted with hold | hnew
      · exact Or.inl hold
      · rw [List.mem_singleton.1 hnew]
        exact Or.inr (by omega)
    · exact Or.inr hin

/-- **The sum of ten readings** fits in an `int`, and so does each on the way to it. -/
theorem sampleSum_spec {xs : List Int} (hxs : ∀ x ∈ xs, 0 ≤ x ∧ x ≤ 1023) (hlen : xs.length = 10) :
    (sampleSum xs).1 = xs.sum ∧ ∀ x ∈ (sampleSum xs).2, -2 ^ 15 ≤ x ∧ x < 2 ^ 15 := by
  have hsum := foldl_addSample xs 0 [] le_rfl hxs (by rw [hlen]; omega)
  exact ⟨hsum.1.trans (Int.zero_add _), fun x hx => (hsum.2 x hx).resolve_left List.not_mem_nil⟩

theorem sqDevSum_eq (mean : ℚ) (xs : List Int) : sqDevSum mean xs = (xs.map (fun x : Int => (mean - x) ^ 2)).sum := by
  have hfold : ∀ (xs : List Int) (a : ℚ), xs.foldl (fun (sum : ℚ) (x : Int) => sum + (mean - x) ^ 2) a =
      a + (xs.map (fun x : Int => (mean - x) ^ 2)).sum := by
    intro xs
    induction xs with
    | nil          => exact fun a => (add_zero a).symm
    | cons y xs ih =>
      intro a
      rw [List.foldl_cons, ih, List.map_cons, List.sum_cons, add_assoc]
  exact (hfold xs 0).trans (zero_add _)

theorem calcSampleStats_eq {xs : List Int} (hxs : ∀ x ∈ xs, 0 ≤ x ∧ x ≤ 1023) (hlen : xs.length = 10) :
    calcSampleStats xs = ⟨average xs, variance xs⟩ := by
  have hmean : ((sampleSum xs).1 : ℚ) / 10 = average xs := by
    rw [(sampleSum_spec hxs hlen).1, average, hlen]
    rfl
  unfold calcSampleStats variance
  rw [hmean, sqDevSum_eq, hlen]
  rfl

variable {xs ys : List Int}

theorem average_perm (h : xs.Perm ys) : average xs = average ys := by
  unfold average
  rw [h.sum_eq, h.length_eq]

theorem variance_perm (h : xs.Perm ys) : variance xs = variance ys := by
  unfold variance
  rw [average_perm h, (h.map _).sum_eq, h.length_eq]

/-! ## The ring -/

def ring (taken : List Reading) : Ring Int 10 :=
  Ring.pushes ⟨List.replicate 10 0, 0, rfl, Nat.zero_le 10⟩ (values taken)

/-- What the samples are after the readings `taken`, the oldest first. -/
def latest (taken : List Reading) : List Int := (List.replicate 10 0 ++ values taken).drop taken.length

/-- The array and the index are those of a ring. -/
structure Represents (s : Sketch) (r : Ring Int 10) : Prop where
  samples    : s.samples = r.cells
  nextSample : s.nextSample = r.next

variable {taken : List Reading} {reading : Reading} {s : Sketch} {r : Ring Int 10}

@[simp] theorem length_values (taken : List Reading) : (values taken).length = taken.length := List.length_map _

theorem ring_concat (taken : List Reading) (reading : Reading) :
    ring (taken ++ [reading]) = (ring taken).push reading.val := by
  unfold ring values
  rw [List.map_append]
  exact Ring.pushes_concat _ _ _

theorem latest_perm_cells (taken : List Reading) : (latest taken).Perm (ring taken).cells := by
  have hwindow : (ring taken).window = latest taken := by
    rw [ring, Ring.window_pushes, length_values]
    rfl
  rw [← hwindow]
  exact (ring taken).window_perm

theorem length_cells (taken : List Reading) : (ring taken).cells.length = 10 := (ring taken).length

theorem mem_latest {x : Int} (h : x ∈ latest taken) : 0 ≤ x ∧ x ≤ 1023 := by
  rcases List.mem_append.1 (List.mem_of_mem_drop h) with hzero | hvalue
  · rw [List.eq_of_mem_replicate hzero]
    omega
  · obtain ⟨reading, -, rfl⟩ := List.mem_map.1 hvalue
    have hlt := reading.isLt
    omega

theorem mem_cells : ∀ x ∈ (ring taken).cells, 0 ≤ x ∧ x ≤ 1023 :=
  fun _ hx => mem_latest ((latest_perm_cells taken).mem_iff.2 hx)

/-- **From ten readings on** the samples are the last ten. -/
theorem latest_of_le (h : 10 ≤ taken.length) : latest taken = values (recent taken) := by
  have hsplit : taken.length = (List.replicate 10 (0 : Int)).length + (taken.length - 10) := by
    rw [List.length_replicate]; omega
  unfold latest recent values
  rw [hsplit, List.drop_length_add_append, List.map_drop]
  congr 1
  omega

/-- Before, they are the readings and zeros. -/
theorem latest_perm_padded (h : taken.length < 10) : (latest taken).Perm (padded taken) := by
  unfold latest padded
  rw [List.drop_append_of_le_length (by rw [List.length_replicate]; omega), List.drop_replicate]
  exact List.perm_append_comm

theorem calcSampleStats_ring (taken : List Reading) :
    calcSampleStats (ring taken).cells = ⟨average (latest taken), variance (latest taken)⟩ := by
  rw [calcSampleStats_eq mem_cells (length_cells taken), average_perm (latest_perm_cells taken),
    variance_perm (latest_perm_cells taken)]

/-! ## One pass -/

theorem slot_eq (h : Represents s r) : slot s = r.slot := by
  unfold slot Ring.slot
  rw [h.nextSample]
  split_ifs <;> omega

theorem store_represents (h : Represents s r) (reading : Reading) :
    Represents (store s reading) (r.push reading.val) := by
  have hslot := slot_eq h
  constructor
  · unfold store
    rw [hslot, if_pos (Int.natCast_nonneg _), Int.toNat_natCast, h.samples]
    rfl
  · exact congrArg (· + 1) hslot

/-- What a pass does after the readings `taken`. -/
def entry (taken : List Reading) (reading : Reading) : Pass where
  stored   := (ring taken).slot
  sums     := (sampleSum (ring (taken ++ [reading])).cells).2
  reported :=
    if variance (latest (taken ++ [reading])) < 25 then some (average (latest (taken ++ [reading]))) else none

theorem pass_spec (h : Represents s (ring taken)) (reading : Reading) :
    Represents (pass s reading).1 (ring (taken ++ [reading])) ∧
      (pass s reading).1.passes = s.passes ++ [entry taken reading] ∧
      (pass s reading).2 = decide (variance (latest (taken ++ [reading])) < 25) := by
  have hstore : Represents (store s reading) (ring (taken ++ [reading])) := by
    rw [ring_concat]
    exact store_represents h reading
  have hstats := calcSampleStats_ring (taken ++ [reading])
  unfold pass reportResult entry
  simp only [hstore.samples, hstats, slot_eq h]
  by_cases hgood : variance (latest (taken ++ [reading])) < 25
  · simp only [if_pos hgood, decide_eq_true hgood]
    exact ⟨⟨rfl, hstore.nextSample⟩, rfl, trivial⟩
  · simp only [if_neg hgood, decide_eq_false hgood]
    exact ⟨⟨rfl, hstore.nextSample⟩, rfl, trivial⟩

/-- **A pass is as it should be** unless it reports before the tenth reading. -/
theorem entry_sound_iff (taken : List Reading) (reading : Reading) : (entry taken reading).Sound (taken ++ [reading]) ↔
    (variance (latest (taken ++ [reading])) < 25 → 10 ≤ (taken ++ [reading]).length) := by
  constructor
  · intro h hgood
    exact (h.reported _ (if_pos hgood)).1
  · intro h
    have hslot := (ring taken).slot_lt
    refine ⟨⟨Int.natCast_nonneg _, ?_⟩, (sampleSum_spec mem_cells (length_cells _)).2, fun mean hmean => ?_⟩
    · show ((ring taken).slot : Int) ≤ 9
      omega
    · by_cases hgood : variance (latest (taken ++ [reading])) < 25
      · have hmean' : average (latest (taken ++ [reading])) = mean := Option.some.inj ((if_pos hgood).symm.trans hmean)
        exact ⟨h hgood, by rw [← hmean', latest_of_le (h hgood)]⟩
      · exact absurd ((if_neg hgood).symm.trans hmean) (by simp)

/-! ## All passes -/

/-- The state after the readings `taken`. -/
def after (taken : List Reading) : Sketch := taken.foldl (fun s reading => (pass s reading).1) {}

theorem after_concat (taken : List Reading) (reading : Reading) :
    after (taken ++ [reading]) = (pass (after taken) reading).1 := List.foldl_concat _ _ _ _

theorem represents_after (taken : List Reading) : Represents (after taken) (ring taken) := by
  induction taken using List.reverseRecOn with
  | nil                              => exact ⟨rfl, rfl⟩
  | append_singleton taken reading h =>
    rw [after_concat]
    exact (pass_spec h reading).1

theorem passes_concat (taken : List Reading) (reading : Reading) :
    (after (taken ++ [reading])).passes = (after taken).passes ++ [entry taken reading] := by
  rw [after_concat]
  exact (pass_spec (represents_after taken) reading).2.1

theorem length_passes (taken : List Reading) : (after taken).passes.length = taken.length := by
  induction taken using List.reverseRecOn with
  | nil                               => rfl
  | append_singleton taken reading ih => rw [passes_concat, List.length_append, List.length_append, ih]; rfl

/-- Each reading has its pass. -/
theorem passes_getElem? (taken : List Reading) (reading : Reading) (later : List Reading) :
    (after (taken ++ reading :: later)).passes[taken.length]? = some (entry taken reading) := by
  induction later using List.reverseRecOn with
  | nil                           =>
    rw [passes_concat, ← length_passes taken]
    exact List.getElem?_concat_length
  | append_singleton later x ih =>
    rw [← List.cons_append, ← List.append_assoc, passes_concat, List.getElem?_append_left, ih]
    rw [length_passes, List.length_append, List.length_cons]
    omega

/-- **A call** takes readings, and not fewer than it needs to come to the first good result. -/
theorem loop_after (readings taken : List Reading) : ∃ n, n ≤ readings.length ∧
    (loop (after taken) readings).1 = after (taken ++ readings.take n) ∧
    (∀ rest, (loop (after taken) readings).2 = some rest → rest = readings.drop n) ∧
    ∀ m, m < readings.length → (∀ j, j < m → ¬ variance (latest (taken ++ readings.take (j + 1))) < 25) → m < n := by
  induction readings generalizing taken with
  | nil                      =>
    refine ⟨0, le_rfl, ?_, fun rest h => ?_, fun m hm => absurd hm (Nat.not_lt_zero m)⟩
    · rw [List.take_nil, List.append_nil]
      rfl
    · cases h
  | cons reading readings ih =>
    have hpass : pass (after taken) reading =
        (after (taken ++ [reading]), decide (variance (latest (taken ++ [reading])) < 25)) :=
      Prod.ext (after_concat taken reading).symm (pass_spec (represents_after taken) reading).2.2
    by_cases hgood : variance (latest (taken ++ [reading])) < 25
    · have hloop : loop (after taken) (reading :: readings) = (after (taken ++ [reading]), some readings) := by
        rw [decide_eq_true hgood] at hpass
        rw [loop, hpass]
      refine ⟨1, by simp, by rw [hloop]; rfl, fun rest h => ?_, fun m hm hbad => ?_⟩
      · rw [hloop] at h
        exact (Option.some.inj h).symm
      · refine Nat.lt_one_iff.2 (Nat.eq_zero_of_not_pos (fun hpos => hbad 0 hpos hgood))
    · have hloop : loop (after taken) (reading :: readings) = loop (after (taken ++ [reading])) readings := by
        rw [decide_eq_false hgood] at hpass
        rw [loop, hpass]
      obtain ⟨n, hn, hstate, hrest, hfirst⟩ := ih (taken ++ [reading])
      have hassoc : ∀ j, taken ++ (reading :: readings).take (j + 1) = taken ++ [reading] ++ readings.take j := by
        intro j
        rw [List.take_succ_cons, List.append_assoc, List.singleton_append]
      refine ⟨n + 1, Nat.succ_le_succ hn, by rw [hloop, hstate, hassoc], fun rest h => ?_, fun m hm hbad => ?_⟩
      · exact hrest rest (by rwa [← hloop])
      · cases m with
        | zero   => exact Nat.succ_pos n
        | succ m =>
          refine Nat.succ_lt_succ (hfirst m (Nat.lt_of_succ_lt_succ hm) (fun j hj => ?_))
          rw [← hassoc]
          exact hbad (j + 1) (Nat.succ_lt_succ hj)

/-- **Any number of calls** take some of the readings, one after the other. -/
theorem calls_after (k : Nat) (readings taken : List Reading) : ∃ n, n ≤ readings.length ∧
    calls k (after taken) readings = after (taken ++ readings.take n) ∧
    (k ≠ 0 → ∀ m, m < readings.length →
      (∀ j, j < m → ¬ variance (latest (taken ++ readings.take (j + 1))) < 25) → m < n) := by
  induction k generalizing readings taken with
  | zero      => exact ⟨0, Nat.zero_le _, by rw [List.take_zero, List.append_nil]; rfl, fun h => absurd rfl h⟩
  | succ k ih =>
    obtain ⟨n, hn, hstate, hrest, hfirst⟩ := loop_after readings taken
    unfold calls
    cases hloop : loop (after taken) readings with
    | mk s rest =>
      rw [hloop] at hstate hrest
      cases rest with
      | none      => exact ⟨n, hn, hstate, fun _ => hfirst⟩
      | some rest =>
        obtain ⟨n', hn', hstate', -⟩ := ih rest (taken ++ readings.take n)
        have hdrop := hrest rest rfl
        subst hdrop
        rw [List.length_drop] at hn'
        refine ⟨n + n', by omega, ?_, fun _ m hm hbad => Nat.lt_of_lt_of_le (hfirst m hm hbad) (Nat.le_add_right n n')⟩
        rw [List.take_add, ← List.append_assoc, ← hstate']
        exact congrArg (fun s => calls k s (readings.drop n)) hstate

/-- What is noted for reading `i` of those that are taken. -/
theorem passes_take {readings : List Reading} {n i : Nat} (hn : n ≤ readings.length) (hi : i < n)
    (hlt : i < readings.length) :
    (after (readings.take n)).passes[i]? = some (entry (readings.take i) readings[i]) := by
  have hlen : i < (readings.take n).length := by rwa [List.length_take_of_le hn]
  have hsplit : readings.take n = readings.take i ++ readings[i] :: (readings.take n).drop (i + 1) := by
    conv_lhs => rw [← List.take_append_drop i (readings.take n), List.drop_eq_getElem_cons hlen, List.getElem_take,
      List.take_take, Nat.min_eq_left hi.le]
  have hfound := passes_getElem? (readings.take i) readings[i] ((readings.take n).drop (i + 1))
  rwa [← hsplit, List.length_take_of_le hlt.le] at hfound

/-- Before the ring is full, its cells are the readings and zeros. -/
theorem variance_padded {readings : List Reading} {n : Nat} (hten : n < 10) (hle : n ≤ readings.length) :
    variance (padded (readings.take n)) = variance (latest (readings.take n)) :=
  (variance_perm (latest_perm_padded (by rwa [List.length_take_of_le hle]))).symm

theorem entry_take_sound_iff {readings : List Reading} {i : Nat} (hi : i < readings.length) :
    (entry (readings.take i) readings[i]).Sound (readings.take (i + 1)) ↔
      (variance (latest (readings.take (i + 1))) < 25 → 10 ≤ i + 1) := by
  have hsound := entry_sound_iff (readings.take i) readings[i]
  rwa [List.take_append_getElem, List.length_take_of_le hi] at hsound

/-- **The law holds** where no call is made, or the first readings with the zeros never are as close together as good
samples. -/
theorem keepsLaw_iff (k : Nat) (readings : List Reading) : KeepsLaw k readings ↔
    k = 0 ∨ ∀ n, 0 < n → n < 10 → n ≤ readings.length → 25 ≤ variance (padded (readings.take n)) := by
  obtain ⟨taken, htaken, hcalls, hfirst⟩ := calls_after k readings []
  have hpasses : (calls k {} readings).passes = (after (readings.take taken)).passes := congrArg Sketch.passes hcalls
  unfold KeepsLaw
  rw [hpasses]
  constructor
  · intro h
    refine or_iff_not_imp_left.2 (fun hk n => ?_)
    -- the first good result is reported in the first call
    induction n using Nat.strong_induction_on with
    | _ n ih =>
      intro hpos hten hle
      obtain ⟨m, rfl⟩ := Nat.exists_eq_succ_of_ne_zero hpos.ne'
      have hreached : m < taken := by
        refine hfirst hk m (by omega) (fun j hj => not_lt.2 ?_)
        rw [List.nil_append, ← variance_padded (n := j + 1) (by omega) (by omega)]
        exact ih (j + 1) (by omega) (by omega) (by omega) (by omega)
      have hreport := (entry_take_sound_iff hle).1 (h m _ (passes_take htaken hreached hle))
      rw [variance_padded hten hle, ← not_lt]
      exact fun hgood => absurd (hreport hgood) (by omega)
  · rintro (rfl | hcond) i p hp
    · rw [← hpasses] at hp
      cases hp
    · have hi : i < taken := by
        have hlt := (List.getElem?_eq_some_iff.1 hp).1
        rwa [length_passes, List.length_take_of_le htaken] at hlt
      have hlt := hi.trans_le htaken
      rw [passes_take htaken hi hlt] at hp
      rw [← Option.some.inj hp, entry_take_sound_iff hlt]
      intro hgood
      by_contra hten
      have hfar := hcond (i + 1) (Nat.succ_pos i) (by omega) hlt
      rw [variance_padded (by omega) hlt] at hfar
      exact absurd hgood (not_lt.2 hfar)

/-- One reading of 10, and nine zeros: the mean of 1 is reported. -/
theorem not_keepsLaw_ten : ¬ KeepsLaw 1 [10] := by
  intro h
  have hp := (h 0 ⟨0, [10, 10, 10, 10, 10, 10, 10, 10, 10, 10], some 1⟩ (by decide +kernel)).reported 1 rfl
  exact absurd hp.1 (by decide)

end SoilMoisture
end Scrapcode
