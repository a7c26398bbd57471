import Scrapcode.ByteText
import Scrapcode.PromtortureSeries
/-!
# PromtortureTargets — from `--targets` to the number of targets

`parseTargets` checks each value of the list: it is a number of 32 bits, and at least 1.  `CreateRegistry` multiplies
them in 64 bits, which nothing checks.  So the product may be another number: a negative one, of which `make` makes no
slice, or a smaller one, zero among them, and then so many targets have series.
-/
namespace Scrapcode
namespace Promtorture

open MixedRadix
open ByteText (Str)

/-! ## `parseTargets` -/

inductive NumError where
  | invalidSyntax
  | outOfRange
deriving DecidableEq, Repr

/-- An element is refused, with what the message prints. -/
inductive TargetsError where
  | notParsed (targetsParam element : Str) (i : Nat) (err : NumError)
  | notPositive (targetsParam element : Str) (i : Nat)
deriving DecidableEq, Repr

/-- The loop of `strconv.ParseUint` in base 10 for 32 bits. -/
def parseUint : Nat → Str → Except NumError Nat
  | n, []      => .ok n
  | n, c :: cs =>
    if c.isDigit then
      if 2 ^ 32 - 1 < n * 10 + (c.toNat - '0'.toNat) then .error .outOfRange
      else parseUint (n * 10 + (c.toNat - '0'.toNat)) cs
    else .error .invalidSyntax

def parseMagnitude (neg : Bool) (s : Str) : Except NumError Int :=
  if s = [] then .error .invalidSyntax
  else
    match parseUint 0 s with
    | .error err => .error err
    | .ok un     =>
      if neg then if 2 ^ 31 < un then .error .outOfRange else .ok (-(un : Int))
      else if 2 ^ 31 ≤ un then .error .outOfRange else .ok (un : Int)

/-- `strconv.ParseInt(t, 10, 32)`. -/
def parseInt : Str → Except NumError Int
  | '+' :: s => parseMagnitude false s
  | '-' :: s => parseMagnitude true s
  | s        => parseMagnitude false s

def parseTarget (targetsParam : Str) (t : Str × Nat) : Except TargetsError Int :=
  match parseInt t.1 with
  | .error err => .error (.notParsed targetsParam t.1 t.2 err)
  | .ok tn     => if tn < 1 then .error (.notPositive targetsParam t.1 t.2) else .ok tn

def parseTargets (targetsParam : Str) : Except TargetsError (List Int) :=
  (targetsParam.splitOn ',').zipIdx.mapM (parseTarget targetsParam)

theorem mapM_mem {ε α β : Type} {f : α → Except ε β} : ∀ {xs : List α} {ys : List β}, xs.mapM f = .ok ys →
    ∀ y ∈ ys, ∃ x ∈ xs, f x = .ok y
  | [], ys, h, y, hy => by
    cases h
    cases hy
  | x :: xs, ys, h, y, hy => by
    rw [List.mapM_cons] at h
    cases hx : f x with
    | error e => rw [hx] at h; cases h
    | ok z =>
      rw [hx] at h
      cases hxs : xs.mapM f with
      | error e => rw [hxs] at h; cases h
      | ok zs =>
        rw [hxs] at h
        cases h
        rcases List.mem_cons.1 hy with rfl | hy
        · exact ⟨x, List.mem_cons_self, hx⟩
        · obtain ⟨x', hx', hy'⟩ := mapM_mem hxs y hy
          exact ⟨x', List.mem_cons_of_mem x hx', hy'⟩

theorem parseMagnitude_lt {neg : Bool} {s : Str} {n : Int} (h : parseMagnitude neg s = .ok n) : n < 2 ^ 31 := by
  unfold parseMagnitude at h
  split at h
  · cases h
  · split at h
    · cases h
    · split_ifs at h with hneg hlt hle
      · cases h; omega
      · cases h; omega

/-- **What is accepted** is positive and below 2³¹. -/
theorem parseTargets_range {s : Str} {ts : List Int} (h : parseTargets s = .ok ts) :
    ∀ t ∈ ts, 1 ≤ t ∧ t < 2 ^ 31 := by
  intro t ht
  obtain ⟨x, -, hx⟩ := mapM_mem h t ht
  unfold parseTarget at hx
  split at hx
  · cases hx
  · rename_i tn hparse
    split_ifs at hx with hlt
    cases hx
    refine ⟨by omega, ?_⟩
    unfold parseInt at hparse
    split at hparse
    · exact parseMagnitude_lt hparse
    · exact parseMagnitude_lt hparse
    · exact parseMagnitude_lt hparse

example : parseTargets "2,+3".toList = .ok [2, 3] := by decide

/-! ## The number of targets -/

variable {P : Prometheus} {cfg : Config} {bs : List Nat} {m : Metrics P}

/-- **One series for each target**: a registry that is made has, in each vector but the one about the configuration, as
many series as the product of the values says. -/
def OneForEach (P : Prometheus) (cfg : Config) : Prop :=
  ∀ r, createRegistry P cfg = .ok r → ∀ v ∈ P.collectors r, (P.describe v).name ≠ tortureDesc.name →
    {labels | (P.collect v labels).isSome}.ncard = (product cfg.targets).toNat

/-- **The product is counted**: 64 bits hold it, or what they hold of it is negative and refused; or the configuration
is refused for its other numbers, or has no metric of a target. -/
def Config.Counted (cfg : Config) : Prop :=
  product cfg.targets < 2 ^ 63 ∨ wrap (product cfg.targets) < 0 ∨ ¬ cfg.Sized ∨
    (cfg.infoMetricsLabels = 0 ∧ cfg.gaugeMetrics = 0)

/-- The vectors with a series for each target. -/
def Metrics.perTarget (cfg : Config) (m : Metrics P) : List P.GaugeVec :=
  (if cfg.infoMetricsLabels > 0 then [m.infoMetric] else []) ++ m.gaugeMetrics

theorem mem_perTarget (h : Described P cfg m) {v : P.GaugeVec} :
    (v ∈ m.registered cfg ∧ (P.describe v).name ≠ tortureDesc.name) ↔ v ∈ m.perTarget cfg := by
  have hother : ∀ v ∈ m.perTarget cfg, (P.describe v).name ≠ tortureDesc.name := by
    intro v hv
    rcases List.mem_append.1 hv with hv | hv
    · split_ifs at hv
      · rw [List.mem_singleton.1 hv, h.info]
        exact (show "target_info" ≠ "promtorture_info" by decide)
      · cases hv
    · exact (h.ne_gaugeName (s := tortureDesc.name) (by decide) v hv).symm
  have hreg : m.registered cfg = m.tortureMetric :: m.perTarget cfg := rfl
  rw [hreg, List.mem_cons]
  constructor
  · rintro ⟨rfl | hv, hne⟩
    · exact absurd (congrArg Desc.name h.torture) hne
    · exact hv
  · exact fun hv => ⟨Or.inr hv, hother v hv⟩

/-- **After the loop each vector has one series for each target it went over.** -/
theorem FillsWith.count {n : Nat} {val : Nat → Int} (h : FillsWith P cfg bs val n m) (hn : n ≤ prod bs)
    {v : P.GaugeVec} (hv : v ∈ m.perTarget cfg) : {labels | (P.collect v labels).isSome}.ncard = n := by
  rcases List.mem_append.1 hv with hv | hv
  · by_cases hpos : cfg.infoMetricsLabels > 0
    · rw [if_pos hpos] at hv
      rw [List.mem_singleton.1 hv]
      exact (h.info hpos).count (fun _ _ hi hj => infoKeys_injOn (Nat.lt_of_lt_of_le hi hn) (Nat.lt_of_lt_of_le hj hn))
    · rw [if_neg hpos] at hv
      cases hv
  · exact (h.gauges v hv).count (fun _ _ hi hj => keys_injOn (Nat.lt_of_lt_of_le hi hn) (Nat.lt_of_lt_of_le hj hn))

theorem perTarget_eq_nil (h : Described P cfg m) (hsized : cfg.Sized) :
    m.perTarget cfg = [] ↔ cfg.infoMetricsLabels = 0 ∧ cfg.gaugeMetrics = 0 := by
  have hinfo : (if cfg.infoMetricsLabels > 0 then [m.infoMetric] else []) = [] ↔ cfg.infoMetricsLabels = 0 := by
    have := hsized.1
    by_cases hpos : cfg.infoMetricsLabels > 0
    · rw [if_pos hpos]
      exact iff_of_false (List.cons_ne_nil m.infoMetric []) (by omega)
    · rw [if_neg hpos]
      exact iff_of_true rfl (by omega)
  have hgauges : m.gaugeMetrics = [] ↔ cfg.gaugeMetrics = 0 := by
    have hlen := congrArg List.length h.gauges
    rw [List.length_map, List.length_map, List.length_range] at hlen
    have := hsized.2.2
    rw [← List.length_eq_zero_iff]
    omega
  unfold Metrics.perTarget
  rw [List.append_eq_nil_iff, hinfo, hgauges]

/-- What 64 bits hold of a number is not more than the number. -/
theorem wrap_natCast_cases (n : Nat) :
    wrap n < 0 ∨ ∃ k : Nat, wrap n = k ∧ k ≤ n ∧ k < 2 ^ 63 ∧ (k = n ↔ n < 2 ^ 63) := by
  by_cases h0 : wrap n < 0
  · exact Or.inl h0
  · obtain ⟨k, hk⟩ := Int.eq_ofNat_of_zero_le (Int.not_lt.1 h0)
    have hlt : wrap n < 2 ^ 63 := Int.bmod_lt (by decide)
    by_cases hn : n < 2 ^ 63
    · rw [wrap_natCast hn] at hk
      exact Or.inr ⟨n, wrap_natCast hn, Nat.le_refl n, hn, iff_of_true rfl hn⟩
    · exact Or.inr ⟨k, hk, by omega, by omega, iff_of_false (by omega) hn⟩

/-- **A registry that is made has as many targets as the loop goes over.** -/
theorem createRegistry_counts (hP : P.Lawful) (hcfg : cfg.targets = ints bs) (hbs : ∀ b ∈ bs, 0 < b)
    (hsized : cfg.Sized) {k : Nat} (htotal : totalTargets cfg = k) (hk : k ≤ prod bs) (hk63 : k < 2 ^ 63) :
    ∃ r m, createRegistry P cfg = .ok r ∧ Described P cfg m ∧ P.collectors r = m.registered cfg ∧
      ∀ v ∈ m.perTarget cfg, {labels | (P.collect v labels).isSome}.ncard = k := by
  obtain ⟨m₀, hm₀, hdesc, hinfo, hgauges⟩ := newMetrics_ok hP hsized
  obtain ⟨m, r, hset, hfill, hr, hcollectors, hdesc'⟩ :=
    setTargets_registered hP hcfg hbs hdesc (fills_zero hcfg hdesc hinfo hgauges) hk hk63
  refine ⟨r, m, ?_, hdesc', hcollectors, fun v hv => hfill.count hk hv⟩
  rw [createRegistry_eq hm₀ htotal, hset]
  exact hr

theorem createRegistry_error_of_neg (htotal : totalTargets cfg < 0) : ∃ e, createRegistry P cfg = .error e := by
  unfold createRegistry
  cases newMetrics P cfg with
  | error e => exact ⟨e, rfl⟩
  | ok m₀   =>
    show ∃ e, (makeslice (totalTargets cfg) >>= _) = _
    rw [makeslice, if_pos htotal]
    exact ⟨_, rfl⟩

theorem createRegistry_error_of_not_sized (P : Prometheus) (hsized : ¬ cfg.Sized) :
    ∃ e, createRegistry P cfg = .error e ∧ (e = .makesliceLenOutOfRange ∨ e = .indexOutOfRange) := by
  obtain ⟨e, he, hkind⟩ := newMetrics_error P hsized
  refine ⟨e, ?_, hkind⟩
  unfold createRegistry
  rw [he]
  rfl

theorem oneForEach_of_error (h : ∃ e, createRegistry P cfg = .error e) : OneForEach P cfg := by
  obtain ⟨e, he⟩ := h
  intro r hr
  rw [he] at hr
  cases hr

/-- A registry with `k` targets has one for each of the product, if they are as many or no vector shows them. -/
theorem oneForEach_iff_of_counts {k : Nat} {r : P.Registry} (hrun : createRegistry P cfg = .ok r)
    (hdesc : Described P cfg m) (hcollectors : P.collectors r = m.registered cfg)
    (hcount : ∀ v ∈ m.perTarget cfg, {labels | (P.collect v labels).isSome}.ncard = k) :
    OneForEach P cfg ↔ k = (product cfg.targets).toNat ∨ m.perTarget cfg = [] := by
  constructor
  · intro h
    cases hvs : m.perTarget cfg with
    | nil       => exact Or.inr rfl
    | cons v vs =>
      have hv : v ∈ m.perTarget cfg := hvs ▸ List.mem_cons_self
      obtain ⟨hreg, hname⟩ := (mem_perTarget hdesc).2 hv
      exact Or.inl ((hcount v hv).symm.trans (h r hrun v (hcollectors ▸ hreg) hname))
  · intro h r' hr' v hv hname
    rw [hrun] at hr'
    cases hr'
    have hmem := (mem_perTarget hdesc).1 ⟨hcollectors ▸ hv, hname⟩
    rcases h with h | h
    · rw [hcount v hmem, h]
    · rw [h] at hmem
      cases hmem

/-- **Each target has its series** exactly where the product is counted. -/
theorem oneForEach_iff (hP : P.Lawful) (cfg : Config) {s : Str} (hs : parseTargets s = .ok cfg.targets) :
    OneForEach P cfg ↔ cfg.Counted := by
  obtain ⟨bs, hcfg, hbs⟩ := exists_ints (fun t ht => (parseTargets_range hs t ht).1)
  have hprod : product cfg.targets = prod bs := by rw [hcfg, product_ints]
  have htotal : totalTargets cfg = wrap (prod bs) := by rw [totalTargets_eq, hprod]
  unfold Config.Counted
  by_cases hsized : cfg.Sized
  · rcases wrap_natCast_cases (prod bs) with hneg | ⟨k, hk, hle, hk63, heq⟩
    · refine iff_of_true (oneForEach_of_error (createRegistry_error_of_neg (htotal ▸ hneg))) (Or.inr (Or.inl ?_))
      rw [hprod]; exact hneg
    · obtain ⟨r, m, hrun, hdesc, hcollectors, hcount⟩ :=
        createRegistry_counts hP hcfg hbs hsized (htotal.trans hk) hle hk63
      have hnot : ¬ cfg.Sized ↔ False := iff_of_false (not_not_intro hsized) id
      rw [oneForEach_iff_of_counts hrun hdesc hcollectors hcount, perTarget_eq_nil hdesc hsized, hprod,
        Int.toNat_natCast, heq, hk, hnot, false_or]
      omega
  · obtain ⟨e, he, -⟩ := createRegistry_error_of_not_sized P hsized
    exact iff_of_true (oneForEach_of_error ⟨e, he⟩) (Or.inr (Or.inr (Or.inl hsized)))

theorem oneForEach_iff_twoByThree : OneForEach seriesMaps twoByThree ↔ twoByThree.Counted :=
  oneForEach_iff seriesMaps_lawful twoByThree (show parseTargets "2,3".toList = _ by decide)

/-- The product is 2⁶⁴. -/
def wrapsToZero : Config where
  targets := [65536, 65536, 65536, 65536]
  infoMetricsLabels := 0
  gaugeMetrics := 1
  int_range := by decide
  length_lt := by decide

/-- **A product of 2⁶⁴ targets** is counted as none. -/
theorem not_oneForEach_wrapsToZero :
    parseTargets "65536,65536,65536,65536".toList = .ok wrapsToZero.targets ∧ ¬ OneForEach seriesMaps wrapsToZero := by
  refine ⟨by decide, ?_⟩
  have hcfg : wrapsToZero.targets = ints [65536, 65536, 65536, 65536] := rfl
  have hsized : wrapsToZero.Sized := ⟨by decide, by decide, by decide⟩
  have htotal : totalTargets wrapsToZero = (0 : Nat) := by decide
  obtain ⟨r, m, hrun, hdesc, hcollectors, hcount⟩ :=
    createRegistry_counts seriesMaps_lawful hcfg (by decide) hsized htotal (Nat.zero_le _) (by decide)
  rw [oneForEach_iff_of_counts hrun hdesc hcollectors hcount, perTarget_eq_nil hdesc hsized]
  decide

end Promtorture
end Scrapcode
