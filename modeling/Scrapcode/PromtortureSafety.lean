import Scrapcode.PromtortureTargets
/-!
# PromtortureSafety — what `CreateRegistry` may panic of

The slices are made from sums of the flags and filled by loops of their own.  The library is taken as strict here: a
vector panics of label values that are not as many as its label names.  With targets that `parseTargets` accepts
nothing panics exactly where the other two flags are lengths (`Config.Sized`), which `root.go` does not check.
-/
namespace Scrapcode
namespace Promtorture

open MixedRadix
open ByteText (Str)

def inconsistentCardinality : Panic := .prometheus "inconsistent label cardinality"

/-- The library, with `WithLabelValues` panicking of another number of values. -/
def Prometheus.strict (P : Prometheus) : Prometheus :=
  { P with set := fun v labels x =>
      if labels.length = (P.describe v).labelNames.length then P.set v labels x else .error inconsistentCardinality }

/-- A slice of negative length, an index out of range, a division by zero, or a wrong number of label values. -/
def Panic.Slip (e : Panic) : Prop :=
  e = .makesliceLenOutOfRange ∨ e = .indexOutOfRange ∨ e = .divideByZero ∨ e = inconsistentCardinality

def Metrics.vectors {P : Prometheus} (m : Metrics P) : List P.GaugeVec :=
  m.tortureMetric :: m.infoMetric :: m.gaugeMetrics

/-- **`CreateRegistry` is safe**: it does not slip, and the label names of each vector it makes are distinct. -/
structure Safe (P : Prometheus) (cfg : Config) : Prop where
  noSlip : ∀ e, createRegistry P.strict cfg = .error e → ¬ e.Slip
  labels : ∀ m, newMetrics P cfg = .ok m → ∀ v ∈ m.vectors, (P.describe v).labelNames.Nodup

variable {P : Prometheus} {cfg : Config}

theorem strict_lawful (hP : P.Lawful) : P.strict.Lawful where
  describe_new := hP.describe_new
  collect_new := hP.collect_new
  set_ok v labels x h := by
    obtain ⟨v', hset, hrest⟩ := hP.set_ok v labels x h
    exact ⟨v', (if_pos h).trans hset, hrest⟩
  collectors_new := hP.collectors_new
  register_ok := hP.register_ok
  collectors_register := hP.collectors_register

theorem not_safe_of_not_sized (hsized : ¬ cfg.Sized) : ¬ Safe P cfg := by
  obtain ⟨e, he, hkind⟩ := createRegistry_error_of_not_sized P.strict hsized
  refine fun h => h.noSlip e he ?_
  rcases hkind with hslice | hindex
  · exact Or.inl hslice
  · exact Or.inr (Or.inl hindex)

theorem Described.nodup_labelNames {m : Metrics P} (h : Described P cfg m) :
    ∀ v ∈ m.vectors, (P.describe v).labelNames.Nodup := by
  intro v hv
  rcases List.mem_cons.1 hv with rfl | hv
  · rw [h.torture]; decide
  · rcases List.mem_cons.1 hv with rfl | hv
    · rw [h.info]; exact nodup_infoNames cfg
    · exact (h.gauge_valid v hv).2.1

/-- **`CreateRegistry` is safe** exactly where both flags are lengths, for the targets that `parseTargets` accepts. -/
theorem safe_iff (hP : P.Lawful) (cfg : Config) {s : Str} (hs : parseTargets s = .ok cfg.targets)
    (hprod : product cfg.targets < 2 ^ 63) : Safe P cfg ↔ cfg.Sized := by
  constructor
  · exact fun h => by_contra (fun hsized => not_safe_of_not_sized hsized h)
  · intro hsized
    obtain ⟨bs, hcfg, hbs⟩ := exists_ints (fun t ht => (parseTargets_range hs t ht).1)
    rw [hcfg, product_ints] at hprod
    have hprod' : prod bs < 2 ^ 63 := by omega
    refine ⟨fun e he => ?_, fun m hm => ?_⟩
    · obtain ⟨r, -, hrun, -⟩ := createRegistry_counts (strict_lawful hP) hcfg hbs hsized
        (totalTargets_ints cfg hcfg hprod') (Nat.le_refl _) hprod'
      rw [hrun] at he
      cases he
    · obtain ⟨m', hm', hdesc, -⟩ := newMetrics_ok hP hsized
      rw [hm'] at hm
      cases hm
      exact hdesc.nodup_labelNames

theorem safe_iff_twoByThree : Safe seriesMaps twoByThree ↔ twoByThree.Sized :=
  safe_iff seriesMaps_lawful twoByThree (show parseTargets "2,3".toList = _ by decide) (by decide)

/-- One target, and `--info-metrics-labels=-1`. -/
def negativeLabels : Config where
  targets := [1]
  infoMetricsLabels := -1
  gaugeMetrics := 1
  int_range := by decide
  length_lt := by decide

/-- **A negative number of labels** makes the slice of label names too short. -/
theorem not_safe_negativeLabels : parseTargets "1".toList = .ok negativeLabels.targets ∧
    product negativeLabels.targets < 2 ^ 63 ∧ ¬ Safe seriesMaps negativeLabels :=
  ⟨by decide, by decide, not_safe_of_not_sized (fun h => absurd h.1 (by decide))⟩

end Promtorture
end Scrapcode
