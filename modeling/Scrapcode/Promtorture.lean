import Mathlib.Algebra.Group.Int.Defs
import Mathlib.Algebra.Group.Nat.Defs
import Mathlib.Data.Nat.Log
import Mathlib.Data.Set.Function
import Mathlib.Logic.Function.Basic
import Scrapcode.MixedRadix
/-!
# Promtorture — `generator.go`

The metrics `CreateRegistry` makes: one gauge vector for each gauge metric, with one series for each target, and the
info metric.  An `int` is an integer whose arithmetic wraps at 64 bits, and the `float64` of an `int` is the integer
that 53 bits of precision make of it.

The metrics library is a parameter (`Prometheus`): its vectors, its registry, and what a vector collects.  What is
relied on is in `Prometheus.Lawful`.  Memory has no limit.
-/
namespace Scrapcode
namespace Promtorture

inductive Panic where
  | divideByZero
  | makesliceLenOutOfRange
  | indexOutOfRange
  | prometheus (text : String)
deriving DecidableEq, Repr

/-- What 64 bits hold of an integer. -/
def wrap (n : Int) : Int := n.bmod (2 ^ 64)

def rem (a b : Int) : Except Panic Int := if b = 0 then throw .divideByZero else pure (a.tmod b)

def div (a b : Int) : Except Panic Int := if b = 0 then throw .divideByZero else pure (wrap (a.tdiv b))

def makeslice (len : Int) : Except Panic Unit := if len < 0 then throw .makesliceLenOutOfRange else pure ()

/-- The nearest number of 53 bits, the even one of two. -/
def roundBits (n : Nat) : Nat :=
  let unit := 2 ^ (n.log2 - 52)
  let down := n / unit
  let rest := n % unit
  (if 2 * rest > unit || (2 * rest = unit && down % 2 = 1) then down + 1 else down) * unit

/-- `float64(n)`, which is an integer. -/
def float64 (n : Int) : Int := n.sign * roundBits n.natAbs

def itoa (n : Int) : String := toString n

/-! ## The library -/

structure Desc where
  name : String
  help : String
  labelNames : List String
deriving DecidableEq, Repr

/-- The metrics library, with gauges that hold integers. -/
structure Prometheus where
  GaugeVec : Type
  Registry : Type
  newGaugeVec : Desc → GaugeVec
  newRegistry : Registry
  /-- `WithLabelValues(labels...).Set(value)`. -/
  set : GaugeVec → List String → Int → Except Panic GaugeVec
  mustRegister : Registry → GaugeVec → Except Panic Registry
  describe : GaugeVec → Desc
  /-- The value of the series with these label values. -/
  collect : GaugeVec → List String → Option Int
  collectors : Registry → List GaugeVec

def isNameChar (c : Char) : Bool := c.isAlphanum || c == '_'

/-- A name the data model allows, with a letter in front. -/
def isName (s : String) : Bool :=
  match s.toList with
  | []      => false
  | c :: cs => c.isAlpha && cs.all isNameChar

structure Prometheus.Lawful (P : Prometheus) : Prop where
  describe_new : ∀ d, P.describe (P.newGaugeVec d) = d
  collect_new  : ∀ d labels, P.collect (P.newGaugeVec d) labels = none
  set_ok       : ∀ v labels x, labels.length = (P.describe v).labelNames.length →
    ∃ v', P.set v labels x = .ok v' ∧ P.describe v' = P.describe v ∧
      P.collect v' = Function.update (P.collect v) labels (some x)
  collectors_new : P.collectors P.newRegistry = []
  register_ok  : ∀ r v, isName (P.describe v).name = true → (P.describe v).labelNames.Nodup →
    (∀ l ∈ (P.describe v).labelNames, isName l = true) →
    (∀ w ∈ P.collectors r, (P.describe w).name ≠ (P.describe v).name) →
    ∃ r', P.mustRegister r v = .ok r'
  collectors_register : ∀ r v r', P.mustRegister r v = .ok r' → P.collectors r' = P.collectors r ++ [v]

/-! ## The generator -/

structure Config where
  targets : List Int
  infoMetricsLabels : Int
  gaugeMetrics : Int
  int_range : ∀ n ∈ infoMetricsLabels :: gaugeMetrics :: targets, -2 ^ 63 ≤ n ∧ n < 2 ^ 63
  length_lt : targets.length < 2 ^ 63

structure Metrics (P : Prometheus) where
  tortureMetric : P.GaugeVec
  infoMetric : P.GaugeVec
  gaugeMetrics : List P.GaugeVec

variable (P : Prometheus)

def targetIndexes : List Int → Int → Except Panic (List Int)
  | [], _              => pure []
  | n :: ns, remainder => do
    let index ← rem remainder n
    let remainder ← div remainder n
    return index :: (← targetIndexes ns remainder)

def targetLabels (cfg : Config) (targetNumber : Int) : Except Panic (List String) := do
  return (← targetIndexes cfg.targets targetNumber).map itoa

def infoLabels (cfg : Config) (targetNumber : Int) : Except Panic (List String) := do
  let labels ← targetLabels cfg targetNumber
  return labels ++ (List.range cfg.infoMetricsLabels.toNat).map (fun i => s!"t_{targetNumber}_i_{i}")

def setInfo (cfg : Config) (targetNumber : Int) (info : P.GaugeVec) : Except Panic P.GaugeVec :=
  if cfg.infoMetricsLabels > 0 then do P.set info (← infoLabels cfg targetNumber) 1 else pure info

def setGauge (cfg : Config) (targetNumber gaugeValue : Int) (gauge : P.GaugeVec) : Except Panic P.GaugeVec := do
  P.set gauge (← targetLabels cfg targetNumber) gaugeValue

def setValues (cfg : Config) (m : Metrics P) (targetNumber gaugeValue : Int) : Except Panic (Metrics P) := do
  let infoMetric ← setInfo P cfg targetNumber m.infoMetric
  let gaugeMetrics ← m.gaugeMetrics.mapM (setGauge P cfg targetNumber gaugeValue)
  return { m with infoMetric, gaugeMetrics }

def totalTargets (cfg : Config) : Int := cfg.targets.foldl (fun total n => wrap (total * n)) 1

def targetLabelNames (cfg : Config) : List String := (List.range cfg.targets.length).map (fun i => s!"target_label_{i}")

def infoMetricLabelNames (cfg : Config) : Except Panic (List String) := do
  let len := wrap (cfg.targets.length + cfg.infoMetricsLabels)
  makeslice len
  if len < cfg.targets.length then throw .indexOutOfRange
  else return targetLabelNames cfg ++
    (List.range (len - cfg.targets.length).toNat).map (fun i => s!"info_label_{cfg.targets.length + i}")

def gaugeDesc (cfg : Config) (i : Nat) : Desc := ⟨s!"gauge_metric_{i}", s!"Gauge metric {i}", targetLabelNames cfg⟩

/-- `%v` of a slice. -/
def sliceStr (ns : List Int) : String := "[" ++ " ".intercalate (ns.map itoa) ++ "]"

def tortureDesc : Desc :=
  ⟨"promtorture_info", "Info on promtorture's current configuration and arguments",
    ["targets", "info_labels", "gauge_metrics"]⟩

def infoDesc (labelNames : List String) : Desc :=
  ⟨"target_info", "info metric for each target, with wider label set", labelNames⟩

def newMetrics (cfg : Config) : Except Panic (Metrics P) := do
  let infoMetricLabelNames ← infoMetricLabelNames cfg
  makeslice cfg.gaugeMetrics
  let tortureMetric ← P.set (P.newGaugeVec tortureDesc)
    [sliceStr cfg.targets, itoa cfg.infoMetricsLabels, itoa cfg.gaugeMetrics] 1
  return {
    tortureMetric
    infoMetric := P.newGaugeVec (infoDesc infoMetricLabelNames)
    gaugeMetrics := (List.range cfg.gaugeMetrics.toNat).map (fun i => P.newGaugeVec (gaugeDesc cfg i)) }

/-- The loop over the targets below `n`. -/
def setTargets (cfg : Config) (m : Metrics P) : Nat → Except Panic (Metrics P)
  | 0     => pure m
  | n + 1 => do
    let m ← setTargets cfg m n
    setValues P cfg m n (float64 n)

def registerInfo (cfg : Config) (m : Metrics P) (reg : P.Registry) : Except Panic P.Registry :=
  if cfg.infoMetricsLabels > 0 then P.mustRegister reg m.infoMetric else pure reg

def registerAll (cfg : Config) (m : Metrics P) : Except Panic P.Registry := do
  let reg ← P.mustRegister P.newRegistry m.tortureMetric
  let reg ← registerInfo P cfg m reg
  m.gaugeMetrics.foldlM P.mustRegister reg

def createRegistry (cfg : Config) : Except Panic P.Registry := do
  let m ← newMetrics P cfg
  makeslice (totalTargets cfg)
  let m ← setTargets P cfg m (totalTargets cfg).toNat
  registerAll P cfg m

end Promtorture
end Scrapcode
