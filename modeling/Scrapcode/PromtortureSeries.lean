import Mathlib.Data.Set.Card
import Scrapcode.Promtorture
/-!
# PromtortureSeries — which series the metrics have

The target numbers are the numbers below the product of `Targets`, and the indexes of a target are the digits of its
number in the bases `Targets` (`targetIndexes_bijOn`).  So no two targets have the same label values, and the loop over
the targets adds one series to each gauge vector for each (`Holds`, `setTargets_fills`).
-/
namespace Scrapcode
namespace Promtorture

open MixedRadix

/-! ## Numbers -/

def product (ts : List Int) : Int := ts.foldr (· * ·) 1

/-- The index tuples of `ts`. -/
def IsTuple (ts is : List Int) : Prop := List.Forall₂ (fun i t => 0 ≤ i ∧ i < t) is ts

/-- The sum of the indexes, each times `w` and the bases before its own. -/
def placeValue : Int → List Int → List Int → Int
  | w, t :: ts, i :: is => i * w + placeValue (w * t) ts is
  | _, _, _             => 0

def ints (ns : List Nat) : List Int := ns.map (fun n : Nat => (n : Int))

variable {bs ds : List Nat} {n : Nat} {ts is : List Int}

theorem exists_ints : ∀ {ts : List Int}, (∀ t ∈ ts, 1 ≤ t) → ∃ bs, ts = ints bs ∧ ∀ b ∈ bs, 0 < b
  | [], _      => ⟨[], rfl, fun _ h => nomatch h⟩
  | t :: ts, h => by
    obtain ⟨bs, rfl, hbs⟩ := exists_ints (fun t' ht => h t' (List.mem_cons_of_mem t ht))
    have ht : 1 ≤ t := h t List.mem_cons_self
    refine ⟨t.toNat :: bs, congrArg (· :: ints bs) (Int.toNat_of_nonneg (by omega)).symm, fun b hb => ?_⟩
    rcases List.mem_cons.1 hb with rfl | hb
    · omega
    · exact hbs b hb

theorem product_ints : ∀ bs : List Nat, product (ints bs) = (prod bs : Int)
  | []      => rfl
  | b :: bs => by
    show (b : Int) * product (ints bs) = _
    rw [product_ints bs, prod_cons, Int.natCast_mul]

theorem isTuple_ints : ∀ {bs : List Nat} {is : List Int}, IsTuple (ints bs) is ↔ ∃ ds, is = ints ds ∧ IsDigits bs ds
  | [], is      => by
    constructor
    · intro h
      cases h
      exact ⟨[], rfl, .nil⟩
    · rintro ⟨ds, rfl, h⟩
      cases h
      exact .nil
  | b :: bs, is => by
    constructor
    · intro h
      cases h with
      | cons hi h =>
        obtain ⟨ds, rfl, hds⟩ := isTuple_ints.1 h
        obtain ⟨d, rfl⟩ := Int.eq_ofNat_of_zero_le hi.1
        exact ⟨d :: ds, rfl, .cons (Int.ofNat_lt.1 hi.2) hds⟩
    · rintro ⟨ds, rfl, h⟩
      cases h with
      | cons hd h => exact .cons ⟨Int.natCast_nonneg _, Int.ofNat_lt.2 hd⟩ (isTuple_ints.2 ⟨_, rfl, h⟩)

theorem placeValue_ints : ∀ (w : Int) (bs ds : List Nat), placeValue w (ints bs) (ints ds) = w * value bs ds
  | w, [], _            => (Int.mul_zero w).symm
  | w, _ :: _, []       => (Int.mul_zero w).symm
  | w, b :: bs, d :: ds => by
    show (d : Int) * w + placeValue (w * b) (ints bs) (ints ds) = w * ((d + b * value bs ds : Nat) : Int)
    rw [placeValue_ints, Int.natCast_add, Int.natCast_mul, Int.mul_add, Int.mul_comm w d, Int.mul_assoc]

theorem ints_injective : Function.Injective ints := List.map_injective_iff.2 (fun _ _ => Int.ofNat.inj)

theorem wrap_natCast (h : n < 2 ^ 63) : wrap n = n := Int.bmod_eq_of_le (by omega) (by omega)

theorem rem_natCast {b : Nat} (hb : 0 < b) (n : Nat) : rem n b = .ok ((n % b : Nat) : Int) := by
  unfold rem
  rw [if_neg (by omega)]
  exact congrArg Except.ok (Int.ofNat_tmod n b).symm

theorem div_natCast {b : Nat} (hb : 0 < b) (h : n < 2 ^ 63) : div n b = .ok ((n / b : Nat) : Int) := by
  have hlt : n / b < 2 ^ 63 := Nat.lt_of_le_of_lt (Nat.div_le_self n b) h
  unfold div
  rw [if_neg (by omega), ← Int.ofNat_tdiv, wrap_natCast hlt]
  rfl

/-- **The indexes of a target are the digits of its number.** -/
theorem targetIndexes_ints : ∀ {bs : List Nat} {n : Nat}, (∀ b ∈ bs, 0 < b) → n < 2 ^ 63 →
    targetIndexes (ints bs) n = .ok (ints (digits bs n))
  | [], _, _, _      => rfl
  | b :: bs, n, h, hn => by
    have hb : 0 < b := h b List.mem_cons_self
    have hlt : n / b < 2 ^ 63 := Nat.lt_of_le_of_lt (Nat.div_le_self n b) hn
    have htail := targetIndexes_ints (fun c hc => h c (List.mem_cons_of_mem b hc)) hlt
    show (do
      let index ← rem n b
      let remainder ← div n b
      return index :: (← targetIndexes (ints bs) remainder) : Except Panic (List Int)) = _
    rw [rem_natCast hb, div_natCast hb hn]
    show (do return ((n % b : Nat) : Int) :: (← targetIndexes (ints bs) ((n / b : Nat) : Int)) :
      Except Panic (List Int)) = _
    rw [htail]
    rfl

theorem wrap_wrap_mul (x y : Int) : wrap (wrap x * y) = wrap (x * y) := Int.bmod_mul_bmod

/-- **The number of targets is the product**, as far as 64 bits hold it. -/
theorem totalTargets_eq (cfg : Config) : totalTargets cfg = wrap (product cfg.targets) := by
  have hfold : ∀ (ts : List Int) (x : Int),
      wrap (ts.foldl (fun total n => wrap (total * n)) x) = wrap (x * product ts) := by
    intro ts
    induction ts with
    | nil          => exact fun x => by rw [product, List.foldr_nil, Int.mul_one]; rfl
    | cons t ts ih =>
      intro x
      rw [List.foldl_cons, ih, wrap_wrap_mul, Int.mul_assoc]
      rfl
  have hwrap : wrap (totalTargets cfg) = totalTargets cfg := by
    unfold totalTargets
    cases h : cfg.targets using List.reverseRecOn with
    | nil                => rfl
    | append_singleton ts t =>
      rw [List.foldl_append, List.foldl_cons, List.foldl_nil]
      exact Int.bmod_bmod
  rw [← hwrap, totalTargets, hfold, Int.one_mul]

theorem totalTargets_ints (cfg : Config) (hcfg : cfg.targets = ints bs) (h : prod bs < 2 ^ 63) :
    totalTargets cfg = prod bs := by
  rw [totalTargets_eq, hcfg, product_ints, wrap_natCast h]

/-- **`float64` of a target number is exact.** -/
theorem float64_natCast (h : n ≤ 2 ^ 53) : float64 n = n := by
  have hround : roundBits n = n := by
    unfold roundBits
    by_cases hn : n = 2 ^ 53
    · subst hn
      rw [Nat.log2_two_pow]
      decide
    · have hlog : n.log2 - 52 = 0 := by
        by_cases h0 : n = 0
        · rw [h0]; decide
        · have hlt : n.log2 < 53 := (Nat.log2_lt h0).2 (by omega)
          omega
      rw [hlog]
      simp [Nat.mod_one]
  unfold float64
  rw [Int.natAbs_natCast, hround]
  exact Int.sign_mul_natAbs n

/-- **A target number and its indexes determine each other.** -/
theorem targetIndexes_bijOn (hts : ∀ t ∈ ts, 1 ≤ t) (hprod : product ts ≤ 2 ^ 53) :
    Set.BijOn (targetIndexes ts) {n | 0 ≤ n ∧ n < product ts} {r | ∃ is, IsTuple ts is ∧ r = .ok is} := by
  obtain ⟨bs, rfl, hbs⟩ := exists_ints hts
  rw [product_ints] at hprod ⊢
  have hnat : ∀ x : Int, 0 ≤ x ∧ x < prod bs → ∃ n : Nat, x = n ∧ n < prod bs ∧
      targetIndexes (ints bs) x = .ok (ints (digits bs n)) := by
    rintro x ⟨h0, hx⟩
    obtain ⟨n, rfl⟩ := Int.eq_ofNat_of_zero_le h0
    exact ⟨n, rfl, Int.ofNat_lt.1 hx, targetIndexes_ints hbs (by omega)⟩
  refine ⟨fun x hx => ?_, fun x hx y hy hxy => ?_, ?_⟩
  · obtain ⟨n, -, -, hn⟩ := hnat x hx
    exact ⟨_, isTuple_ints.2 ⟨_, rfl, isDigits_digits n hbs⟩, hn⟩
  · obtain ⟨m, rfl, hm, hmx⟩ := hnat x hx
    obtain ⟨n, rfl, hn, hny⟩ := hnat y hy
    change targetIndexes (ints bs) m = targetIndexes (ints bs) n at hxy
    rw [hmx, hny] at hxy
    rw [digits_injOn hm hn (ints_injective (Except.ok.inj hxy))]
  · rintro r ⟨is, his, rfl⟩
    obtain ⟨ds, rfl, hds⟩ := isTuple_ints.1 his
    have hlt := value_lt hds
    refine ⟨(value bs ds : Int), ⟨Int.natCast_nonneg _, Int.ofNat_lt.2 hlt⟩, ?_⟩
    rw [targetIndexes_ints hbs (by omega), digits_value hds]

/-! ## Labels -/

theorem repr_inj {m n : Nat} (h : m.repr = n.repr) : m = n := by
  have hdigits : Nat.toDigits 10 m = Nat.toDigits 10 n := by rw [← Nat.toList_repr, h, Nat.toList_repr]
  rw [← Nat.ofDigitChars_ten_toDigits (n := m), hdigits, Nat.ofDigitChars_ten_toDigits]

/-- The label values of target `n`. -/
def keys (bs : List Nat) (n : Nat) : List String := (digits bs n).map Nat.repr

def infoKeys (cfg : Config) (bs : List Nat) (n : Nat) : List String :=
  keys bs n ++ (List.range cfg.infoMetricsLabels.toNat).map (fun i => s!"t_{(n : Int)}_i_{i}")

theorem itoa_ints (ns : List Nat) : (ints ns).map itoa = ns.map Nat.repr := by
  unfold ints
  rw [List.map_map]
  rfl

theorem length_digits : ∀ (bs : List Nat) (n : Nat), (digits bs n).length = bs.length
  | [], _      => rfl
  | b :: bs, n => congrArg (· + 1) (length_digits bs (n / b))

theorem length_keys (bs : List Nat) (n : Nat) : (keys bs n).length = bs.length := by
  unfold keys
  rw [List.length_map, length_digits]

theorem keys_injOn {m n : Nat} (hm : m < prod bs) (hn : n < prod bs) (h : keys bs m = keys bs n) : m = n :=
  digits_injOn hm hn (List.map_injective_iff.2 (fun _ _ => repr_inj) h)

/-- **The info metric's label values begin with those of the target.** -/
theorem infoKeys_injOn {cfg : Config} {m n : Nat} (hm : m < prod bs) (hn : n < prod bs)
    (h : infoKeys cfg bs m = infoKeys cfg bs n) : m = n :=
  keys_injOn hm hn (List.append_inj_left h (by rw [length_keys, length_keys]))

variable {P : Prometheus} {cfg : Config}

theorem targetLabels_ints (hcfg : cfg.targets = ints bs) (hbs : ∀ b ∈ bs, 0 < b) (hn : n < 2 ^ 63) :
    targetLabels cfg n = .ok (keys bs n) := by
  unfold targetLabels
  rw [hcfg, targetIndexes_ints hbs hn]
  exact congrArg Except.ok (itoa_ints _)

theorem infoLabels_ints (hcfg : cfg.targets = ints bs) (hbs : ∀ b ∈ bs, 0 < b) (hn : n < 2 ^ 63) :
    infoLabels cfg n = .ok (infoKeys cfg bs n) := by
  unfold infoLabels
  rw [targetLabels_ints hcfg hbs hn]
  rfl

/-! ## The loop over the targets -/

/-- The vector has one series for each target below `n`, with the label values `key` and the value `val`. -/
def Holds (P : Prometheus) (key : Nat → List String) (val : Nat → Int) (n : Nat) (v : P.GaugeVec) : Prop :=
  ∀ labels x, P.collect v labels = some x ↔ ∃ k, k < n ∧ labels = key k ∧ x = val k

variable {key : Nat → List String} {val : Nat → Int} {v : P.GaugeVec}

/-- No series has the label values of target `n` yet. -/
theorem Holds.fresh (h : Holds P key val n v) (hkey : ∀ k, k < n → key k ≠ key n) : P.collect v (key n) = none := by
  cases hc : P.collect v (key n) with
  | none   => rfl
  | some x =>
    obtain ⟨k, hk, heq, -⟩ := (h _ x).1 hc
    exact absurd heq.symm (hkey k hk)

/-- **One target**: its series is added. -/
theorem Holds.set (hP : P.Lawful) (h : Holds P key val n v) (hkey : ∀ k, k < n → key k ≠ key n)
    (hlen : (key n).length = (P.describe v).labelNames.length) : ∃ v', P.set v (key n) (val n) = .ok v' ∧
      P.describe v' = P.describe v ∧ Holds P key val (n + 1) v' := by
  obtain ⟨v', hset, hdesc, hcollect⟩ := hP.set_ok v (key n) (val n) hlen
  refine ⟨v', hset, hdesc, fun labels x => ?_⟩
  rw [hcollect]
  by_cases hl : labels = key n
  · subst hl
    rw [Function.update_self]
    constructor
    · rintro ⟨⟩
      exact ⟨n, Nat.lt_succ_self n, rfl, rfl⟩
    · rintro ⟨k, hk, heq, rfl⟩
      rcases Nat.lt_succ_iff_lt_or_eq.1 hk with hlt | rfl
      · exact absurd heq.symm (hkey k hlt)
      · rfl
  · rw [Function.update_of_ne hl, h labels x]
    constructor
    · rintro ⟨k, hk, hrest⟩
      exact ⟨k, Nat.lt_succ_of_lt hk, hrest⟩
    · rintro ⟨k, hk, heq, hx⟩
      rcases Nat.lt_succ_iff_lt_or_eq.1 hk with hlt | rfl
      · exact ⟨k, hlt, heq, hx⟩
      · exact absurd heq hl

/-- The metrics after the targets below `n`, with `val` for the values of the gauges. -/
structure FillsWith (P : Prometheus) (cfg : Config) (bs : List Nat) (val : Nat → Int) (n : Nat) (m : Metrics P) :
    Prop where
  gaugeDescs : m.gaugeMetrics.map P.describe = (List.range cfg.gaugeMetrics.toNat).map (gaugeDesc cfg)
  gauges     : ∀ v ∈ m.gaugeMetrics, Holds P (keys bs) val n v
  infoNames  : cfg.infoMetricsLabels > 0 →
    (P.describe m.infoMetric).labelNames.length = bs.length + cfg.infoMetricsLabels.toNat
  info       : cfg.infoMetricsLabels > 0 → Holds P (infoKeys cfg bs) (fun _ => 1) n m.infoMetric

/-- The metrics after the targets below `n`. -/
structure Fills (P : Prometheus) (cfg : Config) (bs : List Nat) (n : Nat) (m : Metrics P) : Prop where
  gaugeDescs : m.gaugeMetrics.map P.describe = (List.range cfg.gaugeMetrics.toNat).map (gaugeDesc cfg)
  gauges     : ∀ v ∈ m.gaugeMetrics, Holds P (keys bs) (fun k => k) n v
  infoNames  : cfg.infoMetricsLabels > 0 →
    (P.describe m.infoMetric).labelNames.length = bs.length + cfg.infoMetricsLabels.toNat
  info       : cfg.infoMetricsLabels > 0 → Holds P (infoKeys cfg bs) (fun _ => 1) n m.infoMetric

theorem FillsWith.labelNames {m : Metrics P} (h : FillsWith P cfg bs val n m) (hcfg : cfg.targets = ints bs)
    {v : P.GaugeVec} (hv : v ∈ m.gaugeMetrics) : (P.describe v).labelNames.length = bs.length := by
  have hmem : P.describe v ∈ (List.range cfg.gaugeMetrics.toNat).map (gaugeDesc cfg) :=
    h.gaugeDescs ▸ List.mem_map_of_mem hv
  obtain ⟨i, -, hi⟩ := List.mem_map.1 hmem
  rw [← hi]
  simp [gaugeDesc, targetLabelNames, hcfg, ints]

theorem Holds.congr {val' : Nat → Int} (h : Holds P key val n v) (hval : ∀ k, k < n → val k = val' k) :
    Holds P key val' n v := by
  intro labels x
  rw [h labels x]
  constructor
  · rintro ⟨k, hk, hl, rfl⟩
    exact ⟨k, hk, hl, hval k hk⟩
  · rintro ⟨k, hk, hl, rfl⟩
    exact ⟨k, hk, hl, (hval k hk).symm⟩

/-- **Below 2⁵³ the values are the target numbers.** -/
theorem FillsWith.fills {m : Metrics P} (h : FillsWith P cfg bs (fun k => float64 k) n m) (hn : n ≤ 2 ^ 53) :
    Fills P cfg bs n m where
  gaugeDescs := h.gaugeDescs
  gauges v hv := (h.gauges v hv).congr (fun _ hk => float64_natCast (Nat.le_trans (Nat.le_of_lt hk) hn))
  infoNames := h.infoNames
  info := h.info

theorem mapM_ok {α β γ : Type} {f : α → Except Panic β} {g : α → γ} {g' : β → γ} {R : β → Prop} : ∀ {xs : List α},
    (∀ x ∈ xs, ∃ y, f x = .ok y ∧ g' y = g x ∧ R y) → ∃ ys, xs.mapM f = .ok ys ∧ ys.map g' = xs.map g ∧ ∀ y ∈ ys, R y
  | [], _      => ⟨[], rfl, rfl, fun _ h => nomatch h⟩
  | x :: xs, h => by
    obtain ⟨y, hy, hg, hR⟩ := h x List.mem_cons_self
    obtain ⟨ys, hys, hgs, hRs⟩ := mapM_ok (fun x' hx => h x' (List.mem_cons_of_mem x hx))
    refine ⟨y :: ys, ?_, ?_, List.forall_mem_cons.2 ⟨hR, hRs⟩⟩
    · rw [List.mapM_cons, hy, hys]
      rfl
    · rw [List.map_cons, List.map_cons, hg, hgs]

/-- **One target** adds its series to each vector. -/
theorem setValues_fills (hP : P.Lawful) (hcfg : cfg.targets = ints bs) (hbs : ∀ b ∈ bs, 0 < b)
    (hn : n < prod bs) (hn63 : n < 2 ^ 63) {m : Metrics P} (h : FillsWith P cfg bs (fun k => float64 k) n m) :
    ∃ m', setValues P cfg m n (float64 n) = .ok m' ∧ m'.tortureMetric = m.tortureMetric ∧
      P.describe m'.infoMetric = P.describe m.infoMetric ∧ FillsWith P cfg bs (fun k => float64 k) (n + 1) m' := by
  have hinfo : ∃ info, setInfo P cfg n m.infoMetric = .ok info ∧ P.describe info = P.describe m.infoMetric ∧
      (cfg.infoMetricsLabels > 0 → Holds P (infoKeys cfg bs) (fun _ => 1) (n + 1) info) := by
    unfold setInfo
    by_cases hpos : cfg.infoMetricsLabels > 0
    · rw [if_pos hpos, infoLabels_ints hcfg hbs hn63]
      obtain ⟨info, hset, hdesc, hholds⟩ := (h.info hpos).set hP
        (fun k hk heq => Nat.ne_of_lt hk (infoKeys_injOn (Nat.lt_trans hk hn) hn heq))
        (by rw [h.infoNames hpos]; simp [infoKeys, length_keys])
      exact ⟨info, hset, hdesc, fun _ => hholds⟩
    · rw [if_neg hpos]
      exact ⟨m.infoMetric, rfl, rfl, fun h => absurd h hpos⟩
  have hgauges : ∃ vs, m.gaugeMetrics.mapM (setGauge P cfg n (float64 n)) = .ok vs ∧
      vs.map P.describe = m.gaugeMetrics.map P.describe ∧
      ∀ v ∈ vs, Holds P (keys bs) (fun k => float64 k) (n + 1) v := by
    refine mapM_ok (fun v hv => ?_)
    unfold setGauge
    rw [targetLabels_ints hcfg hbs hn63]
    exact (h.gauges v hv).set hP (fun k hk heq => Nat.ne_of_lt hk (keys_injOn (Nat.lt_trans hk hn) hn heq))
      (by rw [h.labelNames hcfg hv, length_keys])
  obtain ⟨info, hset, hdesc, hholds⟩ := hinfo
  obtain ⟨vs, hsets, hdescs, hall⟩ := hgauges
  refine ⟨{ m with infoMetric := info, gaugeMetrics := vs }, ?_, rfl, hdesc, hdescs.trans h.gaugeDescs, hall,
    fun hpos => ?_, hholds⟩
  · unfold setValues
    rw [hset, hsets]
    rfl
  · show (P.describe info).labelNames.length = _
    rw [hdesc, h.infoNames hpos]

/-- **A run of the loop** adds one series for each target. -/
theorem setTargets_fills (hP : P.Lawful) (hcfg : cfg.targets = ints bs) (hbs : ∀ b ∈ bs, 0 < b)
    {m : Metrics P} (h : FillsWith P cfg bs (fun k => float64 k) 0 m) : ∀ n, n ≤ prod bs → n < 2 ^ 63 →
    ∃ m', setTargets P cfg m n = .ok m' ∧ m'.tortureMetric = m.tortureMetric ∧
      P.describe m'.infoMetric = P.describe m.infoMetric ∧ FillsWith P cfg bs (fun k => float64 k) n m'
  | 0, _, _        => ⟨m, rfl, rfl, rfl, h⟩
  | n + 1, hn, hn' => by
    obtain ⟨m₁, hrun, htorture, hdesc, h₁⟩ := setTargets_fills hP hcfg hbs h n (by omega) (by omega)
    obtain ⟨m₂, hset, htorture₂, hdesc₂, h₂⟩ := setValues_fills hP hcfg hbs hn (by omega) h₁
    refine ⟨m₂, ?_, htorture₂.trans htorture, hdesc₂.trans hdesc, h₂⟩
    unfold setTargets
    rw [hrun]
    exact hset

/-! ## The registry -/

theorem isName_append {a b : String} (ha : isName a = true) (hb : b.toList.all isNameChar = true) :
    isName (a ++ b) = true := by
  unfold isName at ha ⊢
  rw [String.toList_append]
  cases hl : a.toList with
  | nil => rw [hl] at ha; cases ha
  | cons c cs =>
    rw [hl] at ha
    obtain ⟨hc, hcs⟩ := Bool.and_eq_true_iff.1 ha
    have hall : (cs ++ b.toList).all isNameChar = true := by rw [List.all_append, hcs, hb, Bool.and_true]
    exact Bool.and_eq_true_iff.2 ⟨hc, hall⟩

theorem isName_repr {a : String} (ha : isName a = true) (n : Nat) : isName (a ++ n.repr) = true :=
  isName_append ha (List.all_eq_true.2 (fun c hc => by
    rw [Nat.toList_repr] at hc
    have hdigit : c.isDigit = true := Nat.isDigit_of_mem_toDigits (by decide) (by decide) hc
    rw [isNameChar, Char.isAlphanum, hdigit, Bool.or_true, Bool.true_or]))

theorem append_repr_injective (a : String) : Function.Injective (fun n : Nat => a ++ n.repr) := fun m n h => by
  have hlist := congrArg String.toList h
  simp only [String.toList_append] at hlist
  exact repr_inj (String.toList_inj.1 (List.append_cancel_left hlist))

def infoNames (cfg : Config) : List String := targetLabelNames cfg ++
  (List.range cfg.infoMetricsLabels.toNat).map (fun i => s!"info_label_{cfg.targets.length + i}")

theorem wrap_add_eq {len k : Int} (hlen : 0 ≤ len ∧ len < 2 ^ 63) (hk : -2 ^ 63 ≤ k ∧ k < 2 ^ 63) :
    wrap (len + k) = if len + k < 2 ^ 63 then len + k else len + k - 2 ^ 64 := by
  unfold wrap
  split
  · exact Int.bmod_eq_of_le (by omega) (by omega)
  · rw [← Int.sub_bmod_right]
    exact Int.bmod_eq_of_le (by omega) (by omega)

theorem infoMetricLabelNames_eq (cfg : Config) : infoMetricLabelNames cfg =
    if 0 ≤ cfg.infoMetricsLabels then
      if cfg.targets.length + cfg.infoMetricsLabels < 2 ^ 63 then .ok (infoNames cfg) else .error .makesliceLenOutOfRange
    else if cfg.targets.length + cfg.infoMetricsLabels < 0 then .error .makesliceLenOutOfRange
    else .error .indexOutOfRange := by
  have hk := cfg.int_range cfg.infoMetricsLabels List.mem_cons_self
  have hlen := cfg.length_lt
  have hwrap := wrap_add_eq (show 0 ≤ (cfg.targets.length : Int) ∧ (cfg.targets.length : Int) < 2 ^ 63 by omega) hk
  unfold infoMetricLabelNames makeslice
  rw [hwrap]
  dsimp only
  by_cases h0 : 0 ≤ cfg.infoMetricsLabels
  · rw [if_pos h0]
    by_cases h63 : cfg.targets.length + cfg.infoMetricsLabels < 2 ^ 63
    · rw [if_pos h63, if_pos h63]
      have hnonneg : ¬(cfg.targets.length : Int) + cfg.infoMetricsLabels < 0 := by omega
      have hle : ¬(cfg.targets.length : Int) + cfg.infoMetricsLabels < cfg.targets.length := by omega
      rw [if_neg hnonneg, if_neg hle, add_sub_cancel_left]
      rfl
    · have hneg : (cfg.targets.length : Int) + cfg.infoMetricsLabels - 2 ^ 64 < 0 := by omega
      rw [if_neg h63, if_neg h63, if_pos hneg]
      rfl
  · have hlt : (cfg.targets.length : Int) + cfg.infoMetricsLabels < cfg.targets.length := by omega
    rw [if_neg h0, if_pos (show (cfg.targets.length : Int) + cfg.infoMetricsLabels < 2 ^ 63 by omega)]
    by_cases hneg : cfg.targets.length + cfg.infoMetricsLabels < 0
    · rw [if_pos hneg, if_pos hneg]
      rfl
    · rw [if_neg hneg, if_neg hneg, if_pos hlt]
      rfl

/-- The lengths `CreateRegistry` asks for are lengths. -/
def Config.Sized (cfg : Config) : Prop :=
  0 ≤ cfg.infoMetricsLabels ∧ cfg.targets.length + cfg.infoMetricsLabels < 2 ^ 63 ∧ 0 ≤ cfg.gaugeMetrics

/-- What the metrics are called. -/
structure Described (P : Prometheus) (cfg : Config) (m : Metrics P) : Prop where
  torture : P.describe m.tortureMetric = tortureDesc
  info    : P.describe m.infoMetric = infoDesc (infoNames cfg)
  gauges  : m.gaugeMetrics.map P.describe = (List.range cfg.gaugeMetrics.toNat).map (gaugeDesc cfg)

theorem newMetrics_ok (hP : P.Lawful) (hsized : cfg.Sized) :
    ∃ m, newMetrics P cfg = .ok m ∧ Described P cfg m ∧ (∀ labels, P.collect m.infoMetric labels = none) ∧
      ∀ v ∈ m.gaugeMetrics, ∀ labels, P.collect v labels = none := by
  obtain ⟨h0, h63, hg⟩ := hsized
  obtain ⟨v, hset, hdesc, -⟩ := hP.set_ok (P.newGaugeVec tortureDesc)
    [sliceStr cfg.targets, itoa cfg.infoMetricsLabels, itoa cfg.gaugeMetrics] 1 (by rw [hP.describe_new]; rfl)
  unfold newMetrics
  rw [infoMetricLabelNames_eq, if_pos h0, if_pos h63]
  refine ⟨⟨v, P.newGaugeVec (infoDesc (infoNames cfg)),
    (List.range cfg.gaugeMetrics.toNat).map (fun i => P.newGaugeVec (gaugeDesc cfg i))⟩, ?_,
    ⟨hdesc.trans (hP.describe_new _), hP.describe_new _, ?_⟩, hP.collect_new _, fun w hw => ?_⟩
  · show (makeslice cfg.gaugeMetrics >>= _) = _
    rw [makeslice, if_neg (Int.not_lt.2 hg)]
    show (P.set _ _ 1 >>= _) = _
    rw [hset]
    rfl
  · rw [List.map_map]
    exact List.map_congr_left (fun i _ => hP.describe_new _)
  · obtain ⟨i, -, rfl⟩ := List.mem_map.1 hw
    exact hP.collect_new _

/-- **Flags that are no lengths** make a slice of negative length, or one that is too short. -/
theorem newMetrics_error (P : Prometheus) (hsized : ¬ cfg.Sized) :
    ∃ e, newMetrics P cfg = .error e ∧ (e = .makesliceLenOutOfRange ∨ e = .indexOutOfRange) := by
  unfold newMetrics
  rw [infoMetricLabelNames_eq]
  by_cases h0 : 0 ≤ cfg.infoMetricsLabels
  · rw [if_pos h0]
    by_cases h63 : cfg.targets.length + cfg.infoMetricsLabels < 2 ^ 63
    · have hg : cfg.gaugeMetrics < 0 := Int.not_le.1 (fun h => hsized ⟨h0, h63, h⟩)
      rw [if_pos h63]
      refine ⟨.makesliceLenOutOfRange, ?_, Or.inl rfl⟩
      show (makeslice cfg.gaugeMetrics >>= _) = _
      rw [makeslice, if_pos hg]
      rfl
    · rw [if_neg h63]
      exact ⟨_, rfl, Or.inl rfl⟩
  · rw [if_neg h0]
    split
    · exact ⟨_, rfl, Or.inl rfl⟩
    · exact ⟨_, rfl, Or.inr rfl⟩

theorem registerGauges_ok (hP : P.Lawful) : ∀ {vs : List P.GaugeVec} {r : P.Registry},
    (vs.map (fun v => (P.describe v).name)).Nodup →
    (∀ v ∈ vs, isName (P.describe v).name = true ∧ (P.describe v).labelNames.Nodup ∧
      (∀ l ∈ (P.describe v).labelNames, isName l = true) ∧
      ∀ w ∈ P.collectors r, (P.describe w).name ≠ (P.describe v).name) →
    ∃ r', vs.foldlM P.mustRegister r = .ok r' ∧ P.collectors r' = P.collectors r ++ vs
  | [], r, _, _         => ⟨r, rfl, (List.append_nil _).symm⟩
  | v :: vs, r, hnd, hv => by
    obtain ⟨hname, hlabels, hnames, hfresh⟩ := hv v List.mem_cons_self
    obtain ⟨r₁, hr₁⟩ := hP.register_ok r v hname hlabels hnames hfresh
    have hcollectors := hP.collectors_register r v r₁ hr₁
    have hrest : ∀ w ∈ vs, isName (P.describe w).name = true ∧ (P.describe w).labelNames.Nodup ∧
        (∀ l ∈ (P.describe w).labelNames, isName l = true) ∧
        ∀ u ∈ P.collectors r₁, (P.describe u).name ≠ (P.describe w).name := by
      intro w hw
      obtain ⟨h₁, h₂, h₃, h₄⟩ := hv w (List.mem_cons_of_mem v hw)
      refine ⟨h₁, h₂, h₃, fun u hu => ?_⟩
      rw [hcollectors] at hu
      rcases List.mem_append.1 hu with hu | hu
      · exact h₄ u hu
      · rw [List.mem_singleton.1 hu]
        exact fun heq => (List.nodup_cons.1 hnd).1 (List.mem_map.2 ⟨w, hw, heq.symm⟩)
    obtain ⟨r', hr', hall⟩ := registerGauges_ok hP (List.nodup_cons.1 hnd).2 hrest
    refine ⟨r', ?_, by rw [hall, hcollectors, List.append_assoc]; rfl⟩
    rw [List.foldlM_cons, hr₁]
    exact hr'

/-- What a registry collects of the metrics. -/
def Metrics.registered (cfg : Config) (m : Metrics P) : List P.GaugeVec :=
  m.tortureMetric :: (if cfg.infoMetricsLabels > 0 then [m.infoMetric] else []) ++ m.gaugeMetrics

theorem isName_targetLabel {l : String} (h : l ∈ targetLabelNames cfg) : isName l = true := by
  obtain ⟨i, -, rfl⟩ := List.mem_map.1 h
  exact isName_repr (show isName "target_label_" = true by decide +kernel) i

theorem nodup_targetLabelNames (cfg : Config) : (targetLabelNames cfg).Nodup :=
  List.nodup_range.map (append_repr_injective "target_label_")

theorem isName_infoName {l : String} (h : l ∈ infoNames cfg) : isName l = true := by
  rcases List.mem_append.1 h with h | h
  · exact isName_targetLabel h
  · obtain ⟨i, -, rfl⟩ := List.mem_map.1 h
    exact isName_repr (show isName "info_label_" = true by decide +kernel) _

theorem nodup_infoNames (cfg : Config) : (infoNames cfg).Nodup := by
  refine List.nodup_append'.2 ⟨nodup_targetLabelNames cfg, ?_, ?_⟩
  · exact List.nodup_range.map (fun i j h => Nat.add_left_cancel (append_repr_injective "info_label_" h))
  · intro l hl hl'
    obtain ⟨i, -, rfl⟩ := List.mem_map.1 hl
    obtain ⟨j, -, hj⟩ := List.mem_map.1 hl'
    have hlist := congrArg String.toList hj
    rw [String.toList_append, String.toList_append] at hlist
    have hhead : 'i' = 't' := (List.cons.inj hlist).1
    exact absurd hhead (by decide)

section
variable {m : Metrics P} (h : Described P cfg m)
include h

theorem Described.gauge : ∀ v ∈ m.gaugeMetrics, ∃ i, P.describe v = gaugeDesc cfg i := by
  intro v hv
  have hmem : P.describe v ∈ (List.range cfg.gaugeMetrics.toNat).map (gaugeDesc cfg) :=
    h.gauges ▸ List.mem_map_of_mem hv
  obtain ⟨i, -, hi⟩ := List.mem_map.1 hmem
  exact ⟨i, hi.symm⟩

theorem Described.nodup_gaugeNames : (m.gaugeMetrics.map (fun v => (P.describe v).name)).Nodup := by
  have hmap : m.gaugeMetrics.map (fun v => (P.describe v).name) =
      (List.range cfg.gaugeMetrics.toNat).map (fun i => "gauge_metric_" ++ i.repr) := by
    have hdescs := congrArg (List.map Desc.name) h.gauges
    rw [List.map_map, List.map_map] at hdescs
    exact hdescs
  rw [hmap]
  exact List.nodup_range.map (append_repr_injective "gauge_metric_")

theorem Described.gauge_valid : ∀ v ∈ m.gaugeMetrics,
    isName (P.describe v).name = true ∧ (P.describe v).labelNames.Nodup ∧
      ∀ l ∈ (P.describe v).labelNames, isName l = true := by
  intro v hv
  obtain ⟨i, hi⟩ := h.gauge v hv
  rw [hi]
  exact ⟨isName_repr (show isName "gauge_metric_" = true by decide +kernel) i, nodup_targetLabelNames cfg,
    fun l hl => isName_targetLabel hl⟩

/-- A name with another first letter is none of the gauges'. -/
theorem Described.ne_gaugeName {s : String} (hs : s.toList.head? ≠ some 'g') :
    ∀ v ∈ m.gaugeMetrics, s ≠ (P.describe v).name := by
  intro v hv heq
  obtain ⟨i, hi⟩ := h.gauge v hv
  rw [hi] at heq
  apply hs
  rw [heq, gaugeDesc]
  show ("gauge_metric_" ++ i.repr).toList.head? = some 'g'
  rw [String.toList_append]
  rfl

theorem registerTorture_ok (hP : P.Lawful) :
    ∃ r, P.mustRegister P.newRegistry m.tortureMetric = .ok r ∧ P.collectors r = [m.tortureMetric] := by
  have hlabels : ∀ l ∈ tortureDesc.labelNames, isName l = true := by
    intro l hl
    simp only [tortureDesc, List.mem_cons, List.not_mem_nil, or_false] at hl
    rcases hl with rfl | rfl | rfl
    · exact (show isName "targets" = true by decide +kernel)
    · exact (show isName "info_labels" = true by decide +kernel)
    · exact (show isName "gauge_metrics" = true by decide +kernel)
  obtain ⟨r, hr⟩ := hP.register_ok P.newRegistry m.tortureMetric
    (h.torture ▸ (show isName "promtorture_info" = true by decide +kernel)) (h.torture ▸ by decide) (h.torture ▸ hlabels)
    (by rw [hP.collectors_new]; exact fun w hw => nomatch hw)
  exact ⟨r, hr, by rw [hP.collectors_register _ _ _ hr, hP.collectors_new]; rfl⟩

theorem registerInfo_ok (hP : P.Lawful) {r₁ : P.Registry} (hr₁ : P.collectors r₁ = [m.tortureMetric]) :
    ∃ r, registerInfo P cfg m r₁ = .ok r ∧
      P.collectors r = m.tortureMetric :: (if cfg.infoMetricsLabels > 0 then [m.infoMetric] else []) := by
  have hname : (P.describe m.infoMetric).name = "target_info" := by rw [h.info]; rfl
  have hfresh : ∀ w ∈ P.collectors r₁, (P.describe w).name ≠ (P.describe m.infoMetric).name := by
    rw [hr₁, hname]
    intro w hw
    rw [List.mem_singleton.1 hw, h.torture]
    decide
  unfold registerInfo
  by_cases hpos : cfg.infoMetricsLabels > 0
  · rw [if_pos hpos, if_pos hpos]
    obtain ⟨r, hr⟩ := hP.register_ok r₁ m.infoMetric (hname ▸ (show isName "target_info" = true by decide +kernel))
      (h.info ▸ nodup_infoNames cfg) (h.info ▸ fun l hl => isName_infoName hl) hfresh
    exact ⟨r, hr, by rw [hP.collectors_register _ _ _ hr, hr₁]; rfl⟩
  · rw [if_neg hpos, if_neg hpos]
    exact ⟨r₁, rfl, hr₁⟩

/-- **Nothing is registered twice**, and every name is one. -/
theorem registerAll_ok (hP : P.Lawful) : ∃ r, registerAll P cfg m = .ok r ∧ P.collectors r = m.registered cfg := by
  obtain ⟨r₁, hr₁, hcollectors₁⟩ := registerTorture_ok h hP
  obtain ⟨r₂, hr₂, hcollectors₂⟩ := registerInfo_ok h hP hcollectors₁
  have hothers : ∀ w ∈ P.collectors r₂, (P.describe w).name.toList.head? ≠ some 'g' := by
    rw [hcollectors₂]
    intro w hw
    rcases List.mem_cons.1 hw with rfl | hw
    · rw [h.torture]; decide
    · by_cases hpos : cfg.infoMetricsLabels > 0
      · rw [if_pos hpos] at hw
        rw [List.mem_singleton.1 hw, h.info]
        show "target_info".toList.head? ≠ _
        decide
      · rw [if_neg hpos] at hw
        cases hw
  obtain ⟨r, hr, hcollectors⟩ := registerGauges_ok hP (r := r₂) h.nodup_gaugeNames (fun v hv => by
    obtain ⟨hname, hnodup, hlabels⟩ := h.gauge_valid v hv
    exact ⟨hname, hnodup, hlabels, fun w hw => h.ne_gaugeName (hothers w hw) v hv⟩)
  refine ⟨r, ?_, by rw [hcollectors, hcollectors₂]; rfl⟩
  unfold registerAll
  rw [hr₁]
  show (registerInfo P cfg m r₁ >>= fun r => m.gaugeMetrics.foldlM P.mustRegister r) = _
  rw [hr₂]
  exact hr

end

/-- **The metrics a registry is made of**: each gauge vector has one series for each index tuple, and the info metric
one of value 1 for each target. -/
structure Generated (P : Prometheus) (cfg : Config) (m : Metrics P) : Prop where
  gaugeDescs : m.gaugeMetrics.map P.describe = (List.range cfg.gaugeMetrics.toNat).map (gaugeDesc cfg)
  gauges     : ∀ v ∈ m.gaugeMetrics, ∀ labels x, P.collect v labels = some x ↔
    ∃ is, IsTuple cfg.targets is ∧ labels = is.map itoa ∧ x = placeValue 1 cfg.targets is
  gaugeCount : ∀ v ∈ m.gaugeMetrics, {labels | (P.collect v labels).isSome}.ncard = (product cfg.targets).toNat
  info       : cfg.infoMetricsLabels > 0 → ∀ labels x, P.collect m.infoMetric labels = some x → x = 1
  infoCount  : cfg.infoMetricsLabels > 0 →
    {labels | (P.collect m.infoMetric labels).isSome}.ncard = (product cfg.targets).toNat

theorem Holds.count {N : Nat} (h : Holds P key val N v) (hkey : ∀ m n, m < N → n < N → key m = key n → m = n) :
    {labels | (P.collect v labels).isSome}.ncard = N := by
  have hset : {labels | (P.collect v labels).isSome} = key '' (Finset.range N : Set Nat) := by
    ext labels
    simp only [Set.mem_ofPred_eq, Set.mem_image, Finset.coe_range, Set.mem_Iio, Option.isSome_iff_exists]
    constructor
    · rintro ⟨x, hx⟩
      obtain ⟨k, hk, hl, -⟩ := (h labels x).1 hx
      exact ⟨k, hk, hl.symm⟩
    · rintro ⟨k, hk, hl⟩
      exact ⟨val k, (h labels _).2 ⟨k, hk, hl.symm, rfl⟩⟩
  have hinj : Set.InjOn key (Finset.range N : Set Nat) := fun m hm n hn heq =>
    hkey m n (Finset.mem_range.1 (Finset.mem_coe.1 hm)) (Finset.mem_range.1 (Finset.mem_coe.1 hn)) heq
  rw [hset, hinj.ncard_image, Set.ncard_coe_finset, Finset.card_range]

theorem Fills.generated {m : Metrics P} (h : Fills P cfg bs (prod bs) m) (hcfg : cfg.targets = ints bs)
    (hbs : ∀ b ∈ bs, 0 < b) : Generated P cfg m := by
  have hprod : (product cfg.targets).toNat = prod bs := by rw [hcfg, product_ints, Int.toNat_natCast]
  refine ⟨h.gaugeDescs, fun v hv labels x => ?_, fun v hv => ?_, fun hpos labels x hx => ?_, fun hpos => ?_⟩
  · rw [h.gauges v hv labels x, hcfg]
    constructor
    · rintro ⟨k, hk, rfl, rfl⟩
      refine ⟨ints (digits bs k), isTuple_ints.2 ⟨_, rfl, isDigits_digits k hbs⟩, (itoa_ints _).symm, ?_⟩
      rw [placeValue_ints, value_digits hk, Int.one_mul]
    · rintro ⟨is, his, rfl, rfl⟩
      obtain ⟨ds, rfl, hds⟩ := isTuple_ints.1 his
      refine ⟨value bs ds, value_lt hds, ?_, by rw [placeValue_ints, Int.one_mul]⟩
      rw [itoa_ints, keys, digits_value hds]
  · rw [hprod]
    exact (h.gauges v hv).count (fun _ _ => keys_injOn)
  · obtain ⟨k, -, -, hval⟩ := (h.info hpos labels x).1 hx
    exact hval
  · rw [hprod]
    exact (h.info hpos).count (fun _ _ => infoKeys_injOn)

theorem fills_zero {m : Metrics P} (hcfg : cfg.targets = ints bs) (h : Described P cfg m)
    (hinfo : ∀ labels, P.collect m.infoMetric labels = none)
    (hgauges : ∀ v ∈ m.gaugeMetrics, ∀ labels, P.collect v labels = none) : FillsWith P cfg bs val 0 m := by
  have hempty : ∀ {key val} {v : P.GaugeVec}, (∀ labels, P.collect v labels = none) → Holds P key val 0 v :=
    fun hnone labels x => by
      rw [hnone labels]
      exact Iff.intro (fun h => nomatch h) (fun ⟨_, hk, _⟩ => absurd hk (Nat.not_lt_zero _))
  refine ⟨h.gauges, fun v hv => hempty (hgauges v hv), fun _ => ?_, fun _ => hempty hinfo⟩
  rw [h.info, infoDesc, infoNames, List.length_append, List.length_map, List.length_range, targetLabelNames,
    List.length_map, List.length_range, hcfg, ints, List.length_map]

/-- **The loop over the targets**, from new metrics, and the registry of what it leaves. -/
theorem setTargets_registered (hP : P.Lawful) (hcfg : cfg.targets = ints bs) (hbs : ∀ b ∈ bs, 0 < b) {m₀ : Metrics P}
    (hdesc : Described P cfg m₀) (h : FillsWith P cfg bs (fun k => float64 k) 0 m₀) (hn : n ≤ prod bs)
    (hn63 : n < 2 ^ 63) : ∃ m r, setTargets P cfg m₀ n = .ok m ∧ FillsWith P cfg bs (fun k => float64 k) n m ∧
      registerAll P cfg m = .ok r ∧ P.collectors r = m.registered cfg ∧ Described P cfg m := by
  obtain ⟨m, hset, htorture, hdesc', hfill⟩ := setTargets_fills hP hcfg hbs h n hn hn63
  have hdescribed : Described P cfg m := ⟨htorture ▸ hdesc.torture, hdesc'.trans hdesc.info, hfill.gaugeDescs⟩
  obtain ⟨r, hr, hcollectors⟩ := registerAll_ok hdescribed hP
  exact ⟨m, r, hset, hfill, hr, hcollectors, hdescribed⟩

/-- `createRegistry` once there are metrics and a number of targets. -/
theorem createRegistry_eq {m₀ : Metrics P} (hm₀ : newMetrics P cfg = .ok m₀) (htotal : totalTargets cfg = n) :
    createRegistry P cfg = setTargets P cfg m₀ n >>= registerAll P cfg := by
  have hmake : makeslice (n : Int) = .ok () := if_neg (by omega)
  unfold createRegistry
  rw [hm₀, htotal]
  show (makeslice (n : Int) >>= fun _ => setTargets P cfg m₀ (n : Int).toNat >>= registerAll P cfg) = _
  rw [hmake, Int.toNat_natCast]
  rfl

/-- **The registry has one series for each target**, and no target's series is written over by another's. -/
theorem createRegistry_series (hP : P.Lawful) (cfg : Config) (hts : ∀ t ∈ cfg.targets, 1 ≤ t)
    (hprod : product cfg.targets ≤ 2 ^ 53) :
    Set.BijOn (targetIndexes cfg.targets) {n | 0 ≤ n ∧ n < product cfg.targets}
      {r | ∃ is, IsTuple cfg.targets is ∧ r = .ok is} ∧
    (∀ r, createRegistry P cfg = .ok r → ∃ m, P.collectors r = m.registered cfg ∧ Generated P cfg m) ∧
    (∀ m₀ (n : Nat) m, newMetrics P cfg = .ok m₀ → (n : Int) < product cfg.targets → setTargets P cfg m₀ n = .ok m →
      (∀ v ∈ m.gaugeMetrics, ∀ labels, targetLabels cfg n = .ok labels → P.collect v labels = none) ∧
      (cfg.infoMetricsLabels > 0 → ∀ labels, infoLabels cfg n = .ok labels → P.collect m.infoMetric labels = none)) ∧
    (cfg.Sized → ∃ r, createRegistry P cfg = .ok r) := by
  refine ⟨targetIndexes_bijOn hts hprod, ?_⟩
  obtain ⟨bs, hcfg, hbs⟩ := exists_ints hts
  have hprod' : prod bs ≤ 2 ^ 53 := by
    rw [hcfg, product_ints] at hprod
    omega
  have htotal : totalTargets cfg = prod bs := totalTargets_ints cfg hcfg (by omega)
  by_cases hsized : cfg.Sized
  · obtain ⟨m₀, hm₀, hdesc, hinfo, hgauges⟩ := newMetrics_ok hP hsized
    have hzero : FillsWith P cfg bs (fun k => float64 k) 0 m₀ := fills_zero hcfg hdesc hinfo hgauges
    obtain ⟨m, r, hset, hfill, hr, hcollectors, -⟩ :=
      setTargets_registered hP hcfg hbs hdesc hzero (Nat.le_refl _) (by omega)
    have hrun : createRegistry P cfg = .ok r := by
      rw [createRegistry_eq hm₀ htotal, hset]
      exact hr
    refine ⟨fun r' hr' => ⟨m, ?_, (hfill.fills hprod').generated hcfg hbs⟩, fun m₁ n m' hm₁ hn hset' => ?_,
      fun _ => ⟨r, hrun⟩⟩
    · rw [← Except.ok.inj (hrun.symm.trans hr'), hcollectors]
    · rw [hcfg, product_ints] at hn
      have hn : n < prod bs := Int.ofNat_lt.1 hn
      have hn63 : n < 2 ^ 63 := by omega
      obtain rfl := Except.ok.inj (hm₀.symm.trans hm₁)
      obtain ⟨m'', hset'', -, -, hfill'⟩ := setTargets_fills hP hcfg hbs hzero n (Nat.le_of_lt hn) hn63
      obtain rfl := Except.ok.inj (hset''.symm.trans hset')
      refine ⟨fun v hv labels hl => ?_, fun hpos labels hl => ?_⟩
      · obtain rfl := Except.ok.inj ((targetLabels_ints hcfg hbs hn63).symm.trans hl)
        exact (hfill'.gauges v hv).fresh (fun k hk heq =>
          Nat.ne_of_lt hk (keys_injOn (Nat.lt_trans hk hn) hn heq))
      · obtain rfl := Except.ok.inj ((infoLabels_ints hcfg hbs hn63).symm.trans hl)
        exact (hfill'.info hpos).fresh (fun k hk heq =>
          Nat.ne_of_lt hk (infoKeys_injOn (Nat.lt_trans hk hn) hn heq))
  · obtain ⟨e, he, -⟩ := newMetrics_error P hsized
    refine ⟨fun r hr => ?_, fun m₀ n m hm₀ => ?_, fun h => absurd h hsized⟩
    · unfold createRegistry at hr
      rw [he] at hr
      cases hr
    · rw [he] at hm₀
      cases hm₀

/-- A vector's series as a function of the label values. -/
abbrev SeriesMap := Desc × (List String → Option Int)

def SeriesMap.set (v : SeriesMap) (labels : List String) (x : Int) : Except Panic SeriesMap :=
  if labels.length = v.1.labelNames.length then .ok (v.1, Function.update v.2 labels (some x))
  else .error (.prometheus "inconsistent label cardinality")

def SeriesMap.register (r : List SeriesMap) (v : SeriesMap) : Except Panic (List SeriesMap) :=
  if (∃ w ∈ r, w.1.name = v.1.name) ∨ ¬v.1.labelNames.Nodup then
    .error (.prometheus "duplicate metrics collector registration attempted")
  else .ok (r ++ [v])

def seriesMaps : Prometheus where
  GaugeVec := SeriesMap
  Registry := List SeriesMap
  newGaugeVec d := (d, fun _ => none)
  newRegistry := []
  set := SeriesMap.set
  mustRegister := SeriesMap.register
  describe := Prod.fst
  collect := Prod.snd
  collectors r := r

theorem SeriesMap.register_eq {r : List SeriesMap} {v : SeriesMap} {r' : List SeriesMap}
    (h : SeriesMap.register r v = .ok r') : r' = r ++ [v] := by
  unfold SeriesMap.register at h
  split at h
  · cases h
  · exact (Except.ok.inj h).symm

theorem seriesMaps_lawful : seriesMaps.Lawful where
  describe_new _ := rfl
  collect_new _ _ := rfl
  set_ok _ _ _ h := ⟨_, if_pos h, rfl, rfl⟩
  collectors_new := rfl
  register_ok _ _ _ hnd _ hfresh := ⟨_, if_neg (fun h => h.elim (fun ⟨w, hw, heq⟩ => hfresh w hw heq) (· hnd))⟩
  collectors_register _ _ _ h := SeriesMap.register_eq h

def twoByThree : Config where
  targets := [2, 3]
  infoMetricsLabels := 2
  gaugeMetrics := 1
  int_range := by decide
  length_lt := by decide

theorem createRegistry_series_twoByThree : ∃ r m, createRegistry seriesMaps twoByThree = .ok r ∧
    seriesMaps.collectors r = m.registered twoByThree ∧ Generated seriesMaps twoByThree m := by
  obtain ⟨-, hseries, -, hok⟩ := createRegistry_series seriesMaps_lawful twoByThree (by decide) (by decide)
  obtain ⟨r, hr⟩ := hok ⟨by decide, by decide, by decide⟩
  obtain ⟨m, hm⟩ := hseries r hr
  exact ⟨r, m, hr, hm⟩

end Promtorture
end Scrapcode
