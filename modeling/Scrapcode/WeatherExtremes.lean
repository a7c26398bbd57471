import Mathlib.Data.Prod.Lex
import Mathlib.Order.Bounds.Basic
import Scrapcode.Weather
/-!
# WeatherExtremes — the extremes of the day

`lowTemp` and `highTemp` are to be the extremes of the temperatures that were read on the current date.  They begin
anew where the day of the month is another one than at their last beginning: a reading of the same day in a later month
is taken for one of that day.  The day is also looked at twice, so that the extremes of a day may be kept under the next
one, and then run on into it.

On any sequence of readings they are right exactly where each reading is on the day they were begun on if and only if
it is of the date of the last reading, or is of the temperature of every reading of that date (`showsDaily_iff`).
-/
namespace Scrapcode
namespace Weather

theorem Date.key_injective : Function.Injective (fun d : Date => toLex (d.year, toLex (d.month, d.day))) := by
  rintro ⟨y, m, d⟩ ⟨y', m', d'⟩ h
  cases h
  rfl

instance : LinearOrder Date := LinearOrder.lift' (fun d => toLex (d.year, toLex (d.month, d.day))) Date.key_injective

variable {τ ρ T V : Type}

section
variable (date : Date) (temp : T)

/-- The temperatures with the dates they were read on. -/
def history (passes : List (Pass τ T V)) : List (Date × T) :=
  (date, temp) :: passes.filterMap (fun p => p.sensor.map (fun x => (p.today, x.temp)))

/-- The date of the last reading. -/
def lastDate (passes : List (Pass τ T V)) : Date :=
  passes.foldl (fun d p => if p.sensor.isSome = true then p.today else d) date

/-- The day of the month that the extremes were begun on: of the second look at the clock, where the first was at
another day. -/
def begunOn (passes : List (Pass τ T V)) : Nat :=
  passes.foldl (fun d p => if p.sensor.isSome = true ∧ p.today.day ≠ d then p.again.day else d) date.day

end

/-! ## The readings -/

section
variable {date d : Date} {temp t : T} {p : Pass τ T V} {before passes : List (Pass τ T V)} {hist : List (Date × T)}

theorem setOf_concat (hist : List (Date × T)) (d : Date) (t : T) :
    {u | (d, u) ∈ hist ++ [(d, t)]} = insert t {u | (d, u) ∈ hist} := by
  ext u
  simp [or_comm]

theorem lastDate_concat (before : List (Pass τ T V)) (p : Pass τ T V) :
    lastDate date (before ++ [p]) = if p.sensor.isSome = true then p.today else lastDate date before :=
  List.foldl_concat _ _ _ _

theorem begunOn_concat (before : List (Pass τ T V)) (p : Pass τ T V) :
    begunOn date (before ++ [p]) =
      if p.sensor.isSome = true ∧ p.today.day ≠ begunOn date before then p.again.day else begunOn date before :=
  List.foldl_concat _ _ _ _

theorem history_concat_of_some {v : Sensor T V} (h : p.sensor = some v) (before : List (Pass τ T V)) :
    history date temp (before ++ [p]) = history date temp before ++ [(p.today, v.temp)] := by
  simp [history, h]

theorem history_concat_of_none (h : p.sensor = none) (before : List (Pass τ T V)) :
    history date temp (before ++ [p]) = history date temp before := by
  simp [history, h]

/-- The dates of the readings do not decrease. -/
def NonDecreasing (date : Date) (temp : T) (passes : List (Pass τ T V)) : Prop :=
  ((history date temp passes).map Prod.fst).Pairwise (· ≤ ·)

/-- The date of the last reading is the latest. -/
theorem isGreatest_lastDate (h : NonDecreasing date temp before) :
    IsGreatest {d | d ∈ (history date temp before).map Prod.fst} (lastDate date before) := by
  induction before using List.reverseRecOn with
  | nil                          => exact ⟨List.mem_singleton_self date, fun d hd => (List.mem_singleton.1 hd).le⟩
  | append_singleton before p ih =>
    rw [lastDate_concat]
    cases hp : p.sensor with
    | none   =>
      rw [NonDecreasing, history_concat_of_none hp] at h
      rw [history_concat_of_none hp]
      exact ih h
    | some v =>
      rw [NonDecreasing, history_concat_of_some hp, List.map_append, List.pairwise_append] at h
      rw [history_concat_of_some hp, List.map_append]
      refine ⟨List.mem_append_right _ (List.mem_singleton_self _), fun d hd => ?_⟩
      rcases List.mem_append.1 hd with hd | hd
      · exact h.2.2 d hd _ (List.mem_singleton_self _)
      · exact (List.mem_singleton.1 hd).le

/-- A date that is not the last one begins anew. -/
theorem notMem_history {v : Sensor T V} (h : NonDecreasing date temp (before ++ [p])) (hv : p.sensor = some v)
    (hd : p.today ≠ lastDate date before) (u : T) : (p.today, u) ∉ history date temp before := by
  intro hu
  rw [NonDecreasing, history_concat_of_some hv, List.map_append, List.pairwise_append] at h
  have hlast := isGreatest_lastDate h.1
  exact hd ((hlast.2 (List.mem_map_of_mem hu)).antisymm (h.2.2 _ hlast.1 _ (List.mem_singleton_self _)))

theorem NonDecreasing.take {after : List (Pass τ T V)} (h : NonDecreasing date temp (before ++ p :: after)) :
    NonDecreasing date temp (before ++ [p]) := by
  refine List.Pairwise.sublist ?_ h
  refine List.Sublist.map Prod.fst (List.Sublist.cons_cons _ (List.Sublist.filterMap _ ?_))
  exact List.Sublist.append_left (List.Sublist.cons_cons p (List.nil_sublist after)) before

end

/-! ## What the extremes are to be -/

variable [LinearOrder τ] [LinearOrder T]

/-- **The extremes of a date.** -/
structure Extremes.OfDate (x : Extremes T) (d : Date) (hist : List (Date × T)) : Prop where
  low  : IsLeast {t | (d, t) ∈ hist} x.lowTemp
  high : IsGreatest {t | (d, t) ∈ hist} x.highTemp

section
variable (o : Options) (c : Clock τ ρ) (start : τ) (date : Date) (temp : T) (passes : List (Pass τ T V))

/-- `Q` at each reading: of the rounds before it, the round itself, what the sensor has, and the state before it. -/
def AtReadings (Q : List (Pass τ T V) → Pass τ T V → Sensor T V → State τ ρ T V → Prop) : Prop :=
  ∀ before p after, passes = before ++ p :: after → ∀ s, loop o c start before (setup o start date temp) = .ok s →
    ∀ x, p.sensor = some x → Q before p x s

/-- **After each reading** the extremes are those of its date. -/
def ShowsDaily : Prop := AtReadings o c start date temp passes (fun before p x s =>
  ∀ s', acquire o c start p s = .ok s' → s'.extremes.OfDate p.today (history date temp (before ++ [p])) ∧
    s'.extremes.lowTemp ≤ x.temp ∧ x.temp ≤ s'.extremes.highTemp)

/-- **Each reading that the loop comes to** is on the day the extremes were begun on where it is of the date of the last
reading, and only there; or all readings of that date had its temperature. -/
def TellsDates : Prop :=
  ∀ before p after, passes = before ++ p :: after → (o.hasOutput = true ∨ ∀ q ∈ before, ¬ Due o c start q.ts) →
    ∀ x, p.sensor = some x → (p.today.day = begunOn date before ↔ p.today = lastDate date before) ∨
      ∀ t, (lastDate date before, t) ∈ history date temp before → t = x.temp

end

/-! ## One reading -/

theorem Extremes.update_of_eq {x : Extremes T} {today again : Date} (h : today.day = x.currDate)
    (hx : x.lowTemp ≤ x.highTemp) (t : T) :
    (x.update today again t).lowTemp = min t x.lowTemp ∧ (x.update today again t).highTemp = max t x.highTemp := by
  unfold Extremes.update
  rw [if_pos h]
  split_ifs with hl hh
  · exact ⟨(min_eq_left hl.le).symm, (max_eq_right (hl.le.trans hx)).symm⟩
  · exact ⟨(min_eq_right (hx.trans hh.le)).symm, (max_eq_left hh.le).symm⟩
  · exact ⟨(min_eq_right (not_lt.1 hl)).symm, (max_eq_right (not_lt.1 hh)).symm⟩

theorem Extremes.update_of_ne {x : Extremes T} {today again : Date} (h : today.day ≠ x.currDate) (t : T) :
    (x.update today again t).lowTemp = t ∧ (x.update today again t).highTemp = t := by
  unfold Extremes.update
  rw [if_neg h]
  exact ⟨rfl, rfl⟩

variable {x : Extremes T} {d last again : Date} {t : T} {hist : List (Date × T)}

theorem Extremes.update_currDate (x : Extremes T) (today again : Date) (t : T) :
    (x.update today again t).currDate = if today.day ≠ x.currDate then again.day else x.currDate := by
  unfold Extremes.update
  split_ifs <;> first | rfl | contradiction

theorem Extremes.OfDate.low_le_high (h : x.OfDate d hist) : x.lowTemp ≤ x.highTemp := h.low.2 h.high.1

/-- Both extremes are the temperature of all readings. -/
theorem Extremes.OfDate.eq_iff (h : x.OfDate d hist) :
    x.lowTemp = t ∧ x.highTemp = t ↔ ∀ u, (d, u) ∈ hist → u = t := by
  constructor
  · rintro ⟨hlow, hhigh⟩ u hu
    exact (hhigh ▸ h.high.2 hu).antisymm (hlow ▸ h.low.2 hu)
  · exact fun hall => ⟨hall _ h.low.1, hall _ h.high.1⟩

/-- With a reading of the same date. -/
theorem ofDate_same_iff (h : x.OfDate d hist) (y : Extremes T) : y.OfDate d (hist ++ [(d, t)]) ↔
    y.lowTemp = min t x.lowTemp ∧ y.highTemp = max t x.highTemp := by
  constructor
  · rintro ⟨hlow, hhigh⟩
    rw [setOf_concat] at hlow hhigh
    exact ⟨hlow.unique (h.low.insert t), hhigh.unique (h.high.insert t)⟩
  · rintro ⟨hlow, hhigh⟩
    constructor
    · rw [setOf_concat, hlow]; exact h.low.insert t
    · rw [setOf_concat, hhigh]; exact h.high.insert t

/-- With the first reading of a date. -/
theorem ofDate_first_iff (h : ∀ u, (d, u) ∉ hist) (y : Extremes T) : y.OfDate d (hist ++ [(d, t)]) ↔
    y.lowTemp = t ∧ y.highTemp = t := by
  have hempty : {u | (d, u) ∈ hist} = ∅ := Set.eq_empty_of_forall_notMem h
  have hset : {u | (d, u) ∈ hist ++ [(d, t)]} = {t} := by
    rw [setOf_concat, hempty]
    exact insert_empty_eq t
  constructor
  · rintro ⟨hlow, hhigh⟩
    rw [hset] at hlow hhigh
    exact ⟨hlow.1, hhigh.1⟩
  · rintro ⟨hlow, hhigh⟩
    constructor
    · rw [hset, hlow]; exact isLeast_singleton
    · rw [hset, hhigh]; exact isGreatest_singleton

theorem min_max_eq_self_iff {low high : T} (h : low ≤ high) : min t low = t ∧ max t high = t ↔ low = t ∧ high = t := by
  rw [inf_eq_left, sup_eq_left]
  constructor
  · rintro ⟨hlow, hhigh⟩
    exact ⟨(h.trans hhigh).antisymm hlow, hhigh.antisymm (hlow.trans h)⟩
  · rintro ⟨hlow, hhigh⟩
    exact ⟨hlow.ge, hhigh.le⟩

/-- **One reading** keeps the extremes right where it is taken for what it is. -/
theorem update_ofDate_iff (h : x.OfDate last hist) (hfirst : d ≠ last → ∀ u, (d, u) ∉ hist) :
    (x.update d again t).OfDate d (hist ++ [(d, t)]) ↔
      (d.day = x.currDate ↔ d = last) ∨ ∀ u, (last, u) ∈ hist → u = t := by
  have hle := h.low_le_high
  rw [← h.eq_iff]
  by_cases hd : d = last
  · subst hd
    rw [ofDate_same_iff h]
    by_cases hday : d.day = x.currDate
    · exact iff_of_true (Extremes.update_of_eq hday hle t) (Or.inl (iff_of_true hday rfl))
    · rw [or_iff_right (fun hsame => hday (hsame.2 rfl)), ← min_max_eq_self_iff hle, (Extremes.update_of_ne hday t).1,
        (Extremes.update_of_ne hday t).2]
      exact and_congr eq_comm eq_comm
  · rw [ofDate_first_iff (hfirst hd)]
    by_cases hday : d.day = x.currDate
    · rw [or_iff_right (fun hsame => hd (hsame.1 hday)), ← min_max_eq_self_iff hle,
        (Extremes.update_of_eq hday hle t).1, (Extremes.update_of_eq hday hle t).2]
    · exact iff_of_true (Extremes.update_of_ne hday t) (Or.inl (iff_of_false hday hd))

/-! ## The run -/

variable {o : Options} {c : Clock τ ρ} {start : τ} {date : Date} {temp : T} {p : Pass τ T V}
  {before passes : List (Pass τ T V)} {s s' : State τ ρ T V}

theorem loop_concat (before : List (Pass τ T V)) (p : Pass τ T V) (s₀ : State τ ρ T V) :
    loop o c start (before ++ [p]) s₀ = (loop o c start before s₀).bind (pass o c start p) := by
  induction before generalizing s₀ with
  | nil              =>
    show (pass o c start p s₀).bind (loop o c start []) = pass o c start p s₀
    cases pass o c start p s₀ <;> rfl
  | cons q before ih =>
    rw [List.cons_append, loop, loop]
    cases pass o c start q s₀ with
    | error e => rfl
    | ok s    => exact ih s

theorem extremes_pass (h : pass o c start p s = .ok s') :
    s'.extremes = (p.sensor.map (fun x => s.extremes.update p.today p.again x.temp)).getD s.extremes := by
  unfold pass at h
  cases h₁ : acquire o c start p s with
  | error e => rw [h₁] at h; cases h
  | ok s₁   =>
    rw [h₁] at h
    cases h₂ : flush o c p.ts s₁ with
    | error e => rw [Except.bind, h₂] at h; cases h
    | ok s₂   =>
      rw [Except.bind, h₂] at h
      cases h
      exact (extremes_flush h₂).trans (extremes_acquire h₁)

/-- The day the extremes are kept under. -/
theorem currDate_before : ∀ (before : List (Pass τ T V)) {s : State τ ρ T V},
    loop o c start before (setup o start date temp) = .ok s → s.extremes.currDate = begunOn date before := by
  intro before
  induction before using List.reverseRecOn with
  | nil                          =>
    intro s hs
    cases hs
    rfl
  | append_singleton before p ih =>
    intro s' hs'
    rw [loop_concat] at hs'
    cases hs : loop o c start before (setup o start date temp) with
    | error e => rw [hs] at hs'; cases hs'
    | ok s    =>
      rw [hs] at hs'
      rw [extremes_pass hs', begunOn_concat, ← ih hs]
      cases hx : p.sensor with
      | none   => exact (if_neg (fun h => Bool.false_ne_true h.1)).symm
      | some v => rw [Option.map_some, Option.getD_some, Extremes.update_currDate]; simp

/-- **The extremes before each round** are those of the date of the last reading, if each reading keeps them so. -/
theorem ofDate_before (h : AtReadings o c start date temp passes (fun before p x s =>
    s.extremes.OfDate (lastDate date before) (history date temp before) →
      (s.extremes.update p.today p.again x.temp).OfDate p.today (history date temp (before ++ [p])))) :
    ∀ (before after : List (Pass τ T V)), passes = before ++ after → ∀ s,
      loop o c start before (setup o start date temp) = .ok s →
        s.extremes.OfDate (lastDate date before) (history date temp before) := by
  intro before
  induction before using List.reverseRecOn with
  | nil                          =>
    intro _ _ s hs
    cases hs
    have hnone : ∀ u, (date, u) ∉ ([] : List (Date × T)) := fun _ => List.not_mem_nil
    exact (ofDate_first_iff hnone _).2 ⟨rfl, rfl⟩
  | append_singleton before p ih =>
    intro after hp s' hs'
    rw [List.append_assoc] at hp
    rw [loop_concat] at hs'
    cases hs : loop o c start before (setup o start date temp) with
    | error e => rw [hs] at hs'; cases hs'
    | ok s    =>
      rw [hs] at hs'
      have hold := ih ([p] ++ after) hp s hs
      rw [extremes_pass hs', lastDate_concat]
      cases hx : p.sensor with
      | none   =>
        rw [history_concat_of_none hx]
        exact hold
      | some v => exact h before p after hp s hs v hx hold

/-- **The extremes are those of the day** exactly where each reading is taken for what it is. -/
theorem showsDaily_iff (o : Options) (c : Clock τ ρ) (start : τ) (date : Date) (temp : T) (passes : List (Pass τ T V))
    (hclock : NonDecreasing date temp passes) :
    ShowsDaily o c start date temp passes ↔ TellsDates o c start date temp passes := by
  have hupdate : ∀ {before p after}, passes = before ++ p :: after → ∀ {s : State τ ρ T V},
      loop o c start before (setup o start date temp) = .ok s → ∀ {x}, p.sensor = some x →
        s.extremes.OfDate (lastDate date before) (history date temp before) →
          ((s.extremes.update p.today p.again x.temp).OfDate p.today (history date temp (before ++ [p])) ↔
            (p.today.day = begunOn date before ↔ p.today = lastDate date before) ∨
              ∀ t, (lastDate date before, t) ∈ history date temp before → t = x.temp) := by
    rintro before p after rfl s hs x hx hold
    rw [history_concat_of_some hx, ← currDate_before before hs]
    exact update_ofDate_iff hold (notMem_history hclock.take hx)
  constructor
  · intro h before p after hp hreached x hx
    obtain ⟨s, hs⟩ := (neverFails_iff (ρ := ρ) o c start date temp before).2 hreached
    have hkept : ∀ before p after, passes = before ++ p :: after → ∀ s,
        loop o c start before (setup o start date temp) = .ok s → ∀ x, p.sensor = some x →
          (s.extremes.update p.today p.again x.temp).OfDate p.today (history date temp (before ++ [p])) := by
      intro before p after hp s hs x hx
      obtain ⟨s', hs', -⟩ := acquire_ok o c start p s
      have hd := (h before p after hp s hs x hx s' hs').1
      rw [extremes_acquire hs', hx] at hd
      exact hd
    have hold := ofDate_before (fun before p after hp s hs x hx _ => hkept before p after hp s hs x hx) before _ hp s hs
    exact (hupdate hp hs hx hold).1 (hkept before p after hp s hs x hx)
  · intro h before p after hp s hs x hx s' hs'
    have htells : ∀ before p after, passes = before ++ p :: after → ∀ s : State τ ρ T V,
        loop o c start before (setup o start date temp) = .ok s → ∀ x, p.sensor = some x →
          (p.today.day = begunOn date before ↔ p.today = lastDate date before) ∨
            ∀ t, (lastDate date before, t) ∈ history date temp before → t = x.temp :=
      fun before p after hp s hs x hx =>
        h before p after hp ((neverFails_iff o c start date temp before).1 ⟨s, hs⟩) x hx
    have hold := ofDate_before (fun before p after hp s hs x hx hold =>
      (hupdate hp hs hx hold).2 (htells before p after hp s hs x hx)) before _ hp s hs
    have hd := (hupdate hp hs hx hold).2 (htells before p after hp s hs x hx)
    rw [extremes_acquire hs', hx]
    have hmem : (p.today, x.temp) ∈ history date temp (before ++ [p]) := by
      rw [history_concat_of_some hx]
      exact List.mem_append_right _ (List.mem_singleton_self _)
    exact ⟨hd, hd.low.2 hmem, hd.high.2 hmem⟩

/-- A reading on a day of 2024. -/
def readingOn (month day : Nat) (temp : Int) : Pass Int Int Int where
  ts     := 10
  sensor := some ⟨temp, 1013, 40⟩
  today  := ⟨2024, month, day⟩
  again  := ⟨2024, month, day⟩
  now    := 11

theorem showsDaily_same_day : ShowsDaily {} seconds 0 ⟨2024, 1, 5⟩ 20 [readingOn 1 5 21] := by
  refine (showsDaily_iff {} seconds 0 ⟨2024, 1, 5⟩ 20 [readingOn 1 5 21] (by unfold NonDecreasing; decide)).2 ?_
  intro before p after hp _ x hx
  rcases List.cons_eq_append_iff.1 hp with ⟨rfl, hp⟩ | ⟨before', -, hp⟩
  · cases hp
    exact Or.inl (iff_of_true rfl rfl)
  · exact absurd (congrArg List.length hp) (by simp)

/-- The fifth of January is the fifth of February. -/
theorem not_showsDaily_month : ¬ ShowsDaily {} seconds 0 ⟨2024, 1, 5⟩ 20 [readingOn 2 5 3] := by
  intro h
  have hd := (h [] (readingOn 2 5 3) [] rfl _ rfl _ rfl _ rfl).1
  exact absurd hd.high.1 (by decide)

end Weather
end Scrapcode
