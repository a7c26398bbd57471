import Mathlib.Data.Int.Order.Basic
import Mathlib.Order.Bounds.Basic
import Scrapcode.ByteText
/-!
# Weather — the logger of `weather-console-only.py`

`main` sets up the csv file where a directory is given, and then goes round its loop: a sample is taken, prints its
line, becomes a row of the file, and two timers flush the file.  The loop does not fail by itself with a file
(`neverFails_iff`); without one the first timer that elapses flushes `None`.  The rows are all samples, since nothing
reads the option `--discard-first` (`csvAsDocumented_iff`).

Time, temperatures and the other values of the sensor are any types; the clock says what is how many seconds after a
time, and what is printed as the time that has passed.  Left out are the layout of a line, the options that the loop
does not look at, and the `ValueError` of two of those: `open` raises it for a buffer of size 0, before the loop, and
`time.sleep` for a negative sample interval.
-/
namespace Scrapcode
namespace Weather

open ByteText (Str)

structure Options where
  printNthSample      : Int        := 1
  outputDir           : Option Str := none
  outputFlushInterval : Int        := 600
  outputFsyncInterval : Int        := 3600
  headersEvery        : Int        := 20
  discardFirst        : Int        := 0
deriving DecidableEq, Repr

/-- A text is true in a test where it is not empty. -/
def Options.hasOutput (o : Options) : Bool := o.outputDir.any (fun d => decide (d ≠ []))

inductive Error where
  | attribute
  | zeroDivision
deriving DecidableEq, Repr

structure Date where
  year  : Nat
  month : Nat
  day   : Nat
deriving DecidableEq, Repr

/-- `ts + seconds`, and the `runtime` of a sample. -/
structure Clock (τ ρ : Type) where
  plus    : τ → Int → τ
  runtime : τ → τ → ρ

/-- What the sensor has, if it could be read. -/
structure Sensor (T V : Type) where
  temp     : T
  pressure : V
  humidity : V

/-- What one round of the loop is given: the time, the sensor, the two looks at the date, and the time again. -/
structure Pass (τ T V : Type) where
  ts     : τ
  sensor : Option (Sensor T V)
  today  : Date
  again  : Date
  now    : τ

structure Row (τ ρ T V : Type) where
  ts       : τ
  runtime  : ρ
  temp     : T
  pressure : V
  humidity : V

inductive Shown (τ ρ T V : Type) where
  | header
  | sample (row : Row τ ρ T V) (low high : T)

/-- The extremes, and the day of the month they are of. -/
structure Extremes (T : Type) where
  currDate : Nat
  lowTemp  : T
  highTemp : T

structure State (τ ρ T V : Type) where
  csv       : Option (List (Row τ ρ T V))
  extremes  : Extremes T
  lastFsync : τ
  lastFlush : τ
  rowNumber : Int
  console   : List (Shown τ ρ T V)

variable {τ ρ T V : Type}

def Extremes.update [LinearOrder T] (x : Extremes T) (today again : Date) (temp : T) : Extremes T :=
  if today.day = x.currDate then
    if temp < x.lowTemp then { x with lowTemp := temp }
    else if x.highTemp < temp then { x with highTemp := temp }
    else x
  else { currDate := again.day, lowTemp := temp, highTemp := temp }

/-- `a % b`. -/
def mod (a b : Int) : Except Error Int := if b = 0 then .error .zeroDivision else .ok (Int.fmod a b)

/-- `a // b`. -/
def div (a b : Int) : Except Error Int := if b = 0 then .error .zeroDivision else .ok (Int.fdiv a b)

section
variable (o : Options) (c : Clock τ ρ) (start : τ)

def printHeader (rowNumber : Int) : Except Error Bool :=
  if 0 < o.headersEvery then
    (div rowNumber o.printNthSample).bind fun q => (mod q o.headersEvery).bind fun m => .ok (decide (m = 0))
  else .ok false

def printSample (rowNumber : Int) (row : Row τ ρ T V) (x : Extremes T) : Except Error (List (Shown τ ρ T V)) :=
  if 0 < o.printNthSample then
    (mod rowNumber o.printNthSample).bind fun m =>
      if m = 0 then
        (printHeader o rowNumber).bind fun h =>
          .ok ((if h = true then [.header] else []) ++ [.sample row x.lowTemp x.highTemp])
      else .ok []
  else .ok []

def Sensor.row (x : Sensor T V) (p : Pass τ T V) : Row τ ρ T V where
  ts       := p.ts
  runtime  := c.runtime p.now start
  temp     := x.temp
  pressure := x.pressure
  humidity := x.humidity

/-- The rows of the samples that could be taken. -/
def samples (passes : List (Pass τ T V)) : List (Row τ ρ T V) :=
  passes.filterMap (fun p => p.sensor.map (fun x => x.row c start p))

/-- Before the loop, with the initial reading and its date. -/
def setup (date : Date) (temp : T) : State τ ρ T V where
  csv       := if o.hasOutput = true then some [] else none
  extremes  := { currDate := date.day, lowTemp := temp, highTemp := temp }
  lastFsync := start
  lastFlush := start
  rowNumber := 0
  console   := []

/-- The first part of the round, where the sensor is read. -/
def acquire [LinearOrder T] (p : Pass τ T V) (s : State τ ρ T V) : Except Error (State τ ρ T V) :=
  match p.sensor with
  | none   => .ok s
  | some x =>
    (printSample o s.rowNumber (x.row c start p)
        (s.extremes.update p.today p.again x.temp)).bind fun lines => .ok { s with
      extremes := s.extremes.update p.today p.again x.temp
      console  := s.console ++ lines
      csv      := s.csv.map (fun rows => rows ++ [x.row c start p]) }

variable [LinearOrder τ]

/-- The second part, with the timers. -/
def flush (ts : τ) (s : State τ ρ T V) : Except Error (State τ ρ T V) :=
  if 0 < o.outputFsyncInterval ∧ c.plus s.lastFsync o.outputFsyncInterval < ts then
    match s.csv with
    | none   => .error .attribute
    | some _ => .ok { s with lastFlush := ts, lastFsync := ts }
  else if 0 < o.outputFlushInterval ∧ c.plus s.lastFlush o.outputFlushInterval < ts then
    match s.csv with
    | none   => .error .attribute
    | some _ => .ok { s with lastFlush := ts }
  else .ok s

/-- A timer that was set at `start` has elapsed. -/
def Due (ts : τ) : Prop :=
  0 < o.outputFsyncInterval ∧ c.plus start o.outputFsyncInterval < ts ∨
    0 < o.outputFlushInterval ∧ c.plus start o.outputFlushInterval < ts

variable [LinearOrder T]

def pass (p : Pass τ T V) (s : State τ ρ T V) : Except Error (State τ ρ T V) :=
  (acquire o c start p s).bind fun s => (flush o c p.ts s).bind fun s => .ok { s with rowNumber := s.rowNumber + 1 }

def loop : List (Pass τ T V) → State τ ρ T V → Except Error (State τ ρ T V)
  | [], s      => .ok s
  | p :: ps, s => (pass o c start p s).bind (loop ps)

/-- **The loop goes through these rounds**, and none of them fails. -/
def NeverFails (date : Date) (temp : T) (passes : List (Pass τ T V)) : Prop :=
  ∃ s, loop o c start passes (setup o start date temp : State τ ρ T V) = .ok s

/-- **The csv file is as documented**: all samples but the first that are to be discarded, whose lines are printed all
the same. -/
def CsvAsDocumented (date : Date) (temp : T) (passes : List (Pass τ T V)) : Prop :=
  ∃ s, loop o c start passes (setup o start date temp : State τ ρ T V) = .ok s ∧
    s.csv = some ((samples c start passes).drop o.discardFirst.toNat) ∧
    ∀ n s', loop { o with discardFirst := n } c start passes
      (setup { o with discardFirst := n } start date temp : State τ ρ T V) = .ok s' → s'.console = s.console

end

variable {o : Options} {c : Clock τ ρ} {start : τ} {p : Pass τ T V} {s s' : State τ ρ T V} {date : Date} {temp : T}

/-! ## One round -/

theorem mod_of_pos {a b : Int} (h : 0 < b) : mod a b = .ok (Int.fmod a b) := if_neg (by omega)

theorem div_of_pos {a b : Int} (h : 0 < b) : div a b = .ok (Int.fdiv a b) := if_neg (by omega)

/-- **Nothing is divided by zero.** -/
theorem printSample_ok (rowNumber : Int) (row : Row τ ρ T V) (x : Extremes T) :
    ∃ lines, printSample o rowNumber row x = .ok lines := by
  unfold printSample
  by_cases hp : 0 < o.printNthSample
  · rw [if_pos hp, mod_of_pos hp]
    dsimp only [Except.bind]
    split_ifs
    · unfold printHeader
      by_cases hh : 0 < o.headersEvery
      · rw [if_pos hh, div_of_pos hp]
        dsimp only [Except.bind]
        rw [mod_of_pos hh]
        exact ⟨_, rfl⟩
      · rw [if_neg hh]
        exact ⟨_, rfl⟩
    · exact ⟨_, rfl⟩
  · rw [if_neg hp]
    exact ⟨_, rfl⟩

/-- What a sample changes. -/
theorem acquire_ok [LinearOrder T] (o : Options) (c : Clock τ ρ) (start : τ) (p : Pass τ T V) (s : State τ ρ T V) :
    ∃ s', acquire o c start p s = .ok s' ∧
    s'.csv = s.csv.map (fun rows => rows ++ samples c start [p]) ∧
    s'.extremes = (p.sensor.map (fun x => s.extremes.update p.today p.again x.temp)).getD s.extremes ∧
    s'.lastFsync = s.lastFsync ∧ s'.lastFlush = s.lastFlush := by
  unfold acquire
  cases hx : p.sensor with
  | none   => exact ⟨s, rfl, by simp [samples, hx], rfl, rfl, rfl⟩
  | some x =>
    obtain ⟨lines, hlines⟩ := printSample_ok (o := o) s.rowNumber (x.row c start p)
      (s.extremes.update p.today p.again x.temp)
    dsimp only
    rw [hlines]
    exact ⟨_, rfl, by simp [samples, hx], rfl, rfl, rfl⟩

theorem extremes_acquire [LinearOrder T] (h : acquire o c start p s = .ok s') :
    s'.extremes = (p.sensor.map (fun x => s.extremes.update p.today p.again x.temp)).getD s.extremes := by
  obtain ⟨s₁, h₁, -, hx, -⟩ := acquire_ok o c start p s
  cases h₁.symm.trans h
  exact hx

section
variable [LinearOrder τ]

/-- With a file, no flush fails. -/
theorem flush_of_some {rows : List (Row τ ρ T V)} (h : s.csv = some rows) (ts : τ) :
    ∃ s', flush o c ts s = .ok s' ∧ s'.csv = some rows := by
  unfold flush
  rw [h]
  split_ifs
  · exact ⟨_, rfl, rfl⟩
  · exact ⟨_, rfl, rfl⟩
  · exact ⟨_, rfl, h⟩

theorem extremes_flush {ts : τ} (h : flush o c ts s = .ok s') : s'.extremes = s.extremes := by
  unfold flush at h
  cases hc : s.csv <;> rw [hc] at h <;> split_ifs at h <;> cases h <;> rfl

/-- Without one, a timer that has elapsed ends the loop. -/
theorem flush_of_none (h : s.csv = none) (hfsync : s.lastFsync = start) (hflush : s.lastFlush = start) (ts : τ) :
    Due o c start ts ∧ flush o c ts s = .error .attribute ∨ ¬ Due o c start ts ∧ flush o c ts s = .ok s := by
  unfold flush Due
  rw [h, hfsync, hflush]
  by_cases h1 : 0 < o.outputFsyncInterval ∧ c.plus start o.outputFsyncInterval < ts
  · exact Or.inl ⟨Or.inl h1, if_pos h1⟩
  · rw [if_neg h1]
    by_cases h2 : 0 < o.outputFlushInterval ∧ c.plus start o.outputFlushInterval < ts
    · exact Or.inl ⟨Or.inr h2, if_pos h2⟩
    · exact Or.inr ⟨not_or.2 ⟨h1, h2⟩, if_neg h2⟩

/-! ## The loop -/

variable [LinearOrder T]

/-- **With a file** the loop goes on, and writes its samples. -/
theorem loop_of_some (o : Options) (c : Clock τ ρ) (start : τ) :
    ∀ (passes : List (Pass τ T V)) {s : State τ ρ T V} {rows : List (Row τ ρ T V)},
    s.csv = some rows → ∃ s', loop o c start passes s = .ok s' ∧ s'.csv = some (rows ++ samples c start passes)
  | [], s, rows, h          => ⟨s, rfl, by rw [h]; simp [samples]⟩
  | p :: passes, s, rows, h => by
    obtain ⟨s₁, h₁, hcsv, -⟩ := acquire_ok o c start p s
    rw [h, Option.map_some] at hcsv
    obtain ⟨s₂, h₂, hcsv₂⟩ := flush_of_some (o := o) (c := c) hcsv p.ts
    obtain ⟨s₃, h₃, hcsv₃⟩ := loop_of_some o c start passes (s := { s₂ with rowNumber := s₂.rowNumber + 1 }) hcsv₂
    refine ⟨s₃, ?_, ?_⟩
    · rw [loop, pass, h₁, Except.bind, h₂]
      exact h₃
    · rw [hcsv₃, List.append_assoc]
      congr 2
      exact List.filterMap_append.symm

/-- **Without one** it goes on until a timer elapses. -/
theorem loop_of_none : ∀ (passes : List (Pass τ T V)) {s : State τ ρ T V}, s.csv = none → s.lastFsync = start →
    s.lastFlush = start → ((∃ s', loop o c start passes s = .ok s') ↔ ∀ p ∈ passes, ¬ Due o c start p.ts)
  | [], s, _, _, _                 => iff_of_true ⟨s, rfl⟩ (fun _ hp => absurd hp List.not_mem_nil)
  | p :: passes, s, h, hfsync, hflush => by
    obtain ⟨s₁, h₁, hcsv, -, hfsync₁, hflush₁⟩ := acquire_ok o c start p s
    rw [h, Option.map_none] at hcsv
    rw [List.forall_mem_cons, loop, pass, h₁, Except.bind]
    rcases flush_of_none (o := o) (c := c) hcsv (hfsync₁.trans hfsync) (hflush₁.trans hflush) p.ts with
      ⟨hd, h₂⟩ | ⟨hd, h₂⟩
    · rw [h₂]
      exact iff_of_false (fun ⟨s', hs'⟩ => by cases hs') (fun hn => hn.1 hd)
    · rw [h₂, and_iff_right hd]
      exact loop_of_none passes (s := { s₁ with rowNumber := s₁.rowNumber + 1 }) hcsv (hfsync₁.trans hfsync)
        (hflush₁.trans hflush)

/-- **The loop never fails** where there is a directory for its file, or no timer elapses. -/
theorem neverFails_iff (o : Options) (c : Clock τ ρ) (start : τ) (date : Date) (temp : T) (passes : List (Pass τ T V)) :
    NeverFails o c start date temp passes ↔ o.hasOutput = true ∨ ∀ p ∈ passes, ¬ Due o c start p.ts := by
  by_cases h : o.hasOutput = true
  · have hsetup : (setup o start date temp : State τ ρ T V).csv = some [] := if_pos h
    obtain ⟨s, hs, -⟩ := loop_of_some o c start passes hsetup
    exact iff_of_true ⟨s, hs⟩ (Or.inl h)
  · rw [or_iff_right h]
    exact loop_of_none passes (if_neg h) rfl rfl

/-! ### A logger without options -/

def seconds : Clock Int Int where
  plus    := fun t n => t + n
  runtime := fun t u => t - u

def failedPass (ts : Int) : Pass Int Int Int where
  ts     := ts
  sensor := none
  today  := ⟨2024, 1, 5⟩
  again  := ⟨2024, 1, 5⟩
  now    := ts

/-- After ten minutes it flushes a file that is not there. -/
theorem not_neverFails_defaults : ¬ NeverFails {} seconds 0 ⟨2024, 1, 5⟩ 20 [failedPass 601] := by
  rintro ⟨s, hs⟩
  cases hs

/-! ## The rows -/

theorem loop_discard (n : Int) : ∀ (passes : List (Pass τ T V)) (s : State τ ρ T V),
    loop { o with discardFirst := n } c start passes s = loop o c start passes s
  | [], _          => rfl
  | p :: passes, s => by
    rw [loop, loop, funext (loop_discard n passes)]
    rfl

/-- What is discarded is nothing. -/
theorem drop_eq_self_iff {α : Type} {n : Nat} {l : List α} : l.drop n = l ↔ n = 0 ∨ l = [] := by
  constructor
  · intro h
    have hlen := congrArg List.length h
    rw [List.length_drop] at hlen
    rcases Nat.eq_zero_or_pos n with h0 | h0
    · exact Or.inl h0
    · exact Or.inr (List.eq_nil_of_length_eq_zero (by omega))
  · rintro (rfl | rfl)
    · rfl
    · exact List.drop_nil

theorem csvAsDocumented_iff_samples (h : o.hasOutput = true) (passes : List (Pass τ T V)) :
    CsvAsDocumented o c start date temp passes ↔ o.discardFirst ≤ 0 ∨ samples c start passes = [] := by
  have hsetup : (setup o start date temp : State τ ρ T V).csv = some [] := if_pos h
  obtain ⟨s, hs, hcsv⟩ := loop_of_some o c start passes hsetup
  rw [List.nil_append] at hcsv
  have hdrop : o.discardFirst.toNat = 0 ↔ o.discardFirst ≤ 0 := by omega
  rw [← hdrop, ← drop_eq_self_iff]
  constructor
  · rintro ⟨s', hs', hrows, -⟩
    cases hs.symm.trans hs'
    exact Option.some.inj (hrows.symm.trans hcsv)
  · intro hrows
    refine ⟨s, hs, by rw [hrows, hcsv], fun n s' hs' => ?_⟩
    rw [loop_discard] at hs'
    cases hs.symm.trans hs'
    rfl

/-- **The rows are as documented** where none is to be discarded, or there is none. -/
theorem csvAsDocumented_iff (o : Options) (c : Clock τ ρ) (start : τ) (date : Date) (temp : T)
    (passes : List (Pass τ T V)) (h : o.hasOutput = true) : CsvAsDocumented o c start date temp passes ↔
      o.discardFirst ≤ 0 ∨ ∀ p ∈ passes, p.sensor = none := by
  rw [csvAsDocumented_iff_samples h, samples, List.filterMap_eq_nil_iff]
  simp

end

def samplePass (ts temp : Int) : Pass Int Int Int := { failedPass ts with sensor := some ⟨temp, 1013, 40⟩ }

theorem csvAsDocumented_keep :
    CsvAsDocumented { outputDir := some ['d'] } seconds 0 ⟨2024, 1, 5⟩ 20 [samplePass 10 21] :=
  (csvAsDocumented_iff { outputDir := some ['d'] } seconds 0 ⟨2024, 1, 5⟩ 20 [samplePass 10 21] rfl).2
    (Or.inl (by decide))

/-- The first sample is a row, though it is to be discarded. -/
theorem not_csvAsDocumented_discard :
    ¬ CsvAsDocumented { outputDir := some ['d'], discardFirst := 1 } seconds 0 ⟨2024, 1, 5⟩ 20 [samplePass 10 21] := by
  rintro ⟨s, hs, hcsv, -⟩
  cases hs
  cases hcsv

end Weather
end Scrapcode
