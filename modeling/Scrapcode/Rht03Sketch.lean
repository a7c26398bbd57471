import Mathlib.Algebra.Group.Int.Defs
import Mathlib.Algebra.Group.Nat.Defs
import Scrapcode.Runs
/-!
# Rht03Sketch — `RHT03_DHT22_humidity_temp_sensor.c`

The sketch as AVR runs it: `int` has 16 bits, `long` has 32, and so have the clocks.  `loop()` calls `readSensor` again
and again; between any two of its steps the line may change, and while the interrupt is attached each change runs
`sensorLineChange`, which no other code interrupts.  The clocks and what the pin reads are in the events.

A store to `timings` at an index it does not have is noted (`stores`) and goes nowhere.
-/
namespace Scrapcode
namespace Rht03

/-! ## Decoding -/

structure Errors where
  errorFlag : Bool := false
  printed : List String := []
deriving DecidableEq, Repr

abbrev Checks (α : Type) := StateM Errors α

def println (text : String) : Checks Unit := modify (fun e => { e with printed := e.printed ++ [text] })

/-- `flagError`, with the text in `errorMsgBuf`. -/
def flagError (text : String) : Checks Unit := do
  modify (fun e => { e with errorFlag := true })
  println text

def checkPreBitLowPulse (pulseMicros : Int) (timingIndex : Nat) : Checks Unit :=
  if pulseMicros ≤ 35 || pulseMicros ≥ 75 then
    flagError s!"Low pulse before bit transmit ({pulseMicros} us) outside 45-70us tolerance at timing idx {timingIndex}"
  else pure ()

def shiftNextBit (oldValue : BitVec 16) (pulseMicros : Int) (timingIndex : Nat) : Checks (BitVec 16) :=
  if pulseMicros > 10 && pulseMicros < 40 then pure (oldValue <<< 1)
  else if pulseMicros > 60 && pulseMicros < 85 then pure (oldValue <<< 1 ||| 1)
  else do
    flagError s!"Bad bit pulse length: {pulseMicros} us at timing idx {timingIndex}"
    return 0xFFFF

/-- The loop of `readnbits`: `nbits` more bits, the next one from `timingsIdx`. -/
def readnbits (timings : List Int) : Nat → Nat → BitVec 16 → Checks (BitVec 16)
  | _, 0, result                  => pure result
  | timingsIdx, nbits + 1, result => do
    checkPreBitLowPulse (timings.getD timingsIdx 0) timingsIdx
    let result ← shiftNextBit result (timings.getD (timingsIdx + 1) 0) (timingsIdx + 1)
    readnbits timings (timingsIdx + 2) nbits result

/-- A reading: the temperature in tenths of a degree, and the humidity in tenths of a percent. -/
structure Reading where
  temperature : BitVec 16
  humidity : BitVec 16
deriving DecidableEq, Repr

def checksum (humid16 temp16 : BitVec 16) : BitVec 8 :=
  (humid16 >>> 8).setWidth 8 + humid16.setWidth 8 + (temp16 >>> 8).setWidth 8 + temp16.setWidth 8

def signed (temp16 : BitVec 16) : BitVec 16 := if temp16.getLsbD 15 then -(temp16 &&& 0x7FFF) else temp16

def finish (humid16 temp16 checksum8 : BitVec 16) : Checks (Option Reading) :=
  if (checksum humid16 temp16).setWidth 16 ≠ checksum8 then do
    flagError "Checksum mismatch, bad sensor read"
    return none
  else pure (some ⟨signed temp16, humid16⟩)

/-- What comes after bits were read: nothing more if one was bad. -/
def unlessFlagged (text : String) (rest : Checks (Option Reading)) : Checks (Option Reading) := do
  if (← get).errorFlag then
    println text
    return none
  else rest

def analyseTimings (timings : List Int) : Checks (Option Reading) := do
  let humid16 ← readnbits timings 5 16 0
  unlessFlagged "Failed to capture humidity data" do
    let temp16 ← readnbits timings 37 16 0
    unlessFlagged "Failed to capture temperature data" do
      let checksum8 ← readnbits timings 69 8 0
      unlessFlagged "Failed to capture checksum" (finish humid16 temp16 checksum8)

/-! ## Capture -/

/-- Where `readSensor` is. -/
inductive Pc where
  -- it has returned, or was not called yet
  | idle
  | initialised
  | requesting
  | polling
  | stopping
  | collected
deriving DecidableEq, Repr

structure Sketch where
  pc : Pc := .idle
  attached : Bool := false
  signalLineChanges : Int := 0
  lastTransitionMicros : BitVec 32 := 0
  timings : List Int := List.replicate 88 0
  stores : List Int := []
  startMillis : BitVec 32 := 0
  errors : Errors := {}
  reading : Option Reading := none
deriving DecidableEq, Repr

/-- The interrupt handler; it reads the clock twice. -/
def sensorLineChange (s : Sketch) (micros micros' : BitVec 32) : Sketch :=
  let pulseMicros := micros - s.lastTransitionMicros
  { s with
    lastTransitionMicros := micros'
    timings :=
      if 0 ≤ s.signalLineChanges then s.timings.set s.signalLineChanges.toNat (pulseMicros.setWidth 16).toInt
      else s.timings
    stores := s.stores ++ [s.signalLineChanges]
    signalLineChanges := (s.signalLineChanges + 1).bmod (2 ^ 16) }

def initState (s : Sketch) (micros : BitVec 32) : Sketch :=
  { s with
    attached := false
    timings := List.replicate 86 0 ++ s.timings.drop 86
    errors := { s.errors with errorFlag := false }
    lastTransitionMicros := micros
    signalLineChanges := 0 }

/-- `requestSensorRead`, with what the pin reads at its start and the two pulse lengths. -/
def requestSensorRead (high : Bool) (low back : Int) : Checks Bool :=
  if !high then do
    flagError "Line not HIGH at entry to requestSensorRead()"
    return false
  else if low = 0 then do
    flagError "Sensor read failed: Sensor never pulled line LOW after initial request"
    return false
  else if back = 0 then do
    flagError "Sensor read failed: Sensor didn't go back HIGH after LOW response to read request"
    return false
  else pure true

/-- The request fails: `readSensor` flags the error again. -/
def requestFailed (errors : Errors) : Errors :=
  (flagError (errors.printed.getLastD "")).run errors |>.2

def sensorReadTimeoutMillis : Nat := 1000

inductive Event where
  | edge (micros micros' : BitVec 32)
  | call (micros : BitVec 32)
  | attach
  | request (high : Bool) (low back : Int) (millis : BitVec 32)
  | poll (millis : BitVec 32)
  | detach
  | analyse
deriving DecidableEq, Repr

def collect (s : Sketch) : Checks (Option Reading) :=
  if s.signalLineChanges ≠ 86 then do
    flagError s!"*** MISSED INTERRUPTS ***: Expected 86 line changes, saw {s.signalLineChanges}"
    return none
  else analyseTimings s.timings

def step (s : Sketch) : Event → Option Sketch
  | .edge micros micros'          => if s.attached then some (sensorLineChange s micros micros') else none
  | .call micros                  => if s.pc = .idle then some { initState s micros with pc := .initialised } else none
  | .attach                       =>
    if s.pc = .initialised then some { s with attached := true, pc := .requesting } else none
  | .request high low back millis =>
    if s.pc = .requesting then
      match (requestSensorRead high low back).run s.errors with
      | (true, errors)  => some { s with errors, startMillis := millis, pc := .polling }
      | (false, errors) => some { s with errors := requestFailed errors, pc := .idle, reading := none }
    else none
  | .poll millis                  =>
    if s.pc = .polling then
      if s.signalLineChanges < 86 && (millis - s.startMillis).toNat < sensorReadTimeoutMillis then some s
      else some { s with pc := .stopping }
    else none
  | .detach                       =>
    if s.pc = .stopping then some { s with attached := false, pc := .collected } else none
  | .analyse                      =>
    if s.pc = .collected then
      let (reading, errors) := (collect s).run s.errors
      some { s with reading, errors, pc := .idle }
    else none

end Rht03
end Scrapcode
