import CarFirmware.Lib.CArray
import Mathlib.Data.UInt

/-! `audio_convert.c`: `cnv_pattern_energy_mode`, a bar that grows with the volume from the
middle of the strip to both ends and falls back by one a call. The number of LEDs is a
parameter. -/

namespace Car.EnergyMode

def CNV_PATTERN_RED_BASE_VALUE : ℤ := 90

def CNV_PATTERN_COLOR_SPAN : ℤ := 30

def CNV_PATTERN_GREEN_BASE_VALUE : ℤ := 10

structure Volume where
  value : UInt8
  value_le : value.toNat ≤ 100

/-- The static variables that a call reads; `level`, too, is static but set at each call. -/
structure State where
  levelPre : UInt16
  xForward : UInt16
  xReverse : UInt16

def State.init : State := ⟨0, 0, 0⟩

variable (ledNumbers : ℕ)

def State.centred (s : State) : State :=
  if s.xForward ||| s.xReverse = 0 then
    let xReverse := UInt16.ofNat (ledNumbers >>> 1)
    let xForward := if ledNumbers % 2 ≠ 0 then xReverse + 1 else xReverse
    { s with xReverse := xReverse, xForward := xForward }
  else s

def level (volume : Volume) : UInt16 :=
  UInt16.ofNat (volume.value.toNat * ledNumbers / 100 / 2)

/-- The three assignments to `leddata.pixels` at `coordx`. -/
def paint (coordx red green blue : UInt8) : List (ℕ × UInt8) :=
  [(coordx.toNat * 3, red), (coordx.toNat * 3 + 1, green), (coordx.toNat * 3 + 2, blue)]

/-- Turn `x` of the loop of the rising branch. -/
def State.rise (s : State) (x : ℕ) : List (ℕ × UInt8) :=
  let red := UInt8.ofInt (CNV_PATTERN_RED_BASE_VALUE - CNV_PATTERN_COLOR_SPAN * x)
  let green := 0
  let blue := UInt8.ofInt (CNV_PATTERN_GREEN_BASE_VALUE + CNV_PATTERN_COLOR_SPAN * x)
  paint (UInt8.ofInt (s.xForward.toNat + x)) red green blue ++
    paint (UInt8.ofInt (s.xForward.toNat - x)) red green blue

/-- A turn of the loop of the falling branch. -/
def State.fall (s : State) : List (ℕ × UInt8) :=
  paint (UInt8.ofInt (s.xForward.toNat + s.levelPre.toNat)) 0 0 0 ++
    paint (UInt8.ofInt (s.xReverse.toNat - s.levelPre.toNat)) 0 0 0

/-- The assignments of a call in their order, and the static variables after it. -/
def State.draw (s : State) (volume : Volume) : List (ℕ × UInt8) × State :=
  let s := s.centred ledNumbers
  let level := level ledNumbers volume
  if level > s.levelPre then
    let s := { s with levelPre := level }
    ((List.range level.toNat).flatMap s.rise, s)
  else if s.levelPre ≠ 0 then
    ((List.range 2).flatMap fun _ => s.fall, { s with levelPre := s.levelPre - 1 })
  else ([], s)

/-- `cnv_pattern_energy_mode`, with the pixels for `led_strip_fill_data`; `none` when an
assignment is outside of them. -/
def cnvPatternEnergyMode (s : State) (volume : Volume) :
    Option (State × (Fin (ledNumbers * 3) → UInt8)) :=
  let (writes, s) := s.draw ledNumbers volume
  (CArray.stores 0 writes).map fun pixels => (s, pixels)

def State.step (s : State) (volume : Volume) : Option State :=
  (cnvPatternEnergyMode ledNumbers s volume).map Prod.fst

end Car.EnergyMode
