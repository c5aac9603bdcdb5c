import CarFirmware.Spec.Utils
import Mathlib.Data.Fintype.Defs
import Mathlib.Data.UInt
import Mathlib.Logic.Function.Basic

/-! `led_strip.c`: the light commands. A function is the list of what it does, the
frames it sends with `led_strip_fill_data` and the delays between them. -/

namespace Car

def EXAMPLE_LED_NUMBERS : ℕ := 4

/-- `led_renderer_data_t`: green, red and blue of each pixel. -/
abbrev Frame := Fin (EXAMPLE_LED_NUMBERS * 3) → UInt8

inductive LedAct where
  | fill (f : Frame)
  | delay (ticks : ℕ)
  deriving DecidableEq

def LedAct.ticks : LedAct → ℕ
  | .fill _ => 0
  | .delay n => n

def actTicks (l : List LedAct) : ℕ := (l.map LedAct.ticks).sum

def ledFrames (l : List LedAct) : List Frame := l.filterMap fun
  | .fill f => some f
  | .delay _ => none

def colorFrame (r g b : UInt8) : Frame := fun k =>
  if k.val % 3 = 0 then g else if k.val % 3 = 1 then r else b

def ledOneColor (r g b : UInt8) : List LedAct := [.fill (colorFrame r g b)]

/-- `led_strip_hsv2rgb`, with the two float products taken exactly. -/
def ledStripHsv2rgb (h s v : ℕ) : ℕ × ℕ × ℕ :=
  let h := h % 360
  let rgbMax := v * 255 / 100
  let rgbMin := rgbMax * (100 - s) / 100
  let diff := h % 60
  let rgbAdj := (rgbMax - rgbMin) * diff / 60
  match h / 60 with
  | 0 => (rgbMax, rgbMin + rgbAdj, rgbMin)
  | 1 => (rgbMax - rgbAdj, rgbMax, rgbMin)
  | 2 => (rgbMin, rgbMax, rgbMin + rgbAdj)
  | 3 => (rgbMin, rgbMax - rgbAdj, rgbMax)
  | 4 => (rgbMin + rgbAdj, rgbMin, rgbMax)
  | _ => (rgbMax, rgbMin, rgbMax - rgbAdj)

def CHASE_SPEED_MS : ℚ := 75

def setPixel (f : Frame) (k : ℕ) (v : ℕ) : Frame := fun j =>
  if j.val = k then UInt8.ofNat v else f j

/-- One turn of the inner loop of `led_chase`. The frame is all zero before it, and
the third assignment goes to the index of the second, as in the source. -/
def chaseStep (startRgb : UInt16) (i : ℕ) : List LedAct :=
  let hue : UInt16 := UInt16.ofNat (i * 360 / EXAMPLE_LED_NUMBERS) + startRgb
  let (red, green, blue) := ledStripHsv2rgb hue.toNat 100 100
  let data := setPixel (setPixel (setPixel 0 (i * 3) green) (i * 3 + 1) red) (i * 3 + 1) blue
  [.fill data, .delay (pdMsToTicks CHASE_SPEED_MS), .fill 0, .delay (pdMsToTicks CHASE_SPEED_MS)]

def chaseBeats : ℕ → UInt16 → List LedAct
  | 0, _ => []
  | n + 1, startRgb =>
    (List.range EXAMPLE_LED_NUMBERS).flatMap (chaseStep startRgb) ++ chaseBeats n (startRgb + 50)

def ledChase (beatCnt : ℤ) : List LedAct := chaseBeats beatCnt.toNat 0

def ledOn : List LedAct := ledOneColor 5 5 5

def ledOff : List LedAct := ledOneColor 0 0 0

def ledBlink (r g b : UInt8) (count : ℤ) : List LedAct :=
  (List.replicate count.toNat
    (ledOneColor r g b ++ [.delay (pdMsToTicks 50)] ++ ledOff ++ [.delay (pdMsToTicks 50)])).flatten

/-- `led_cmd2data`; the second component is true when the caller must not delay. -/
def ledCmd2data (cmd : CStr) (beatCnt : ℤ) : List LedAct × Bool :=
  if cmd = ['R'] then (ledOneColor 0x33 0 0, false)
  else if cmd = ['G'] then (ledOneColor 0 0x33 0, false)
  else if cmd = ['B'] then (ledOneColor 0 0 0x33, false)
  else if cmd = ['R', 'B'] then (ledBlink 0x33 0 0 (6 * beatCnt), true)
  else if cmd = ['G', 'B'] then (ledBlink 0 0x33 0 (6 * beatCnt), true)
  else if cmd = ['B', 'B'] then (ledBlink 0 0 0x33 (6 * beatCnt), true)
  else if cmd = ['C', 'h', 'a', 's', 'e'] then (ledChase beatCnt, true)
  else if cmd = ['O', 'F', 'F'] then (ledOff, false)
  else (ledOneColor 0x33 0x33 0x33, false)

def ledCodeSize : ℕ := 16

/-- What one turn of the loop of `led_run_cmds_task` does. -/
def ledActs (c : Cmd) : List LedAct :=
  if isNo c.code then [.delay (pdMsToTicks (delaytime c.beat))]
  else
    let data := ledCmd2data c.code c.beat
    if data.2 then data.1 else data.1 ++ [.delay (pdMsToTicks (delaytime c.beat))]

end Car
