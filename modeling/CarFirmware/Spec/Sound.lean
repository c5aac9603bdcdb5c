import CarFirmware.Spec.Utils

/-! `sound.c`: notes, the sawtooth generator and the envelope, with the float
arithmetic taken exactly over the rationals. -/

namespace Car

def MY_SR : ℚ := 16000

def BUFF_SIZE : ℕ := 800

/-- `char label[4]` of `play_notes_task`. -/
def noteLabelSize : ℕ := 4

def lerp (x x1 x2 y1 y2 : ℚ) : ℚ := y1 + (x - x1) * (y2 - y1) / (x2 - x1)

def attackTime : ℚ := 1 / 100
def decayTime : ℚ := 1 / 10
def sustainGain : ℚ := 8 / 10
def releaseTime : ℚ := 1 / 10

/-- The factor that `adsr` applies at time `t`. -/
def adsrGain (t duration : ℚ) : ℚ :=
  if t < attackTime then lerp t 0 attackTime 0 1
  else if t < attackTime + decayTime then lerp t attackTime (attackTime + decayTime) 1 sustainGain
  else if t < duration - releaseTime then sustainGain
  else lerp t (duration - releaseTime) duration sustainGain 0

def adsr (sample t duration : ℚ) : ℚ := sample * adsrGain t duration

/-- The conversion of a float to an integer type. -/
def truncate (q : ℚ) : ℤ := if 0 ≤ q then ⌊q⌋ else ⌈q⌉

def fmod (x y : ℚ) : ℚ := x - y * truncate (x / y)

/-- The generator's globals `g_sample_rate`, `g_freq`, `g_inv_freq`, `g_tick_idx`
and `g_duration`. -/
structure Saw where
  sampleRate : ℚ
  freq : ℚ
  invFreq : ℚ
  tickIdx : ℕ
  duration : ℚ

def sawReset (freq : ℚ) (beatCnt : ℤ) : Saw where
  sampleRate := MY_SR
  freq := freq
  invFreq := 1 / freq
  tickIdx := 0
  duration := beatCnt * BEAT_DURATION

/-- `saw_tick`: the sample and the next state, `none` at the end of the duration. -/
def sawTick (s : Saw) : Option (ℤ × Saw) :=
  let t := s.tickIdx / s.sampleRate
  if s.duration ≤ t then none
  else
    let out := 2 * s.freq * fmod (t + s.invFreq / 2) s.invFreq - 1
    some (truncate (5000 * adsr out t s.duration), { s with tickIdx := s.tickIdx + 1 })

def gNoteNormal : List ℚ := [261.626, 293.665, 329.628, 349.228, 391.995, 440.0, 493.883]
def gNoteHigh : List ℚ := [523.251, 587.33, 659.255, 698.456, 783.991, 880.0, 987.767]
def gNoteLow : List ℚ := [130.813, 146.832, 164.814, 174.614, 195.998, 220.0, 246.942]

/-- `note[i] - '1'`; past the end of the label stands its NUL. -/
def noteDigit (note : CStr) (i : ℕ) : ℤ := ((note.getD i '\x00').toNat : ℤ) - 49

/-- `note_to_freq`; an index outside `0..6` gives frequency 0. -/
def noteToFreq (note : CStr) : ℚ :=
  let (idx, notesTable) :=
    if note[0]? = some '.' then (noteDigit note 1, gNoteLow)
    else if note[1]? = some '.' then (noteDigit note 0, gNoteHigh)
    else (noteDigit note 0, gNoteNormal)
  if 0 ≤ idx ∧ idx < 7 then notesTable.getD idx.toNat 0 else 0

/-- The commands for which `play_notes_task` only delays: `NO` and unknown notes. -/
def isRest (label : CStr) : Bool := isNo label || noteToFreq label = 0

/-- The `for` loop of `play_notes_task` with `task_run` true: the samples stored and
whether the last `saw_tick` returned 1. -/
def fillBuffer : ℕ → Saw → List ℤ × Saw × Bool
  | 0, s => ([], s, true)
  | n + 1, s =>
    match sawTick s with
    | none => ([], s, false)
    | some (x, s') => (x :: (fillBuffer n s').1, (fillBuffer n s').2)

/-- The `while (tick_ret)` loop with `task_run` true: the blocks handed to
`i2s_channel_write`, `none` if it has not ended within `fuel` turns. -/
def noteBlocks : ℕ → Saw → Option (List (List ℤ))
  | 0, _ => none
  | fuel + 1, s =>
    let (block, s', tickRet) := fillBuffer BUFF_SIZE s
    if block = [] then some []
    else if tickRet then (noteBlocks fuel s').map (block :: ·)
    else some [block]

end Car
