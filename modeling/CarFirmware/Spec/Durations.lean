import CarFirmware.Spec.LedStrip
import CarFirmware.Spec.Sound

/-! The integer arithmetic on the beat count of a command: `pdMS_TO_TICKS` over the
32-bit unsigned `TickType_t`, and `6*beatCnt` in `int`. -/

namespace Car

/-- `(TickType_t)ms` of a floating value; undefined unless the truncated value fits. -/
def toTickType (ms : ℚ) : Option UInt32 :=
  if -1 < ms ∧ ms < 2 ^ 32 then some (UInt32.ofNat ⌊ms⌋.toNat) else none

def configTICK_RATE_HZ : UInt32 := 100

/-- `pdMS_TO_TICKS(ms)`: `(TickType_t)ms * configTICK_RATE_HZ / 1000`. -/
def pdMS_TO_TICKS (ms : ℚ) : Option UInt32 :=
  (toTickType ms).map fun t => t * configTICK_RATE_HZ / 1000

/-- `6*beatCnt`; undefined on overflow. -/
def sixBeats (beatCnt : ℤ) : Option ℤ :=
  if -2 ^ 31 ≤ 6 * beatCnt ∧ 6 * beatCnt < 2 ^ 31 then some (6 * beatCnt) else none

/-- A computation on a beat count: `pdMS_TO_TICKS(beatCnt * BEAT_DURATION * 1000)` or
the last argument of `led_blink`. -/
inductive Duration where
  | delay (beatCnt : ℤ)
  | blink (beatCnt : ℤ)

def noteDurations (c : Cmd) : List Duration := if isRest c.code then [.delay c.beat] else []

def motorDurations (c : Cmd) : List Duration := [.delay c.beat]

def ledDurations (c : Cmd) : List Duration :=
  if isNo c.code then [.delay c.beat]
  else if c.code = ['R', 'B'] ∨ c.code = ['G', 'B'] ∨ c.code = ['B', 'B'] then [.blink c.beat]
  else if (ledCmd2data c.code c.beat).2 then []
  else [.delay c.beat]

end Car
