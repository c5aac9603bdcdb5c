import CarFirmware.Spec.System

/-! `main.c`: `app_led_task`, which looks at the car about every second and shows on the strip
what it finds. -/

namespace Car.AppLed

/-- A value of `g_sys_vol` whose double is an `int`. -/
structure SysVol where
  value : ℤ
  product : -2 ^ 31 ≤ value * 2 ∧ value * 2 < 2 ^ 31

def getSysBatLevel (gSysVol : SysVol) : UInt8 :=
  let vol := gSysVol.value * 2
  if vol > 3900 then 4
  else if vol > 3800 then 3
  else if vol > 3750 then 2
  else if vol > 3680 then 1
  else 0

/-- `led_one_color2` of `led_strip.c`: the first `num` pixels in the colour, the others off. -/
def ledOneColor2 (r g b num : UInt8) : List LedAct :=
  let num := if num > 4 then 4 else num
  [.fill fun k => if k.val / 3 < num.toNat then colorFrame r g b k else 0]

/-- `led_blink2` of `led_strip.c`. -/
def ledBlink2 (r g b : UInt8) : List LedAct :=
  ledOneColor r g b ++ [.delay (pdMsToTicks 500)] ++ ledOff ++ [.delay (pdMsToTicks 500)]

structure Readings where
  isSoundPlayRun : Bool
  isMotorRun : Bool
  gSysVol : SysVol
  connState : ℤ

/-- `is_sound_play_run` and `is_motor_run` read what the tasks of the car have set; `g_sys_vol`
and `ucp_get_conn_state` are not theirs. -/
def readings (s : System) (gSysVol : SysVol) (connState : ℤ) : Readings where
  isSoundPlayRun := (s.task .mp3).taskRun
  isMotorRun := s.hw.pwm.isMotorRun
  gSysVol := gSysVol
  connState := connState

/-- A turn of the loop of `app_led_task`. -/
def turn (r : Readings) : List LedAct :=
  if r.isSoundPlayRun then [.delay (pdMsToTicks 1000)]
  else if r.isMotorRun then ledBlink 5 5 5 10
  else
    let batLevel := getSysBatLevel r.gSysVol
    if 0 = batLevel then ledBlink2 5 0 0
    else if 0 = r.connState then ledBlink2 5 5 0
    else ledOneColor2 0 5 0 batLevel ++ [.delay (pdMsToTicks 100)]

/-- `n` turns of the loop of `app_led_task`, the first at tick `now`. Apart from its delays a turn
waits in its sends to the queue, for `wait now` ticks together. -/
def appLedTask (car : ℕ → Readings) (wait : ℕ → ℕ) : ℕ → ℕ → List LedAct
  | 0, _ => []
  | n + 1, now =>
    turn (car now) ++ appLedTask car wait n (now + actTicks (turn (car now)) + wait now)

end Car.AppLed
