import CarFirmware.Spec.Utils
import Mathlib.Logic.Function.Basic

/-! `drv8833_pwm.c`: the two bridges and the motor commands. A function is the
list of its statements; a call that drives or stops one bridge is one statement. -/

namespace Car

inductive Bridge where
  | A | B
  deriving DecidableEq

/-- The duties of the two channels of each bridge, the flags `g_is_motorA_run` and
`g_is_motorB_run`, and the enable pin. -/
structure Pwm where
  duty : Bridge → ℤ × ℤ
  isRun : Bridge → Bool
  enable : Bool

def Pwm.init : Pwm where
  duty _ := (0, 0)
  isRun _ := false
  enable := false

def Pwm.isMotorRun (p : Pwm) : Bool := p.isRun .A || p.isRun .B

inductive PwmOp where
  | enable
  | disable
  | run (b : Bridge) (speed direction : ℤ)
  | stop (b : Bridge)
  deriving DecidableEq

/-- `drv8833_motorA_run` and `drv8833_motorB_run`; C division truncates. -/
def drv8833MotorRun (b : Bridge) (speed direction : ℤ) (p : Pwm) : Pwm :=
  let duty := (speed * 1024).tdiv 100
  { p with
    duty := Function.update p.duty b (if direction ≥ 0 then (duty, 0) else (0, duty))
    isRun := Function.update p.isRun b (decide (speed ≠ 0)) }

/-- `drv8833_motorA_stop` and `drv8833_motorB_stop`. -/
def drv8833MotorStop (b : Bridge) (p : Pwm) : Pwm :=
  { p with
    duty := Function.update p.duty b (1024, 1024)
    isRun := Function.update p.isRun b false }

def PwmOp.exec : PwmOp → Pwm → Pwm
  | .enable, p => { p with enable := true }
  | .disable, p => { p with enable := false }
  | .run b speed direction, p => drv8833MotorRun b speed direction p
  | .stop b, p => drv8833MotorStop b p

def carForward (speed1 speed2 : ℤ) : List PwmOp :=
  [.enable, .run .A speed1 1, .run .B speed2 1]

def carBack (speed1 speed2 : ℤ) : List PwmOp :=
  [.enable, .run .A speed1 (-1), .run .B speed2 (-1)]

def carStop : List PwmOp := [.stop .A, .stop .B, .disable]

def motorRunOneCmd (cmd : CStr) : List PwmOp :=
  if cmd = ['F'] then carForward 100 100
  else if cmd = ['B'] then carBack 100 100
  else if cmd = ['L'] then [.enable, .run .A 75 (-1), .run .B 75 1]
  else if cmd = ['R'] then [.enable, .run .A 75 1, .run .B 75 (-1)]
  else if cmd = ['F', 'L'] then carForward 50 100
  else if cmd = ['F', 'R'] then carForward 100 50
  else if cmd = ['B', 'L'] then carBack 50 100
  else if cmd = ['B', 'R'] then carBack 100 50
  else carForward 100 100

/-- `char code[16]` of `motor_run_cmds_task`. -/
def motorCodeSize : ℕ := 16

/-- The drive statements of one turn of the loop of `motor_run_cmds_task`. -/
def motorOps (c : Cmd) : List PwmOp := if isNo c.code then carStop else motorRunOneCmd c.code

/-- The `vTaskDelay` at the end of the turn. -/
def motorDelay (c : Cmd) : ℕ := pdMsToTicks (delaytime c.beat)

end Car
