import CarFirmware.Lib.Handshake
import CarFirmware.Spec.Drv8833
import CarFirmware.Spec.LedStrip
import CarFirmware.Spec.Sound

/-! The task bodies, statement by statement. An instance's program counter carries its
local variables; what instances share, apart from their handles, is `Hw`. A task
function says what the next statement does: where it goes, what it does to the flag and
the event bit of its handle, and the new `Hw`. -/

namespace Car

open Handshake

/-- The `valuestring` of an item of the JSON document `doc`. -/
structure Str where
  doc : ℕ
  text : CStr
  deriving DecidableEq

/-- The instances that compete for `g_i2s_mutex`. -/
inductive Owner where
  | notes (i : ℕ)
  | mp3 (i : ℕ)
  deriving DecidableEq

/-- The clock in ticks, whether `abort` was reached, and the globals of the tasks.
`txLog` are the calls of `i2s_channel_enable` (`true`) and `i2s_channel_disable`, oldest
first; `pipelines` the arguments of `play_mp3_start_pipeline`; `driver` the motor task
instance whose drive is in effect on a bridge; `frames` the frames handed to
`led_strip_fill_data`; `restarts` the number of `run_cmds_task`s created. -/
structure Hw where
  now : ℕ
  halted : Bool
  i2sMutex : Option Owner
  txEnabled : Bool
  txLog : List Bool
  saw : Saw
  i2sDataBuffer : ℕ → ℤ
  pipelines : List ℤ
  pwm : Pwm
  driver : Bridge → Option ℕ
  frames : List Frame
  runCmdsIsRun : Bool
  restarts : ℕ

def Hw.init : Hw where
  now := 0
  halted := false
  i2sMutex := none
  txEnabled := false
  txLog := []
  saw := ⟨0, 0, 0, 0, 0⟩
  i2sDataBuffer _ := 0
  pipelines := []
  pwm := Pwm.init
  driver _ := none
  frames := []
  runCmdsIsRun := false
  restarts := 0

namespace Hw

def abort (hw : Hw) : Hw := { hw with halted := true }

/-- `ESP_ERROR_CHECK(i2s_channel_enable(tx_chan))`: an enabled channel is an error. -/
def i2sChannelEnable (hw : Hw) : Hw :=
  { hw with txLog := hw.txLog ++ [true], txEnabled := true, halted := hw.halted || hw.txEnabled }

/-- `ESP_ERROR_CHECK(i2s_channel_disable(tx_chan))`: a disabled channel is an error. -/
def i2sChannelDisable (hw : Hw) : Hw :=
  { hw with txLog := hw.txLog ++ [false], txEnabled := false, halted := hw.halted || !hw.txEnabled }

def take (hw : Hw) (o : Owner) : Hw := { hw with i2sMutex := some o }

def give (hw : Hw) : Hw := { hw with i2sMutex := none }

/-- A statement of `drv8833_pwm.c`, executed by the motor task instance `who`, if any. -/
def drive (hw : Hw) (who : Option ℕ) (op : PwmOp) : Hw :=
  { hw with
    pwm := op.exec hw.pwm
    driver := match op with
      | .run b _ _ => Function.update hw.driver b who
      | .stop b => Function.update hw.driver b none
      | _ => hw.driver }

def fill (hw : Hw) (f : Frame) : Hw := { hw with frames := hw.frames ++ [f] }

end Hw

/-! ### `motor_run_cmds_task` -/

inductive MotorPc where
  | absent
  | entry
  | null
  | cmds (pc : CmdPc) (s : Str) (pos : ℕ)
  | exec (ops : List PwmOp) (c : Cmd) (s : Str) (pos : ℕ)
  | delay (deadline : ℕ) (s : Str) (pos : ℕ)
  | carStop (ops : List PwmOp)
  | setBits
  | delete
  | ended
  deriving DecidableEq

def MotorPc.phase : MotorPc → Phase
  | .absent => .absent
  | .setBits => .cleared
  | .delete | .ended => .done
  | _ => .active

def motorRunCmdsTask (i : ℕ) (run : Bool) (args : Option Str) (pc : MotorPc) (hw : Hw) :
    Option (MotorPc × Effect × Hw) :=
  match pc with
  | .absent => none
  | .entry =>
    some (match args with | none => .null | some s => .cmds .loop s 0, .none, hw)
  | .null => some (.null, .none, hw.abort)
  | .cmds pc s pos =>
    some (match cmdStep run s.text pos pc with
      | .goto pc => .cmds pc s pos
      | .leave => .carStop carStop
      | .exec c pos => .exec (motorOps c) c s pos, .none, hw)
  | .exec (op :: ops) c s pos => some (.exec ops c s pos, .none, hw.drive (some i) op)
  | .exec [] c s pos => some (.delay (hw.now + motorDelay c) s pos, .none, hw)
  | .delay deadline s pos => if deadline ≤ hw.now then some (.cmds .loop s pos, .none, hw) else none
  | .carStop (op :: ops) => some (.carStop ops, .none, hw.drive (some i) op)
  | .carStop [] => some (.setBits, .clearRun, hw)
  | .setBits => some (.delete, .setBits, hw)
  | .delete => some (.ended, .none, hw)
  | .ended => none

theorem motorRunCmdsTask_lawful {i : ℕ} {run : Bool} {args : Option Str} {pc pc' : MotorPc}
    {hw hw' : Hw} {eff : Effect} (h : motorRunCmdsTask i run args pc hw = some (pc', eff, hw')) :
    Lawful run pc.phase eff pc'.phase := by
  unfold motorRunCmdsTask at h
  repeat' split at h
  all_goals cases h
  all_goals first | exact .stay _ nofun | exact .clear | exact .set

/-! ### `led_run_cmds_task` -/

inductive LedPc where
  | absent
  | entry
  | null
  | cmds (pc : CmdPc) (s : Str) (pos : ℕ)
  | acts (l : List LedAct) (s : Str) (pos : ℕ)
  | delay (deadline : ℕ) (l : List LedAct) (s : Str) (pos : ℕ)
  | ledOn
  | test
  | clear
  | cbTest
  | cbCreate
  | setBits
  | delete
  | ended
  deriving DecidableEq

def LedPc.phase : LedPc → Phase
  | .absent => .absent
  | .cbTest | .cbCreate | .setBits => .cleared
  | .delete | .ended => .done
  | _ => .active

/-- `cbTest` and `cbCreate` are `run_cmds_one_time_cb`. -/
def ledRunCmdsTask (run : Bool) (args : Option Str) (pc : LedPc) (hw : Hw) :
    Option (LedPc × Effect × Hw) :=
  match pc with
  | .absent => none
  | .entry =>
    some (match args with | none => .null | some s => .cmds .loop s 0, .none, hw)
  | .null => some (.null, .none, hw.abort)
  | .cmds pc s pos =>
    some (match cmdStep run s.text pos pc with
      | .goto pc => .cmds pc s pos
      | .leave => .ledOn
      | .exec c pos => .acts (ledActs c) s pos, .none, hw)
  | .acts (.fill f :: l) s pos => some (.acts l s pos, .none, hw.fill f)
  | .acts (.delay n :: l) s pos => some (.delay (hw.now + n) l s pos, .none, hw)
  | .acts [] s pos => some (.cmds .loop s pos, .none, hw)
  | .delay deadline l s pos => if deadline ≤ hw.now then some (.acts l s pos, .none, hw) else none
  | .ledOn => some (.test, .none, hw.fill (colorFrame 5 5 5))
  | .test => some (if run then .clear else .setBits, .none, hw)
  | .clear => some (.cbTest, .clearRun, hw)
  | .cbTest => some (if hw.runCmdsIsRun then .cbCreate else .setBits, .none, hw)
  | .cbCreate => some (.setBits, .none, { hw with restarts := hw.restarts + 1 })
  | .setBits => some (.delete, .setBits, hw)
  | .delete => some (.ended, .none, hw)
  | .ended => none

theorem ledRunCmdsTask_lawful {run : Bool} {args : Option Str} {pc pc' : LedPc}
    {hw hw' : Hw} {eff : Effect} (h : ledRunCmdsTask run args pc hw = some (pc', eff, hw')) :
    Lawful run pc.phase eff pc'.phase := by
  unfold ledRunCmdsTask at h
  repeat' split at h
  all_goals cases h
  all_goals first
    | exact .stay _ nofun
    | exact .clear
    | exact .set
    | exact .seen (Bool.eq_false_iff.mpr ‹_›)

/-! ### `play_notes_task` -/

/-- `n` is `bf_size` and `tick` is `tick_ret` of the source. -/
inductive NotesPc where
  | absent
  | take
  | busyDelete
  | args
  | null
  | cmds (pc : CmdPc) (s : Str) (pos : ℕ)
  | delay (deadline : ℕ) (s : Str) (pos : ℕ)
  | reset (c : Cmd) (s : Str) (pos : ℕ)
  | enable (s : Str) (pos : ℕ)
  | fill (n : ℕ) (tick : Bool) (s : Str) (pos : ℕ)
  | tick (n : ℕ) (s : Str) (pos : ℕ)
  | test (n : ℕ) (tick : Bool) (s : Str) (pos : ℕ)
  | write (n : ℕ) (tick : Bool) (s : Str) (pos : ℕ)
  | disable (s : Str) (pos : ℕ)
  | give
  | clear
  | setBits
  | delete
  | ended
  deriving DecidableEq

def NotesPc.phase : NotesPc → Phase
  | .absent => .absent
  | .setBits => .cleared
  | .busyDelete | .delete | .ended => .done
  | _ => .active

/-- `ok` says whether `i2s_channel_write` succeeds with a positive number of bytes. -/
def playNotesTask (ok : Bool) (i : ℕ) (run : Bool) (args : Option Str) (pc : NotesPc) (hw : Hw) :
    Option (NotesPc × Effect × Hw) :=
  match pc with
  | .absent => none
  | .take =>
    match hw.i2sMutex with
    | none => some (.args, .none, hw.take (.notes i))
    | some _ => some (.busyDelete, .none, hw)
  | .busyDelete => some (.ended, .none, hw)
  | .args =>
    some (match args with | none => .null | some s => .cmds .loop s 0, .none, hw)
  | .null => some (.null, .none, hw.abort)
  | .cmds pc s pos =>
    some (match cmdStep run s.text pos pc with
      | .goto pc => .cmds pc s pos
      | .leave => .give
      | .exec c pos =>
        if isRest c.code then .delay (hw.now + pdMsToTicks (delaytime c.beat)) s pos
        else .reset c s pos, .none, hw)
  | .delay deadline s pos => if deadline ≤ hw.now then some (.cmds .loop s pos, .none, hw) else none
  | .reset c s pos =>
    some (.enable s pos, .none, { hw with saw := sawReset (noteToFreq c.code) c.beat })
  | .enable s pos => some (.fill 0 true s pos, .none, hw.i2sChannelEnable)
  | .fill n tick s pos =>
    some (if n < BUFF_SIZE ∧ run then .tick n s pos else .test n tick s pos, .none, hw)
  | .tick n s pos =>
    some (match sawTick hw.saw with
      | none => (.test n false s pos, .none, hw)
      | some (x, saw) => (.fill (n + 1) true s pos, .none,
          { hw with saw := saw, i2sDataBuffer := Function.update hw.i2sDataBuffer n x }))
  | .test n tick s pos =>
    some (if n = 0 ∨ run = false then .disable s pos else .write n tick s pos, .none, hw)
  | .write _ tick s pos =>
    some (if tick then .fill 0 true s pos else .disable s pos, .none, if ok then hw else hw.abort)
  | .disable s pos => some (.cmds .loop s pos, .none, hw.i2sChannelDisable)
  | .give => some (.clear, .none, hw.give)
  | .clear => some (.setBits, .clearRun, hw)
  | .setBits => some (.delete, .setBits, hw)
  | .delete => some (.ended, .none, hw)
  | .ended => none

theorem playNotesTask_lawful {ok : Bool} {i : ℕ} {run : Bool} {args : Option Str}
    {pc pc' : NotesPc}
    {hw hw' : Hw} {eff : Effect} (h : playNotesTask ok i run args pc hw = some (pc', eff, hw')) :
    Lawful run pc.phase eff pc'.phase := by
  unfold playNotesTask at h
  repeat' split at h
  all_goals cases h
  all_goals first | exact .stay _ nofun | exact .clear | exact .set | exact .quit

/-! ### `sound_play_mp3_task` -/

inductive Mp3Pc where
  | absent
  | take
  | busyClear
  | pipeline
  | enable
  | loop
  | read
  | listen (len : ℤ)
  | write (len : ℤ)
  | clear
  | disable
  | give
  | setBits
  | delete
  | ended

def Mp3Pc.phase : Mp3Pc → Phase
  | .absent => .absent
  | .disable | .give | .setBits => .cleared
  | .delete | .ended => .done
  | _ => .active

/-- What `play_mp3_read_buffer` returns and stores, and the outcome of the write. -/
structure Mp3Env where
  readLen : ℤ
  rawBuffer : ℕ → ℤ
  ok : Bool

def soundPlayMp3Task (e : Mp3Env) (i : ℕ) (run : Bool) (fileid : ℤ) (pc : Mp3Pc) (hw : Hw) :
    Option (Mp3Pc × Effect × Hw) :=
  match pc with
  | .absent => none
  | .take =>
    match hw.i2sMutex with
    | none => some (.pipeline, .none, hw.take (.mp3 i))
    | some _ => some (.busyClear, .none, hw)
  | .busyClear => some (.setBits, .clearRun, hw)
  | .pipeline => some (.enable, .none, { hw with pipelines := hw.pipelines ++ [fileid] })
  | .enable => some (.loop, .none, hw.i2sChannelEnable)
  | .loop => some (if run then .read else .clear, .none, hw)
  | .read =>
    some (if e.readLen ≤ 0 then .clear else .listen e.readLen, .none,
      { hw with i2sDataBuffer := e.rawBuffer })
  | .listen len => some (.write len, .none, hw)
  | .write _ => some (.loop, .none, if e.ok then hw else hw.abort)
  | .clear => some (.disable, .clearRun, hw)
  | .disable => some (.give, .none, hw.i2sChannelDisable)
  | .give => some (.setBits, .none, hw.give)
  | .setBits => some (.delete, .setBits, hw)
  | .delete => some (.ended, .none, hw)
  | .ended => none

theorem soundPlayMp3Task_lawful {e : Mp3Env} {i : ℕ} {run : Bool} {fileid : ℤ}
    {pc pc' : Mp3Pc}
    {hw hw' : Hw} {eff : Effect}
    (h : soundPlayMp3Task e i run fileid pc hw = some (pc', eff, hw')) :
    Lawful run pc.phase eff pc'.phase := by
  unfold soundPlayMp3Task at h
  repeat' split at h
  all_goals cases h
  all_goals first | exact .stay _ nofun | exact .clear | exact .set

/-! ### `led_strip_renderer_task` and `audio_convert_task` -/

inductive LoopPc where
  | absent
  | loop
  | receive (deadline : Option ℕ)
  | process
  | setBits
  | delete
  | ended

def LoopPc.phase : LoopPc → Phase
  | .absent => .absent
  | .setBits => .cleared
  | .delete | .ended => .done
  | _ => .active

def expired (now : ℕ) : Option ℕ → Bool
  | none => false
  | some d => d ≤ now

/-- The task body of the template in `led_strip.c`, around one `xQueueReceive` with the
given timeout, `none` for `portMAX_DELAY`; `got` says whether it finds an entry. -/
def loopTask (timeout : Option ℕ) (got : Bool) (run : Bool) (pc : LoopPc) (hw : Hw) :
    Option (LoopPc × Effect × Hw) :=
  match pc with
  | .absent => none
  | .loop => some (if run then .receive (timeout.map (hw.now + ·)) else .setBits, .none, hw)
  | .receive deadline =>
    if got then some (.process, .none, hw)
    else if expired hw.now deadline then some (.loop, .none, hw)
    else none
  | .process => some (.loop, .none, hw)
  | .setBits => some (.delete, .setBits, hw)
  | .delete => some (.ended, .none, hw)
  | .ended => none

theorem loopTask_lawful {timeout : Option ℕ} {got run : Bool} {pc pc' : LoopPc}
    {hw hw' : Hw} {eff : Effect} (h : loopTask timeout got run pc hw = some (pc', eff, hw')) :
    Lawful run pc.phase eff pc'.phase := by
  unfold loopTask at h
  repeat' split at h
  all_goals cases h
  all_goals first | exact .stay _ nofun | exact .set | exact .seen (Bool.eq_false_iff.mpr ‹_›)

def ledStripRendererTimeout : Option ℕ := some (10000 / 10)

def audioConvertTimeout : Option ℕ := none

end Car
