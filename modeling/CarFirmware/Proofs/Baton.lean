import CarFirmware.Proofs.Players
import CarFirmware.Proofs.Threads
import CarFirmware.Proofs.Writes

/-! Who may start the tracks. The right to do so is a baton: `run_cmds` picks it up, gives
it to the light instance it creates, which at its natural end gives it to a
`run_cmds_task`, which gives it to the next light instance or drops it. As long as a
message does not pick up a second one, the calls on a player do not overlap. -/

namespace Car

open Handshake

def MainPc.waits : MainPc → Worker → Bool
  | .motorRun, .notes | .stopped _, .notes => true
  | .ledRun, .motor | .ledStop _, .motor => true
  | .idle, .light | .notesStop _, .light => true
  | .out _, .mp3 => true
  | _, _ => false

def RestartPc.waits : RestartPc → Worker → Bool
  | .motorRun, .notes | .ledRun, .motor | .delete, .light => true
  | _, _ => false

/-- Inside `run_cmds`. -/
def MainPc.inRun : MainPc → Bool
  | .delete _ | .setRoot _ | .item _ _ | .nullTest | .flagOn | .notesRun | .motorRun | .ledRun =>
    true
  | _ => false

/-- In the branch for `C_STOP`, past the first statement. -/
def MainPc.inStop : MainPc → Bool
  | .motorStop _ | .ledStop _ | .notesStop _ | .stopped _ => true
  | _ => false

/-- Inside `run_cmds`, past the statement that sets `run_cmds_is_run`. -/
def MainPc.starting : MainPc → Bool
  | .notesRun | .motorRun | .ledRun => true
  | _ => false

def MainPc.stops : MainPc → Worker → Bool
  | .ledStop _, .motor | .notesStop _, .motor | .stopped _, .motor => true
  | .notesStop _, .light | .stopped _, .light => true
  | .stopped _, .notes => true
  | _, _ => false

/-- Has found `run_cmds_is_run` set and restarts the tracks. -/
def RestartPc.inRun : RestartPc → Bool
  | .print | .isLoop | .notesRun | .motorRun | .ledRun => true
  | _ => false

/-- Has not finished with `run_cmds_is_run`. -/
def RestartPc.pending : RestartPc → Bool
  | .test | .print | .isLoop | .notesRun | .motorRun | .ledRun | .clear => true
  | _ => false

/-- Between `task_run = false` at the natural end and the creation of the `run_cmds_task`. -/
def LedPc.inCallback : LedPc → Bool
  | .cbTest | .cbCreate => true
  | _ => false

/-! ### What the tasks do to `run_cmds_is_run` and to the `run_cmds_task`s -/

theorem Hw.drive_runCmdsIsRun (hw : Hw) (who : Option ℕ) (op : PwmOp) :
    (hw.drive who op).runCmdsIsRun = hw.runCmdsIsRun := by
  cases op <;> rfl

theorem Hw.drive_restarts (hw : Hw) (who : Option ℕ) (op : PwmOp) :
    (hw.drive who op).restarts = hw.restarts := by
  cases op <;> rfl

theorem Hw.drive_driver (hw : Hw) (who : Option ℕ) (op : PwmOp) (b : Bridge) :
    (hw.drive who op).driver b = hw.driver b ∨
    ((∃ v d, op = .run b v d) ∧ (hw.drive who op).driver b = who) ∨
    (op = .stop b ∧ (hw.drive who op).driver b = none) := by
  cases op with
  | enable => exact .inl rfl
  | disable => exact .inl rfl
  | run b' v d =>
    by_cases hb : b = b'
    · subst hb
      exact .inr (.inl ⟨⟨v, d, rfl⟩, Function.update_self ..⟩)
    · exact .inl (Function.update_of_ne hb ..)
  | stop b' =>
    by_cases hb : b = b'
    · subst hb
      exact .inr (.inr ⟨rfl, Function.update_self ..⟩)
    · exact .inl (Function.update_of_ne hb ..)

theorem motorRunCmdsTask_frame {i : ℕ} {run : Bool} {args : Option Str} {pc pc' : MotorPc}
    {hw hw' : Hw} {eff : Effect} (h : motorRunCmdsTask i run args pc hw = some (pc', eff, hw')) :
    hw'.runCmdsIsRun = hw.runCmdsIsRun ∧ hw'.restarts = hw.restarts := by
  rcases motorRunCmdsTask_writes h with rfl | rfl | ⟨op, rfl⟩
  · exact ⟨rfl, rfl⟩
  · exact ⟨rfl, rfl⟩
  · exact ⟨hw.drive_runCmdsIsRun _ op, hw.drive_restarts _ op⟩

theorem ledRunCmdsTask_frame {run : Bool} {args : Option Str} {pc pc' : LedPc}
    {hw hw' : Hw} {eff : Effect} (h : ledRunCmdsTask run args pc hw = some (pc', eff, hw')) :
    hw'.runCmdsIsRun = hw.runCmdsIsRun ∧ hw'.driver = hw.driver ∧ (hw'.restarts = hw.restarts ∨
      (pc = .cbCreate ∧ pc' = .setBits ∧ hw'.restarts = hw.restarts + 1)) := by
  rcases ledRunCmdsTask_writes h with rfl | rfl | ⟨f, rfl⟩ | ⟨hpc, hpc', rfl⟩
  · exact ⟨rfl, rfl, .inl rfl⟩
  · exact ⟨rfl, rfl, .inl rfl⟩
  · exact ⟨rfl, rfl, .inl rfl⟩
  · exact ⟨rfl, rfl, .inr ⟨hpc, hpc', rfl⟩⟩

theorem I2sWrite.frame {o : Owner} {hw hw' : Hw} (h : I2sWrite o hw hw') :
    hw'.runCmdsIsRun = hw.runCmdsIsRun ∧ hw'.restarts = hw.restarts ∧ hw'.driver = hw.driver := by
  cases h <;> exact ⟨rfl, rfl, rfl⟩

/-- No task writes `run_cmds_is_run`, only the light task creates a `run_cmds_task`, and
only the motor task drives. -/
theorem task_frame {w : Worker} {e : w.Env} {i : ℕ} {run : Bool} {args : w.Args} {pc pc' : w.Pc}
    {hw hw' : Hw} {eff : Effect} (h : w.body.task e i run args pc hw = some (pc', eff, hw')) :
    hw'.runCmdsIsRun = hw.runCmdsIsRun ∧ hw.restarts ≤ hw'.restarts ∧
      (w ≠ .light → hw'.restarts = hw.restarts) ∧ (w ≠ .motor → hw'.driver = hw.driver) := by
  cases w with
  | notes =>
    obtain ⟨hrun, hrestarts, hdriver⟩ := (playNotesTask_writes h).frame
    exact ⟨hrun, hrestarts.ge, fun _ => hrestarts, fun _ => hdriver⟩
  | motor =>
    obtain ⟨hrun, hrestarts⟩ := motorRunCmdsTask_frame h
    exact ⟨hrun, hrestarts.ge, fun _ => hrestarts, fun hw => absurd rfl hw⟩
  | light =>
    obtain ⟨hrun, hdriver, hrestarts⟩ := ledRunCmdsTask_frame h
    refine ⟨hrun, ?_, fun hw => absurd rfl hw, fun _ => hdriver⟩
    rcases hrestarts with hrestarts | ⟨-, -, hrestarts⟩ <;> omega
  | mp3 =>
    obtain ⟨hrun, hrestarts, hdriver⟩ := (soundPlayMp3Task_writes h).frame
    exact ⟨hrun, hrestarts.ge, fun _ => hrestarts, fun _ => hdriver⟩
  | renderer | audioConvert =>
    obtain rfl := loopTask_writes h
    exact ⟨rfl, le_rfl, fun _ => rfl, fun _ => rfl⟩

namespace System

/-- Caller `c` is inside a call on `w`. -/
def Open (s : System) (w : Worker) (c : ℕ) : Prop := (s.task w).call c ≠ .idle

variable {s : System} {w v : Worker} {c c' : ℕ}

theorem open_enter {k : Option w.Args} (h : (s.enter w c k).Open v c') :
    s.Open v c' ∨ (v = w ∧ c' = c) := by
  by_cases hv : v = w
  · subst hv
    by_cases hc : c' = c
    · exact .inr ⟨rfl, hc⟩
    · rw [Open, enter, put_task_self, State.goto_call, if_neg hc] at h
      exact .inl h
  · rw [Open, enter, put_task_of_ne hv] at h
    exact .inl h

theorem open_of_callStep {t : State w.Args w.Pc} {now : ℕ}
    (hc : State.CallStep w.body.proto w.body.fresh now (s.task w) c t) : s.Open w c :=
  hc.ne_idle

theorem open_call {hw : Hw} {t : State w.Args w.Pc} {now : ℕ}
    (hc : State.CallStep w.body.proto w.body.fresh now (s.task w) c t)
    (h : (s.put w hw t).Open v c') : s.Open v c' := by
  by_cases hv : v = w
  · subst hv
    by_cases hcc : c' = c
    · subst hcc
      exact open_of_callStep hc
    · rw [Open, put_task_self] at h
      rw [Open]
      cases hc <;> simpa only [State.goto_call, if_neg hcc] using h
  · rw [Open, put_task_of_ne hv] at h
    exact h

theorem open_move {hw : Hw} {i : ℕ} {pc : w.Pc} {eff : Effect} :
    (s.put w hw ((s.task w).move w.body.proto i pc eff)).Open v c ↔ s.Open v c := by
  by_cases hv : v = w
  · subst hv
    rw [Open, put_task_self, State.move_call]
    rfl
  · rw [Open, put_task_of_ne hv]
    rfl

theorem call_move {hw : Hw} {i : ℕ} {pc : w.Pc} {eff : Effect} :
    ((s.put w hw ((s.task w).move w.body.proto i pc eff)).task v).call = (s.task v).call := by
  by_cases hv : v = w
  · subst hv
    rw [put_task_self, State.move_call]
  · rw [put_task_of_ne hv]

theorem created_move {hw : Hw} {i : ℕ} {pc : w.Pc} {eff : Effect} :
    ((s.put w hw ((s.task w).move w.body.proto i pc eff)).task v).created = (s.task v).created := by
  by_cases hv : v = w
  · subst hv
    rw [put_task_self, State.move_created]
  · rw [put_task_of_ne hv]

theorem Numbered.callStep {t : State w.Args w.Pc} (h : s.Numbered) {now : ℕ}
    (hc : State.CallStep w.body.proto w.body.fresh now (s.task w) c t) :
    (s.put w s.hw t).Numbered := by
  intro v
  by_cases hv : v = w
  · subst hv
    rw [put_task_self]
    exact (h v).callStep hc
  · rw [put_task_of_ne hv]
    exact h v

theorem Numbered.move {hw : Hw} {i : ℕ} {pc : w.Pc} {eff : Effect} (h : s.Numbered)
    (hl : Lawful (s.task w).taskRun (w.body.phase ((s.task w).pc i)) eff (w.body.phase pc)) :
    (s.put w hw ((s.task w).move w.body.proto i pc eff)).Numbered := by
  intro v
  by_cases hv : v = w
  · subst hv
    rw [put_task_self]
    exact (h v).inst v.body.absent_phase hl
  · rw [put_task_of_ne hv]
    exact h v

/-- A step of thread `c` leaves every worker alone, or begins a call on it. -/
def Begins (c : ℕ) (s s' : System) : Prop :=
  ∀ w, s'.task w = s.task w ∨ ∃ k, s'.task w = (s.task w).goto c (w.body.proto.entry k)

variable {s' : System}

theorem Begins.of_eq (h : s'.task = s.task) : Begins c s s' := fun w => .inl (by rw [h])

theorem Begins.enter (s : System) (w : Worker) (c : ℕ) (k : Option w.Args) :
    Begins c s (s.enter w c k) := by
  intro v
  by_cases hv : v = w
  · subst hv
    exact .inr ⟨k, put_task_self ..⟩
  · exact .inl (put_task_of_ne hv ..)

theorem Begins.pc (h : Begins c s s') (w : Worker) : (s'.task w).pc = (s.task w).pc := by
  obtain heq | ⟨k, heq⟩ := h w <;> rw [heq]
  rfl

theorem Begins.created (h : Begins c s s') (w : Worker) :
    (s'.task w).created = (s.task w).created := by
  obtain heq | ⟨k, heq⟩ := h w <;> rw [heq]
  rfl

theorem Begins.call_of_ne (h : Begins c s s') (hc : c' ≠ c) (w : Worker) :
    (s'.task w).call c' = (s.task w).call c' := by
  obtain heq | ⟨k, heq⟩ := h w <;> rw [heq]
  rw [State.goto_call, if_neg hc]

theorem Begins.open_of_ne (h : Begins c s s') (hc : c' ≠ c) : s'.Open w c' ↔ s.Open w c' := by
  rw [Open, Open, h.call_of_ne hc]

theorem Begins.numbered (h : Begins c s s') (hn : s.Numbered) : s'.Numbered := by
  intro w
  obtain heq | ⟨k, heq⟩ := h w <;> rw [heq]
  · exact hn w
  · exact hn w

end System

namespace Firmware

def waits (s : Firmware) (w : Worker) : ℕ → Bool
  | 0 => s.main.waits w
  | k + 1 => (s.restart k).waits w

/-- Threads are where their calls let them be, and a `run_cmds_task` that has not been
created is at its first statement. -/
structure Parked (s : Firmware) : Prop where
  waits : ∀ w c, s.sys.Open w c → s.waits w c = true
  unborn : ∀ k, s.sys.hw.restarts ≤ k → s.restart k = .test

variable {s s' : Firmware}

theorem not_open_of_ready {c : ℕ} (h : s.ready c = true) (w : Worker) : ¬ s.sys.Open w c :=
  fun hopen => hopen (ready_iff.mp h w)

theorem Parked.sys (h : Parked s) (hmain : s'.main = s.main) (hrestart : s'.restart = s.restart)
    (hopen : ∀ w c, s'.sys.Open w c → s.sys.Open w c)
    (hle : s.sys.hw.restarts ≤ s'.sys.hw.restarts) : Parked s' := by
  refine ⟨?_, ?_⟩
  · intro w c hc
    have := h.waits w c (hopen w c hc)
    cases c <;> simpa only [Firmware.waits, hmain, hrestart] using this
  · intro k hk
    rw [hrestart]
    exact h.unborn k (hle.trans hk)

theorem Parked.main (h : Parked s) (hready : s.ready 0 = true) (hrestart : s'.restart = s.restart)
    (hopen : ∀ w c, s'.sys.Open w c → s.sys.Open w c ∨ (c = 0 ∧ s'.main.waits w = true))
    (hle : s'.sys.hw.restarts = s.sys.hw.restarts) : Parked s' := by
  refine ⟨?_, ?_⟩
  · intro w c hc
    rcases hopen w c hc with hc | ⟨rfl, hw⟩
    · cases c with
      | zero => exact absurd hc (not_open_of_ready hready w)
      | succ k => simpa only [Firmware.waits, hrestart] using h.waits w _ hc
    · exact hw
  · intro k hk
    rw [hrestart]
    exact h.unborn k (hle ▸ hk)

theorem Parked.mainEnter {w : Worker} {k : Option w.Args} (h : Parked s) (hready : s.ready 0 = true)
    (hrestart : s'.restart = s.restart) (hsys : s'.sys = s.sys.enter w 0 k)
    (hwaits : s'.main.waits w = true) : Parked s' := by
  refine h.main hready hrestart (fun v c hc => ?_) (by rw [hsys]; rfl)
  rw [hsys] at hc
  rcases System.open_enter hc with hopen | ⟨rfl, rfl⟩
  · exact .inl hopen
  · exact .inr ⟨rfl, hwaits⟩

theorem Parked.restart {k : ℕ} {pc : RestartPc} (h : Parked s) (hready : s.ready (k + 1) = true)
    (hk : k < s.sys.hw.restarts) (hmain : s'.main = s.main)
    (hrestart : s'.restart = Function.update s.restart k pc)
    (hopen : ∀ w c, s'.sys.Open w c → s.sys.Open w c ∨ (c = k + 1 ∧ pc.waits w = true))
    (hle : s'.sys.hw.restarts = s.sys.hw.restarts) : Parked s' := by
  refine ⟨?_, ?_⟩
  · intro w c hc
    rcases hopen w c hc with hc | ⟨rfl, hw⟩
    · cases c with
      | zero => simpa only [Firmware.waits, hmain] using h.waits w _ hc
      | succ j =>
        have hjk : j ≠ k := by
          rintro rfl
          exact not_open_of_ready hready w hc
        simpa only [Firmware.waits, hrestart, Function.update_of_ne hjk] using h.waits w _ hc
    · simpa only [Firmware.waits, hrestart, Function.update_self] using hw
  · intro j hj
    have hjk : j ≠ k := by omega
    rw [hrestart, Function.update_of_ne hjk]
    exact h.unborn j (hle ▸ hj)

theorem Parked.restartEnter {k : ℕ} {pc : RestartPc} {w : Worker} {a : Option w.Args} (h : Parked s)
    (hready : s.ready (k + 1) = true) (hk : k < s.sys.hw.restarts) (hmain : s'.main = s.main)
    (hrestart : s'.restart = Function.update s.restart k pc)
    (hsys : s'.sys = s.sys.enter w (k + 1) a) (hwaits : pc.waits w = true) : Parked s' := by
  refine h.restart hready hk hmain hrestart (fun v c hc => ?_) (by rw [hsys]; rfl)
  rw [hsys] at hc
  rcases System.open_enter hc with hopen | ⟨rfl, rfl⟩
  · exact .inl hopen
  · exact .inr ⟨rfl, hwaits⟩

theorem Parked.mainStep (h : Parked s) (hready : s.ready 0 = true) (hs : MainStep s s') :
    Parked s' := by
  cases hs
  case play | notesRun | motorRun | ledRun | motorStop | ledStop | notesStop =>
    exact h.mainEnter hready rfl rfl rfl
  case run => exact h.main hready rfl (fun v c hc => .inl hc) (Hw.drive_restarts ..)
  case stop => exact h.main hready rfl (fun v c hc => .inl hc) (Hw.drive_restarts ..)
  all_goals exact h.main hready rfl (fun v c hc => .inl hc) rfl

theorem Parked.restartStep {k : ℕ} (h : Parked s) (hready : s.ready (k + 1) = true)
    (hk : k < s.sys.hw.restarts) (hs : RestartStep s k s') : Parked s' := by
  cases hs
  case abort => exact h.sys rfl rfl (fun _ _ hc => hc) le_rfl
  case notesRun | motorRun | ledRun => exact h.restartEnter hready hk rfl rfl rfl rfl
  all_goals exact h.restart hready hk rfl rfl (fun v c hc => .inl hc) rfl

theorem Parked.step {a : FwAct} (h : Parked s) (hs : Step s a s') : Parked s' := by
  cases hs with
  | ignore => exact h
  | parse _ hready => exact h.main hready rfl (fun _ _ hc => .inl hc) rfl
  | main hready hm => exact h.mainStep hready hm
  | restart hk hready hr => exact h.restartStep hready hk hr
  | tick => exact h.sys rfl rfl (fun _ _ hc => hc) le_rfl
  | call hc => exact h.sys rfl rfl (fun _ _ hopen => System.open_call hc hopen) le_rfl
  | task ht _ =>
    exact h.sys rfl rfl (fun _ _ hopen => System.open_move.mp hopen) (task_frame ht).2.1

/-! ### The baton -/

end Firmware

/-- The three tracks of a `C_CMDS` message. -/
def Worker.isTrack : Worker → Bool
  | .notes | .motor | .light => true
  | _ => false

theorem Worker.guarded_of_isTrack {w : Worker} (h : w.isTrack = true) :
    w.body.proto.guarded = true := by
  cases w <;> first | rfl | cases h

def LedPc.baton : LedPc → Bool
  | .absent | .setBits | .delete | .ended => false
  | _ => true

theorem LedPc.baton_of_active {pc : LedPc} (h : pc.phase = .active) : pc.baton = true := by
  cases pc <;> first | rfl | cases h

theorem LedPc.active_of_baton {pc : LedPc} (h : pc.baton = true) :
    pc.phase = .active ∨ pc.inCallback = true := by
  cases pc <;> simp_all [baton, phase, inCallback]

theorem RestartPc.pending_of_inRun {pc : RestartPc} (h : pc.inRun = true) : pc.pending = true := by
  cases pc <;> first | rfl | cases h

theorem RestartPc.of_waits {pc : RestartPc} {w : Worker} (h : pc.waits w = true) :
    pc.inRun = true ∨ (pc = .delete ∧ w = .light) := by
  cases pc <;> cases w <;> simp_all [waits, inRun]

theorem MainPc.inRun_of_starting {pc : MainPc} (h : pc.starting = true) : pc.inRun = true := by
  cases pc <;> first | rfl | cases h

theorem MainPc.inStop_of_stops {pc : MainPc} {w : Worker} (h : pc.stops w = true) :
    pc.inStop = true := by
  cases pc <;> cases w <;> first | rfl | cases h

theorem MainPc.of_waits {pc : MainPc} {w : Worker} (h : pc.waits w = true)
    (hw : w.isTrack = true) :
    pc.starting = true ∨ pc.inStop = true ∨ (pc = .idle ∧ w = .light) := by
  cases pc <;> cases w <;> simp_all [waits, starting, inStop, Worker.isTrack]

theorem MainPc.of_waits_light {pc : MainPc} (h : pc.waits .light = true) :
    pc = .idle ∨ pc.inStop = true := by
  cases pc <;> first | exact .inl rfl | exact .inr rfl | cases h

inductive Token where
  | main
  | restart (k : ℕ)
  | light (i : ℕ)

namespace Firmware

def Holds (s : Firmware) : Token → Prop
  | .main => s.main.inRun = true ∨ (s.main = .idle ∧ s.sys.Open .light 0)
  | .restart k => k < s.sys.hw.restarts ∧
      ((s.restart k).pending = true ∨ s.sys.Open .light (k + 1))
  | .light i => ((s.sys.task .light).pc i).baton = true

/-- Thread `c` starts the tracks. -/
def Starts (s : Firmware) : ℕ → Prop
  | 0 => s.main.starting = true ∨ (s.main = .idle ∧ s.sys.Open .light 0)
  | k + 1 => (s.restart k).inRun = true ∨ s.sys.Open .light (k + 1)

def OneBaton (s : Firmware) : Prop := ∀ t t', s.Holds t → s.Holds t' → t = t'

/-- The flag is cleared for a `C_STOP` only while no `run_cmds_task` is restarting the tracks. -/
def StopClear (s : Firmware) (a : FwAct) : Prop :=
  a = .main → ∀ r, s.main = .cStop r → ∀ k, ¬ s.Starts (k + 1)

def Accepts (s : Firmware) (a : FwAct) : Prop :=
  a = .main ∧ (∃ r, s.main = .cCmds r) ∧ s.sys.hw.runCmdsIsRun = false

/-- A `C_CMDS` is accepted only while no `run_cmds_task` has yet to finish with the flag and
no light instance is about to create one. -/
def AcceptClear (s : Firmware) (a : FwAct) : Prop :=
  s.Accepts a →
    (∀ k < s.sys.hw.restarts, (s.restart k).pending = false) ∧
    ∀ i, ((s.sys.task .light).pc i).inCallback = false

/-- The stops on the tracks can be trusted and outlast the running instance. -/
def StopsInTime (s : Firmware) (a : FwAct) : Prop :=
  ∀ w c, a = .call w c → w.isTrack = true →
    Exclusive w.body.proto w.body.phase (s.sys.task w) (.call c s.sys.hw.now) ∧
    Patient w.body.phase (s.sys.task w) (.call c s.sys.hw.now)

/-- What holds in every run that meets the three conditions. -/
structure Relay (s : Firmware) : Prop where
  numbered : s.sys.Numbered
  parked : s.Parked
  one : s.OneBaton
  starts : ∀ c, s.Starts c → s.sys.hw.runCmdsIsRun = true
  stopFlag : s.main.inStop = true → s.sys.hw.runCmdsIsRun = false
  stopCalls : s.main.inStop = true → ∀ w, ((s.sys.task w).call 0).isStop = true
  stopped : ∀ w, w.isTrack = true → s.main.stops w = true → ¬ s.sys.Open w 0 →
    ∀ i, w.body.phase ((s.sys.task w).pc i) ≠ .active
  light : ∀ i, ((s.sys.task .light).pc i).phase = .active →
    s.sys.hw.runCmdsIsRun = true ∨ s.main.inStop = true
  settled : ∀ w, w.isTrack = true → Settled w.body.proto w.body.phase (s.sys.task w)

variable {s s' : Firmware} {a : FwAct}

theorem Parked.born {k : ℕ} (h : Parked s) (hk : s.restart k ≠ .test) :
    k < s.sys.hw.restarts := by
  by_contra hle
  exact hk (h.unborn k (by omega))

theorem Parked.restart_of_open {k : ℕ} (h : Parked s) (hopen : s.sys.Open .light (k + 1)) :
    s.restart k = .delete := by
  have hwaits : (s.restart k).waits .light = true := h.waits _ _ hopen
  cases hk : s.restart k <;> rw [hk] at hwaits <;> first | rfl | cases hwaits

theorem Parked.holds_restart {k : ℕ} (h : Parked s) (hs : s.Starts (k + 1)) :
    s.Holds (.restart k) := by
  rcases hs with hrun | hopen
  · exact ⟨h.born (by rintro heq; rw [heq] at hrun; cases hrun),
      .inl (RestartPc.pending_of_inRun hrun)⟩
  · exact ⟨h.born (by rw [h.restart_of_open hopen]; decide), .inr hopen⟩

theorem holds_main (hs : s.Starts 0) : s.Holds .main := by
  rcases hs with hstart | hidle
  · exact .inl (MainPc.inRun_of_starting hstart)
  · exact .inr hidle

/-- Thread `c` starts or stops tracks. -/
def Drives (s : Firmware) (c : ℕ) : Prop :=
  s.Starts c ∨ (c = 0 ∧ (s.main.inRun = true ∨ s.main.inStop = true))

theorem Parked.starts_of_open {w : Worker} {c : ℕ} (h : Parked s) (hw : w.isTrack = true)
    (hopen : s.sys.Open w c) : s.Starts c ∨ (c = 0 ∧ s.main.inStop = true) := by
  have hwaits := h.waits w c hopen
  cases c with
  | zero =>
    rcases MainPc.of_waits hwaits hw with hstart | hstop | ⟨hidle, rfl⟩
    · exact .inl (.inl hstart)
    · exact .inr ⟨rfl, hstop⟩
    · exact .inl (.inr ⟨hidle, hopen⟩)
  | succ k =>
    rcases RestartPc.of_waits hwaits with hrun | ⟨-, rfl⟩
    · exact .inl (.inl hrun)
    · exact .inl (.inr hopen)

theorem Parked.drives_of_open {w : Worker} {c : ℕ} (h : Parked s) (hw : w.isTrack = true)
    (hopen : s.sys.Open w c) : s.Drives c :=
  (h.starts_of_open hw hopen).imp id (And.imp id .inr)

theorem Relay.watched_of_open {w : Worker} {c : ℕ} (h : Relay s) (hw : w.isTrack = true)
    (hopen : s.sys.Open w c) : s.sys.hw.runCmdsIsRun = true ∨ s.main.inStop = true :=
  (h.parked.starts_of_open hw hopen).imp (h.starts c) And.right

theorem Relay.drives_unique {c c' : ℕ} (h : Relay s) (hc : s.Drives c) (hc' : s.Drives c') :
    c = c' := by
  -- the message thread excludes every `run_cmds_task`
  have hzero (k : ℕ) (h0 : s.Drives 0) (hk : s.Drives (k + 1)) : False := by
    have hk : s.Starts (k + 1) := hk.resolve_right (by simp)
    have hholds := h.parked.holds_restart hk
    rcases h0 with h0 | ⟨-, hrun | hstop⟩
    · cases h.one _ _ (holds_main h0) hholds
    · have hmain : s.Holds .main := .inl hrun
      cases h.one _ _ hmain hholds
    · have := h.starts _ hk
      rw [h.stopFlag hstop] at this
      cases this
  cases c with
  | zero =>
    cases c' with
    | zero => rfl
    | succ k => exact (hzero k hc hc').elim
  | succ k =>
    cases c' with
    | zero => exact (hzero k hc' hc).elim
    | succ j =>
      have hk := h.parked.holds_restart (hc.resolve_right (by simp))
      have hj := h.parked.holds_restart (hc'.resolve_right (by simp))
      cases h.one _ _ hk hj
      rfl

/-- The calls on a track do not overlap. -/
theorem Relay.idle {w : Worker} {c : ℕ} (h : Relay s) (hw : w.isTrack = true) (hc : s.Drives c)
    (hready : s.ready c = true) (c' : ℕ) : (s.sys.task w).call c' = .idle := by
  by_contra hopen
  obtain rfl := h.drives_unique hc (h.parked.drives_of_open hw hopen)
  exact not_open_of_ready hready w hopen

/-! ### What a statement of the message thread leaves alone -/

theorem dispatch_plain (r : Root) : (dispatch r).inRun = false ∧ (dispatch r).inStop = false ∧
    dispatch r ≠ .idle := by
  unfold dispatch
  split
  · simp [MainPc.inRun, MainPc.inStop]
  · split_ifs <;> first | (split <;> simp [MainPc.inRun, MainPc.inStop]) |
      simp [MainPc.inRun, MainPc.inStop]

theorem MainStep.restart_eq (hm : MainStep s s') : s'.restart = s.restart := by
  cases hm <;> rfl

theorem MainStep.restarts_eq (hm : MainStep s s') : s'.sys.hw.restarts = s.sys.hw.restarts := by
  cases hm <;> rfl

theorem MainStep.begins (hm : MainStep s s') : System.Begins 0 s.sys s'.sys := by
  cases hm <;> first | exact System.Begins.of_eq rfl | exact System.Begins.enter s.sys _ _ _

theorem MainStep.drives {w : Worker} (hm : MainStep s s') (hw : w.isTrack = true) :
    s'.sys.task w = s.sys.task w ∨ s.main.inRun = true ∨
      (s.main.inStop = true ∧ s'.sys.task w = (s.sys.task w).goto 0 (w.body.proto.entry none)) := by
  have henter (v : Worker) (hv : s.main.inStop = true) :
      (s.sys.enter v 0 none).task w = s.sys.task w ∨ s.main.inRun = true ∨
        (s.main.inStop = true ∧
          (s.sys.enter v 0 none).task w = (s.sys.task w).goto 0 (w.body.proto.entry none)) := by
    by_cases hwv : w = v
    · subst hwv
      exact .inr (.inr ⟨hv, System.put_task_self ..⟩)
    · exact .inl (System.put_task_of_ne hwv ..)
  cases hm
  case play => exact .inl (System.put_task_of_ne (by rintro rfl; cases hw) ..)
  case notesRun hmain _ => exact .inr (.inl (by rw [hmain]; rfl))
  case motorRun hmain _ => exact .inr (.inl (by rw [hmain]; rfl))
  case ledRun hmain _ => exact .inr (.inl (by rw [hmain]; rfl))
  case motorStop hmain => exact henter .motor (by rw [hmain]; rfl)
  case ledStop hmain => exact henter .light (by rw [hmain]; rfl)
  case notesStop hmain => exact henter .notes (by rw [hmain]; rfl)
  all_goals exact .inl rfl

theorem MainStep.driver (hm : MainStep s s') (b : Bridge) :
    s'.sys.hw.driver b = s.sys.hw.driver b ∨ s'.sys.hw.driver b = none := by
  have hdrive (op : PwmOp) : (s.sys.hw.drive none op).driver b = s.sys.hw.driver b ∨
      (s.sys.hw.drive none op).driver b = none := by
    rcases s.sys.hw.drive_driver none op b with hsame | ⟨-, hnone⟩ | ⟨-, hnone⟩
    · exact .inl hsame
    · exact .inr hnone
    · exact .inr hnone
  cases hm
  case run => exact hdrive _
  case stop => exact hdrive _
  all_goals exact .inl rfl

theorem MainStep.flag (hm : MainStep s s') :
    s'.sys.hw.runCmdsIsRun = s.sys.hw.runCmdsIsRun ∨
    (s.main = .flagOn ∧ s'.main = .notesRun ∧ s'.sys.hw.runCmdsIsRun = true) ∨
    ∃ r, s.main = .cStop r ∧ s'.main = .motorStop r ∧ s'.sys.hw.runCmdsIsRun = false := by
  cases hm
  case flagOn hmain => exact .inr (.inl ⟨hmain, rfl, rfl⟩)
  case flagOff r hmain => exact .inr (.inr ⟨r, hmain, rfl, rfl⟩)
  all_goals exact .inl rfl

theorem Skip.plain {pc pc' : MainPc} (h : Skip s pc pc') :
    pc'.starting = false ∧ pc'.inStop = false ∧ (pc'.inRun = true → pc.inRun = true) := by
  cases h
  case type r =>
    obtain ⟨hrun, hstop, -⟩ := dispatch_plain r
    refine ⟨?_, hstop, by simp [hrun]⟩
    by_contra hstart
    rw [MainPc.inRun_of_starting (by simpa using hstart)] at hrun
    cases hrun
  all_goals simp [MainPc.starting, MainPc.inStop, MainPc.inRun]

theorem MainStep.starting (hm : MainStep s s') (hstart : s'.main.starting = true) :
    s.main.starting = true ∨ s'.sys.hw.runCmdsIsRun = true := by
  cases hm
  case skip hs => simp [goMain, hs.plain.1] at hstart
  case abort => exact .inl hstart
  case flagOn => exact .inr rfl
  case notesRun hmain _ => exact .inl (by rw [hmain]; rfl)
  case motorRun hmain _ => exact .inl (by rw [hmain]; rfl)
  case item x r hmain => cases x <;> cases hstart
  all_goals cases hstart

theorem MainStep.idle_open (hm : MainStep s s') (hready : s.ready 0 = true)
    (hopen : s'.sys.Open .light 0) (hidle : s'.main = .idle) : s.main.starting = true := by
  have hnot := not_open_of_ready hready .light
  cases hm
  case ledRun hmain _ => rw [hmain]; rfl
  all_goals first | exact absurd hopen hnot | cases hidle

theorem MainStep.inStop (hm : MainStep s s') (hstop : s'.main.inStop = true) :
    s.main.inStop = true ∨ s'.sys.hw.runCmdsIsRun = false := by
  cases hm
  case skip hs => simp [goMain, hs.plain.2.1] at hstop
  case abort => exact .inl hstop
  case flagOff => exact .inr rfl
  case motorStop hmain => exact .inl (by rw [hmain]; rfl)
  case ledStop hmain => exact .inl (by rw [hmain]; rfl)
  case notesStop hmain => exact .inl (by rw [hmain]; rfl)
  case item x r hmain => cases x <;> cases hstop
  all_goals cases hstop

theorem MainStep.inRun (hm : MainStep s s') (hrun : s'.main.inRun = true) :
    s.main.inRun = true ∨
      ∃ r, s.main = .cCmds r ∧ s.sys.hw.runCmdsIsRun = false ∧ s' = s.goMain (.delete r) := by
  cases hm
  case skip hs => exact .inl (hs.plain.2.2 hrun)
  case abort => exact .inl hrun
  case accept r hmain hflag => exact .inr ⟨r, hmain, hflag, rfl⟩
  case delete hmain => exact .inl (by rw [hmain]; rfl)
  case setRoot hmain => exact .inl (by rw [hmain]; rfl)
  case item hmain => exact .inl (by rw [hmain]; rfl)
  case flagOn hmain => exact .inl (by rw [hmain]; rfl)
  case notesRun hmain _ => exact .inl (by rw [hmain]; rfl)
  case motorRun hmain _ => exact .inl (by rw [hmain]; rfl)
  all_goals cases hrun

/-! ### What a statement of a `run_cmds_task` leaves alone -/

variable {k : ℕ}

@[simp] theorem goRestart_restart (k : ℕ) (pc : RestartPc) (s : Firmware) (j : ℕ) :
    (s.goRestart k pc).restart j = if j = k then pc else s.restart j := by
  simp [goRestart, Function.update_apply]

theorem RestartStep.main_eq (hr : RestartStep s k s') : s'.main = s.main := by
  cases hr <;> rfl

theorem RestartStep.restarts_eq (hr : RestartStep s k s') :
    s'.sys.hw.restarts = s.sys.hw.restarts := by
  cases hr <;> rfl

theorem RestartStep.begins (hr : RestartStep s k s') :
    System.Begins (k + 1) s.sys s'.sys := by
  cases hr <;> first | exact System.Begins.of_eq rfl | exact System.Begins.enter s.sys _ _ _

theorem RestartStep.drives (hr : RestartStep s k s') :
    s'.sys.task = s.sys.task ∨ (s.restart k).inRun = true := by
  cases hr
  case notesRun hk _ => exact .inr (by rw [hk]; rfl)
  case motorRun hk _ => exact .inr (by rw [hk]; rfl)
  case ledRun hk _ => exact .inr (by rw [hk]; rfl)
  all_goals exact .inl rfl

theorem RestartStep.driver_eq (hr : RestartStep s k s') :
    s'.sys.hw.driver = s.sys.hw.driver := by
  cases hr <;> rfl

theorem RestartStep.restart_of_ne {j : ℕ} (hr : RestartStep s k s') (hj : j ≠ k) :
    s'.restart j = s.restart j := by
  cases hr <;> first | rfl | exact Function.update_of_ne hj _ _

theorem RestartStep.flag (hr : RestartStep s k s') :
    s'.sys.hw.runCmdsIsRun = s.sys.hw.runCmdsIsRun ∨
    (s.restart k = .clear ∧ s'.sys.hw.runCmdsIsRun = false ∧ s'.restart k = .delete ∧
      s'.sys.task = s.sys.task) := by
  cases hr
  case clear hk => exact .inr ⟨hk, rfl, Function.update_self .., rfl⟩
  all_goals exact .inl rfl

theorem Step.numbered {a : FwAct} (hn : s.sys.Numbered) (hs : Step s a s') : s'.sys.Numbered := by
  cases hs with
  | ignore => exact hn
  | parse => exact hn
  | main _ hm => exact hm.begins.numbered hn
  | restart _ _ hr => exact hr.begins.numbered hn
  | tick => exact hn
  | call hc => exact hn.callStep hc
  | task _ hl => exact hn.move hl

theorem RestartStep.flag_off (hr : RestartStep s k s') (h : s.sys.hw.runCmdsIsRun = false) :
    s'.sys.hw.runCmdsIsRun = false := by
  rcases hr.flag with hsame | ⟨-, hoff, -⟩
  · rw [hsame, h]
  · exact hoff

/-- Whoever is, or may come to be, in the middle of a restart was so before. -/
theorem RestartStep.pending (hr : RestartStep s k s') (hready : s.ready (k + 1) = true)
    (h : (s'.restart k).pending = true ∨ s'.sys.Open .light (k + 1)) :
    (s.restart k).pending = true := by
  have hnot := not_open_of_ready hready .light
  cases hr
  case abort => exact h.resolve_right hnot
  case delete =>
    rw [goRestart_restart, if_pos rfl] at h
    exact absurd (h.resolve_left (by decide)) hnot
  all_goals simp_all [RestartPc.pending]

theorem RestartStep.starts (hr : RestartStep s k s') (hready : s.ready (k + 1) = true)
    (hs : s'.Starts (k + 1)) :
    (s.restart k).inRun = true ∨ (s.restart k = .test ∧ s.sys.hw.runCmdsIsRun = true) := by
  have hnot := not_open_of_ready hready .light
  cases hr
  case abort => exact .inl (hs.resolve_right hnot)
  case print hk hflag => exact .inr ⟨hk, hflag⟩
  case returned | once | clear | delete =>
    simp only [Starts, goRestart_restart, if_pos] at hs
    exact absurd (hs.resolve_left (by decide)) hnot
  all_goals simp_all [RestartPc.inRun]

/-- What the light instance, the message thread and the other `run_cmds_task`s hold is
untouched. -/
theorem RestartStep.starts_of_ne {c : ℕ} (hr : RestartStep s k s') (hc : c ≠ k + 1)
    (hs : s'.Starts c) : s.Starts c := by
  cases c with
  | zero =>
    simp only [Starts, hr.main_eq] at hs
    exact hs.imp id (And.imp id (hr.begins.open_of_ne hc).mp)
  | succ j =>
    simp only [Starts, hr.restart_of_ne (j := j) (by simpa using hc)] at hs
    exact hs.imp id (hr.begins.open_of_ne hc).mp

end Firmware

end Car
