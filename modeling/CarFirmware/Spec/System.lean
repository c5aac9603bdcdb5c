import CarFirmware.Lib.Worker
import CarFirmware.Lib.Transition
import CarFirmware.Spec.Tasks

/-! The six tasks that are started and stopped through a handle, under any number of
callers. The players (notes, motor, light, mp3) follow the guarded protocol, with a wait
that consumes the bit; the renderer and the audio converter follow the plain one. -/

namespace Car

open Handshake

inductive Worker where
  | notes
  | motor
  | light
  | mp3
  | renderer
  | audioConvert
  deriving DecidableEq

namespace Worker

def all : List Worker := [notes, motor, light, mp3, renderer, audioConvert]

/-- The type of `handle->args` or `handle->fileid`. -/
abbrev Args : Worker → Type
  | notes | motor | light => Option Str
  | mp3 => ℤ
  | renderer | audioConvert => Unit

abbrev Pc : Worker → Type
  | notes => NotesPc
  | motor => MotorPc
  | light => LedPc
  | mp3 => Mp3Pc
  | renderer | audioConvert => LoopPc

abbrev Env : Worker → Type
  | notes => Bool
  | motor | light => Unit
  | mp3 => Mp3Env
  | renderer | audioConvert => Bool

def isPlayer : Worker → Bool
  | notes | motor | light | mp3 => true
  | _ => false

def noArgs : (w : Worker) → w.Args
  | notes | motor | light => none
  | mp3 => 0
  | renderer | audioConvert => ()

end Worker

def portTICK_RATE_MS : ℕ := 10

def gPlayNotesHandler : Proto := ⟨true, 5000 / portTICK_RATE_MS⟩
def gMotorCmdsHandler : Proto := ⟨true, 5000 / portTICK_RATE_MS⟩
def gLedCmdsHandler : Proto := ⟨true, 5000 / portTICK_RATE_MS⟩
def gPlaymp3Handle : Proto := ⟨true, 500 / portTICK_RATE_MS⟩
def gLedstripRendererHandler : Proto := ⟨false, 8000 / portTICK_RATE_MS⟩
def gCnvHandler : Proto := ⟨false, 8000 / portTICK_RATE_MS⟩

def notesBody : Body (Option Str) NotesPc Hw Bool where
  proto := gPlayNotesHandler
  phase := NotesPc.phase
  absent := .absent
  fresh := .take
  task := playNotesTask
  absent_phase := rfl
  fresh_active := rfl
  lawful := playNotesTask_lawful

def motorBody : Body (Option Str) MotorPc Hw Unit where
  proto := gMotorCmdsHandler
  phase := MotorPc.phase
  absent := .absent
  fresh := .entry
  task _ := motorRunCmdsTask
  absent_phase := rfl
  fresh_active := rfl
  lawful := motorRunCmdsTask_lawful

def lightBody : Body (Option Str) LedPc Hw Unit where
  proto := gLedCmdsHandler
  phase := LedPc.phase
  absent := .absent
  fresh := .entry
  task _ _ := ledRunCmdsTask
  absent_phase := rfl
  fresh_active := rfl
  lawful := ledRunCmdsTask_lawful

def mp3Body : Body ℤ Mp3Pc Hw Mp3Env where
  proto := gPlaymp3Handle
  phase := Mp3Pc.phase
  absent := .absent
  fresh := .take
  task := soundPlayMp3Task
  absent_phase := rfl
  fresh_active := rfl
  lawful := soundPlayMp3Task_lawful

def loopBody (proto : Proto) (timeout : Option ℕ) : Body Unit LoopPc Hw Bool where
  proto := proto
  phase := LoopPc.phase
  absent := .absent
  fresh := .loop
  task got _ run _ := loopTask timeout got run
  absent_phase := rfl
  fresh_active := rfl
  lawful := loopTask_lawful

def rendererBody : Body Unit LoopPc Hw Bool :=
  loopBody gLedstripRendererHandler ledStripRendererTimeout

def audioConvertBody : Body Unit LoopPc Hw Bool :=
  loopBody gCnvHandler audioConvertTimeout

def Worker.body : (w : Worker) → Body w.Args w.Pc Hw w.Env
  | .notes => notesBody
  | .motor => motorBody
  | .light => lightBody
  | .mp3 => mp3Body
  | .renderer => rendererBody
  | .audioConvert => audioConvertBody

theorem Worker.guarded_eq (w : Worker) : w.body.proto.guarded = w.isPlayer := by
  cases w <;> rfl

structure System where
  hw : Hw
  task : (w : Worker) → State w.Args w.Pc

/-- A step of the system: time passes; a task or one of its callers takes a step; another
part of the firmware drives the motors, writes `run_cmds_is_run` or aborts. -/
inductive SysAct where
  | tick (n : ℕ)
  | task (w : Worker) (a : BodyAct w.Args w.Env)
  | drive (op : PwmOp)
  | setRunCmdsIsRun (b : Bool)
  | abort

def playNotesRun (c : ℕ) (str : Option Str) : SysAct := .task .notes (.begin c (some str))
def playNotesStop (c : ℕ) : SysAct := .task .notes (.begin c none)
def motorRunCmds (c : ℕ) (str : Option Str) : SysAct := .task .motor (.begin c (some str))
def motorRunCmdsStop (c : ℕ) : SysAct := .task .motor (.begin c none)
def ledRunCmds (c : ℕ) (str : Option Str) : SysAct := .task .light (.begin c (some str))
def ledRunCmdsStop (c : ℕ) : SysAct := .task .light (.begin c none)
def soundPlayMp3Run (c : ℕ) (fileid : ℤ) : SysAct := .task .mp3 (.begin c (some fileid))
def soundPlayMp3Stop (c : ℕ) : SysAct := .task .mp3 (.begin c none)
def ledStripRendererRun (c : ℕ) : SysAct := .task .renderer (.begin c (some ()))
def ledStripRendererStop (c : ℕ) : SysAct := .task .renderer (.begin c none)
def audioConvertRun (c : ℕ) : SysAct := .task .audioConvert (.begin c (some ()))
def audioConvertStop (c : ℕ) : SysAct := .task .audioConvert (.begin c none)

namespace System

def init : System where
  hw := Hw.init
  task w := State.init w.noArgs w.body.absent

def put (s : System) (w : Worker) (hw : Hw) (t : State w.Args w.Pc) : System where
  hw := hw
  task := Function.update s.task w t

/-- After `abort` nothing happens. -/
def step (s : System) (a : SysAct) : Option System :=
  if s.hw.halted then none
  else match a with
    | .tick n => some { s with hw := { s.hw with now := s.hw.now + n } }
    | .task w a =>
      (w.body.step s.hw.now s.hw (s.task w) a).map fun r => s.put w r.1 r.2
    | .drive op => some { s with hw := s.hw.drive none op }
    | .setRunCmdsIsRun b => some { s with hw := { s.hw with runCmdsIsRun := b } }
    | .abort => some { s with hw := s.hw.abort }

@[simp] theorem put_hw (s : System) (w : Worker) (hw : Hw) (t : State w.Args w.Pc) :
    (s.put w hw t).hw = hw := rfl

@[simp] theorem put_task_self (s : System) (w : Worker) (hw : Hw) (t : State w.Args w.Pc) :
    (s.put w hw t).task w = t := Function.update_self ..

theorem put_task_of_ne {w v : Worker} (h : v ≠ w) (s : System) (hw : Hw) (t : State w.Args w.Pc) :
    (s.put w hw t).task v = s.task v := Function.update_of_ne h ..

theorem step_cases {s s' : System} {a : SysAct} (h : step s a = some s') :
    (∃ n, a = .tick n ∧ s' = { s with hw := { s.hw with now := s.hw.now + n } }) ∨
    (∃ w b hw t, a = .task w b ∧ w.body.step s.hw.now s.hw (s.task w) b = some (hw, t) ∧
      s' = s.put w hw t) ∨
    (∃ op, a = .drive op ∧ s' = { s with hw := s.hw.drive none op }) ∨
    (∃ b, a = .setRunCmdsIsRun b ∧ s' = { s with hw := { s.hw with runCmdsIsRun := b } }) ∨
    (a = .abort ∧ s' = { s with hw := s.hw.abort }) := by
  unfold step at h
  split_ifs at h
  cases a with
  | tick n => exact .inl ⟨n, rfl, (Option.some.inj h).symm⟩
  | task w b =>
    obtain ⟨⟨hw, t⟩, ht, rfl⟩ := Option.map_eq_some_iff.mp h
    exact .inr (.inl ⟨w, b, hw, t, rfl, ht, rfl⟩)
  | drive op => exact .inr (.inr (.inl ⟨op, rfl, (Option.some.inj h).symm⟩))
  | setRunCmdsIsRun b => exact .inr (.inr (.inr (.inl ⟨b, rfl, (Option.some.inj h).symm⟩)))
  | abort => exact .inr (.inr (.inr (.inr ⟨rfl, (Option.some.inj h).symm⟩)))

/-- The step of the handshake of `w` that a step of the system is, if it is one. -/
def act (w : Worker) (s : System) (a : SysAct) : Option (Act w.Args w.Pc) :=
  match a with
  | .task v b => if h : v = w then w.body.act s.hw.now s.hw (s.task w) (h ▸ b) else none
  | _ => none

theorem act_eq_some {w : Worker} {s : System} {a : SysAct} {b : Act w.Args w.Pc}
    (h : act w s a = some b) :
    ∃ d, a = .task w d ∧ w.body.act s.hw.now s.hw (s.task w) d = some b := by
  cases a with
  | task v d =>
    simp only [act] at h
    split_ifs at h with hv
    subst hv
    exact ⟨d, rfl, h⟩
  | _ => cases h

/-- A run of the system is a run of the handshake of each worker. -/
theorem projects (w : Worker) :
    Transition.Projects step (fun s => s.task w) (act w)
      (Handshake.step w.body.proto w.body.phase w.body.fresh) := by
  intro s a s' h
  obtain ⟨n, rfl, rfl⟩ | ⟨v, b, hw, t, rfl, ht, rfl⟩ | ⟨op, rfl, rfl⟩ | ⟨b, rfl, rfl⟩ |
    ⟨rfl, rfl⟩ := step_cases h
  · rfl
  · by_cases hv : v = w
    · subst hv
      obtain ⟨c, hc, hstep⟩ := Body.step_handshake ht
      simp only [act, dif_pos, hc, put_task_self]
      exact hstep
    · simp only [act, dif_neg hv]
      exact put_task_of_ne (Ne.symm hv) s hw t
  · rfl
  · rfl
  · rfl

/-- Seen by `w`, a step of the system is a step of its handshake, or none. -/
theorem step_handshake {s s' : System} {a : SysAct} (h : step s a = some s') (w : Worker) :
    s'.task w = s.task w ∨ ∃ b, act w s a = some b ∧
      Handshake.step w.body.proto w.body.phase w.body.fresh (s.task w) b = some (s'.task w) := by
  have hproj := projects w s a s' h
  cases hb : act w s a with
  | none =>
    rw [hb] at hproj
    exact .inl hproj
  | some b =>
    rw [hb] at hproj
    exact .inr ⟨b, rfl, hproj⟩

/-- The instances of every worker are numbered in the order of creation. -/
def Numbered (s : System) : Prop := ∀ w : Worker, Handshake.Numbered w.body.absent (s.task w)

theorem Numbered.step {s s' : System} {a : SysAct} (h : Numbered s) (hs : step s a = some s') :
    Numbered s' := by
  intro w
  rcases step_handshake hs w with heq | ⟨b, -, hb⟩
  · rw [heq]
    exact h w
  · exact (h w).step w.body.absent_phase hb

theorem Numbered.run {s : System} {ok : System → SysAct → Prop}
    (h : Transition.Reach System.step ok System.init s) : Numbered s :=
  h.invariant (fun _ => .init _ _) fun _ _ _ hI _ hs => hI.step hs

/-- The step, as far as it is one of `w`, meets a condition on its handshake. -/
def Meets (w : Worker) (C : State w.Args w.Pc → Act w.Args w.Pc → Prop) (s : System)
    (a : SysAct) : Prop :=
  ∀ b, act w s a = some b → C (s.task w) b

/-- A run of the system whose steps meet a condition on `w` is such a run of its handshake. -/
theorem reach_handshake {w : Worker} {C : State w.Args w.Pc → Act w.Args w.Pc → Prop}
    {s : System} (h : Transition.Reach System.step (Meets w C) System.init s) :
    Transition.Reach (Handshake.step w.body.proto w.body.phase w.body.fresh) C
      (State.init w.noArgs w.body.absent) (s.task w) :=
  h.project (projects w) fun _ _ b hok hb => hok b hb

def solo : SysAct → Bool
  | .task _ (.begin c _) => c == 0
  | _ => true

/-- What a run with one caller keeps. -/
structure Solo (s : System) : Prop where
  numbered : s.Numbered
  idle : ∀ w c, c ≠ 0 → (s.task w).call c = .idle

theorem Solo.init : Solo System.init := ⟨fun _ => .init _ _, fun _ _ _ => rfl⟩

theorem Solo.step {s s' : System} {a : SysAct} (h : Solo s) (ha : solo a = true)
    (hs : System.step s a = some s') : Solo s' := by
  refine ⟨h.numbered.step hs, fun w c hc => ?_⟩
  rcases step_handshake hs w with heq | ⟨b, hb, hstep⟩
  · rw [heq]
    exact h.idle w c hc
  · apply step_idle hstep (h.idle w c hc)
    rintro k rfl
    obtain ⟨d, rfl, hd⟩ := act_eq_some hb
    obtain rfl := Body.act_begin hd
    exact hc (by simpa [solo] using ha)

theorem begin_idle {s s' : System} {w : Worker} {c : ℕ} {k : Option w.Args}
    (h : System.step s (.task w (.begin c k)) = some s') : (s.task w).call c = .idle := by
  obtain ⟨n, heq, -⟩ | ⟨v, b, hw, t, heq, ht, -⟩ | ⟨op, heq, -⟩ | ⟨b, heq, -⟩ | ⟨heq, -⟩ :=
    step_cases h
  case inr.inl =>
    cases heq
    obtain ⟨t, ht, -⟩ := Option.map_eq_some_iff.mp ht
    exact (State.begin_cases ht).1
  all_goals cases heq

theorem Solo.sequential {s s' : System} {a : SysAct} (h : Solo s) (ha : solo a = true)
    (hs : System.step s a = some s') (w : Worker) : Meets w Sequential s a := by
  rintro b hb c k rfl c'
  obtain ⟨d, rfl, hd⟩ := act_eq_some hb
  obtain rfl := Body.act_begin hd
  obtain rfl : c = 0 := by simpa [solo] using ha
  rcases eq_or_ne c' 0 with rfl | hc'
  · exact begin_idle hs
  · exact h.idle w c' hc'

/-- A run with one caller reaches its last state by steps that meet any condition which
`good`, checked along the run, ensures. -/
theorem reach_of_solo_run {ok : System → SysAct → Prop} {good : System → SysAct → Bool}
    {as : List SysAct} {s : System}
    (h : Transition.run System.step (fun s a => solo a && good s a) System.init as = some s)
    (hok : ∀ s a s', Solo s → (solo a && good s a) = true → System.step s a = some s' → ok s a) :
    Transition.Reach System.step ok System.init s ∧ Solo s := by
  have hreach : Transition.Reach System.step (fun s a => (solo a && good s a) = true)
      System.init s := Transition.reach_of_run (fun _ _ h => h) h
  have hstep (s : System) (a : SysAct) (s' : System) (hI : Solo s)
      (ha : (solo a && good s a) = true) (hs : System.step s a = some s') : Solo s' :=
    hI.step (Bool.and_eq_true_iff.mp ha).1 hs
  exact ⟨hreach.strengthen .init hstep hok, hreach.invariant .init hstep⟩

def calls (w : Worker) (n : ℕ) : List SysAct := List.replicate n (.task w (.call 0))

def tasks (w : Worker) (i n : ℕ) (e : w.Env) : List SysAct := List.replicate n (.task w (.task i e))

end System

end Car
