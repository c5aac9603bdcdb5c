import CarFirmware.Lib.LockedDevice
import CarFirmware.Proofs.Writes
import CarFirmware.Spec.System

/-! The I2S channel and its buffer are used under `g_i2s_mutex`. The note and mp3
instances are the parties of a locked device; the role of an instance is read off its
program counter, and every statement of a task is a step of the device or leaves it alone. -/

namespace Car

open Handshake LockedDevice Transition

/-- What the next statement of an instance does with the channel or with
`g_i2s_data_buffer`. -/
inductive I2sUse where
  | enable | disable | write
  deriving DecidableEq

/-- The role an instance needs for it. -/
def I2sUse.role : I2sUse → Role
  | .enable => .holding
  | .disable | .write => .on

def NotesPc.use : NotesPc → Option I2sUse
  | .enable .. => some .enable
  | .disable .. => some .disable
  | .tick .. | .write .. => some .write
  | _ => none

def Mp3Pc.use : Mp3Pc → Option I2sUse
  | .enable => some .enable
  | .disable => some .disable
  | .read | .write _ => some .write
  | _ => none

def NotesPc.role : NotesPc → Role
  | .absent | .take | .busyDelete | .clear | .setBits | .delete | .ended => .out
  | .fill .. | .tick .. | .test .. | .write .. | .disable .. => .on
  | .args | .null | .cmds .. | .delay .. | .reset .. | .enable .. | .give => .holding

def Mp3Pc.role : Mp3Pc → Role
  | .absent | .take | .busyClear | .setBits | .delete | .ended => .out
  | .loop | .read | .listen _ | .write _ | .clear | .disable => .on
  | .pipeline | .enable | .give => .holding

theorem NotesPc.role_of_use {pc : NotesPc} {u : I2sUse} (h : pc.use = some u) :
    pc.role = u.role := by
  cases pc <;> cases h <;> rfl

theorem Mp3Pc.role_of_use {pc : Mp3Pc} {u : I2sUse} (h : pc.use = some u) :
    pc.role = u.role := by
  cases pc <;> cases h <;> rfl

theorem NotesPc.role_of_done {pc : NotesPc} (h : pc.phase = .done) : pc.role = .out := by
  cases pc <;> cases h <;> rfl

theorem Mp3Pc.role_of_done {pc : Mp3Pc} (h : pc.phase = .done) : pc.role = .out := by
  cases pc <;> cases h <;> rfl

namespace System

def use (s : System) : Owner → Option I2sUse
  | .notes i => ((s.task .notes).pc i).use
  | .mp3 i => ((s.task .mp3).pc i).use

def finished (s : System) : Owner → Prop
  | .notes i => ((s.task .notes).pc i).phase = .done
  | .mp3 i => ((s.task .mp3).pc i).phase = .done

def role (s : System) : Owner → Role
  | .notes i => ((s.task .notes).pc i).role
  | .mp3 i => ((s.task .mp3).pc i).role

end System

/-- The channel and its mutex as a locked device. -/
@[grind =]
def Hw.device (hw : Hw) : Device Owner := ⟨hw.i2sMutex, hw.txEnabled, hw.txLog⟩

attribute [grind] Move

@[simp, grind =] theorem Hw.device_drive (hw : Hw) (who : Option ℕ) (op : PwmOp) :
    (hw.drive who op).device = hw.device := by
  cases op <;> rfl

theorem playNotesTask_device {ok : Bool} {i : ℕ} {run : Bool} {args : Option Str}
    {pc pc' : NotesPc} {hw hw' : Hw} {eff : Effect}
    (h : playNotesTask ok i run args pc hw = some (pc', eff, hw')) :
    Move (.notes i) hw.device pc.role hw'.device pc'.role := by
  cases pc with
  | take =>
    simp only [playNotesTask] at h
    split at h <;> cases h
    · exact .take _ ‹_›
    · exact .stay _ _
  | enable s pos => cases h; exact .enable _
  | disable s pos => cases h; exact .disable _
  | give => cases h; exact .give _
  | _ =>
    simp only [playNotesTask] at h
    grind -linarith [NotesPc.role, Hw.abort]

theorem soundPlayMp3Task_device {e : Mp3Env} {i : ℕ} {run : Bool} {fileid : ℤ}
    {pc pc' : Mp3Pc} {hw hw' : Hw} {eff : Effect}
    (h : soundPlayMp3Task e i run fileid pc hw = some (pc', eff, hw')) :
    Move (.mp3 i) hw.device pc.role hw'.device pc'.role := by
  cases pc with
  | take =>
    simp only [soundPlayMp3Task] at h
    split at h <;> cases h
    · exact .take _ ‹_›
    · exact .stay _ _
  | enable => cases h; exact .enable _
  | disable => cases h; exact .disable _
  | give => cases h; exact .give _
  | _ =>
    simp only [soundPlayMp3Task] at h
    grind -linarith [Mp3Pc.role, Hw.abort]

theorem motorRunCmdsTask_device {i : ℕ} {run : Bool} {args : Option Str} {pc pc' : MotorPc}
    {hw hw' : Hw} {eff : Effect} (h : motorRunCmdsTask i run args pc hw = some (pc', eff, hw')) :
    hw'.device = hw.device := by
  rcases motorRunCmdsTask_writes h with rfl | rfl | ⟨op, rfl⟩
  · rfl
  · rfl
  · exact hw.device_drive _ op

theorem ledRunCmdsTask_device {run : Bool} {args : Option Str} {pc pc' : LedPc}
    {hw hw' : Hw} {eff : Effect} (h : ledRunCmdsTask run args pc hw = some (pc', eff, hw')) :
    hw'.device = hw.device := by
  rcases ledRunCmdsTask_writes h with rfl | rfl | ⟨f, rfl⟩ | ⟨-, -, rfl⟩ <;> rfl

theorem loopTask_device {timeout : Option ℕ} {got run : Bool} {pc pc' : LoopPc}
    {hw hw' : Hw} {eff : Effect} (h : loopTask timeout got run pc hw = some (pc', eff, hw')) :
    hw'.device = hw.device := by
  rw [loopTask_writes h]

namespace System

/-- The instances of the note and mp3 players obey the lock. -/
structure I2sInv (s : System) : Prop where
  numbered : s.Numbered
  device : Inv s.hw.device s.role

theorem role_put_of_pc {s : System} {w : Worker} {t : Handshake.State w.Args w.Pc}
    (h : t.pc = (s.task w).pc) (hw : Hw) : (s.put w hw t).role = s.role := by
  funext o
  cases w <;> cases o <;> first | rfl | simp only [role, put_task_self, h]

/-- A call leaves every role alone: the instance it may create starts outside the lock. -/
theorem role_call {s : System} {w : Worker} {t : Handshake.State w.Args w.Pc} {c now : ℕ}
    (h : s.Numbered) (hc : State.CallStep w.body.proto w.body.fresh now (s.task w) c t)
    (hw : Hw) : (s.put w hw t).role = s.role := by
  rcases hc.pc with hpc | ⟨-, -, hpc⟩
  · exact role_put_of_pc hpc hw
  have hnew := h w (s.task w).created le_rfl
  funext o
  cases w <;> cases o <;> try rfl
  all_goals
    rename_i j
    simp only [role, put_task_self, hpc, Function.update_apply]
    split_ifs with hj
    · rw [hj, hnew]
      rfl
    · rfl

theorem role_task_notes (s : System) (hw : Hw) (i : ℕ) (pc : NotesPc) (eff : Effect) :
    (s.put .notes hw ((s.task .notes).move notesBody.proto i pc eff)).role =
      Function.update s.role (.notes i) pc.role := by
  funext o
  cases o with
  | notes j => by_cases hj : j = i <;> simp [role, hj]
  | mp3 j => rfl

theorem role_task_mp3 (s : System) (hw : Hw) (i : ℕ) (pc : Mp3Pc) (eff : Effect) :
    (s.put .mp3 hw ((s.task .mp3).move mp3Body.proto i pc eff)).role =
      Function.update s.role (.mp3 i) pc.role := by
  funext o
  cases o with
  | notes j => rfl
  | mp3 j => by_cases hj : j = i <;> simp [role, hj]

theorem device_task {s : System} {w : Worker} {i : ℕ} {e : w.Env} {pc : w.Pc} {eff : Effect}
    {hw : Hw} (hi : Inv s.hw.device s.role)
    (h : w.body.task e i (s.task w).taskRun (s.task w).args ((s.task w).pc i) s.hw =
      some (pc, eff, hw)) :
    Inv hw.device (s.put w hw ((s.task w).move w.body.proto i pc eff)).role := by
  cases w with
  | notes =>
    have hm : Move (.notes i) s.hw.device (s.role (.notes i)) hw.device pc.role :=
      playNotesTask_device h
    exact role_task_notes s hw i pc eff ▸ hi.move hm
  | mp3 =>
    have hm : Move (.mp3 i) s.hw.device (s.role (.mp3 i)) hw.device pc.role :=
      soundPlayMp3Task_device h
    exact role_task_mp3 s hw i pc eff ▸ hi.move hm
  | motor => exact (motorRunCmdsTask_device h).symm ▸ hi
  | light => exact (ledRunCmdsTask_device h).symm ▸ hi
  | renderer => exact (loopTask_device h).symm ▸ hi
  | audioConvert => exact (loopTask_device h).symm ▸ hi

theorem I2sInv.step {s s' : System} {a : SysAct} (h : I2sInv s) (hs : step s a = some s') :
    I2sInv s' := by
  refine ⟨h.numbered.step hs, ?_⟩
  obtain ⟨n, -, rfl⟩ | ⟨w, b, hw, t, -, ht, rfl⟩ | ⟨op, -, rfl⟩ | ⟨b, -, rfl⟩ | ⟨-, rfl⟩ :=
    step_cases hs
  · exact h.device
  · obtain ⟨c, k, -, rfl, -, rfl⟩ | ⟨c, -, rfl, hc⟩ | ⟨i, e, pc, eff, -, hr, -, rfl⟩ :=
      Body.step_cases ht
    · have hpc : ((s.task w).goto c (w.body.proto.entry k)).pc = (s.task w).pc := rfl
      rw [role_put_of_pc hpc]
      exact h.device
    · rw [role_call h.numbered hc]
      exact h.device
    · exact device_task h.device hr
  · have : Inv (s.hw.drive none op).device s.role := by
      rw [Hw.device_drive]
      exact h.device
    exact this
  · exact h.device
  · exact h.device

theorem role_init (o : Owner) : init.role o = .out := by
  cases o <;> rfl

theorem I2sInv.init : I2sInv init where
  numbered _ := .init _ _
  device := .init role_init

theorem role_of_use {s : System} {o : Owner} {u : I2sUse} (h : s.use o = some u) :
    s.role o = u.role := by
  cases o with
  | notes i => exact NotesPc.role_of_use h
  | mp3 i => exact Mp3Pc.role_of_use h

theorem role_of_finished {s : System} {o : Owner} (h : s.finished o) : s.role o = .out := by
  cases o with
  | notes i => exact NotesPc.role_of_done h
  | mp3 i => exact Mp3Pc.role_of_done h

/-- What the lock is for. -/
structure I2sExclusive (s : System) : Prop where
  alternates : Alternates s.hw.txLog
  enable : ∀ o, s.use o = some .enable → s.hw.txEnabled = false
  disable : ∀ o, s.use o = some .disable → s.hw.txEnabled = true
  write : ∀ o, s.use o = some .write → s.hw.i2sMutex = some o
  finished : ∀ o, s.finished o → s.hw.i2sMutex ≠ some o
  enabled : s.hw.txEnabled = true → ∃ o, ¬ s.finished o ∧ s.hw.i2sMutex = some o

end System

/-- Under every interleaving of any number of note and mp3 instances and of their callers,
the channel is used exclusively and left disabled. -/
theorem i2s_exclusive {s : System} (h : Reach System.step (fun _ _ => True) System.init s) :
    s.I2sExclusive := by
  have hinv : Inv s.hw.device s.role :=
    (h.invariant (I := System.I2sInv) .init fun _ _ _ hI _ hs => hI.step hs).device
  have hheld (o : Owner) (ho : s.role o = .on) : s.hw.i2sMutex = some o :=
    (hinv.held o).mp (by simp [ho])
  refine ⟨hinv.alternates, ?_, ?_, ?_, ?_, ?_⟩
  · intro o ho
    exact hinv.disabled (System.role_of_use ho)
  · intro o ho
    exact hinv.enabled.mpr ⟨o, System.role_of_use ho⟩
  · intro o ho
    exact hheld o (System.role_of_use ho)
  · intro o ho howner
    exact (hinv.held o).mpr howner (System.role_of_finished ho)
  · intro hon
    obtain ⟨o, ho⟩ := hinv.enabled.mp hon
    refine ⟨o, fun hfin => ?_, hheld o ho⟩
    rw [System.role_of_finished hfin] at ho
    cases ho

def mp3Reading : List SysAct :=
  let e : Mp3Env := ⟨1024, fun _ => 0, true⟩
  soundPlayMp3Run 0 0 :: System.calls .mp3 4 ++ System.tasks .mp3 0 4 e ++
    playNotesRun 0 none :: System.calls .notes 4 ++ System.tasks .notes 0 1 true

theorem i2s_exclusive_mp3 : ∃ s : System, s.hw.txLog = [true] ∧ s.hw.i2sMutex = some (.mp3 0) := by
  obtain ⟨s, hs, hobs⟩ : ∃ s,
      run System.step (fun _ a => System.solo a && true) System.init mp3Reading = some s ∧
        (s.hw.txLog, ((s.task .mp3).pc 0).use) = ([true], some .write) :=
    Option.map_eq_some_iff.mp (by decide +kernel)
  obtain ⟨hlog, huse⟩ := Prod.mk.inj hobs
  have hreach : Reach System.step (fun _ _ => True) System.init s :=
    (System.reach_of_solo_run hs fun _ _ _ _ _ _ => trivial).1
  exact ⟨s, hlog, (i2s_exclusive hreach).write (.mp3 0) huse⟩

end Car
