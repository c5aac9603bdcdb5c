import CarFirmware.Spec.Tasks

/-! What a statement of a task writes to the globals. -/

namespace Car

open Handshake

variable {i : ℕ} {run : Bool} {hw hw' : Hw} {eff : Effect}

theorem motorRunCmdsTask_writes {args : Option Str} {pc pc' : MotorPc}
    (h : motorRunCmdsTask i run args pc hw = some (pc', eff, hw')) :
    hw' = hw ∨ hw' = hw.abort ∨ ∃ op, hw' = hw.drive (some i) op := by
  unfold motorRunCmdsTask at h
  repeat' split at h
  all_goals cases h
  all_goals first | exact .inl rfl | exact .inr (.inl rfl) | exact .inr (.inr ⟨_, rfl⟩)

theorem ledRunCmdsTask_writes {args : Option Str} {pc pc' : LedPc}
    (h : ledRunCmdsTask run args pc hw = some (pc', eff, hw')) :
    hw' = hw ∨ hw' = hw.abort ∨ (∃ f, hw' = hw.fill f) ∨
      (pc = .cbCreate ∧ pc' = .setBits ∧ hw' = { hw with restarts := hw.restarts + 1 }) := by
  unfold ledRunCmdsTask at h
  repeat' split at h
  all_goals cases h
  all_goals first
    | exact .inl rfl
    | exact .inr (.inl rfl)
    | exact .inr (.inr (.inl ⟨_, rfl⟩))
    | exact .inr (.inr (.inr ⟨rfl, rfl, rfl⟩))

theorem loopTask_writes {timeout : Option ℕ} {got : Bool} {pc pc' : LoopPc}
    (h : loopTask timeout got run pc hw = some (pc', eff, hw')) : hw' = hw := by
  unfold loopTask at h
  repeat' split at h
  all_goals cases h
  all_goals rfl

/-- What the instance `o` of one of the two players of `g_i2s_mutex` writes. -/
inductive I2sWrite (o : Owner) (hw : Hw) : Hw → Prop
  | same : I2sWrite o hw hw
  | abort : I2sWrite o hw hw.abort
  | take : I2sWrite o hw (hw.take o)
  | give : I2sWrite o hw hw.give
  | enable : I2sWrite o hw hw.i2sChannelEnable
  | disable : I2sWrite o hw hw.i2sChannelDisable
  | buffer (saw : Saw) (b : ℕ → ℤ) : I2sWrite o hw { hw with saw := saw, i2sDataBuffer := b }
  | pipeline (f : ℤ) : I2sWrite o hw { hw with pipelines := hw.pipelines ++ [f] }

theorem playNotesTask_writes {ok : Bool} {args : Option Str} {pc pc' : NotesPc}
    (h : playNotesTask ok i run args pc hw = some (pc', eff, hw')) :
    I2sWrite (.notes i) hw hw' := by
  unfold playNotesTask at h
  repeat' split at h
  all_goals cases h
  all_goals first
    | exact .same
    | exact .take
    | exact .give
    | exact .enable
    | exact .disable
    | exact .abort
    | exact .buffer _ _

theorem soundPlayMp3Task_writes {e : Mp3Env} {fileid : ℤ} {pc pc' : Mp3Pc}
    (h : soundPlayMp3Task e i run fileid pc hw = some (pc', eff, hw')) :
    I2sWrite (.mp3 i) hw hw' := by
  unfold soundPlayMp3Task at h
  repeat' split at h
  all_goals cases h
  all_goals first
    | exact .same
    | exact .take
    | exact .give
    | exact .enable
    | exact .disable
    | exact .abort
    | exact .pipeline _
    | exact .buffer _ _

end Car
