import CarFirmware.Spec.System

/-! The players and the plain workers as instances of the handshake: when a stop can be
trusted, when a restart leaves one instance, and when a stop is left without an answer. -/

namespace Car

open Handshake Transition

namespace System

/-- Instance `i` has been created and has not left its command loop. -/
def Executing (s : System) (w : Worker) (i : ℕ) : Prop :=
  w.body.phase ((s.task w).pc i) = .active

end System

/-! ### Checks for the runs below -/

def careful (s : System) : SysAct → Bool
  | .task w (.call c) =>
    (!((s.task w).call c).arming w.body.proto.guarded ||
      (decide ((s.task w).created ≤ 1) && (w.body.proto.guarded || !(s.task w).bit))) &&
    !(((s.task w).call c).blocked && decide (c ∈ (s.task w).waiters))
  | _ => true

theorem waits_of_careful {w : Worker} {s : System} {c : ℕ} (hn : s.Numbered)
    (h : careful s (.task w (.call c)) = true) (now : ℕ) :
    Exclusive w.body.proto w.body.phase (s.task w) (.call c now) ∧
      Patient w.body.phase (s.task w) (.call c now) := by
  simp only [careful, Bool.and_eq_true, Bool.or_eq_true, Bool.not_eq_true', Bool.and_eq_false_iff,
    decide_eq_true_eq, decide_eq_false_iff_not] at h
  obtain ⟨hone, hblocked⟩ := h
  refine ⟨?_, ?_⟩
  · rintro c' now' heq harming i hi
    cases heq
    obtain ⟨hone, hbit⟩ := hone.resolve_left (by simp [harming])
    have hlt := fun j => (hn w).lt (i := j) w.body.absent_phase
    refine ⟨fun hg => hbit.resolve_left (by simp [hg]), fun j hj => ?_⟩
    have hi' := hlt i (by rw [hi]; decide)
    have hj' := hlt j (by rintro habs; rw [habs] at hj; cases hj)
    omega
  · rintro c' now' heq hb hwait
    cases heq
    exact absurd hwait (hblocked.resolve_left (by simp [hb]))

theorem meets_of_careful {w : Worker} {s : System} {a : SysAct} (hn : s.Numbered)
    (h : careful s a = true) :
    System.Meets w (fun s a => Exclusive w.body.proto w.body.phase s a ∧
      Patient w.body.phase s a) s a := by
  intro b hb
  cases b with
  | call c now =>
    obtain ⟨d, rfl, hd⟩ := System.act_eq_some hb
    obtain ⟨rfl, -⟩ := Body.act_call hd
    exact waits_of_careful hn h now
  | begin c k => exact ⟨fun _ _ heq => (by cases heq), fun _ _ heq => (by cases heq)⟩
  | inst i pc e => exact ⟨fun _ _ heq => (by cases heq), fun _ _ heq => (by cases heq)⟩

theorem eq_zero_of_live {w : Worker} {s : System} {i : ℕ} (hn : s.Numbered)
    (hcreated : (s.task w).created = 1) (hi : (w.body.phase ((s.task w).pc i)).live = true) :
    i = 0 := by
  have hlt := (hn w).lt w.body.absent_phase (i := i)
    (by rintro habs; rw [habs] at hi; cases hi)
  omega

/-! ### One instance of a player -/

/-- What a restart of a player needs: calls do not overlap, a stop arms itself on the only
instance that has yet to set the bit, and its wait outlasts the running instance. -/
def Orderly (w : Worker) : System → SysAct → Prop :=
  System.Meets w fun s a =>
    Sequential s a ∧ Exclusive w.body.proto w.body.phase s a ∧ Patient w.body.phase s a

theorem orderly_of_careful {s s' : System} {a : SysAct} (hI : s.Solo)
    (h : (System.solo a && careful s a) = true) (hs : System.step s a = some s') (w : Worker) :
    Orderly w s a := by
  obtain ⟨hsolo, hcareful⟩ := Bool.and_eq_true_iff.mp h
  exact fun b hb => ⟨hI.sequential hsolo hs w b hb, meets_of_careful hI.numbered hcareful b hb⟩

theorem single_instance {w : Worker} {s : System} {i : ℕ} (hw : w = .motor ∨ w = .light)
    (h : Reach System.step (Orderly w) System.init s) (hi : s.Executing w i) :
    i + 1 = (s.task w).created := by
  have hg : w.body.proto.guarded = true := by
    obtain rfl | rfl := hw <;> rfl
  exact (Settled.run hg w.body.absent_phase (System.reach_handshake h)).calm.newest i hi

def promptRestart : List SysAct :=
  let cmds : Str := ⟨0, ['F', ',', '1', ';']⟩
  motorRunCmds 0 (some cmds) :: System.calls .motor 4 ++
    System.tasks .motor 0 8 () ++
    motorRunCmds 0 (some cmds) :: System.calls .motor 5 ++
    .tick 60 :: System.tasks .motor 0 7 () ++
    System.calls .motor 5 ++ System.tasks .motor 1 4 ()

theorem single_instance_prompt :
    ∃ s : System, s.Executing .motor 1 ∧ 1 + 1 = (s.task .motor).created := by
  obtain ⟨s, hs, hobs⟩ : ∃ s,
      run System.step (fun s a => System.solo a && careful s a) System.init promptRestart = some s ∧
        ((s.task .motor).pc 1).phase = .active :=
    Option.map_eq_some_iff.mp (by decide +kernel)
  have hreach : Reach System.step (Orderly .motor) System.init s :=
    (System.reach_of_solo_run hs fun _ _ _ hI ha hstep => orderly_of_careful hI ha hstep .motor).1
  exact ⟨s, hobs, single_instance (.inl rfl) hreach hobs⟩

/-- The first beats of "F,9;F,1;": a restart whose stop gives up after 5 s leaves the old
instance running, which goes on to the next command. -/
def lateRestart : List SysAct :=
  let cmds : Str := ⟨0, ['F', ',', '9', ';', 'F', ',', '1', ';']⟩
  motorRunCmds 0 (some cmds) :: System.calls .motor 4 ++
    System.tasks .motor 0 8 () ++
    motorRunCmds 0 (some cmds) :: System.calls .motor 5 ++
    .tick 500 :: System.calls .motor 5 ++ .tick 40 :: System.tasks .motor 0 4 ()

theorem two_instances : ¬ ∀ s i,
    Reach System.step (System.Meets .motor Sequential) System.init s →
      s.Executing .motor i → i + 1 = (s.task .motor).created := by
  intro h
  obtain ⟨s, hs, hobs⟩ : ∃ s,
      run System.step (fun _ a => System.solo a && true) System.init lateRestart = some s ∧
        ((s.task .motor).created, ((s.task .motor).pc 0).phase) = (2, .active) :=
    Option.map_eq_some_iff.mp (by decide +kernel)
  obtain ⟨hcreated, hphase⟩ := Prod.mk.inj hobs
  have hreach := (System.reach_of_solo_run hs fun s a s' hI ha hstep =>
    hI.sequential (by simpa using ha) hstep .motor).1
  have := h s 0 hreach hphase
  omega

/-! ### The flag of a player -/

theorem motorRunCmdsTask_loyal {i : ℕ} {run : Bool} {args : Option Str} {pc pc' : MotorPc}
    {hw hw' : Hw} {eff : Effect} (h : motorRunCmdsTask i run args pc hw = some (pc', eff, hw'))
    (hp : pc.phase = .active) : pc'.phase ≠ .done := by
  unfold motorRunCmdsTask at h
  repeat' split at h
  all_goals cases h
  all_goals first | (intro hdone; cases hdone; done) | cases hp

theorem ledRunCmdsTask_loyal {run : Bool} {args : Option Str} {pc pc' : LedPc}
    {hw hw' : Hw} {eff : Effect} (h : ledRunCmdsTask run args pc hw = some (pc', eff, hw'))
    (hp : pc.phase = .active) : pc'.phase ≠ .done := by
  unfold ledRunCmdsTask at h
  repeat' split at h
  all_goals cases h
  all_goals first | (intro hdone; cases hdone; done) | cases hp

theorem soundPlayMp3Task_loyal {e : Mp3Env} {i : ℕ} {run : Bool} {fileid : ℤ}
    {pc pc' : Mp3Pc}
    {hw hw' : Hw} {eff : Effect} (h : soundPlayMp3Task e i run fileid pc hw = some (pc', eff, hw'))
    (hp : pc.phase = .active) : pc'.phase ≠ .done := by
  unfold soundPlayMp3Task at h
  repeat' split at h
  all_goals cases h
  all_goals first | (intro hdone; cases hdone; done) | cases hp

theorem loopTask_loyal {timeout : Option ℕ} {got run : Bool} {pc pc' : LoopPc}
    {hw hw' : Hw} {eff : Effect} (h : loopTask timeout got run pc hw = some (pc', eff, hw'))
    (hp : pc.phase = .active) : pc'.phase ≠ .done := by
  unfold loopTask at h
  repeat' split at h
  all_goals cases h
  all_goals first | (intro hdone; cases hdone; done) | cases hp

theorem loyal_of_ne_notes {w : Worker} (hw : w ≠ .notes) {e : w.Env} {i : ℕ} {run : Bool}
    {args : w.Args} {pc pc' : w.Pc} {hw₁ hw₂ : Hw} {eff : Effect}
    (h : w.body.task e i run args pc hw₁ = some (pc', eff, hw₂))
    (hp : w.body.phase pc = .active) : w.body.phase pc' ≠ .done := by
  cases w with
  | notes => exact absurd rfl hw
  | motor => exact motorRunCmdsTask_loyal h hp
  | light => exact ledRunCmdsTask_loyal h hp
  | mp3 => exact soundPlayMp3Task_loyal h hp
  | renderer => exact loopTask_loyal h hp
  | audioConvert => exact loopTask_loyal h hp

/-- A note instance that finds the mutex taken leaves the flag to somebody else. -/
def FlagCovered : System → SysAct → Prop := System.Meets .notes (QuitsCovered notesBody.phase)

theorem quitsCovered_of_flagCovered {s : System} {a : SysAct} (h : FlagCovered s a) (w : Worker) :
    System.Meets w (QuitsCovered w.body.phase) s a := by
  by_cases hw : w = .notes
  · subst hw
    exact h
  rintro b hb i pc eff rfl hp hp'
  obtain ⟨d, rfl, hd⟩ := System.act_eq_some hb
  obtain ⟨e, hw', rfl, ht⟩ := Body.act_inst hd
  exact absurd hp' (loyal_of_ne_notes hw ht hp)

/-- While no call on a worker is in progress, its flag is set only if an instance of it
has been created and has not ended. -/
theorem flag_owned {w : Worker} {s : System} (h : Reach System.step FlagCovered System.init s)
    (hrun : (s.task w).taskRun = true) (hidle : ∀ c, (s.task w).call c = .idle) :
    ∃ i, i < (s.task w).created ∧ s.Executing w i := by
  have hreach := System.reach_handshake (h.mono fun s a ha => quitsCovered_of_flagCovered ha w)
  rcases FlagOwned.run w.body.fresh_active hreach hrun with ⟨c, hc⟩ | ⟨i, hi⟩
  · rw [hidle c] at hc
    cases hc
  · refine ⟨i, (System.Numbered.run h w).lt w.body.absent_phase ?_, hi⟩
    rw [hi]
    decide

def noSilentEnd (s : System) : SysAct → Bool
  | .task .notes (.task i e) =>
    (notesBody.task e i (s.task .notes).taskRun (s.task .notes).args ((s.task .notes).pc i)
      s.hw).all fun r => r.1.phase != .done || ((s.task .notes).pc i).phase != .active
  | _ => true

theorem flagCovered_of_noSilentEnd {s : System} {a : SysAct} (h : noSilentEnd s a = true) :
    FlagCovered s a := by
  rintro b hb i pc eff rfl hp hp'
  obtain ⟨d, rfl, hd⟩ := System.act_eq_some hb
  obtain ⟨e, hw', rfl, ht⟩ := Body.act_inst hd
  change notesBody.task e i _ _ _ _ = _ at ht
  have hp : ((s.task .notes).pc i).phase = .active := hp
  have hp' : NotesPc.phase pc = .done := hp'
  simp [noSilentEnd, ht, hp, hp'] at h

def notesRunning : List SysAct :=
  let cmds : Str := ⟨0, ['1', ',', '1', ';']⟩
  playNotesRun 0 (some cmds) :: System.calls .notes 4 ++
    System.tasks .notes 0 5 true

theorem flag_owned_notes : ∃ s : System, (s.task .notes).taskRun = true ∧
    ∃ i, i < (s.task .notes).created ∧ s.Executing .notes i := by
  obtain ⟨s, hs, hobs⟩ : ∃ s,
      run System.step (fun s a => System.solo a && noSilentEnd s a) System.init notesRunning =
          some s ∧ ((s.task .notes).taskRun, (s.task .notes).call 0) = (true, .idle) :=
    Option.map_eq_some_iff.mp (by decide +kernel)
  obtain ⟨hrun, hcall⟩ := Prod.mk.inj hobs
  obtain ⟨hreach, hsolo⟩ : Reach System.step FlagCovered System.init s ∧ s.Solo :=
    System.reach_of_solo_run hs fun _ _ _ _ ha _ =>
      flagCovered_of_noSilentEnd (Bool.and_eq_true_iff.mp ha).2
  refine ⟨s, hrun, flag_owned hreach hrun fun c => ?_⟩
  rcases eq_or_ne c 0 with rfl | hc
  · exact hcall
  · exact hsolo.idle .notes c hc

/-- `sound_play_mp3_task` holds the mutex when `play_notes_task` tries to take it. -/
def notesBusy : List SysAct :=
  let cmds : Str := ⟨0, ['1', ',', '1', ';']⟩
  let e : Mp3Env := ⟨1024, fun _ => 0, true⟩
  soundPlayMp3Run 0 0 :: System.calls .mp3 4 ++ System.tasks .mp3 0 1 e ++
    playNotesRun 0 (some cmds) :: System.calls .notes 4 ++
    System.tasks .notes 0 2 true

theorem flag_orphaned : ¬ ∀ s (w : Worker), w.isPlayer = true →
    Reach System.step (fun _ _ => True) System.init s → (s.task w).taskRun = true →
      (∀ c, (s.task w).call c = .idle) → ∃ i, (w.body.phase ((s.task w).pc i)).live = true := by
  intro h
  obtain ⟨s, hs, hobs⟩ : ∃ s,
      run System.step (fun _ a => System.solo a && true) System.init notesBusy = some s ∧
        ((s.task .notes).taskRun, (s.task .notes).call 0, (s.task .notes).created,
          ((s.task .notes).pc 0).phase) = (true, .idle, 1, .done) :=
    Option.map_eq_some_iff.mp (by decide +kernel)
  simp only [Prod.mk.injEq] at hobs
  obtain ⟨hrun, hcall, hcreated, hphase⟩ := hobs
  obtain ⟨hreach, hsolo⟩ : Reach System.step (fun _ _ => True) System.init s ∧ s.Solo :=
    System.reach_of_solo_run hs fun _ _ _ _ _ _ => trivial
  have hidle (c : ℕ) : (s.task .notes).call c = .idle := by
    rcases eq_or_ne c 0 with rfl | hc
    · exact hcall
    · exact hsolo.idle .notes c hc
  obtain ⟨i, hi⟩ := h s .notes rfl hreach hrun hidle
  obtain rfl := eq_zero_of_live hsolo.numbered hcreated hi
  change ((s.task .notes).pc 0).phase.live = true at hi
  rw [hphase] at hi
  cases hi

/-! ### The answer to a stop -/

/-- Calls on `w` do not overlap; a stop clears the bit, and a note instance ends in
silence, only while another instance has yet to set the bit. -/
def Answered (w : Worker) : System → SysAct → Prop :=
  System.Meets w fun s a => Sequential s a ∧ Heard w.body.proto w.body.phase s a

/-- A stop blocked in `xEventGroupWaitBits` has an instance that will still set the bit. -/
theorem stop_answered {w : Worker} {s : System} {c : ℕ} (hw : w.isPlayer = true)
    (h : Reach System.step (Answered w) System.init s) (hc : c ∈ (s.task w).waiters) :
    ∃ i, (w.body.phase ((s.task w).pc i)).live = true := by
  have hg : w.body.proto.guarded = true := w.guarded_eq.trans hw
  exact (Signal.run hg w.body.fresh_active (System.reach_handshake h)).waiting c hc

def stopWaits : List SysAct :=
  let cmds : Str := ⟨0, ['F', ',', '1', ';']⟩
  motorRunCmds 0 (some cmds) :: System.calls .motor 4 ++
    System.tasks .motor 0 8 () ++
    motorRunCmdsStop 0 :: System.calls .motor 4

def zeroLive (s : System) : SysAct → Bool
  | .task w (.call c) =>
    !((s.task w).call c).arming w.body.proto.guarded || (w.body.phase ((s.task w).pc 0)).live
  | _ => true

theorem stop_answered_waits : ∃ s : System, 0 ∈ (s.task .motor).waiters ∧
    ∃ i, ((s.task .motor).pc i).phase.live = true := by
  obtain ⟨s, hs, hobs⟩ : ∃ s,
      run System.step (fun s a => System.solo a && zeroLive s a) System.init stopWaits = some s ∧
        (s.task .motor).waiters = [0] :=
    Option.map_eq_some_iff.mp (by decide +kernel)
  have hreach : Reach System.step (Answered .motor) System.init s := by
    refine (System.reach_of_solo_run hs fun s a s' hI ha hstep b hb => ?_).1
    obtain ⟨hsolo, hzero⟩ := Bool.and_eq_true_iff.mp ha
    refine ⟨hI.sequential hsolo hstep .motor b hb, ?_, ?_⟩
    · rintro c now rfl harming
      obtain ⟨d, rfl, hd⟩ := System.act_eq_some hb
      obtain ⟨rfl, -⟩ := Body.act_call hd
      exact ⟨0, by simpa [zeroLive, harming] using hzero⟩
    · rintro i pc eff rfl hp hp'
      obtain ⟨d, rfl, hd⟩ := System.act_eq_some hb
      obtain ⟨e, hw', rfl, ht⟩ := Body.act_inst hd
      exact absurd hp' (loyal_of_ne_notes (by decide) ht hp)
  have hwait : 0 ∈ (s.task .motor).waiters := by simp [hobs]
  exact ⟨s, hwait, stop_answered rfl hreach hwait⟩

/-- The motor task ends between the test of `task_run` and `xEventGroupClearBits` of a stop. -/
def bitLost : List SysAct :=
  let cmds : Str := ⟨0, ['F', ',', '1', ';']⟩
  motorRunCmds 0 (some cmds) :: System.calls .motor 4 ++
    System.tasks .motor 0 8 () ++ .tick 60 :: System.tasks .motor 0 5 () ++
    motorRunCmdsStop 0 :: System.calls .motor 1 ++
    System.tasks .motor 0 2 () ++ System.calls .motor 3

theorem stop_lost : ¬ ∀ s c, Reach System.step (System.Meets .motor Sequential) System.init s →
    c ∈ (s.task .motor).waiters → (s.task .motor).bit = false →
      ∃ i, ((s.task .motor).pc i).phase.live = true := by
  intro h
  obtain ⟨s, hs, hobs⟩ : ∃ s,
      run System.step (fun _ a => System.solo a && true) System.init bitLost = some s ∧
        ((s.task .motor).waiters, (s.task .motor).bit, (s.task .motor).created,
          ((s.task .motor).pc 0).phase) = ([0], false, 1, .done) :=
    Option.map_eq_some_iff.mp (by decide +kernel)
  simp only [Prod.mk.injEq] at hobs
  obtain ⟨hwait, hbit, hcreated, hphase⟩ := hobs
  obtain ⟨hreach, hsolo⟩ : Reach System.step (System.Meets .motor Sequential) System.init s ∧
      s.Solo :=
    System.reach_of_solo_run hs fun _ _ _ hI ha hstep =>
      hI.sequential (Bool.and_eq_true_iff.mp ha).1 hstep .motor
  obtain ⟨i, hi⟩ := h s 0 hreach (by simp [hwait]) hbit
  obtain rfl := eq_zero_of_live (w := .motor) hsolo.numbered hcreated hi
  rw [hphase] at hi
  cases hi

/-! ### What a stop that returns ok says -/

/-- Calls on `w` do not overlap; a stop arms itself only on the one instance that has yet to
set the bit, and a plain one only while the bit is clear. -/
def Trusted (w : Worker) : System → SysAct → Prop :=
  System.Meets w fun s a => Sequential s a ∧ Exclusive w.body.proto w.body.phase s a

/-- When the wait of a stop call has returned `ESP_OK`, no instance is in its loop. -/
theorem stop_sound {w : Worker} {s : System} {c : ℕ} {k : Option w.Args}
    (h : Reach System.step (Trusted w) System.init s) (hc : (s.task w).call c = .ret k true)
    (i : ℕ) : ¬ s.Executing w i :=
  (Armed.run (System.reach_handshake h)).sound c k i hc

def rendererStopped : List SysAct :=
  ledStripRendererRun 0 :: System.calls .renderer 2 ++
    System.tasks .renderer 0 2 true ++
    ledStripRendererStop 0 :: System.calls .renderer 2 ++
    System.tasks .renderer 0 3 true ++ System.calls .renderer 1

theorem stop_sound_renderer : ∃ s : System, (s.task .renderer).call 0 = .ret none true ∧
    ∀ i, ¬ s.Executing .renderer i := by
  obtain ⟨s, hs, hobs⟩ : ∃ s,
      run System.step (fun s a => System.solo a && careful s a) System.init rendererStopped =
          some s ∧ (s.task .renderer).call 0 = .ret none true :=
    Option.map_eq_some_iff.mp (by decide +kernel)
  have hreach : Reach System.step (Trusted .renderer) System.init s :=
    (System.reach_of_solo_run hs fun _ _ _ hI ha hstep b hb =>
      have hok := orderly_of_careful hI ha hstep .renderer b hb
      ⟨hok.1, hok.2.1⟩).1
  exact ⟨s, hobs, fun i => stop_sound hreach hobs i⟩

/-- The renderer is stopped, started again, and stopped again: the second stop finds the bit
of the first. -/
def rendererStoppedTwice : List SysAct :=
  rendererStopped ++ System.calls .renderer 1 ++
    ledStripRendererRun 0 :: System.calls .renderer 2 ++
    System.tasks .renderer 1 2 true ++
    ledStripRendererStop 0 :: System.calls .renderer 2

theorem stop_unsound : ¬ ∀ s (w : Worker) c k i,
    Reach System.step (System.Meets w Sequential) System.init s →
      (s.task w).call c = .ret k true → ¬ s.Executing w i := by
  intro h
  obtain ⟨s, hs, hobs⟩ : ∃ s,
      run System.step (fun _ a => System.solo a && true) System.init rendererStoppedTwice =
          some s ∧ ((s.task .renderer).call 0, ((s.task .renderer).pc 1).phase) =
            (.ret none true, .active) :=
    Option.map_eq_some_iff.mp (by decide +kernel)
  obtain ⟨hcall, hphase⟩ := Prod.mk.inj hobs
  have hreach : Reach System.step (System.Meets .renderer Sequential) System.init s :=
    (System.reach_of_solo_run hs fun _ _ _ hI ha hstep =>
      hI.sequential (Bool.and_eq_true_iff.mp ha).1 hstep .renderer).1
  exact h s .renderer 0 none 1 hreach hcall hphase

end Car
