import CarFirmware.Proofs.Relay

/-! What a `C_STOP` leaves behind: no track plays, no bridge is driven by the motor
player, and nothing of that comes back before the next accepted `C_CMDS`. -/

namespace Car

open Handshake Transition

/-! ### Who drives the bridges -/

/-- An instance whose drive is in effect on `b` is in its command loop, or still has to
stop `b`. -/
@[grind =]
def MotorPc.drives (b : Bridge) : MotorPc → Bool
  | .cmds _ _ _ | .exec _ _ _ _ | .delay _ _ _ => true
  | .carStop ops => decide (PwmOp.stop b ∈ ops)
  | _ => false

theorem MotorPc.active_of_drives {pc : MotorPc} {b : Bridge} (h : pc.drives b = true) :
    pc.phase = .active := by
  cases pc <;> first | rfl | cases h

/-- At the end of the task only statements of `car_stop` are left. -/
@[grind =]
def MotorPc.stopping : MotorPc → Bool
  | .carStop ops => decide (ops ⊆ Car.carStop)
  | _ => true

theorem stop_mem_carStop (b : Bridge) : .stop b ∈ carStop := by
  cases b <;> decide

structure Driven (s : System) : Prop where
  driver : ∀ b i, s.hw.driver b = some i → ((s.task .motor).pc i).drives b = true
  stopping : ∀ i, ((s.task .motor).pc i).stopping = true

theorem motorRunCmdsTask_driver {i : ℕ} {run : Bool} {args : Option Str} {pc pc' : MotorPc}
    {hw hw' : Hw} {eff : Effect} (h : motorRunCmdsTask i run args pc hw = some (pc', eff, hw'))
    (hstop : pc.stopping = true) :
    pc'.stopping = true ∧ ∀ b,
      (hw'.driver b = hw.driver b ∧ (pc.drives b = true → pc'.drives b = true)) ∨
      (hw'.driver b = some i ∧ pc.drives b = true ∧ pc'.drives b = true) ∨
      hw'.driver b = none := by
  unfold motorRunCmdsTask at h
  split at h
  case h_5 op ops c s pos =>
    cases h
    refine ⟨rfl, fun b => ?_⟩
    rcases hw.drive_driver (some i) op b with hsame | ⟨-, hrun⟩ | ⟨-, hoff⟩
    · exact .inl ⟨hsame, id⟩
    · exact .inr (.inl ⟨hrun, rfl, rfl⟩)
    · exact .inr (.inr hoff)
  case h_8 op ops =>
    cases h
    have hsub : op :: ops ⊆ carStop := by simpa [MotorPc.stopping] using hstop
    obtain ⟨hop, hops⟩ := List.cons_subset.mp hsub
    refine ⟨by simpa [MotorPc.stopping] using hops, fun b => ?_⟩
    rcases hw.drive_driver (some i) op b with hsame | ⟨⟨v, d, rfl⟩, -⟩ | ⟨-, hoff⟩
    · by_cases heq : op = .stop b
      · subst heq
        exact .inr (.inr (Function.update_self ..))
      · exact .inl ⟨hsame, by simp [MotorPc.drives, Ne.symm heq]⟩
    · simp [carStop] at hop
    · exact .inr (.inr hoff)
  all_goals grind -linarith [Hw.abort, stop_mem_carStop]

theorem motorRunCmdsTask_idle {i : ℕ} {run : Bool} {args : Option Str} {pc pc' : MotorPc}
    {hw hw' : Hw} {eff : Effect} (h : motorRunCmdsTask i run args pc hw = some (pc', eff, hw'))
    (hp : pc.phase ≠ .active) : hw'.driver = hw.driver := by
  unfold motorRunCmdsTask at h
  repeat' split at h
  all_goals first | exact absurd rfl hp | (cases h; rfl) | cases h

theorem System.put_of_isStop {s : System} {v w : Worker} {c now : ℕ} {t : State v.Args v.Pc}
    (h : ∀ c, ((s.task w).call c).isStop = true)
    (hc : State.CallStep v.body.proto v.body.fresh now (s.task v) c t) :
    (∀ c, (((s.put v s.hw t).task w).call c).isStop = true) ∧
      ((s.put v s.hw t).task w).pc = (s.task w).pc ∧
      ((s.put v s.hw t).task w).created = (s.task w).created := by
  by_cases hv : w = v
  case neg =>
    rw [put_task_of_ne hv]
    exact ⟨h, rfl, rfl⟩
  subst hv
  rw [put_task_self]
  obtain ⟨hstop, hpc, hcreated⟩ := isStop_of_callStep (h c) hc
  refine ⟨fun c' => ?_, hpc, hcreated⟩
  by_cases hcc : c' = c
  · rw [hcc]
    exact hstop
  · rw [hc.call_of_ne hcc]
    exact h c'

namespace Driven

variable {s s' : System}

theorem init : Driven System.init := ⟨fun _ _ h => (by cases h), fun _ => rfl⟩

theorem of_pc (h : Driven s) (hpc : (s'.task .motor).pc = (s.task .motor).pc)
    (hd : ∀ b, s'.hw.driver b = s.hw.driver b ∨ s'.hw.driver b = none) : Driven s' := by
  refine ⟨fun b i hb => ?_, fun i => hpc ▸ h.stopping i⟩
  rw [hpc]
  rcases hd b with hsame | hnone
  · exact h.driver b i (hsame.symm.trans hb)
  · rw [hnone] at hb
    cases hb

theorem call {w : Worker} {c now : ℕ} {t : State w.Args w.Pc} (h : Driven s) (hn : s.Numbered)
    (hc : State.CallStep w.body.proto w.body.fresh now (s.task w) c t) :
    Driven (s.put w s.hw t) := by
  by_cases hw : Worker.motor = w
  case neg =>
    have htask := System.put_task_of_ne hw s s.hw t
    exact h.of_pc (by rw [htask]) fun _ => .inl rfl
  subst hw
  rcases hc.pc with hpc | ⟨-, -, hpc⟩
  · exact h.of_pc (by rw [System.put_task_self, hpc]) fun _ => .inl rfl
  -- the new instance drives nothing yet, nor did its number before
  refine ⟨?_, ?_⟩
  · intro b i hb
    have hi := h.driver b i hb
    have hne : i ≠ (s.task .motor).created := by
      rintro rfl
      rw [hn .motor _ le_rfl] at hi
      cases hi
    rw [System.put_task_self, hpc, Function.update_of_ne hne]
    exact hi
  · intro i
    rw [System.put_task_self, hpc, Function.update_apply]
    split_ifs
    · rfl
    · exact h.stopping i

theorem task {w : Worker} {e : w.Env} {i : ℕ} {pc : w.Pc} {eff : Effect} {hw : Hw}
    (h : Driven s)
    (ht : w.body.task e i (s.task w).taskRun (s.task w).args ((s.task w).pc i) s.hw =
      some (pc, eff, hw)) :
    Driven (s.put w hw ((s.task w).move w.body.proto i pc eff)) := by
  by_cases hw : Worker.motor = w
  case neg =>
    refine h.of_pc (by rw [System.put_task_of_ne hw]) fun b => .inl ?_
    rw [System.put_hw, (task_frame ht).2.2.2 (Ne.symm hw)]
  subst hw
  obtain ⟨hstop, hdriver⟩ := motorRunCmdsTask_driver ht (h.stopping i)
  refine ⟨?_, ?_⟩
  · intro b j hb
    rw [System.put_task_self, State.move_pc]
    rw [System.put_hw] at hb
    rcases hdriver b with ⟨hsame, hkeep⟩ | ⟨hrun, -, hdrives⟩ | hnone
    · have hj := h.driver b j (hsame ▸ hb)
      split_ifs with hji
      · subst hji
        exact hkeep hj
      · exact hj
    · obtain rfl : i = j := Option.some.inj (hrun.symm.trans hb)
      rw [if_pos rfl]
      exact hdrives
    · rw [hnone] at hb
      cases hb
  · intro j
    rw [System.put_task_self, State.move_pc]
    split_ifs
    · exact hstop
    · exact h.stopping j

end Driven

namespace Firmware

variable {s s' : Firmware} {a : FwAct}

/-- No track runs and nothing is left that would start one; `n` is the number of instances
of each track so far. -/
structure Quiet (n : Worker → ℕ) (s : Firmware) : Prop where
  flag : s.sys.hw.runCmdsIsRun = false
  main : s.main.inRun = false
  restart : ∀ k, (s.restart k).inRun = false
  calls : ∀ w, w.isTrack = true → ∀ c, ((s.sys.task w).call c).isStop = true
  created : ∀ w, w.isTrack = true → (s.sys.task w).created = n w
  ended : ∀ w, w.isTrack = true → ∀ i, ¬ s.sys.Executing w i
  driver : ∀ b, s.sys.hw.driver b = none

variable {n : Worker → ℕ}

/-- The tracks are quiet when the last stop of the branch for `C_STOP` has returned. -/
theorem Relay.quiet {r : Root} (h : Relay s) (hd : Driven s.sys) (hmain : s.main = .stopped r)
    (hready : s.ready 0 = true) : Quiet (fun w => (s.sys.task w).created) s := by
  have hstop : s.main.inStop = true := by rw [hmain]; rfl
  have hended (w : Worker) (hw : w.isTrack = true) (i : ℕ) : ¬ s.sys.Executing w i :=
    h.not_active_of_stopped hready hw hmain i
  refine ⟨h.stopFlag hstop, by rw [hmain]; rfl, ?_, ?_, fun _ _ => rfl, hended, ?_⟩
  · intro k
    by_contra hrun
    have hon := h.starts (k + 1) (.inl (by simpa using hrun))
    rw [h.stopFlag hstop] at hon
    cases hon
  · intro w hw c
    rw [h.idle hw (.inr ⟨rfl, .inr hstop⟩) hready c]
    rfl
  · intro b
    cases hdriver : s.sys.hw.driver b with
    | none => rfl
    | some i =>
      have hactive := MotorPc.active_of_drives (hd.driver b i hdriver)
      exact absurd hactive (hended .motor rfl i)

theorem Quiet.mainStep (h : Quiet n s) (ha : ¬ s.Accepts .main)
    (hm : MainStep s s') : Quiet n s' := by
  have hrun : s.main.inRun ≠ true := by simp [h.main]
  have htask (w : Worker) (hw : w.isTrack = true) :
      s'.sys.task w = s.sys.task w ∨
        s'.sys.task w = (s.sys.task w).goto 0 (w.body.proto.entry none) :=
    (hm.drives hw).imp id fun hd => (hd.resolve_left hrun).2
  refine ⟨?_, ?_, ?_, ?_, ?_, ?_, ?_⟩
  · rcases hm.flag with hsame | ⟨hmain, -, -⟩ | ⟨r, -, -, hoff⟩
    · rw [hsame, h.flag]
    · rw [hmain] at hrun
      exact absurd rfl hrun
    · exact hoff
  · by_contra hrun'
    rcases hm.inRun (by simpa using hrun') with hrun' | ⟨r, hmain, hflag, -⟩
    · exact hrun hrun'
    · exact ha ⟨rfl, ⟨r, hmain⟩, hflag⟩
  · intro k
    rw [hm.restart_eq, h.restart k]
  · intro w hw c
    obtain heq | heq := htask w hw <;> rw [heq]
    · exact h.calls w hw c
    · rw [State.goto_call]
      split_ifs
      · exact entry_isStop _
      · exact h.calls w hw c
  · intro w hw
    obtain heq | heq := htask w hw <;> rw [heq]
    · exact h.created w hw
    · exact h.created w hw
  · intro w hw i
    rw [System.Executing, hm.begins.pc]
    exact h.ended w hw i
  · intro b
    rcases hm.driver b with hsame | hnone
    · rw [hsame, h.driver b]
    · exact hnone

theorem Quiet.restartStep {k : ℕ} (h : Quiet n s) (hready : s.ready (k + 1) = true)
    (hr : RestartStep s k s') : Quiet n s' := by
  have htask : s'.sys.task = s.sys.task := hr.drives.resolve_right (by simp [h.restart k])
  refine ⟨?_, ?_, ?_, ?_, ?_, ?_, ?_⟩
  · rcases hr.flag with hsame | ⟨-, hoff, -⟩
    · rw [hsame, h.flag]
    · exact hoff
  · rw [hr.main_eq, h.main]
  · intro j
    by_cases hj : j = k
    · subst hj
      by_contra hrun
      rcases hr.starts hready (.inl (by simpa using hrun)) with hrun | ⟨-, hflag⟩
      · rw [h.restart j] at hrun
        cases hrun
      · rw [h.flag] at hflag
        cases hflag
    · rw [hr.restart_of_ne hj, h.restart j]
  · rw [htask]
    exact h.calls
  · rw [htask]
    exact h.created
  · simp only [System.Executing, htask]
    exact h.ended
  · rw [hr.driver_eq]
    exact h.driver

theorem Quiet.call {v : Worker} {c now : ℕ} {t : State v.Args v.Pc} (h : Quiet n s)
    (hc : State.CallStep v.body.proto v.body.fresh now (s.sys.task v) c t) :
    Quiet n { s with sys := s.sys.put v s.sys.hw t } := by
  have htask (w : Worker) (hw : w.isTrack = true) := System.put_of_isStop (h.calls w hw) hc
  refine ⟨h.flag, h.main, h.restart, fun w hw => (htask w hw).1, ?_, ?_, h.driver⟩
  · intro w hw
    rw [(htask w hw).2.2]
    exact h.created w hw
  · intro w hw i
    rw [System.Executing, (htask w hw).2.1]
    exact h.ended w hw i

theorem Quiet.task {w : Worker} {e : w.Env} {i : ℕ} {pc : w.Pc} {eff : Effect} {hw : Hw}
    (h : Quiet n s)
    (ht : w.body.task e i (s.sys.task w).taskRun (s.sys.task w).args ((s.sys.task w).pc i)
      s.sys.hw = some (pc, eff, hw))
    (hl : Lawful (s.sys.task w).taskRun (w.body.phase ((s.sys.task w).pc i)) eff
      (w.body.phase pc)) :
    Quiet n { s with sys := s.sys.put w hw ((s.sys.task w).move w.body.proto i pc eff) } := by
  refine ⟨(task_frame ht).1.trans h.flag, h.main, h.restart, ?_, ?_,
    fun v hv j hj => h.ended v hv j (active_of_move hl hj), ?_⟩
  · intro v hv c
    rw [System.call_move]
    exact h.calls v hv c
  · intro v hv
    rw [System.created_move]
    exact h.created v hv
  · intro b
    rw [System.put_hw]
    by_cases hm : w = .motor
    case neg => rw [(task_frame ht).2.2.2 hm, h.driver b]
    subst hm
    rw [motorRunCmdsTask_idle ht (h.ended .motor rfl i), h.driver b]

theorem Quiet.step (h : Quiet n s) (ha : ¬ s.Accepts a) (hs : Step s a s') : Quiet n s' := by
  cases hs with
  | ignore => exact h
  | parse => exact ⟨h.flag, rfl, h.restart, h.calls, h.created, h.ended, h.driver⟩
  | main _ hm => exact h.mainStep ha hm
  | restart _ hready hr => exact h.restartStep hready hr
  | tick => exact ⟨h.flag, h.main, h.restart, h.calls, h.created, h.ended, h.driver⟩
  | call hc => exact h.call hc
  | task ht hl => exact h.task ht hl

/-- A step that meets the conditions, as far as the counters and lists tell. -/
def prudent (s : Firmware) : FwAct → Bool
  | .main =>
    match s.main with
    | .cStop _ => (List.range s.sys.hw.restarts).all fun k =>
        !(s.restart k).inRun && ((s.sys.task .light).call (k + 1)).isIdle
    | .cCmds _ => s.sys.hw.runCmdsIsRun ||
        ((List.range s.sys.hw.restarts).all fun k => !(s.restart k).pending) &&
        ((List.range (s.sys.task .light).created).all fun i =>
          !((s.sys.task .light).pc i).inCallback)
    | _ => true
  | .call w c => careful s.sys (.task w (.call c))
  | _ => true

theorem Relay.guarded_of_prudent (h : Relay s) (ha : prudent s a = true) : Guarded s a := by
  refine ⟨?_, ?_, ?_⟩
  · rintro rfl r hmain k hs
    simp only [prudent, hmain, List.all_eq_true, List.mem_range, Bool.and_eq_true,
      Bool.not_eq_true', Call.isIdle_iff] at ha
    obtain ⟨hrun, hidle⟩ := ha k (h.parked.holds_restart hs).1
    rcases hs with hs | hopen
    · rw [hrun] at hs
      cases hs
    · exact hopen hidle
  · rintro ⟨rfl, ⟨r, hmain⟩, hflag⟩
    simp only [prudent, hmain, hflag, Bool.false_or, List.all_eq_true, List.mem_range,
      Bool.and_eq_true, Bool.not_eq_true'] at ha
    refine ⟨ha.1, fun i => ?_⟩
    by_cases hi : i < (s.sys.task .light).created
    · exact ha.2 i hi
    · rw [h.numbered .light i (by omega)]
      rfl
  · rintro w c rfl -
    exact waits_of_careful h.numbered ha _

/-- A run of prudent steps that pass a further check meets the conditions. -/
theorem reach_of_prudent {good : Firmware → FwAct → Bool} {as : List FwAct}
    (h : run Firmware.step (fun s a => prudent s a && good s a) Firmware.init as = some s) :
    Reach Firmware.step (fun s a => Guarded s a ∧ good s a = true) Firmware.init s := by
  have hreach : Reach Firmware.step (fun s a => (prudent s a && good s a) = true)
      Firmware.init s := reach_of_run (fun _ _ h => h) h
  have hguarded (s : Firmware) (a : FwAct) (hI : Relay s)
      (ha : (prudent s a && good s a) = true) : Guarded s a ∧ good s a = true :=
    (Bool.and_eq_true_iff.mp ha).imp hI.guarded_of_prudent id
  exact hreach.strengthen (I := Relay) .init
    (fun s a _ hI ha hs => hI.step (hguarded s a hI ha).1 (step_cases hs))
    fun s a _ hI ha _ => hguarded s a hI ha

def number (n : ℤ) : Item := ⟨true, n, none⟩

def text (s : CStr) : Item := ⟨false, 0, some s⟩

def cmdsMessage (isLoop : ℤ) (notes motor light : CStr) : Json
  | .T => some (number C_CMDS)
  | .V .v1 => some (number isLoop)
  | .V .v2 => some (text notes)
  | .V .v3 => some (text motor)
  | .V .v4 => some (text light)
  | _ => none

def stopMessage : Json
  | .T => some (number C_STOP)
  | _ => none

def mains (n : ℕ) : List FwAct := List.replicate n .main

def calls (w : Worker) (c n : ℕ) : List FwAct := List.replicate n (.call w c)

def tasks (w : Worker) (i n : ℕ) (e : w.Env) : List FwAct := List.replicate n (.task w i e)

def startTracks (json : Json) : List FwAct :=
  .receive (some json) :: mains 11 ++ calls .notes 0 4 ++ .main :: calls .motor 0 4 ++
    .main :: calls .light 0 4

/-- The message thread stops the tracks; the lists are what happens during the waits. -/
def stopTracks (motor light notes : List FwAct) : List FwAct :=
  .receive (some stopMessage) :: mains 3 ++ calls .motor 0 4 ++ motor ++ calls .motor 0 2 ++
    .main :: calls .light 0 4 ++ light ++ calls .light 0 2 ++
    .main :: calls .notes 0 4 ++ notes ++ calls .notes 0 2

/-! ### Stop is final -/

end Firmware

open Firmware

/-- The car drives when the stop comes; every track ends while it is waited for. -/
def promptStop : List FwAct :=
  startTracks (cmdsMessage 0 ['N', ',', '1', ';'] ['F', ',', '1', ';'] ['R', ',', '1', ';']) ++
    tasks .motor 0 8 () ++
    stopTracks (.tick 60 :: tasks .motor 0 8 ()) (tasks .light 0 6 ()) (tasks .notes 0 7 true)

end Car
