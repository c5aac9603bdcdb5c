import CarFirmware.Proofs.Messages

/-! Who will clear `run_cmds_is_run`. While the flag is set, the message thread is starting
the tracks, or a light instance or a call that creates one is on its way to
`run_cmds_one_time_cb`, or a `run_cmds_task` has yet to finish with the flag. And what
becomes of a `run_cmds_task` that finds the flag cleared. -/

namespace Car

open Handshake Transition

theorem LedPc.baton_of_inCallback {pc : LedPc} (h : pc.inCallback = true) : pc.baton = true := by
  cases pc <;> first | rfl | cases h

namespace Firmware

variable {s s' : Firmware} {a : FwAct} {k : ℕ}

/-! ### What a thread does to the light player -/

/-- The message thread starts the light track at the end of `run_cmds`, and stops it for a
`C_STOP` only. -/
theorem MainStep.light (hm : MainStep s s') :
    s'.sys.task .light = s.sys.task .light ∨
    (∃ x, s'.sys.task .light = (s.sys.task .light).goto 0 (gLedCmdsHandler.entry (some x))) ∨
    (s'.main.inStop = true ∧
      s'.sys.task .light = (s.sys.task .light).goto 0 (gLedCmdsHandler.entry none)) := by
  cases hm
  case ledRun r _ _ => exact .inr (.inl ⟨r.valuestring, System.put_task_self ..⟩)
  case ledStop => exact .inr (.inr ⟨rfl, System.put_task_self ..⟩)
  case play => exact .inl (System.put_task_of_ne (by decide) ..)
  case notesRun => exact .inl (System.put_task_of_ne (by decide) ..)
  case motorRun => exact .inl (System.put_task_of_ne (by decide) ..)
  case motorStop => exact .inl (System.put_task_of_ne (by decide) ..)
  case notesStop => exact .inl (System.put_task_of_ne (by decide) ..)
  all_goals exact .inl rfl

/-- The message thread leaves `run_cmds` before the statement that sets the flag, or with the
start of the light track. -/
theorem MainStep.leaves_run (hm : MainStep s s') (hrun : s.main.inRun = true) :
    s'.main.inRun = true ∨ s.main.early = true ∨
      ∃ x, s'.sys.task .light = (s.sys.task .light).goto 0 (gLedCmdsHandler.entry (some x)) := by
  cases hm
  case skip pc hs =>
    generalize s.main = m at hs hrun
    cases hs
    case null => exact .inr (.inl rfl)
    case full => exact .inl rfl
    all_goals cases hrun
  case abort => exact .inl hrun
  case item x r _ => exact .inl (by cases x <;> rfl)
  case ledRun r _ _ => exact .inr (.inr ⟨r.valuestring, System.put_task_self ..⟩)
  all_goals first | exact .inl rfl | simp_all [MainPc.inRun]

theorem RestartStep.light (hr : RestartStep s k s') :
    s'.sys.task .light = s.sys.task .light ∨
    ∃ x, s'.sys.task .light =
      (s.sys.task .light).goto (k + 1) (gLedCmdsHandler.entry (some x)) := by
  cases hr
  case ledRun r _ _ => exact .inr ⟨r.valuestring, System.put_task_self ..⟩
  case notesRun => exact .inl (System.put_task_of_ne (by decide) ..)
  case motorRun => exact .inl (System.put_task_of_ne (by decide) ..)
  all_goals exact .inl rfl

/-- A `run_cmds_task` finishes with the flag by clearing it, or with the start of the light
track. -/
theorem RestartStep.finishes (hr : RestartStep s k s') (hpending : (s.restart k).pending = true) :
    (s'.restart k).pending = true ∨ s'.sys.hw.runCmdsIsRun = false ∨
      ∃ x, s'.sys.task .light =
        (s.sys.task .light).goto (k + 1) (gLedCmdsHandler.entry (some x)) := by
  cases hr
  case abort => exact .inl hpending
  case ledRun r _ _ => exact .inr (.inr ⟨r.valuestring, System.put_task_self ..⟩)
  case returned _ hflag => exact .inr (.inl hflag)
  case clear => exact .inr (.inl rfl)
  case delete hk =>
    rw [hk] at hpending
    cases hpending
  all_goals exact .inl (by rw [goRestart_restart, if_pos rfl]; rfl)

/-- What stands behind `run_cmds_is_run`. -/
inductive Bound (s : Firmware) : Prop
  | main : s.main.inRun = true → Bound s
  | restart (k : ℕ) : k < s.sys.hw.restarts → (s.restart k).pending = true → Bound s
  | callback (i : ℕ) : ((s.sys.task .light).pc i).inCallback = true → Bound s
  | call (c : ℕ) : ((s.sys.task .light).call c).heading = true → Bound s
  | run : (s.sys.task .light).taskRun = true → Bound s

structure Watched (s : Firmware) : Prop where
  numbered : s.sys.Numbered
  parked : s.Parked
  early : s.main.early = true → s.sys.hw.runCmdsIsRun = false
  stopFlag : s.main.inStop = true → s.sys.hw.runCmdsIsRun = false
  stops : ∀ c, ((s.sys.task .light).call c).isStop = true → s.sys.Open .light c →
    c = 0 ∧ s.main.inStop = true
  owned : FlagOwned LedPc.phase (s.sys.task .light)
  bound : s.sys.hw.runCmdsIsRun = true → Bound s

theorem Watched.init : Watched Firmware.init where
  numbered _ := .init _ _
  parked := ⟨fun _ _ h => absurd rfl h, fun _ _ => rfl⟩
  early h := by cases h
  stopFlag h := by cases h
  stops _ _ h := absurd rfl h
  owned h := by cases h
  bound h := by cases h

theorem Bound.begins {c : ℕ} (h : Bound s) (hb : System.Begins c s.sys s'.sys)
    (hready : s.ready c = true) (hmain : s.main.inRun = true → Bound s')
    (hrestart : ∀ k < s.sys.hw.restarts, (s.restart k).pending = true → Bound s') : Bound s' := by
  cases h with
  | main h => exact hmain h
  | restart k hk h => exact hrestart k hk h
  | callback i h => exact .callback i (by rw [hb.pc]; exact h)
  | call c' h =>
    have hne : c' ≠ c := by
      rintro rfl
      rw [ready_iff.mp hready .light] at h
      cases h
    exact .call c' (by rw [hb.call_of_ne hne]; exact h)
  | run h =>
    refine .run ?_
    obtain heq | ⟨k, heq⟩ := hb .light <;> rw [heq]
    · exact h
    · exact h

theorem FlagOwned.begins {c : ℕ} (h : FlagOwned LedPc.phase (s.sys.task .light))
    (hb : System.Begins c s.sys s'.sys) (hready : s.ready c = true) :
    FlagOwned LedPc.phase (s'.sys.task .light) := by
  obtain heq | ⟨k, heq⟩ := hb .light <;> rw [heq]
  · exact h
  · exact h.begin (ready_iff.mp hready .light)

theorem bound_of_start {c : ℕ} {x : Option Str}
    (h : s'.sys.task .light = (s.sys.task .light).goto c (gLedCmdsHandler.entry (some x))) :
    Bound s' := by
  refine .call c ?_
  rw [h, State.goto_call, if_pos rfl]
  rfl

theorem Watched.mainStep (h : Watched s) (hready : s.ready 0 = true) (hm : MainStep s s') :
    Watched s' where
  numbered := hm.begins.numbered h.numbered
  parked := h.parked.mainStep hready hm
  early := hm.flag_of_early h.early
  stopFlag := hm.flag_of_inStop h.stopFlag
  stops c hstop hopen := by
    by_cases hc : c = 0
    case neg =>
      rw [hm.begins.call_of_ne hc] at hstop
      exact absurd (h.stops c hstop ((hm.begins.open_of_ne hc).mp hopen)).1 hc
    subst hc
    rcases hm.light with heq | ⟨x, heq⟩ | ⟨hin, -⟩
    · rw [System.Open, heq] at hopen
      exact absurd hopen (not_open_of_ready hready .light)
    · rw [heq, State.goto_call, if_pos rfl] at hstop
      cases hstop
    · exact ⟨rfl, hin⟩
  owned := FlagOwned.begins h.owned hm.begins hready
  bound hflag := by
    rcases hm.flag with hsame | ⟨-, hmain, -⟩ | ⟨r, -, -, hoff⟩
    · have hbound := h.bound (hsame.symm.trans hflag)
      refine hbound.begins hm.begins hready (fun hrun => ?_) fun k hk hpending => ?_
      · rcases hm.leaves_run hrun with hrun | he | ⟨x, heq⟩
        · exact .main hrun
        · rw [hsame, h.early he] at hflag
          cases hflag
        · exact bound_of_start heq
      · exact .restart k (by rw [hm.restarts_eq]; exact hk) (by rw [hm.restart_eq]; exact hpending)
    · exact .main (by rw [hmain]; rfl)
    · rw [hoff] at hflag
      cases hflag

theorem Watched.restartStep (h : Watched s) (hready : s.ready (k + 1) = true)
    (hk : k < s.sys.hw.restarts) (hr : RestartStep s k s') : Watched s' where
  numbered := hr.begins.numbered h.numbered
  parked := h.parked.restartStep hready hk hr
  early he := hr.flag_off (h.early (hr.main_eq ▸ he))
  stopFlag hstop := hr.flag_off (h.stopFlag (hr.main_eq ▸ hstop))
  stops c hstop hopen := by
    rw [hr.main_eq]
    by_cases hc : c = k + 1
    case neg =>
      rw [hr.begins.call_of_ne hc] at hstop
      exact h.stops c hstop ((hr.begins.open_of_ne hc).mp hopen)
    subst hc
    rcases hr.light with heq | ⟨x, heq⟩
    · rw [System.Open, heq] at hopen
      exact absurd hopen (not_open_of_ready hready .light)
    · rw [heq, State.goto_call, if_pos rfl] at hstop
      cases hstop
  owned := FlagOwned.begins h.owned hr.begins hready
  bound hflag := by
    have hbound : Bound s := by
      rcases hr.flag with hsame | ⟨-, hoff, -⟩
      · exact h.bound (hsame.symm.trans hflag)
      · rw [hoff] at hflag
        cases hflag
    refine hbound.begins hr.begins hready (fun hrun => ?_) fun j hj hpending => ?_
    · exact .main (by rw [hr.main_eq]; exact hrun)
    · have hj' : j < s'.sys.hw.restarts := hr.restarts_eq ▸ hj
      by_cases hjk : j = k
      · subst hjk
        rcases hr.finishes hpending with hpending | hoff | ⟨x, heq⟩
        · exact .restart j hj' hpending
        · rw [hoff] at hflag
          cases hflag
        · exact bound_of_start heq
      · exact .restart j hj' (by rw [hr.restart_of_ne hjk]; exact hpending)

theorem Watched.elsewhere (h : Watched s) (hn : s'.sys.Numbered) (hp : Parked s')
    (hmain : s'.main = s.main) (hrestart : s'.restart = s.restart)
    (hlight : s'.sys.task .light = s.sys.task .light)
    (hflag : s'.sys.hw.runCmdsIsRun = s.sys.hw.runCmdsIsRun)
    (hle : s.sys.hw.restarts ≤ s'.sys.hw.restarts) : Watched s' where
  numbered := hn
  parked := hp
  early := by rw [hmain, hflag]; exact h.early
  stopFlag := by rw [hmain, hflag]; exact h.stopFlag
  stops := by rw [hmain, hlight]; intro c hc; rw [System.Open, hlight]; exact h.stops c hc
  owned := by rw [hlight]; exact h.owned
  bound hon := by
    cases h.bound (hflag.symm.trans hon) with
    | main h => exact .main (by rw [hmain]; exact h)
    | restart k hk h => exact .restart k (by omega) (by rw [hrestart]; exact h)
    | callback i h => exact .callback i (by rw [hlight]; exact h)
    | call c h => exact .call c (by rw [hlight]; exact h)
    | run h => exact .run (by rw [hlight]; exact h)

theorem Watched.lightCall {c : ℕ} {t : State (Option Str) LedPc} (h : Watched s)
    (hc : State.CallStep gLedCmdsHandler .entry s.sys.hw.now (s.sys.task .light) c t)
    (hn : (s.sys.put .light s.sys.hw t).Numbered)
    (hp : Parked { s with sys := s.sys.put .light s.sys.hw t }) :
    Watched { s with sys := s.sys.put .light s.sys.hw t } where
  numbered := hn
  parked := hp
  early := h.early
  stopFlag := h.stopFlag
  stops c' hstop hopen := by
    rw [System.Open] at hopen
    simp only [System.put_task_self] at hstop hopen
    by_cases hcc : c' = c
    · subst hcc
      obtain ⟨hstop', hopen'⟩ := isStop_of_callStep_right hc hstop hopen
      exact h.stops c' hstop' hopen'
    · rw [hc.call_of_ne hcc] at hstop hopen
      exact h.stops c' hstop hopen
  owned := by
    simp only [System.put_task_self]
    exact h.owned.callStep rfl hc
  bound hon := by
    have htask : ({ s with sys := s.sys.put .light s.sys.hw t } : Firmware).sys.task .light = t :=
      System.put_task_self ..
    cases h.bound hon with
    | main h => exact .main h
    | restart k hk h => exact .restart k hk h
    | callback i hi =>
      refine .callback i ?_
      rw [htask]
      rcases hc.pc with hpc | ⟨-, -, hpc⟩
      · rw [hpc]
        exact hi
      · have hne : i ≠ (s.sys.task .light).created := by
          rintro rfl
          rw [h.numbered .light _ le_rfl] at hi
          cases hi
        rw [hpc, Function.update_of_ne hne]
        exact hi
    | call c' hcall =>
      by_cases hcc : c' = c
      · subst hcc
        rcases heading_of_callStep hc hcall with hcall | hrun
        · exact .call c' (by rw [htask]; exact hcall)
        · exact .run (by rw [htask]; exact hrun)
      · exact .call c' (by rw [htask, hc.call_of_ne hcc]; exact hcall)
    | run hrun =>
      rcases taskRun_of_callStep hc hrun with hrun | hcall | ⟨hstop, hopen⟩
      · exact .run (by rw [htask]; exact hrun)
      · exact .call c (by rw [htask]; exact hcall)
      · have hoff := h.stopFlag (h.stops c hstop hopen).2
        rw [show s.sys.hw.runCmdsIsRun = true from hon] at hoff
        cases hoff

/-- An instance clears the flag of its player only on the way to the callback, and leaves the
callback with a new `run_cmds_task` while `run_cmds_is_run` is set. -/
theorem ledRunCmdsTask_callback {run : Bool} {args : Option Str} {pc pc' : LedPc} {hw hw' : Hw}
    {eff : Effect} (h : ledRunCmdsTask run args pc hw = some (pc', eff, hw')) :
    (eff = .clearRun → pc'.inCallback = true) ∧
      (pc.inCallback = true → hw.runCmdsIsRun = true →
        pc'.inCallback = true ∨ hw'.restarts = hw.restarts + 1) := by
  unfold ledRunCmdsTask at h
  repeat' split at h
  all_goals cases h
  all_goals refine ⟨by first | exact fun _ => rfl | nofun, fun hpc hon => ?_⟩
  all_goals first | exact .inl rfl | exact .inr rfl | exact absurd hon ‹_› | cases hpc

theorem Watched.lightTask {i : ℕ} {pc : LedPc} {eff : Effect} {hw : Hw} (h : Watched s)
    (ht : ledRunCmdsTask (s.sys.task .light).taskRun (s.sys.task .light).args
      ((s.sys.task .light).pc i) s.sys.hw = some (pc, eff, hw))
    (hl : Lawful (s.sys.task .light).taskRun (LedPc.phase ((s.sys.task .light).pc i)) eff
      (LedPc.phase pc))
    (hn : (s.sys.put .light hw ((s.sys.task .light).move gLedCmdsHandler i pc eff)).Numbered)
    (hp : Parked { s with
      sys := s.sys.put .light hw ((s.sys.task .light).move gLedCmdsHandler i pc eff) }) :
    Watched { s with
      sys := s.sys.put .light hw ((s.sys.task .light).move gLedCmdsHandler i pc eff) } := by
  set t := (s.sys.task .light).move gLedCmdsHandler i pc eff with ht'
  set s' : Firmware := { s with sys := s.sys.put .light hw t } with hs'
  have htask : s'.sys.task .light = t := System.put_task_self ..
  have hcall : t.call = (s.sys.task .light).call := State.move_call ..
  obtain ⟨hflag, -, hrestarts⟩ := ledRunCmdsTask_frame ht
  obtain ⟨hclear, hcallback⟩ := ledRunCmdsTask_callback ht
  refine ⟨hn, hp, fun he => hflag.trans (h.early he), fun hstop => hflag.trans (h.stopFlag hstop),
    ?_, ?_, fun hon => ?_⟩
  · intro c hstop hopen
    rw [System.Open, htask, hcall] at hopen
    rw [htask, hcall] at hstop
    exact h.stops c hstop hopen
  · rw [htask]
    refine h.owned.inst ?_ hl
    rintro _ _ _ ⟨⟩ hactive hdone
    exact absurd hdone (ledRunCmdsTask_loyal ht hactive)
  · have hset : s.sys.hw.runCmdsIsRun = true := hflag.symm.trans hon
    cases h.bound hset with
    | main h => exact .main h
    | restart k hk h =>
      refine .restart k (lt_of_lt_of_le hk ?_) h
      rcases hrestarts with hsame | ⟨-, -, hsucc⟩
      · exact hsame.ge
      · exact (Nat.le_succ _).trans hsucc.ge
    | callback j hj =>
      by_cases hji : j = i
      · subst hji
        rcases hcallback hj hset with hj | hsucc
        · exact .callback j (by rw [htask, ht', State.move_pc, if_pos rfl]; exact hj)
        · -- the new `run_cmds_task` is at its first statement
          refine .restart s.sys.hw.restarts (hsucc ▸ Nat.lt_succ_self _) ?_
          rw [h.parked.unborn _ le_rfl]
          rfl
      · exact .callback j (by rw [htask, ht', State.move_pc, if_neg hji]; exact hj)
    | call c h => exact .call c (by rw [htask, hcall]; exact h)
    | run hrun =>
      by_cases heff : eff = .clearRun
      · exact .callback i (by rw [htask, ht', State.move_pc, if_pos rfl]; exact hclear heff)
      · refine .run ?_
        rw [htask, ht']
        cases eff <;> first | exact hrun | exact absurd rfl heff

theorem Watched.parse {json : Json} (h : Watched s) (hidle : s.main = .idle)
    (hp : Parked { s with main := .type ⟨s.parsed, json⟩, parsed := s.parsed + 1 }) :
    Watched { s with main := .type ⟨s.parsed, json⟩, parsed := s.parsed + 1 } where
  numbered := h.numbered
  parked := hp
  early he := by cases he
  stopFlag hstop := by cases hstop
  stops c hstop hopen := by
    have hin := (h.stops c hstop hopen).2
    rw [hidle] at hin
    cases hin
  owned := h.owned
  bound hon := by
    cases h.bound hon with
    | main h =>
      rw [hidle] at h
      cases h
    | restart k hk h => exact .restart k hk h
    | callback i h => exact .callback i h
    | call c h => exact .call c h
    | run h => exact .run h

theorem Watched.step (h : Watched s) (hs : Step s a s') : Watched s' := by
  have hn : s'.sys.Numbered := hs.numbered h.numbered
  have hp : Parked s' := h.parked.step hs
  cases hs with
  | ignore => exact h
  | parse hidle => exact h.parse hidle hp
  | main hready hm => exact h.mainStep hready hm
  | restart hk hready hr => exact h.restartStep hready hk hr
  | tick => exact h.elsewhere hn hp rfl rfl rfl rfl le_rfl
  | @call v c t hc =>
    by_cases hv : v = .light
    · subst hv
      exact h.lightCall hc hn hp
    · exact h.elsewhere hn hp rfl rfl (System.put_task_of_ne (Ne.symm hv) ..) rfl le_rfl
  | @task v i e pc eff hw ht hl =>
    by_cases hv : v = .light
    · subst hv
      exact h.lightTask ht hl hn hp
    · obtain ⟨hflag, hle, -⟩ := task_frame ht
      exact h.elsewhere hn hp rfl rfl (System.put_task_of_ne (Ne.symm hv) ..) hflag hle

theorem Watched.run (h : Reach Firmware.step (fun _ _ => True) Firmware.init s) : Watched s :=
  h.invariant .init fun _ _ _ hI _ hs => hI.step (step_cases hs)

def LightAlive (s : Firmware) : Prop := ∃ i, ((s.sys.task .light).pc i).baton = true

/-- A `led_run_cmds` call is in progress that has still to create its instance. -/
def LightStarts (s : Firmware) : Prop := ∃ c, ((s.sys.task .light).call c).isStop = false

/-- A `run_cmds_task` has been created and has not finished with the flag. -/
def RestartPending (s : Firmware) : Prop :=
  ∃ k < s.sys.hw.restarts, (s.restart k).pending = true

theorem Watched.released (h : Watched s) (hmain : s.main.inRun = false)
    (hflag : s.sys.hw.runCmdsIsRun = true) : s.LightAlive ∨ s.LightStarts ∨ s.RestartPending := by
  cases h.bound hflag with
  | main hrun =>
    rw [hmain] at hrun
    cases hrun
  | restart k hk hpending => exact .inr (.inr ⟨k, hk, hpending⟩)
  | callback i hi => exact .inl ⟨i, LedPc.baton_of_inCallback hi⟩
  | call c hc => exact .inr (.inl ⟨c, Call.isStop_of_heading hc⟩)
  | run hrun =>
    rcases h.owned hrun with ⟨c, hc⟩ | ⟨i, hi⟩
    · exact .inr (.inl ⟨c, Call.isStop_of_starting hc⟩)
    · exact .inl ⟨i, LedPc.baton_of_active hi⟩

end Firmware

open Firmware

/-- While `run_cmds_is_run` is set outside `run_cmds`, somebody is left who will see to it;
once all of them have ended, a `C_CMDS` is accepted. -/
theorem busy_released {s : Firmware} (h : Reach Firmware.step (fun _ _ => True) Firmware.init s)
    (hmain : s.main.inRun = false) :
    (s.sys.hw.runCmdsIsRun = true → s.LightAlive ∨ s.LightStarts ∨ s.RestartPending) ∧
      ∀ r, s.main = .cCmds r → ¬ s.LightAlive → ¬ s.LightStarts → ¬ s.RestartPending →
        s.mainStep = some (s.goMain (.delete r)) := by
  have hreleased := (Watched.run h).released hmain
  refine ⟨hreleased, fun r hr halive hstarts hpending => ?_⟩
  have hoff : s.sys.hw.runCmdsIsRun = false := by
    by_contra hon
    rcases hreleased (by simpa using hon) with h | h | h
    · exact halive h
    · exact hstarts h
    · exact hpending h
  simp [mainStep, hr, hoff]

theorem busy_released_playing : ∃ s : Firmware, s.sys.hw.runCmdsIsRun = true ∧
    (s.LightAlive ∨ s.LightStarts ∨ s.RestartPending) := by
  obtain ⟨s, hs, hobs⟩ : ∃ s, run Firmware.step (fun _ _ => true) Firmware.init
      (startTracks (cmdsMessage 0 [] [] [])) = some s ∧
        (s.main.inRun, s.sys.hw.runCmdsIsRun) = (false, true) :=
    Option.map_eq_some_iff.mp (by decide +kernel)
  obtain ⟨hmain, hflag⟩ := Prod.mk.inj hobs
  exact ⟨s, hflag, (busy_released (reach_of_run (fun _ _ _ => trivial) hs) hmain).1 hflag⟩

/-! ### The end of a task function -/

namespace Worker

def deleting : (w : Worker) → w.Pc → Bool
  | notes => fun | .busyDelete | .delete => true | _ => false
  | motor => fun | .delete => true | _ => false
  | light => fun | .delete => true | _ => false
  | mp3 => fun | .delete => true | _ => false
  | renderer | audioConvert => fun | .delete => true | _ => false

def ended : (w : Worker) → w.Pc
  | notes | motor | light | mp3 | renderer | audioConvert => .ended

/-- The task function has been left. -/
def exited : (w : Worker) → w.Pc → Bool
  | notes => fun | .ended => true | _ => false
  | motor => fun | .ended => true | _ => false
  | light => fun | .ended => true | _ => false
  | mp3 => fun | .ended => true | _ => false
  | renderer | audioConvert => fun | .ended => true | _ => false

variable {w : Worker}

theorem not_exited_fresh : w.exited w.body.fresh = false := by
  cases w <;> rfl

theorem playNotesTask_ended {ok : Bool} {i : ℕ} {run : Bool} {args : Option Str} {pc : NotesPc}
    {hw hw' : Hw} {eff : Effect}
    (h : playNotesTask ok i run args pc hw = some (.ended, eff, hw')) :
    notes.deleting pc = true := by
  unfold playNotesTask at h
  repeat' split at h
  all_goals first | rfl | cases h

theorem motorRunCmdsTask_ended {i : ℕ} {run : Bool} {args : Option Str} {pc : MotorPc}
    {hw hw' : Hw} {eff : Effect} (h : motorRunCmdsTask i run args pc hw = some (.ended, eff, hw')) :
    motor.deleting pc = true := by
  unfold motorRunCmdsTask at h
  repeat' split at h
  all_goals first | rfl | cases h

theorem ledRunCmdsTask_ended {run : Bool} {args : Option Str} {pc : LedPc} {hw hw' : Hw}
    {eff : Effect} (h : ledRunCmdsTask run args pc hw = some (.ended, eff, hw')) :
    light.deleting pc = true := by
  unfold ledRunCmdsTask at h
  repeat' split at h
  all_goals first | rfl | cases h

theorem soundPlayMp3Task_ended {e : Mp3Env} {i : ℕ} {run : Bool} {fileid : ℤ} {pc : Mp3Pc}
    {hw hw' : Hw} {eff : Effect}
    (h : soundPlayMp3Task e i run fileid pc hw = some (.ended, eff, hw')) :
    mp3.deleting pc = true := by
  unfold soundPlayMp3Task at h
  repeat' split at h
  all_goals first | rfl | cases h

theorem loopTask_ended {timeout : Option ℕ} {got run : Bool} {pc : LoopPc} {hw hw' : Hw}
    {eff : Effect} (h : loopTask timeout got run pc hw = some (.ended, eff, hw')) :
    renderer.deleting pc = true := by
  unfold loopTask at h
  repeat' split at h
  all_goals first | rfl | cases h

theorem ended_of_exited {pc : w.Pc} (h : w.exited pc = true) : w.ended = pc := by
  cases w <;> cases pc <;> first | rfl | cases h

theorem deleting_of_exited {e : w.Env} {i : ℕ} {run : Bool} {args : w.Args} {pc pc' : w.Pc}
    {hw hw' : Hw} {eff : Effect} (h : w.body.task e i run args pc hw = some (pc', eff, hw'))
    (hexit : w.exited pc' = true) : w.deleting pc = true := by
  obtain rfl := ended_of_exited hexit
  cases w with
  | notes => exact playNotesTask_ended h
  | motor => exact motorRunCmdsTask_ended h
  | light => exact ledRunCmdsTask_ended h
  | mp3 => exact soundPlayMp3Task_ended h
  | renderer => exact loopTask_ended h
  | audioConvert => exact loopTask_ended h

end Worker

def RestartPc.exited : RestartPc → Bool
  | .returned | .ended => true
  | _ => false

namespace Firmware

/-- A task function that is left by this step is left at `vTaskDelete(NULL)`. -/
structure Deletes (s s' : Firmware) : Prop where
  task : ∀ (w : Worker) (i : ℕ), w.exited ((s'.sys.task w).pc i) = true →
    w.exited ((s.sys.task w).pc i) = true ∨ w.deleting ((s.sys.task w).pc i) = true
  restart : ∀ k, (s'.restart k).exited = true →
    (s.restart k).exited = true ∨ s.restart k = .delete

/-- The first test of a `run_cmds_task`, if the step is one, finds the flag set. -/
def FirstTestOn (s : Firmware) (a : FwAct) : Prop :=
  ∀ k, a = .restart k → s.restart k = .test → s.sys.hw.runCmdsIsRun = true

variable {s s' : Firmware} {a : FwAct} {k : ℕ}

theorem Deletes.of_pc (hpc : ∀ w : Worker, (s'.sys.task w).pc = (s.sys.task w).pc)
    (hrestart : ∀ k, (s'.restart k).exited = true →
      (s.restart k).exited = true ∨ s.restart k = .delete) : Deletes s s' :=
  ⟨fun w i h => .inl (by rwa [hpc] at h), hrestart⟩

theorem RestartStep.exits (hr : RestartStep s k s') (hexit : (s'.restart k).exited = true) :
    (s.restart k).exited = true ∨ s.restart k = .delete ∨
      (s.restart k = .test ∧ s.sys.hw.runCmdsIsRun = false) := by
  cases hr
  case abort => exact .inl hexit
  case returned hk hflag => exact .inr (.inr ⟨hk, hflag⟩)
  case delete hk => exact .inr (.inl hk)
  all_goals
    rw [goRestart_restart, if_pos rfl] at hexit
    cases hexit

theorem restartStep_of_step (h : s.step (.restart k) = some s') : s.restartStep k = some s' := by
  have hrun : ¬ s.sys.hw.halted = true := fun hhalted => by simp [step, hhalted] at h
  unfold step at h
  rw [if_neg hrun] at h
  simp only at h
  split_ifs at h with hk
  exact h

theorem Step.deletes (hs : Step s a s') (hon : FirstTestOn s a) : Deletes s s' := by
  cases hs with
  | ignore => exact .of_pc (fun _ => rfl) fun _ => .inl
  | parse => exact .of_pc (fun _ => rfl) fun _ => .inl
  | main _ hm => exact .of_pc hm.begins.pc fun k hk => .inl (by rwa [hm.restart_eq] at hk)
  | @restart k _ _ _ hr =>
    refine .of_pc hr.begins.pc fun j hj => ?_
    by_cases hjk : j = k
    · subst hjk
      rcases hr.exits hj with hexit | hdelete | ⟨htest, hoff⟩
      · exact .inl hexit
      · exact .inr hdelete
      · rw [hon j rfl htest] at hoff
        cases hoff
    · exact .inl (by rwa [hr.restart_of_ne hjk] at hj)
  | tick => exact .of_pc (fun _ => rfl) fun _ => .inl
  | @call v c t hc =>
    refine ⟨fun w i hexit => .inl ?_, fun _ => .inl⟩
    by_cases hw : w = v
    case neg => rwa [System.put_task_of_ne hw] at hexit
    subst hw
    rw [System.put_task_self] at hexit
    rcases hc.pc with hpc | ⟨-, -, hpc⟩
    · rwa [hpc] at hexit
    · rw [hpc, Function.update_apply] at hexit
      split_ifs at hexit
      · rw [Worker.not_exited_fresh] at hexit
        cases hexit
      · exact hexit
  | @task v i e pc eff hw ht hl =>
    refine ⟨fun w j hexit => ?_, fun _ => .inl⟩
    by_cases hw : w = v
    case neg => exact .inl (by rwa [System.put_task_of_ne hw] at hexit)
    subst hw
    rw [System.put_task_self, State.move_pc] at hexit
    split_ifs at hexit with hji
    · subst hji
      exact .inr (Worker.deleting_of_exited ht hexit)
    · exact .inl hexit

theorem firstTestOn_of_deletes (hs : s.step a = some s') (hd : Deletes s s') :
    FirstTestOn s a := by
  rintro k rfl htest
  by_contra hoff
  obtain rfl : s.goRestart k .returned = s' := by
    simpa [restartStep, htest, hoff] using restartStep_of_step hs
  have hexit := hd.restart k (by rw [goRestart_restart, if_pos rfl]; rfl)
  rw [htest] at hexit
  rcases hexit with hexit | hdelete
  · cases hexit
  · cases hdelete

end Firmware

open Firmware

/-- In a run every task function that is left is left by deleting its task, if and only if
every `run_cmds_task` finds `run_cmds_is_run` set at its first statement. -/
theorem tasks_deleted_iff {l : List (Firmware × FwAct × Firmware)} {s : Firmware}
    (h : Path Firmware.step Firmware.init l s) :
    (∀ x ∈ l, Deletes x.1 x.2.2) ↔ ∀ x ∈ l, FirstTestOn x.1 x.2.1 := by
  obtain ⟨-, hall⟩ := h.invariant (I := fun _ => True) trivial fun _ _ _ _ _ _ => trivial
  constructor
  · intro hd x hx
    exact firstTestOn_of_deletes (hall x hx).2 (hd x hx)
  · intro hon x hx
    exact (step_cases (hall x hx).2).deletes (hon x hx)

def lightEnds : List FwAct :=
  startTracks (cmdsMessage 0 [] [] []) ++ tasks .light 0 7 ()

def Firmware.firstTestOn (s : Firmware) : FwAct → Bool
  | .restart k => s.restart k != .test || s.sys.hw.runCmdsIsRun
  | _ => true

theorem firstTestOn_of_check {s : Firmware} {a : FwAct} (h : s.firstTestOn a = true) :
    FirstTestOn s a := by
  rintro k rfl htest
  simpa [firstTestOn, htest] using h

theorem tasks_deleted_once : ∃ (l : List (Firmware × FwAct × Firmware)) (s : Firmware),
    s.restart 0 = .ended ∧ ∀ x ∈ l, Deletes x.1 x.2.2 := by
  obtain ⟨s, hs, hobs⟩ : ∃ s, run Firmware.step firstTestOn Firmware.init
      (lightEnds ++ List.replicate 5 (.restart 0)) = some s ∧ s.restart 0 = .ended :=
    Option.map_eq_some_iff.mp (by decide +kernel)
  obtain ⟨l, hl, hgood⟩ := path_of_run hs
  exact ⟨l, s, hobs, (tasks_deleted_iff hl).mpr fun x hx => firstTestOn_of_check (hgood x hx)⟩

/-- A `C_STOP` comes before the new `run_cmds_task` executes its first statement. -/
theorem task_returns : ¬ ∀ (l : List (Firmware × FwAct × Firmware)) (s : Firmware),
    Path Firmware.step Firmware.init l s → ∀ x ∈ l, Deletes x.1 x.2.2 := by
  intro h
  obtain ⟨s, hs, hrest⟩ : ∃ s, run Firmware.step (fun _ _ => true) Firmware.init
      (lightEnds ++ .receive (some stopMessage) :: mains 2) = some s ∧
        ((s.step (.restart 0)).map fun t => (s.restart 0, t.restart 0)) = some (.test, .returned) :=
    Option.bind_eq_some_iff.mp (by decide +kernel)
  obtain ⟨t, ht, hobs⟩ := Option.map_eq_some_iff.mp hrest
  obtain ⟨htest, hreturned⟩ := Prod.mk.inj hobs
  obtain ⟨l, hl, -⟩ := path_of_run hs
  have hd := h _ t (hl.snoc ht) (s, .restart 0, t) (by simp)
  have hexit := hd.restart 0 (by rw [hreturned]; rfl)
  rw [htest] at hexit
  rcases hexit with hexit | hdelete
  · cases hexit
  · cases hdelete

end Car
