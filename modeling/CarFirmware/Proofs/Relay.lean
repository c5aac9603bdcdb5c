import CarFirmware.Proofs.Baton

/-! The baton is passed on. Every step that meets the three conditions keeps `Relay`;
each section below treats one of its parts. -/

namespace Car

open Handshake Transition

namespace Firmware

variable {s s' : Firmware} {a : FwAct} {k : ℕ}

/-! ### The flag -/

theorem MainStep.starts_succ (hm : MainStep s s') {k : ℕ} (hs : s'.Starts (k + 1)) :
    s.Starts (k + 1) := by
  simp only [Starts, hm.restart_eq] at hs
  exact hs.imp id (hm.begins.open_of_ne (by simp)).mp

theorem Relay.starts_main (h : Relay s) (hready : s.ready 0 = true) (hclear : StopClear s .main)
    (hm : MainStep s s') (c : ℕ) (hs : s'.Starts c) : s'.sys.hw.runCmdsIsRun = true := by
  cases c with
  | zero =>
    have hstart : s.main.starting = true ∨ s'.sys.hw.runCmdsIsRun = true := by
      rcases hs with hstart | ⟨hidle, hopen⟩
      · exact hm.starting hstart
      · exact .inl (hm.idle_open hready hopen hidle)
    rcases hstart with hstart | hflag
    · have hon := h.starts 0 (.inl hstart)
      rcases hm.flag with hsame | ⟨-, -, hon'⟩ | ⟨r, hmain, -⟩
      · rw [hsame, hon]
      · exact hon'
      · rw [hmain] at hstart
        cases hstart
    · exact hflag
  | succ k =>
    have hs := hm.starts_succ hs
    rcases hm.flag with hsame | ⟨-, -, hon⟩ | ⟨r, hmain, -⟩
    · rw [hsame, h.starts _ hs]
    · exact hon
    · exact absurd hs (hclear rfl r hmain k)

theorem Relay.starts_restart (h : Relay s) (hready : s.ready (k + 1) = true)
    (hk : k < s.sys.hw.restarts) (hr : RestartStep s k s') (c : ℕ) (hs : s'.Starts c) :
    s'.sys.hw.runCmdsIsRun = true := by
  by_cases hc : c = k + 1
  · subst hc
    have hstart := hr.starts hready hs
    rcases hr.flag with hsame | ⟨hclear, -, -⟩
    · rcases hstart with hrun | ⟨-, hflag⟩
      · rw [hsame, h.starts (k + 1) (Or.inl hrun)]
      · rw [hsame, hflag]
    · simp [hclear, RestartPc.inRun] at hstart
  · have hs := hr.starts_of_ne hc hs
    rcases hr.flag with hsame | ⟨hclear, -, -⟩
    · rw [hsame, h.starts c hs]
    · -- the task that clears the flag holds the only baton
      have hholds : s.Holds (.restart k) := ⟨hk, .inl (by rw [hclear]; rfl)⟩
      cases c with
      | zero => cases h.one _ _ (holds_main hs) hholds
      | succ j =>
        cases h.one _ _ (h.parked.holds_restart hs) hholds
        exact absurd rfl hc

theorem Relay.starts_sys (h : Relay s) (hmain : s'.main = s.main)
    (hrestart : s'.restart = s.restart)
    (hopen : ∀ w c, s'.sys.Open w c → s.sys.Open w c)
    (hflag : s'.sys.hw.runCmdsIsRun = s.sys.hw.runCmdsIsRun) (c : ℕ) (hs : s'.Starts c) :
    s'.sys.hw.runCmdsIsRun = true := by
  rw [hflag]
  apply h.starts c
  cases c with
  | zero =>
    simp only [Starts, hmain] at hs
    exact hs.imp id (And.imp id (hopen _ _))
  | succ j =>
    simp only [Starts, hrestart] at hs
    exact hs.imp id (hopen _ _)

/-! ### The baton -/

theorem OneBaton.keep (h : OneBaton s) (hk : ∀ t, s'.Holds t → s.Holds t) : OneBaton s' :=
  fun t t' ht ht' => h t t' (hk t ht) (hk t' ht')

theorem OneBaton.pass {t₀ : Token} (t₁ : Token) (h : OneBaton s) (h₀ : s.Holds t₀)
    (hk : ∀ t, s'.Holds t → t = t₁ ∨ (s.Holds t ∧ t ≠ t₀)) : OneBaton s' := by
  have hall (t : Token) (ht : s'.Holds t) : t = t₁ :=
    (hk t ht).resolve_right fun ⟨hs, hne⟩ => hne (h t t₀ hs h₀)
  exact fun t t' ht ht' => (hall t ht).trans (hall t' ht').symm

theorem OneBaton.pick (t₁ : Token) (h : ∀ t, ¬ s.Holds t)
    (hk : ∀ t, s'.Holds t → t = t₁ ∨ s.Holds t) : OneBaton s' := by
  have hall (t : Token) (ht : s'.Holds t) : t = t₁ := (hk t ht).resolve_right (h t)
  exact fun t t' ht ht' => (hall t ht).trans (hall t' ht').symm

/-- When a `C_CMDS` is accepted, nobody holds the baton. -/
theorem Relay.none_holds {r : Root} (h : Relay s) (hclear : AcceptClear s .main)
    (hmain : s.main = .cCmds r) (hflag : s.sys.hw.runCmdsIsRun = false) (t : Token) :
    ¬ s.Holds t := by
  intro ht
  obtain ⟨hpending, hcallback⟩ := hclear ⟨rfl, ⟨r, hmain⟩, hflag⟩
  cases t with
  | main => simp [Holds, hmain, MainPc.inRun] at ht
  | restart k =>
    rcases ht with ⟨hk, hrun | hopen⟩
    · rw [hpending k hk] at hrun
      cases hrun
    · have := h.starts (k + 1) (Or.inr hopen)
      rw [hflag] at this
      cases this
  | light i =>
    rcases LedPc.active_of_baton ht with hactive | hcb
    · have := h.light i hactive
      simp [hflag, hmain, MainPc.inStop] at this
    · rw [hcallback i] at hcb
      cases hcb

theorem Relay.one_main (h : Relay s) (hready : s.ready 0 = true) (hclear : AcceptClear s .main)
    (hm : MainStep s s') : OneBaton s' := by
  -- apart from the message thread, everybody keeps what he holds
  have hothers (t : Token) (ht : s'.Holds t) (hne : t ≠ .main) : s.Holds t := by
    cases t with
    | main => exact absurd rfl hne
    | restart k =>
      simp only [Holds, hm.restart_eq, hm.restarts_eq] at ht
      exact ht.imp id (Or.imp id (hm.begins.open_of_ne (by simp)).mp)
    | light i =>
      simp only [Holds, hm.begins.pc .light] at ht
      exact ht
  have hmain (ht : s'.Holds .main) : s.main.inRun = true ∨
      ∃ r, s.main = .cCmds r ∧ s.sys.hw.runCmdsIsRun = false ∧ s' = s.goMain (.delete r) := by
    rcases ht with hrun | ⟨hidle, hopen⟩
    · exact hm.inRun hrun
    · exact .inl (MainPc.inRun_of_starting (hm.idle_open hready hopen hidle))
  by_cases haccept : ∃ r, s.main = .cCmds r ∧ s.sys.hw.runCmdsIsRun = false ∧
      s' = s.goMain (.delete r)
  · obtain ⟨r, hcmds, hflag, -⟩ := haccept
    apply OneBaton.pick .main (h.none_holds hclear hcmds hflag)
    intro t ht
    by_cases hne : t = .main
    · exact .inl hne
    · exact .inr (hothers t ht hne)
  · apply h.one.keep
    intro t ht
    by_cases hne : t = .main
    · subst hne
      exact Or.inl ((hmain ht).resolve_right haccept)
    · exact hothers t ht hne

theorem Relay.one_restart (h : Relay s) (hready : s.ready (k + 1) = true)
    (hk : k < s.sys.hw.restarts) (hr : RestartStep s k s') : OneBaton s' := by
  apply h.one.keep
  intro t ht
  cases t with
  | main =>
    simp only [Holds, hr.main_eq] at ht
    exact ht.imp id (And.imp id (hr.begins.open_of_ne (by simp)).mp)
  | restart j =>
    by_cases hj : j = k
    · subst hj
      exact ⟨hk, .inl (hr.pending hready ht.2)⟩
    · simp only [Holds, hr.restart_of_ne hj, hr.restarts_eq] at ht
      exact ht.imp id (Or.imp id (hr.begins.open_of_ne (by simpa using hj)).mp)
  | light i =>
    simp only [Holds, hr.begins.pc .light] at ht
    exact ht

/-- A call on the light player is left only by creating the next instance, which takes the
baton, or by a stop. -/
theorem Relay.one_call {w : Worker} {c : ℕ} {t : State w.Args w.Pc} (h : Relay s)
    (hc : State.CallStep w.body.proto w.body.fresh s.sys.hw.now (s.sys.task w) c t) :
    OneBaton { s with sys := s.sys.put w s.sys.hw t } := by
  have hsys (x : Token) (hx : Holds { s with sys := s.sys.put w s.sys.hw t } x)
      (hl : ∀ i, x = .light i → s.Holds x) : s.Holds x := by
    cases x with
    | main => exact hx.imp id (And.imp id (System.open_call hc))
    | restart k => exact And.imp id (Or.imp id (System.open_call hc)) hx
    | light i => exact hl i rfl
  by_cases hw : w = .light
  case neg =>
    refine h.one.keep fun x hx => hsys x hx ?_
    rintro i rfl
    simpa only [Holds, System.put_task_of_ne (Ne.symm hw)] using hx
  subst hw
  rcases hc.pc with hpc | ⟨hcreate, hidle, hpc⟩
  · refine h.one.keep fun x hx => hsys x hx ?_
    rintro i rfl
    simpa only [Holds, System.put_task_self, hpc] using hx
  have hopen : s.sys.Open .light c := by
    rw [System.Open, hcreate]
    simp
  have hclosed : ¬ (s.sys.put .light s.sys.hw t).Open .light c := by
    rw [System.Open, System.put_task_self]
    simp [hidle]
  have hlight (i : ℕ) (hi : i ≠ (s.sys.task .light).created)
      (hx : Holds { s with sys := s.sys.put .light s.sys.hw t } (.light i)) :
      s.Holds (.light i) := by
    simpa only [Holds, System.put_task_self, hpc, Function.update_of_ne hi] using hx
  have hkeep (t₀ : Token) (hgone : ¬ Holds { s with sys := s.sys.put .light s.sys.hw t } t₀)
      (x : Token) (hx : Holds { s with sys := s.sys.put .light s.sys.hw t } x) :
      x = .light (s.sys.task .light).created ∨ (s.Holds x ∧ x ≠ t₀) := by
    by_cases hnew : x = .light (s.sys.task .light).created
    · exact .inl hnew
    · refine .inr ⟨hsys x hx ?_, by rintro rfl; exact hgone hx⟩
      rintro i rfl
      exact hlight i (by simpa using hnew) hx
  cases c with
  | zero =>
    rcases MainPc.of_waits_light (h.parked.waits _ _ hopen) with hmain | hstop
    · have h₀ : s.Holds .main := .inr ⟨hmain, hopen⟩
      exact h.one.pass _ h₀ (hkeep .main (by simp [Holds, hmain, MainPc.inRun, hclosed]))
    · have := h.stopCalls hstop .light
      rw [hcreate] at this
      cases this
  | succ k =>
    have h₀ := h.parked.holds_restart (.inr hopen)
    refine h.one.pass _ h₀ (hkeep (.restart k) ?_)
    simp [Holds, h.parked.restart_of_open hopen, RestartPc.pending, hclosed]

theorem ledRunCmdsTask_baton {run : Bool} {args : Option Str} {pc pc' : LedPc} {hw hw' : Hw}
    {eff : Effect} (h : ledRunCmdsTask run args pc hw = some (pc', eff, hw'))
    (hb : pc'.baton = true) : pc.baton = true := by
  unfold ledRunCmdsTask at h
  repeat' split at h
  all_goals cases h
  all_goals first | rfl | cases hb

theorem Relay.one_task {w : Worker} {e : w.Env} {i : ℕ} {pc : w.Pc} {eff : Effect} {hw : Hw}
    (h : Relay s)
    (ht : w.body.task e i (s.sys.task w).taskRun (s.sys.task w).args ((s.sys.task w).pc i)
      s.sys.hw = some (pc, eff, hw)) :
    OneBaton { s with sys := s.sys.put w hw ((s.sys.task w).move w.body.proto i pc eff) } := by
  have hmain (hx : Holds { s with
      sys := s.sys.put w hw ((s.sys.task w).move w.body.proto i pc eff) } .main) : s.Holds .main :=
    hx.imp id (And.imp id System.open_move.mp)
  have hrestart (k : ℕ) (hk : k < s.sys.hw.restarts) (hx : Holds { s with
      sys := s.sys.put w hw ((s.sys.task w).move w.body.proto i pc eff) } (.restart k)) :
      s.Holds (.restart k) :=
    ⟨hk, hx.2.imp id System.open_move.mp⟩
  by_cases hw : w = .light
  case neg =>
    have hsame := (task_frame ht).2.2.1 hw
    apply h.one.keep
    intro x hx
    cases x with
    | main => exact hmain hx
    | restart k => exact hrestart k (hsame ▸ hx.1) hx
    | light j => simpa only [Holds, System.put_task_of_ne (Ne.symm hw)] using hx
  subst hw
  have hlight (j : ℕ) (hx : Holds { s with
      sys := s.sys.put .light hw ((s.sys.task .light).move lightBody.proto i pc eff) } (.light j)) :
      s.Holds (.light j) := by
    simp only [Holds, System.put_task_self, State.move_pc] at hx
    split_ifs at hx with hj
    · subst hj
      exact ledRunCmdsTask_baton ht hx
    · exact hx
  rcases ledRunCmdsTask_frame ht with ⟨-, -, hsame | ⟨hpc, hpc', hnew⟩⟩
  · apply h.one.keep
    intro x hx
    cases x with
    | main => exact hmain hx
    | restart k => exact hrestart k (hsame ▸ hx.1) hx
    | light j => exact hlight j hx
  · -- the callback creates the `run_cmds_task` that takes the baton
    have h₀ : s.Holds (.light i) := by
      change LedPc.baton _ = true
      rw [hpc]
      rfl
    apply h.one.pass (.restart s.sys.hw.restarts) h₀
    intro x hx
    cases x with
    | main => exact .inr ⟨hmain hx, by simp⟩
    | restart k =>
      by_cases hk : k = s.sys.hw.restarts
      · exact .inl (by rw [hk])
      · have hlt : k < hw.restarts := hx.1
        exact .inr ⟨hrestart k (by omega) hx, by simp⟩
    | light j =>
      refine .inr ⟨hlight j hx, ?_⟩
      rintro heq
      cases heq
      simp only [Holds, System.put_task_self, State.move_pc, if_pos] at hx
      rw [hpc'] at hx
      cases hx

/-! ### The stops -/

/-- The flag is not set while the message thread is in the branch for `C_STOP`. -/
theorem MainStep.flag_of_inStop (hm : MainStep s s')
    (h : s.main.inStop = true → s.sys.hw.runCmdsIsRun = false) (hstop : s'.main.inStop = true) :
    s'.sys.hw.runCmdsIsRun = false := by
  rcases hm.inStop hstop with hstop | hoff
  · have hoff := h hstop
    rcases hm.flag with hsame | ⟨hmain, -, -⟩ | ⟨r, -, -, hoff'⟩
    · rw [hsame, hoff]
    · rw [hmain] at hstop
      cases hstop
    · exact hoff'
  · exact hoff

theorem enter_isStop {v : Worker} (hready : s.ready 0 = true) (w : Worker) :
    (((s.sys.enter v 0 none).task w).call 0).isStop = true := by
  by_cases hw : w = v
  · subst hw
    rw [System.enter, System.put_task_self, State.goto_call, if_pos rfl]
    exact entry_isStop _
  · rw [System.enter, System.put_task_of_ne hw, ready_iff.mp hready w]
    rfl

/-- For a `C_STOP` the message thread begins stops only. -/
theorem MainStep.stopCalls (hm : MainStep s s') (hready : s.ready 0 = true)
    (hstop : s'.main.inStop = true) (w : Worker) : ((s'.sys.task w).call 0).isStop = true := by
  have hidle : ((s.sys.task w).call 0).isStop = true := by
    rw [ready_iff.mp hready w]
    rfl
  cases hm
  case motorStop => exact enter_isStop hready w
  case ledStop => exact enter_isStop hready w
  case notesStop => exact enter_isStop hready w
  case play | notesRun | motorRun | ledRun => cases hstop
  all_goals exact hidle

theorem Skip.of_inStop {pc pc' : MainPc} (h : Skip s pc pc') (hstop : pc.inStop = true) :
    ∃ r, pc = .stopped r := by
  cases h
  case stopped r => exact ⟨r, rfl⟩
  all_goals cases hstop

theorem MainStep.stops {w : Worker} (hm : MainStep s s') (hstop : s'.main.stops w = true) :
    s.main.stops w = true ∨ s'.sys.Open w 0 := by
  have hopen (v : Worker) : (s.sys.enter v 0 none).Open v 0 := by
    rw [System.Open, System.enter, System.put_task_self, State.goto_call, if_pos rfl]
    exact Proto.entry_ne_idle _ _
  cases hm
  case skip pc hs =>
    have hin : pc.inStop = true := MainPc.inStop_of_stops hstop
    rw [hs.plain.2.1] at hin
    cases hin
  case abort => exact .inl hstop
  case motorStop hmain => cases w <;> first | exact .inr (hopen _) | cases hstop
  case ledStop hmain =>
    rw [hmain]
    cases w <;> first | exact .inl rfl | exact .inr (hopen _) | cases hstop
  case notesStop hmain =>
    rw [hmain]
    cases w <;> first | exact .inl rfl | exact .inr (hopen _) | cases hstop
  case item x r hmain => cases x <;> cases w <;> cases hstop
  all_goals cases hstop

theorem MainStep.keeps_stop (hm : MainStep s s') (hstop : s.main.inStop = true) :
    s'.main.inStop = true ∨ ∃ r, s.main = .stopped r := by
  cases hm
  case skip hs => exact .inr (hs.of_inStop hstop)
  case abort => exact .inl hstop
  all_goals first | exact .inl rfl | simp_all [MainPc.inStop]

theorem Relay.stopCalls_call {v : Worker} {c : ℕ} {t : State v.Args v.Pc} (h : Relay s)
    (hc : State.CallStep v.body.proto v.body.fresh s.sys.hw.now (s.sys.task v) c t)
    (hstop : s.main.inStop = true) (w : Worker) :
    (((s.sys.put v s.sys.hw t).task w).call 0).isStop = true := by
  by_cases hw : w = v
  · subst hw
    rw [System.put_task_self]
    by_cases hc0 : c = 0
    · subst hc0
      exact (isStop_of_callStep (h.stopCalls hstop w) hc).1
    · rw [hc.call_of_ne (Ne.symm hc0)]
      exact h.stopCalls hstop w
  · rw [System.put_task_of_ne hw]
    exact h.stopCalls hstop w

/-- Once the stop of a track has returned, no instance of it runs. -/
theorem Relay.stopped_main (h : Relay s) (hm : MainStep s s') {w : Worker}
    (hw : w.isTrack = true) (hready : s.ready 0 = true) (hstop : s'.main.stops w = true)
    (hopen : ¬ s'.sys.Open w 0) (i : ℕ) : w.body.phase ((s'.sys.task w).pc i) ≠ .active := by
  rw [hm.begins.pc]
  exact h.stopped w hw ((hm.stops hstop).resolve_right hopen) (not_open_of_ready hready w) i

theorem Relay.stopped_call {v w : Worker} {c : ℕ} {t : State v.Args v.Pc} (h : Relay s)
    (hc : State.CallStep v.body.proto v.body.fresh s.sys.hw.now (s.sys.task v) c t)
    (hw : w.isTrack = true) (hstop : s.main.stops w = true)
    (hopen : ¬ (s.sys.put v s.sys.hw t).Open w 0) (i : ℕ) :
    w.body.phase (((s.sys.put v s.sys.hw t).task w).pc i) ≠ .active := by
  have hin := MainPc.inStop_of_stops hstop
  by_cases hv : w = v
  · subst hv
    -- nobody but the message thread is in a call on a track now
    obtain rfl : c = 0 := h.drives_unique
      (h.parked.drives_of_open hw (System.open_of_callStep hc)) (.inr ⟨rfl, .inr hin⟩)
    rw [System.Open, System.put_task_self, not_not] at hopen
    rw [System.put_task_self]
    exact (h.settled w hw).stopped (h.stopCalls hin w) hc hopen i
  · rw [System.Open, System.put_task_of_ne hv] at hopen
    rw [System.put_task_of_ne hv]
    exact h.stopped w hw hstop hopen i

/-! ### The light track runs under the flag -/

/-- Only the end of the branch for `C_STOP` leaves the tracks unwatched. -/
theorem MainStep.watched (hm : MainStep s s')
    (h : s.sys.hw.runCmdsIsRun = true ∨ s.main.inStop = true) :
    (s'.sys.hw.runCmdsIsRun = true ∨ s'.main.inStop = true) ∨ ∃ r, s.main = .stopped r := by
  rcases h with hflag | hstop
  · rcases hm.flag with hsame | ⟨-, -, hon⟩ | ⟨r, -, hmain, -⟩
    · exact .inl (.inl (hsame.trans hflag))
    · exact .inl (.inl hon)
    · exact .inl (.inr (by rw [hmain]; rfl))
  · exact (hm.keeps_stop hstop).imp .inr id

theorem Relay.not_active_of_stopped {w : Worker} {r : Root} (h : Relay s)
    (hready : s.ready 0 = true) (hw : w.isTrack = true) (hr : s.main = .stopped r) (i : ℕ) :
    w.body.phase ((s.sys.task w).pc i) ≠ .active := by
  refine h.stopped w hw ?_ (not_open_of_ready hready w) i
  rw [hr]
  cases w <;> first | rfl | cases hw

theorem Relay.light_main (h : Relay s) (hready : s.ready 0 = true) (hm : MainStep s s') (i : ℕ)
    (hi : ((s'.sys.task .light).pc i).phase = .active) :
    s'.sys.hw.runCmdsIsRun = true ∨ s'.main.inStop = true := by
  rw [hm.begins.pc .light] at hi
  apply (hm.watched (h.light i hi)).resolve_right
  rintro ⟨r, hr⟩
  exact h.not_active_of_stopped (w := .light) hready rfl hr i hi

theorem Relay.light_restart (h : Relay s) (hk : k < s.sys.hw.restarts) (hr : RestartStep s k s')
    (i : ℕ) (hi : ((s'.sys.task .light).pc i).phase = .active) :
    s'.sys.hw.runCmdsIsRun = true ∨ s'.main.inStop = true := by
  rw [hr.begins.pc .light] at hi
  rw [hr.main_eq]
  rcases hr.flag with hsame | ⟨hclear, -, -, -⟩
  · rw [hsame]
    exact h.light i hi
  · -- the task that clears the flag has taken the baton from every light instance
    have hholds : s.Holds (.restart k) := ⟨hk, .inl (by rw [hclear]; rfl)⟩
    have hlight : s.Holds (.light i) := LedPc.baton_of_active hi
    cases h.one _ _ hlight hholds

/-- A light instance is created for somebody who starts the tracks. -/
theorem Relay.light_call {v : Worker} {c : ℕ} {t : State v.Args v.Pc} (h : Relay s)
    (hc : State.CallStep v.body.proto v.body.fresh s.sys.hw.now (s.sys.task v) c t) (i : ℕ)
    (hi : (((s.sys.put v s.sys.hw t).task .light).pc i).phase = .active) :
    s.sys.hw.runCmdsIsRun = true ∨ s.main.inStop = true := by
  by_cases hv : Worker.light = v
  case neg =>
    rw [System.put_task_of_ne hv] at hi
    exact h.light i hi
  subst hv
  rw [System.put_task_self] at hi
  rcases hc.pc with hpc | ⟨-, -, -⟩
  · rw [hpc] at hi
    exact h.light i hi
  · exact h.watched_of_open (w := .light) rfl (System.open_of_callStep hc)

theorem active_of_move {w : Worker} {i : ℕ} {pc : w.Pc} {eff : Effect} {run : Bool} {v : Worker}
    {hw : Hw} {s : System} {j : ℕ}
    (hl : Lawful run (w.body.phase ((s.task w).pc i)) eff (w.body.phase pc))
    (hj : v.body.phase (((s.put w hw ((s.task w).move w.body.proto i pc eff)).task v).pc j) =
      .active) : v.body.phase ((s.task v).pc j) = .active := by
  by_cases hv : v = w
  · subst hv
    rw [System.put_task_self, State.move_pc] at hj
    split_ifs at hj with hji
    · subst hji
      exact hl.of_active hj
    · exact hj
  · rwa [System.put_task_of_ne hv] at hj

/-! ### The calls on the tracks do not overlap -/

theorem Relay.settled_begins {c : ℕ} (h : Relay s) (hready : s.ready c = true)
    (hb : System.Begins c s.sys s'.sys) {w : Worker} (hw : w.isTrack = true)
    (hd : s'.sys.task w = s.sys.task w ∨ s.Drives c) :
    Settled w.body.proto w.body.phase (s'.sys.task w) := by
  rcases hb w with heq | ⟨k, heq⟩
  · rw [heq]
    exact h.settled w hw
  · rcases hd with hsame | hdrives
    · rw [hsame]
      exact h.settled w hw
    · rw [heq]
      exact (h.settled w hw).begin (Worker.guarded_of_isTrack hw) (h.idle hw hdrives hready)

theorem Relay.settled_call {v w : Worker} {c : ℕ} {t : State v.Args v.Pc} (h : Relay s)
    (hstops : StopsInTime s (.call v c))
    (hc : State.CallStep v.body.proto v.body.fresh s.sys.hw.now (s.sys.task v) c t)
    (hw : w.isTrack = true) :
    Settled w.body.proto w.body.phase ((s.sys.put v s.sys.hw t).task w) := by
  by_cases hv : w = v
  · subst hv
    rw [System.put_task_self]
    obtain ⟨hx, hp⟩ := hstops w c rfl hw
    exact (h.settled w hw).callStep hx hp hc
  · rw [System.put_task_of_ne hv]
    exact h.settled w hw

theorem Relay.settled_task {v w : Worker} {i : ℕ} {pc : v.Pc} {eff : Effect} {hw' : Hw}
    (h : Relay s)
    (hl : Lawful (s.sys.task v).taskRun (v.body.phase ((s.sys.task v).pc i)) eff
      (v.body.phase pc)) (hw : w.isTrack = true) :
    Settled w.body.proto w.body.phase
      ((s.sys.put v hw' ((s.sys.task v).move v.body.proto i pc eff)).task w) := by
  by_cases hv : w = v
  · subst hv
    rw [System.put_task_self]
    exact (h.settled w hw).inst hl
  · rw [System.put_task_of_ne hv]
    exact h.settled w hw

/-! ### Every step -/

/-- The conditions on a run of the firmware. -/
def Guarded (s : Firmware) (a : FwAct) : Prop :=
  StopClear s a ∧ AcceptClear s a ∧ StopsInTime s a

theorem Relay.init : Relay Firmware.init where
  numbered _ := .init _ _
  parked := ⟨fun _ _ hopen => absurd rfl hopen, fun _ _ => rfl⟩
  one t t' ht := by
    cases t with
    | main => simp [Holds, Firmware.init, MainPc.inRun, System.Open, System.init, State.init] at ht
    | restart k => exact absurd ht.1 (Nat.not_lt_zero k)
    | light i => cases ht
  starts c hc := by
    cases c <;>
      simp [Starts, Firmware.init, MainPc.starting, RestartPc.inRun, System.Open, System.init,
        State.init] at hc
  stopFlag hstop := by cases hstop
  stopCalls hstop := by cases hstop
  stopped w _ hstop := by cases w <;> cases hstop
  light i hi := by cases hi
  settled w _ := .init _ w.body.absent_phase

theorem Relay.parse {r : Root} {n : ℕ} (h : Relay s) (hidle : s.main = .idle)
    (hready : s.ready 0 = true) : Relay { s with main := .type r, parsed := n } where
  numbered := h.numbered
  parked := h.parked.main hready rfl (fun _ _ hc => .inl hc) rfl
  one := h.one.keep fun t ht => by
    cases t with
    | main => obtain hrun | ⟨hmain, -⟩ := ht <;> [cases hrun; cases hmain]
    | restart k => exact ht
    | light i => exact ht
  starts c hs := by
    cases c with
    | zero => obtain hrun | ⟨hmain, -⟩ := hs <;> [cases hrun; cases hmain]
    | succ k => exact h.starts (k + 1) hs
  stopFlag hstop := by cases hstop
  stopCalls hstop := by cases hstop
  stopped w _ hstop := by cases w <;> cases hstop
  light i hi := by
    have := h.light i hi
    simp only [hidle, MainPc.inStop] at this
    exact .inl (this.resolve_right (by decide))
  settled := h.settled

theorem Relay.mainStep (h : Relay s) (hok : Guarded s .main) (hready : s.ready 0 = true)
    (hm : MainStep s s') : Relay s' where
  numbered := hm.begins.numbered h.numbered
  parked := h.parked.mainStep hready hm
  one := h.one_main hready hok.2.1 hm
  starts := h.starts_main hready hok.1 hm
  stopFlag := hm.flag_of_inStop h.stopFlag
  stopCalls := hm.stopCalls hready
  stopped _ hw := h.stopped_main hm hw hready
  light := h.light_main hready hm
  settled _ hw := h.settled_begins hready hm.begins hw <| (hm.drives hw).imp id fun hd =>
    .inr ⟨rfl, hd.imp id And.left⟩

theorem Relay.restartStep (h : Relay s) (hready : s.ready (k + 1) = true)
    (hk : k < s.sys.hw.restarts) (hr : RestartStep s k s') : Relay s' where
  numbered := hr.begins.numbered h.numbered
  parked := h.parked.restartStep hready hk hr
  one := h.one_restart hready hk hr
  starts := h.starts_restart hready hk hr
  stopFlag hstop := by
    rw [hr.main_eq] at hstop
    rcases hr.flag with hsame | ⟨-, hoff, -⟩
    · rw [hsame, h.stopFlag hstop]
    · exact hoff
  stopCalls hstop w := by
    rw [hr.main_eq] at hstop
    rw [hr.begins.call_of_ne (by simp)]
    exact h.stopCalls hstop w
  stopped w hw hstop hopen := by
    rw [hr.main_eq] at hstop
    rw [hr.begins.open_of_ne (by simp)] at hopen
    rw [hr.begins.pc]
    exact h.stopped w hw hstop hopen
  light := h.light_restart hk hr
  settled w hw := h.settled_begins hready hr.begins hw <| hr.drives.imp (congrFun · w) fun hd =>
    .inl (.inl hd)

theorem Relay.call {v : Worker} {c : ℕ} {t : State v.Args v.Pc} (h : Relay s)
    (hok : Guarded s (.call v c))
    (hc : State.CallStep v.body.proto v.body.fresh s.sys.hw.now (s.sys.task v) c t) :
    Relay { s with sys := s.sys.put v s.sys.hw t } where
  numbered := h.numbered.callStep hc
  parked := h.parked.sys rfl rfl (fun _ _ => System.open_call hc) le_rfl
  one := h.one_call hc
  starts := h.starts_sys rfl rfl (fun _ _ => System.open_call hc) rfl
  stopFlag := h.stopFlag
  stopCalls := h.stopCalls_call hc
  stopped _ hw := h.stopped_call hc hw
  light := h.light_call hc
  settled _ := h.settled_call hok.2.2 hc

theorem Relay.task {w : Worker} {e : w.Env} {i : ℕ} {pc : w.Pc} {eff : Effect} {hw : Hw}
    (h : Relay s)
    (ht : w.body.task e i (s.sys.task w).taskRun (s.sys.task w).args ((s.sys.task w).pc i)
      s.sys.hw = some (pc, eff, hw))
    (hl : Lawful (s.sys.task w).taskRun (w.body.phase ((s.sys.task w).pc i)) eff
      (w.body.phase pc)) :
    Relay { s with sys := s.sys.put w hw ((s.sys.task w).move w.body.proto i pc eff) } := by
  obtain ⟨hflag, hle, -⟩ := task_frame ht
  exact {
    numbered := h.numbered.move hl
    parked := h.parked.sys rfl rfl (fun _ _ => System.open_move.mp) hle
    one := h.one_task ht
    starts := h.starts_sys rfl rfl (fun _ _ => System.open_move.mp) hflag
    stopFlag := fun hstop => hflag.trans (h.stopFlag hstop)
    stopCalls := fun hstop v => by
      rw [System.call_move]
      exact h.stopCalls hstop v
    stopped := fun v hv hstop hopen j hj =>
      h.stopped v hv hstop (mt System.open_move.mpr hopen) j (active_of_move hl hj)
    light := fun j hj => by
      rw [System.put_hw, hflag]
      exact h.light j (active_of_move (v := .light) hl hj)
    settled := fun v => h.settled_task hl }

theorem Relay.step (h : Relay s) (hok : Guarded s a) (hs : Step s a s') : Relay s' := by
  cases hs with
  | ignore => exact h
  | parse hidle hready => exact h.parse hidle hready
  | main hready hm => exact h.mainStep hok hready hm
  | restart hk hready hr => exact h.restartStep hready hk hr
  | tick =>
    exact ⟨h.numbered, h.parked.sys rfl rfl (fun _ _ hc => hc) le_rfl, h.one, h.starts, h.stopFlag,
      h.stopCalls, h.stopped, h.light, h.settled⟩
  | call hc => exact h.call hok hc
  | task ht hl => exact h.task ht hl

end Firmware

end Car
