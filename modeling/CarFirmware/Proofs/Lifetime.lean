import CarFirmware.Proofs.Documents

/-! Why nobody reads a deleted document. `Covered` says that the tracks read only while
`run_cmds_is_run` is set or a `C_STOP` is waiting for them; `Fed` says that all they can
read belongs to `run_cmds_root`. -/

namespace Car

open Handshake Transition

namespace Firmware

variable {s s' : Firmware} {a : FwAct} {k : ℕ}

/-- A `run_cmds_task` clears the flag only after the note and motor tracks have ended. -/
def EndsLast (s : Firmware) (a : FwAct) : Prop :=
  ∀ k, a = .restart k → s.restart k = .clear → ∀ w : Worker, w ≠ .light →
    ∀ i, w.playing ((s.sys.task w).pc i) = false

/-! ### The tracks are covered by the flag -/

structure Covered (s : Firmware) : Prop where
  early : s.main.early = true → s.sys.hw.runCmdsIsRun = false
  playing : ∀ (w : Worker) (i : ℕ), w.playing ((s.sys.task w).pc i) = true →
    s.sys.hw.runCmdsIsRun = true ∨ s.main.inStop = true

theorem Covered.mainStep (h : Covered s) (hr : Relay s) (hready : s.ready 0 = true)
    (hm : MainStep s s') : Covered s' := by
  refine ⟨?_, ?_⟩
  · exact hm.flag_of_early h.early
  · intro w i hp
    rw [hm.begins.pc] at hp
    apply (hm.watched (h.playing w i hp)).resolve_right
    rintro ⟨r, hstopped⟩
    exact hr.not_active_of_stopped hready (Worker.isTrack_of_playing hp) hstopped i
      (Worker.active_of_playing hp)

theorem Covered.restartStep (h : Covered s) (hr : Relay s) (hk : k < s.sys.hw.restarts)
    (hlast : EndsLast s (.restart k)) (hs : RestartStep s k s') : Covered s' := by
  refine ⟨?_, ?_⟩
  · intro he
    rw [hs.main_eq] at he
    exact hs.flag_off (h.early he)
  · intro w i hp
    by_cases hw : w = .light
    · subst hw
      exact hr.light_restart hk hs i (Worker.active_of_playing hp)
    rw [hs.begins.pc] at hp
    rcases hs.flag with hsame | ⟨hclear, -, -⟩
    · rw [hsame, hs.main_eq]
      exact h.playing w i hp
    · rw [hlast k rfl hclear w hw i] at hp
      cases hp

theorem Covered.call {v : Worker} {c : ℕ} {t : State v.Args v.Pc} (h : Covered s) (hr : Relay s)
    (hc : State.CallStep v.body.proto v.body.fresh s.sys.hw.now (s.sys.task v) c t) :
    Covered { s with sys := s.sys.put v s.sys.hw t } := by
  refine ⟨h.early, fun w i hp => ?_⟩
  by_cases hw : w = v
  case neg =>
    rw [System.put_task_of_ne hw] at hp
    exact h.playing w i hp
  subst hw
  rcases hc.pc with hpc | ⟨-, -, -⟩
  · rw [System.put_task_self, hpc] at hp
    exact h.playing w i hp
  · exact hr.watched_of_open (Worker.isTrack_of_playing hp) (System.open_of_callStep hc)

theorem Covered.task {w : Worker} {e : w.Env} {i : ℕ} {pc : w.Pc} {eff : Effect} {hw : Hw}
    (h : Covered s)
    (ht : w.body.task e i (s.sys.task w).taskRun (s.sys.task w).args ((s.sys.task w).pc i)
      s.sys.hw = some (pc, eff, hw)) :
    Covered { s with sys := s.sys.put w hw ((s.sys.task w).move w.body.proto i pc eff) } := by
  have hflag := (task_frame ht).1
  refine ⟨fun he => hflag.trans (h.early he), fun v j hp => ?_⟩
  rw [System.put_hw, hflag]
  apply h.playing v j
  by_cases hv : v = w
  · subst hv
    rw [System.put_task_self, State.move_pc] at hp
    split_ifs at hp with hj
    · subst hj
      exact Worker.task_playing ht hp
    · exact hp
  · rwa [System.put_task_of_ne hv] at hp

theorem Covered.init : Covered Firmware.init :=
  ⟨fun he => (by cases he), fun w _ hp => (by cases w <;> cases hp)⟩

theorem Covered.step (h : Covered s) (hr : Relay s) (hlast : EndsLast s a) (hs : Step s a s') :
    Covered s' := by
  cases hs with
  | ignore => exact h
  | parse hidle hready =>
    refine ⟨fun he => (by cases he), fun w i hp => ?_⟩
    have hwatched := h.playing w i hp
    rw [hidle] at hwatched
    exact .inl (hwatched.resolve_right (by decide))
  | main hready hm => exact h.mainStep hr hready hm
  | restart hk _ hs => exact h.restartStep hr hk hlast hs
  | tick => exact ⟨h.early, h.playing⟩
  | call hc => exact h.call hr hc
  | task ht _ => exact h.task ht

/-- While `run_cmds` is exchanging the documents, nobody uses a track. -/
theorem Covered.unused (h : Covered s) (hr : Relay s) (he : s.main.early = true) (w : Worker) :
    w.Unused (s.sys.task w) := by
  have hnot : ¬ (s.sys.hw.runCmdsIsRun = true ∨ s.main.inStop = true) := by
    rw [h.early he]
    rintro (hflag | hstop)
    · cases hflag
    · revert he hstop
      cases s.main <;> simp [MainPc.early, MainPc.inStop]
  refine ⟨?_, ?_⟩
  · intro i hp
    exact hnot (h.playing w i hp)
  · intro hw c
    by_contra hopen
    exact hnot (hr.watched_of_open hw hopen)

end Firmware

/-! ### All that the tracks can read belongs to `run_cmds_root` -/

namespace Worker

variable {w : Worker} {root : Option ℕ} {t t' : State w.Args w.Pc}

/-- What the instances of `w`, and the calls on it, have pointers into belongs to `root`. -/
structure Fed (root : Option ℕ) (w : Worker) (t : State w.Args w.Pc) : Prop where
  str : ∀ i x, w.str (t.pc i) = some x → root = some x.doc
  args : ∀ x, w.Awaited t → w.argsStr t.args = some x → root = some x.doc
  carried : ∀ c a x, (t.call c).carries = some a → w.argsStr a = some x → root = some x.doc

theorem Fed.supplied (h : w.Fed root t) :
    w.Supplied (fun a => ∀ x, w.argsStr a = some x → root = some x.doc) t :=
  ⟨fun ha x => h.args x ha, fun c a ha x => h.carried c a x ha⟩

theorem Fed.goto {c : ℕ} {k : Option w.Args} (h : w.Fed root t)
    (hk : ∀ a x, k = some a → w.argsStr a = some x → root = some x.doc) :
    w.Fed root (t.goto c (w.body.proto.entry k)) := by
  have hs := h.supplied.goto (c := c) (k := k) fun a ha x hx => hk a x ha hx
  exact ⟨h.str, fun x ha => hs.args ha x, fun c' a x ha => hs.carried c' a ha x⟩

theorem str_fresh : w.str w.body.fresh = none := by
  cases w <;> rfl

theorem Fed.call {c now : ℕ} (h : w.Fed root t)
    (hc : State.CallStep w.body.proto w.body.fresh now t c t') : w.Fed root t' := by
  refine ⟨fun i x hx => ?_, fun x ha hx => ?_, fun c' a x ha hx => ?_⟩
  · rcases hc.pc with hpc | ⟨-, -, hpc⟩
    · rw [hpc] at hx
      exact h.str i x hx
    · rw [hpc, Function.update_apply] at hx
      split_ifs at hx
      · rw [str_fresh] at hx
        cases hx
      · exact h.str i x hx
  · exact (h.supplied.call (isTrack_of_argsStr hx) hc).args ha x hx
  · exact (h.supplied.call (isTrack_of_argsStr hx) hc).carried c' a ha x hx

theorem Fed.task {e : w.Env} {i : ℕ} {pc : w.Pc} {eff : Effect} {hw hw' : Hw}
    (h : w.Fed root t)
    (ht : w.body.task e i t.taskRun t.args (t.pc i) hw = some (pc, eff, hw')) :
    w.Fed root (t.move w.body.proto i pc eff) := by
  obtain ⟨hstr, hentering⟩ := task_str ht
  have hs : w.Supplied _ (t.move w.body.proto i pc eff) := h.supplied.move hentering
  refine ⟨fun j x hx => ?_, fun x ha => hs.args ha x, fun c a x ha => hs.carried c a ha x⟩
  rw [State.move_pc] at hx
  split_ifs at hx with hj
  · rcases hstr x hx with hx | ⟨he, hx⟩
    · exact h.str i x hx
    · exact h.args x (.inl ⟨i, he⟩) hx
  · exact h.str j x hx

theorem Fed.of_unused (h : w.Unused t) : w.Fed root t where
  str i _ hx := absurd hx (h.str_ne i)
  args _ ha hx := absurd ha (h.not_awaited hx)
  carried c _ _ ha hx := absurd ha (h.carries_ne hx c)

end Worker

namespace Firmware

variable {s s' : Firmware} {a : FwAct} {k : ℕ}

structure Fed (s : Firmware) : Prop where
  task : ∀ w : Worker, w.Fed s.runCmdsRoot (s.sys.task w)
  refs : ∀ x r, s.main.stale x = false → s.rV x = some r → s.runCmdsRoot = some r.doc

theorem Fed.init : Fed Firmware.init where
  task w := .of_unused ⟨fun _ hp => (by cases w <;> cases hp), fun _ _ => rfl⟩
  refs x r _ h := by cases h

theorem Fed.put {w : Worker} {hw : Hw} {t : State w.Args w.Pc} (h : Fed s)
    (ht : w.Fed s.runCmdsRoot t) : Fed { s with sys := s.sys.put w hw t } := by
  refine ⟨fun v => ?_, h.refs⟩
  by_cases hv : v = w
  · subst hv
    rw [System.put_task_self]
    exact ht
  · rw [System.put_task_of_ne hv]
    exact h.task v

/-- The message thread moves on; unless it has just begun to exchange the documents, it had
none that was stale. -/
theorem Fed.goMain {pc : MainPc} (h : Fed s)
    (hstale : ∀ x, pc.stale x = false → s.main.stale x = false) :
    Fed { s with main := pc } :=
  ⟨h.task, fun x r hx => h.refs x r (hstale x hx)⟩

theorem Fed.goRestart {pc : RestartPc} (h : Fed s) : Fed (s.goRestart k pc) :=
  ⟨h.task, h.refs⟩

theorem Fed.stop {w : Worker} {c : ℕ} (h : Fed s) :
    Fed { s with sys := s.sys.enter w c none } :=
  h.put ((h.task w).goto fun _ _ ha _ => (by cases ha))

/-- A call that starts a track takes its string from `r_vx`. -/
theorem Fed.start {w : Worker} {c : ℕ} {x : Var} {r : Ref} {a : w.Args} (h : Fed s)
    (hx : s.main.stale x = false) (hr : s.rV x = some r) (ha : w.argsStr a = r.valuestring) :
    Fed { s with sys := s.sys.enter w c (some a) } := by
  refine h.put ((h.task w).goto fun b y hb hy => ?_)
  obtain rfl := Option.some.inj hb
  obtain ⟨text, -, rfl⟩ := Option.map_eq_some_iff.mp (ha.symm.trans hy)
  exact h.refs x r hx hr

theorem Fed.setRoot {r : Root} (hc : Covered s) (hr : Relay s) (hmain : s.main = .setRoot r) :
    Fed { s with main := .item .v1 r, runCmdsRoot := some r.doc } :=
  ⟨fun w => .of_unused (hc.unused hr (by rw [hmain]; rfl) w), fun x r' hx => (by cases hx)⟩

theorem Fed.items {x : Var} {r : Root} (h : Fed s) (hs : Store s) (hmain : s.main = .item x r) :
    Fed { s with
      main := x.andThen r
      rV := Function.update s.rV x ((r.json (.V x)).map (⟨r.doc, ·⟩)) } := by
  refine ⟨h.task, fun y r' hy hr => ?_⟩
  have hr : Function.update s.rV x ((r.json (.V x)).map (⟨r.doc, ·⟩)) y = some r' := hr
  by_cases hyx : y = x
  · subst hyx
    rw [Function.update_self] at hr
    obtain ⟨item, -, rfl⟩ := Option.map_eq_some_iff.mp hr
    exact hs.item y r hmain
  · rw [Function.update_of_ne hyx] at hr
    refine h.refs y r' ?_ hr
    rw [hmain]
    cases x <;> cases y <;> simp_all [MainPc.stale, Var.andThen]

theorem Skip.stale {pc pc' : MainPc} (h : Skip s pc pc') (x : Var) : pc.stale x = false := by
  cases h <;> rfl

theorem Fed.mainStep (h : Fed s) (hs : Store s) (hc : Covered s) (hr : Relay s)
    (hm : MainStep s s') : Fed s' := by
  cases hm
  case skip hskip => exact h.goMain fun x _ => hskip.stale x
  case delete => exact ⟨h.task, fun _ _ hx => (by cases hx)⟩
  case setRoot hmain => exact Fed.setRoot hc hr hmain
  case item hmain => exact h.items hs hmain
  case abort => exact ⟨h.task, h.refs⟩
  case play f r hmain =>
    have hsys : Fed { s with sys := s.sys.enter .mp3 0 (some f) } :=
      h.put ((h.task .mp3).goto fun _ _ _ hx => (by cases hx))
    exact hsys.goMain fun x _ => (by rw [hmain]; rfl)
  case notesRun hmain href =>
    exact (h.start (w := .notes) (by rw [hmain]; rfl) href rfl).goMain fun x _ => by rw [hmain]; rfl
  case motorRun hmain href =>
    exact (h.start (w := .motor) (by rw [hmain]; rfl) href rfl).goMain fun x _ => by rw [hmain]; rfl
  case ledRun hmain href =>
    exact (h.start (w := .light) (by rw [hmain]; rfl) href rfl).goMain fun x _ => by rw [hmain]; rfl
  case motorStop hmain => exact h.stop.goMain fun x _ => by rw [hmain]; rfl
  case ledStop hmain => exact h.stop.goMain fun x _ => by rw [hmain]; rfl
  case notesStop hmain => exact h.stop.goMain fun x _ => by rw [hmain]; rfl
  case accept hmain _ => exact h.goMain fun x _ => by rw [hmain]; rfl
  all_goals
    rename_i hmain
    exact ⟨h.task, fun x r _ => h.refs x r (by rw [hmain]; rfl)⟩

/-- A `run_cmds_task` that restarts the tracks finds no reference stale. -/
theorem Relay.fresh (hr : Relay s) (hk : k < s.sys.hw.restarts)
    (hpending : (s.restart k).pending = true) (x : Var) : s.main.stale x = false := by
  by_contra hstale
  have hmain : s.Holds .main := .inl (MainPc.inRun_of_stale (by simpa using hstale))
  have hrestart : s.Holds (.restart k) := ⟨hk, .inl hpending⟩
  cases hr.one _ _ hmain hrestart

theorem Fed.restartStep (h : Fed s) (hr : Relay s) (hk : k < s.sys.hw.restarts)
    (hs : RestartStep s k s') : Fed s' := by
  cases hs
  case notesRun hpc href =>
    exact Fed.goRestart (h.start (w := .notes) (hr.fresh hk (by rw [hpc]; rfl) _) href rfl)
  case motorRun hpc href =>
    exact Fed.goRestart (h.start (w := .motor) (hr.fresh hk (by rw [hpc]; rfl) _) href rfl)
  case ledRun hpc href =>
    exact Fed.goRestart (h.start (w := .light) (hr.fresh hk (by rw [hpc]; rfl) _) href rfl)
  all_goals exact ⟨h.task, h.refs⟩

theorem Fed.step (h : Fed s) (hd : Store s) (hc : Covered s) (hr : Relay s) (hs : Step s a s') :
    Fed s' := by
  cases hs with
  | ignore => exact h
  | parse hidle => exact ⟨h.task, fun x r _ => h.refs x r (by rw [hidle]; rfl)⟩
  | main _ hm => exact h.mainStep hd hc hr hm
  | restart hk _ hs => exact h.restartStep hr hk hs
  | tick => exact ⟨h.task, h.refs⟩
  | call hc => exact h.put ((h.task _).call hc)
  | task ht _ => exact h.put ((h.task _).task ht)

/-- What holds in every run in which, besides, the light track ends last. -/
structure Alive (s : Firmware) : Prop where
  relay : Relay s
  store : Store s
  covered : Covered s
  fed : Fed s

theorem Alive.init : Alive Firmware.init := ⟨.init, .init, .init, .init⟩

theorem Alive.step (h : Alive s) (hok : Guarded s a) (hlast : EndsLast s a) (hs : Step s a s') :
    Alive s' where
  relay := h.relay.step hok hs
  store := h.store.step hs
  covered := h.covered.step h.relay hlast hs
  fed := h.fed.step h.store h.covered h.relay hs

theorem Alive.run
    (h : Reach Firmware.step (fun s a => Guarded s a ∧ EndsLast s a) Firmware.init s) : Alive s :=
  h.invariant .init fun _ _ _ hI hok hs => hI.step hok.1 hok.2 (step_cases hs)

theorem Alive.not_freed {d : ℕ} (h : Alive s) (hset : ∀ r, s.main ≠ .setRoot r)
    (hd : s.runCmdsRoot = some d) : d ∉ s.freed :=
  (h.store.root d hd).2 hset

theorem Alive.not_freed_of_reads {d : ℕ} (h : Alive s) (hd : s.Reads d) : d ∉ s.freed := by
  cases hd with
  | @player w i x hx =>
    have hstr := Worker.str_of_reads hx
    refine h.not_freed (fun r hmain => ?_) ((h.fed.task w).str i x hstr)
    exact (h.covered.unused h.relay (by rw [hmain]; rfl) w).str_ne i hstr
  | @restart k x r hk hx hr =>
    have hfresh := h.relay.fresh hk (RestartPc.pending_of_reads hx)
    refine h.not_freed (fun r' hmain => ?_) (h.fed.refs x r (hfresh x) hr)
    have hstale := hfresh x
    rw [hmain] at hstale
    cases hstale
  | @main x r hx hr =>
    obtain ⟨hset, hstale⟩ := MainPc.fresh_of_reads hx
    exact h.not_freed hset (h.fed.refs x r (hstale x) hr)
  | root hx =>
    rcases MainPc.of_looksUp hx with hown | ⟨x, r, hmain, rfl⟩
    · exact (h.store.owned d hown).2.1
    · exact h.not_freed (by simp [hmain]) (h.store.item x r hmain)

theorem Alive.unused {d : ℕ} {r : Root} (h : Alive s) (hmain : s.main = .delete r) :
    ¬ s.PointsTo d := by
  have hunused := h.covered.unused h.relay (by rw [hmain]; rfl)
  intro hd
  cases hd with
  | @player w i x hx => exact (hunused w).str_ne i hx
  | @args w x ha hx => exact (hunused w).not_awaited hx ha
  | @call w c a x ha hx => exact (hunused w).carries_ne hx c ha
  | @restart k x r' hk hpending hr =>
    have hstale := h.relay.fresh hk hpending x
    rw [hmain] at hstale
    cases hstale

end Firmware

open Firmware

/-- Nobody reads a deleted document, and when the old one is deleted nobody has a pointer
into it. -/
theorem reads_alive {s : Firmware}
    (h : Reach Firmware.step (fun s a => Guarded s a ∧ EndsLast s a) Firmware.init s) :
    (∀ d, s.Reads d → d ∉ s.freed) ∧
      ∀ r d, s.main = .delete r → s.runCmdsRoot = some d → ¬ s.PointsTo d :=
  ⟨fun _ hd => (Alive.run h).not_freed_of_reads hd, fun _ _ hmain _ => (Alive.run h).unused hmain⟩

def FwAct.isRestart : FwAct → Bool
  | .restart _ => true
  | _ => false

def MainPc.deletes : MainPc → Bool
  | .delete _ => true
  | _ => false

theorem endsLast_of_not_isRestart {s : Firmware} {a : FwAct} (h : (!a.isRestart) = true) :
    EndsLast s a := by
  rintro k rfl
  cases h

def secondMessage : List FwAct :=
  promptStop ++ [.main, .main, .receive (some (cmdsMessage 0 [] [] [])), .main, .main]

theorem reads_alive_second : ∃ s : Firmware, s.runCmdsRoot = some 0 ∧ ¬ s.PointsTo 0 := by
  obtain ⟨s, hs, hobs⟩ : ∃ s, run Firmware.step (fun s a => prudent s a && !a.isRestart)
      Firmware.init secondMessage = some s ∧ (s.main.deletes, s.runCmdsRoot) = (true, some 0) :=
    Option.map_eq_some_iff.mp (by decide +kernel)
  obtain ⟨hdeletes, hroot⟩ := Prod.mk.inj hobs
  obtain ⟨r, hmain⟩ : ∃ r, s.main = .delete r := by
    cases hm : s.main <;> rw [hm] at hdeletes <;> first | exact ⟨_, rfl⟩ | cases hdeletes
  have hreach : Reach Firmware.step (fun s a => Guarded s a ∧ EndsLast s a) Firmware.init s :=
    (reach_of_prudent hs).mono fun _ _ => And.imp id endsLast_of_not_isRestart
  exact ⟨s, hroot, (reads_alive hreach).2 r 0 hmain hroot⟩

/-- The light track ends while the notes pause, and a new message comes before they go on. -/
def shortLight : List FwAct :=
  startTracks (cmdsMessage 0 ['N', 'O', ',', '1', ';', 'N', 'O', ',', '1', ';'] [] []) ++
    tasks .notes 0 5 true ++ tasks .light 0 7 () ++ List.replicate 4 (.restart 0) ++
    .receive (some (cmdsMessage 0 [] [] [])) :: mains 3 ++ .tick 60 :: tasks .notes 0 1 true

theorem reads_freed : ¬ ∀ s : Firmware,
    Reach Firmware.step (fun _ _ => True) Firmware.init s →
      (∀ d, s.Reads d → d ∉ s.freed) ∧
        ∀ r d, s.main = .delete r → s.runCmdsRoot = some d → ¬ s.PointsTo d := by
  intro h
  obtain ⟨s, hs, hobs⟩ : ∃ s,
      run Firmware.step (fun _ _ => true) Firmware.init shortLight = some s ∧
        ((Worker.notes.reads ((s.sys.task .notes).pc 0)).map (·.doc), s.freed) = (some 0, [0]) :=
    Option.map_eq_some_iff.mp (by decide +kernel)
  obtain ⟨hreads, hfreed⟩ := Prod.mk.inj hobs
  obtain ⟨x, hx, hdoc⟩ := Option.map_eq_some_iff.mp hreads
  have hnot := (h s (reach_of_run (fun _ _ _ => trivial) hs)).1 x.doc (.player hx)
  rw [hfreed, hdoc] at hnot
  exact hnot (List.mem_singleton.mpr rfl)

end Car
