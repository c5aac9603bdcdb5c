import CarFirmware.Spec.HandleMessage

/-! What a step of the firmware can be, and where the threads wait for their calls. -/

namespace Car

open Handshake

namespace System

def enter (s : System) (w : Worker) (c : ℕ) (k : Option w.Args) : System :=
  s.put w s.hw ((s.task w).goto c (w.body.proto.entry k))

def setFlag (s : System) (b : Bool) : System := { s with hw := { s.hw with runCmdsIsRun := b } }

def withHw (s : System) (f : Hw → Hw) : System := { s with hw := f s.hw }

theorem eq_withHw {s s' : System} {a : SysAct} {g : Hw → Hw}
    (ha : s.step a = if s.hw.halted then none else some (s.withHw g)) (h : s.step a = some s') :
    s' = s.withHw g := by
  rw [ha] at h
  split_ifs at h
  exact (Option.some.inj h).symm

theorem step_begin {s s' : System} {w : Worker} {c : ℕ} {k : Option w.Args}
    (h : s.step (.task w (.begin c k)) = some s') : s' = s.enter w c k := by
  obtain ⟨n, heq, -⟩ | ⟨v, b, hw, t, heq, ht, rfl⟩ | ⟨op, heq, -⟩ | ⟨b, heq, -⟩ | ⟨heq, -⟩ :=
    step_cases h
  case inr.inl =>
    cases heq
    obtain ⟨u, hu, heq⟩ := Option.map_eq_some_iff.mp ht
    cases heq
    rw [(State.begin_cases hu).2]
    rfl
  all_goals cases heq

end System

/-- The statement after the assignment to `r_vx`. -/
def Var.andThen (r : Root) : Var → MainPc
  | .v1 => .item .v2 r
  | .v2 => .item .v3 r
  | .v3 => .item .v4 r
  | .v4 => .nullTest

namespace Firmware

theorem ready_iff {s : Firmware} {c : ℕ} :
    s.ready c = true ↔ ∀ w, (s.sys.task w).call c = .idle := by
  simp only [ready, Worker.all, List.all_cons, List.all_nil, Bool.and_true, Bool.and_eq_true,
    Call.isIdle_iff]
  constructor
  · rintro ⟨h₁, h₂, h₃, h₄, h₅, h₆⟩ w
    cases w <;> assumption
  · exact fun h => ⟨h _, h _, h _, h _, h _, h _⟩

variable {s s' : Firmware}

theorem exec_begin {w : Worker} {c : ℕ} {k : Option w.Args} {f : Firmware → Firmware}
    (h : s.exec (.task w (.begin c k)) f = some s') :
    s' = f { s with sys := s.sys.enter w c k } := by
  obtain ⟨sys, hsys, rfl⟩ := Option.map_eq_some_iff.mp h
  rw [System.step_begin hsys]

theorem exec_withHw {a : SysAct} {g : Hw → Hw} {f : Firmware → Firmware}
    (ha : s.sys.step a = if s.sys.hw.halted then none else some (s.sys.withHw g))
    (h : s.exec a f = some s') : s' = f { s with sys := s.sys.withHw g } := by
  obtain ⟨sys, hsys, rfl⟩ := Option.map_eq_some_iff.mp h
  rw [System.eq_withHw ha hsys]

theorem exec_drive {op : PwmOp} {f : Firmware → Firmware} (h : s.exec (.drive op) f = some s') :
    s' = f { s with sys := s.sys.withHw (·.drive none op) } := exec_withHw rfl h

theorem exec_setRunCmdsIsRun {b : Bool} {f : Firmware → Firmware}
    (h : s.exec (.setRunCmdsIsRun b) f = some s') :
    s' = f { s with sys := s.sys.setFlag b } :=
  exec_withHw (g := fun hw => { hw with runCmdsIsRun := b }) rfl h

theorem exec_abort {f : Firmware → Firmware} (h : s.exec .abort f = some s') :
    s' = f { s with sys := s.sys.withHw Hw.abort } := exec_withHw rfl h

theorem deref_cases {x : Var} {f : Ref → Option Firmware} (h : s.deref x f = some s') :
    s' = { s with sys := s.sys.withHw Hw.abort } ∨ ∃ r, s.rV x = some r ∧ f r = some s' := by
  unfold deref at h
  split at h
  case h_1 => exact .inl (exec_abort h)
  case h_2 r hr => exact .inr ⟨r, hr, h⟩

/-- The statements of `handle_message` that only move on. -/
inductive Skip (s : Firmware) : MainPc → MainPc → Prop
  | type (r : Root) : Skip s (.type r) (dispatch r)
  | key (r : Root) : Skip s (.mRun [] r) (.key r)
  | noKey (r : Root) : Skip s (.key r) (.out r)
  | stop (r : Root) : Skip s (.mStop [] r) (.out r)
  | busy (r : Root) : s.sys.hw.runCmdsIsRun = true → Skip s (.cCmds r) (.out r)
  | null : Skip s .nullTest .idle
  | full : Skip s .nullTest .flagOn
  | stopped (r : Root) : Skip s (.stopped r) (.out r)

/-- What one statement of `handle_message` can do. -/
inductive MainStep (s : Firmware) : Firmware → Prop
  | skip {pc : MainPc} : Skip s s.main pc → MainStep s (s.goMain pc)
  | key {r : Root} {n : ℤ} : s.main = .key r →
      MainStep s { s with lastKey := n, main := .out r }
  | sound {r : Root} {n f : ℤ} : s.main = .key r →
      MainStep s { s with lastKey := n, main := .play f r }
  | run {op : PwmOp} {ops : List PwmOp} {r : Root} : s.main = .mRun (op :: ops) r →
      MainStep s { s with sys := s.sys.withHw (·.drive none op), main := .mRun ops r }
  | stop {op : PwmOp} {ops : List PwmOp} {r : Root} : s.main = .mStop (op :: ops) r →
      MainStep s { s with sys := s.sys.withHw (·.drive none op), main := .mStop ops r }
  | play {f : ℤ} {r : Root} : s.main = .play f r →
      MainStep s { s with sys := s.sys.enter .mp3 0 (some f), main := .out r }
  | accept {r : Root} : s.main = .cCmds r → s.sys.hw.runCmdsIsRun = false →
      MainStep s (s.goMain (.delete r))
  | delete {r : Root} : s.main = .delete r →
      MainStep s { s with main := .setRoot r, freed := s.freed ++ s.runCmdsRoot.toList }
  | setRoot {r : Root} : s.main = .setRoot r →
      MainStep s { s with main := .item .v1 r, runCmdsRoot := some r.doc }
  | item {x : Var} {r : Root} : s.main = .item x r →
      MainStep s { s with
        main := x.andThen r
        rV := Function.update s.rV x ((r.json (.V x)).map (⟨r.doc, ·⟩)) }
  | abort : MainStep s { s with sys := s.sys.withHw Hw.abort }
  | flagOn : s.main = .flagOn → MainStep s { s with sys := s.sys.setFlag true, main := .notesRun }
  | notesRun {r : Ref} : s.main = .notesRun → s.rV .v2 = some r →
      MainStep s { s with sys := s.sys.enter .notes 0 (some r.valuestring), main := .motorRun }
  | motorRun {r : Ref} : s.main = .motorRun → s.rV .v3 = some r →
      MainStep s { s with sys := s.sys.enter .motor 0 (some r.valuestring), main := .ledRun }
  | ledRun {r : Ref} : s.main = .ledRun → s.rV .v4 = some r →
      MainStep s { s with sys := s.sys.enter .light 0 (some r.valuestring), main := .idle }
  | flagOff {r : Root} : s.main = .cStop r →
      MainStep s { s with sys := s.sys.setFlag false, main := .motorStop r }
  | motorStop {r : Root} : s.main = .motorStop r →
      MainStep s { s with sys := s.sys.enter .motor 0 none, main := .ledStop r }
  | ledStop {r : Root} : s.main = .ledStop r →
      MainStep s { s with sys := s.sys.enter .light 0 none, main := .notesStop r }
  | notesStop {r : Root} : s.main = .notesStop r →
      MainStep s { s with sys := s.sys.enter .notes 0 none, main := .stopped r }
  | out {r : Root} : s.main = .out r →
      MainStep s { s with main := .idle, freed := s.freed ++ [r.doc] }

theorem mainStep_cases (h : s.mainStep = some s') : MainStep s s' := by
  unfold mainStep at h
  cases hm : s.main <;> simp only [hm] at h
  case idle => cases h
  case type r => cases h; exact .skip (hm ▸ .type r)
  case mRun ops r =>
    cases ops with
    | nil => cases h; exact .skip (hm ▸ .key r)
    | cons op ops => exact exec_drive h ▸ .run hm
  case key r =>
    split at h
    · cases h; exact .skip (hm ▸ .noKey r)
    · split_ifs at h
      · cases h; exact .skip (hm ▸ .noKey r)
      · cases h
        split
        · exact .key hm
        · exact .sound hm
  case play f r => exact exec_begin h ▸ .play hm
  case mStop ops r =>
    cases ops with
    | nil => cases h; exact .skip (hm ▸ .stop r)
    | cons op ops => exact exec_drive h ▸ .stop hm
  case cCmds r =>
    cases h
    split_ifs with hflag
    · exact .skip (hm ▸ .busy r hflag)
    · exact .accept hm (by simpa using hflag)
  case delete r => cases h; exact .delete hm
  case setRoot r => cases h; exact .setRoot hm
  case item x r =>
    cases h
    cases x <;> exact .item hm
  case nullTest =>
    cases h
    split_ifs
    · exact .skip (hm ▸ .null)
    · exact .skip (hm ▸ .full)
  case flagOn => exact exec_setRunCmdsIsRun h ▸ .flagOn hm
  case notesRun =>
    rcases deref_cases h with rfl | ⟨r, hr, h⟩
    · exact .abort
    · exact exec_begin h ▸ .notesRun hm hr
  case motorRun =>
    rcases deref_cases h with rfl | ⟨r, hr, h⟩
    · exact .abort
    · exact exec_begin h ▸ .motorRun hm hr
  case ledRun =>
    rcases deref_cases h with rfl | ⟨r, hr, h⟩
    · exact .abort
    · exact exec_begin h ▸ .ledRun hm hr
  case cStop r => exact exec_setRunCmdsIsRun h ▸ .flagOff hm
  case motorStop r => exact exec_begin h ▸ .motorStop hm
  case ledStop r => exact exec_begin h ▸ .ledStop hm
  case notesStop r => exact exec_begin h ▸ .notesStop hm
  case stopped r => cases h; exact .skip (hm ▸ .stopped r)
  case out r => cases h; exact .out hm

/-- What one statement of the `run_cmds_task` number `k` can do. -/
inductive RestartStep (s : Firmware) (k : ℕ) : Firmware → Prop
  | abort : RestartStep s k { s with sys := s.sys.withHw Hw.abort }
  | print : s.restart k = .test → s.sys.hw.runCmdsIsRun = true →
      RestartStep s k (s.goRestart k .print)
  | returned : s.restart k = .test → s.sys.hw.runCmdsIsRun = false →
      RestartStep s k (s.goRestart k .returned)
  | isLoop : s.restart k = .print → RestartStep s k (s.goRestart k .isLoop)
  | loop : s.restart k = .isLoop → RestartStep s k (s.goRestart k .notesRun)
  | once : s.restart k = .isLoop → RestartStep s k (s.goRestart k .clear)
  | notesRun {r : Ref} : s.restart k = .notesRun → s.rV .v2 = some r →
      RestartStep s k ({ s with sys := s.sys.enter .notes (k + 1) (some r.valuestring) }.goRestart k
        .motorRun)
  | motorRun {r : Ref} : s.restart k = .motorRun → s.rV .v3 = some r →
      RestartStep s k ({ s with sys := s.sys.enter .motor (k + 1) (some r.valuestring) }.goRestart k
        .ledRun)
  | ledRun {r : Ref} : s.restart k = .ledRun → s.rV .v4 = some r →
      RestartStep s k ({ s with sys := s.sys.enter .light (k + 1) (some r.valuestring) }.goRestart k
        .delete)
  | clear : s.restart k = .clear →
      RestartStep s k ({ s with sys := s.sys.setFlag false }.goRestart k .delete)
  | delete : s.restart k = .delete → RestartStep s k (s.goRestart k .ended)

theorem restartStep_cases {k : ℕ} (h : s.restartStep k = some s') : RestartStep s k s' := by
  unfold restartStep at h
  cases hk : s.restart k <;> simp only [hk] at h
  case test =>
    cases h
    split_ifs with hflag
    · exact .print hk hflag
    · exact .returned hk (by simpa using hflag)
  case returned => exact exec_abort h ▸ .abort
  case print =>
    rcases deref_cases h with rfl | ⟨r, hr, h⟩
    · exact .abort
    · cases h; exact .isLoop hk
  case isLoop =>
    rcases deref_cases h with rfl | ⟨r, hr, h⟩
    · exact .abort
    · cases h
      split_ifs
      · exact .loop hk
      · exact .once hk
  case notesRun =>
    rcases deref_cases h with rfl | ⟨r, hr, h⟩
    · exact .abort
    · exact exec_begin h ▸ .notesRun hk hr
  case motorRun =>
    rcases deref_cases h with rfl | ⟨r, hr, h⟩
    · exact .abort
    · exact exec_begin h ▸ .motorRun hk hr
  case ledRun =>
    rcases deref_cases h with rfl | ⟨r, hr, h⟩
    · exact .abort
    · exact exec_begin h ▸ .ledRun hk hr
  case clear => exact exec_setRunCmdsIsRun h ▸ .clear hk
  case delete => cases h; exact .delete hk
  case ended => cases h

/-- What one step of the firmware can be. -/
inductive Step (s : Firmware) : FwAct → Firmware → Prop
  | ignore {json : Option Json} : s.main = .idle → Step s (.receive json) s
  | parse {json : Json} : s.main = .idle → s.ready 0 = true →
      Step s (.receive (some json))
        { s with main := .type ⟨s.parsed, json⟩, parsed := s.parsed + 1 }
  | main {s' : Firmware} : s.ready 0 = true → MainStep s s' → Step s .main s'
  | restart {k : ℕ} {s' : Firmware} : k < s.sys.hw.restarts → s.ready (k + 1) = true →
      RestartStep s k s' → Step s (.restart k) s'
  | tick {n : ℕ} : Step s (.tick n)
      { s with sys := s.sys.withHw fun hw => { hw with now := hw.now + n } }
  | call {w : Worker} {c : ℕ} {t : State w.Args w.Pc} :
      State.CallStep w.body.proto w.body.fresh s.sys.hw.now (s.sys.task w) c t →
      Step s (.call w c) { s with sys := s.sys.put w s.sys.hw t }
  | task {w : Worker} {i : ℕ} {e : w.Env} {pc : w.Pc} {eff : Effect} {hw : Hw} :
      w.body.task e i (s.sys.task w).taskRun (s.sys.task w).args ((s.sys.task w).pc i) s.sys.hw =
        some (pc, eff, hw) →
      Lawful (s.sys.task w).taskRun (w.body.phase ((s.sys.task w).pc i)) eff (w.body.phase pc) →
      Step s (.task w i e)
        { s with sys := s.sys.put w hw ((s.sys.task w).move w.body.proto i pc eff) }

theorem step_cases {a : FwAct} (h : step s a = some s') : Step s a s' := by
  have hrun : ¬ s.sys.hw.halted = true := fun hhalted => by simp [step, hhalted] at h
  unfold step at h
  rw [if_neg hrun] at h
  cases a with
  | receive json =>
    simp only at h
    split_ifs at h with hready
    unfold receive at h
    split at h
    case h_1 hm => cases h; exact .ignore hm
    case h_2 hm => cases h; exact .parse hm hready
    case h_3 => cases h
  | main =>
    simp only at h
    split_ifs at h with hready
    exact .main hready (mainStep_cases h)
  | restart k =>
    simp only at h
    split_ifs at h with hk
    exact .restart hk.1 hk.2 (restartStep_cases h)
  | tick n =>
    obtain ⟨sys, hsys, rfl⟩ := Option.map_eq_some_iff.mp h
    unfold System.step at hsys
    split_ifs at hsys
    rw [← Option.some.inj hsys]
    exact .tick
  | call w c =>
    obtain ⟨sys, hsys, rfl⟩ := Option.map_eq_some_iff.mp h
    unfold System.step at hsys
    split_ifs at hsys
    obtain ⟨⟨hw, t⟩, ht, rfl⟩ := Option.map_eq_some_iff.mp hsys
    rcases Body.step_cases ht with ⟨c', k, heq, -⟩ | ⟨c', heq, rfl, hc⟩ | ⟨i, e, pc, eff, heq, -⟩
    · cases heq
    · cases heq
      exact .call hc
    · cases heq
  | task w i e =>
    obtain ⟨sys, hsys, rfl⟩ := Option.map_eq_some_iff.mp h
    unfold System.step at hsys
    split_ifs at hsys
    obtain ⟨⟨hw, t⟩, ht, rfl⟩ := Option.map_eq_some_iff.mp hsys
    obtain ⟨c', k, heq, -⟩ | ⟨c', heq, -⟩ | ⟨j, e', pc, eff, heq, htask, hl, rfl⟩ :=
      Body.step_cases ht
    · cases heq
    · cases heq
    · cases heq
      exact .task htask hl

end Firmware

end Car
