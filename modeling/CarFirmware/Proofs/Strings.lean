import CarFirmware.Proofs.Messages

/-! The strings the tracks are started with. `run_cmds` looks at the presence of `V2` to
`V4` only, so whether their `valuestring` is a string is left to the sender. -/

namespace Car

open Handshake Transition

def Texts (json : Json) : Prop :=
  ∀ x item, x ≠ .v1 → json (.V x) = some item → item.valuestring.isSome

def Complete (json : Json) : Prop := ∀ x, (json (.V x)).isSome

/-- The document that is being taken over by `run_cmds`. -/
def MainPc.taking : MainPc → Option Root
  | .delete r | .setRoot r | .item _ r => some r
  | _ => none

theorem MainPc.early_of_taking {pc : MainPc} {r : Root} (h : pc.taking = some r) :
    pc.early = true := by
  cases pc <;> first | rfl | cases h

namespace Worker

/-- About to evaluate `*cmds` or `*notes` with a NULL pointer. -/
def isNull : (w : Worker) → w.Pc → Bool
  | notes => fun | .null => true | _ => false
  | motor => fun | .null => true | _ => false
  | light => fun | .null => true | _ => false
  | mp3 | renderer | audioConvert => fun _ => false

/-- No track is, or is to be, started with a NULL pointer. -/
structure Lettered (w : Worker) (t : State w.Args w.Pc) : Prop where
  supplied : w.Supplied (fun a => (w.argsStr a).isSome) t
  null : ∀ i, w.isNull (t.pc i) = false

variable {w : Worker} {t t' : State w.Args w.Pc}

theorem playNotesTask_null {ok : Bool} {i : ℕ} {run : Bool} {args : Option Str} {pc : NotesPc}
    {hw hw' : Hw} {eff : Effect} (h : playNotesTask ok i run args pc hw = some (.null, eff, hw')) :
    pc = .null ∨ (pc.entering = true ∧ args = none) := by
  unfold playNotesTask at h
  repeat' split at h
  all_goals first | exact .inl rfl | exact .inr ⟨rfl, rfl⟩ | cases h

theorem motorRunCmdsTask_null {i : ℕ} {run : Bool} {args : Option Str} {pc : MotorPc}
    {hw hw' : Hw} {eff : Effect} (h : motorRunCmdsTask i run args pc hw = some (.null, eff, hw')) :
    pc = .null ∨ (pc.entering = true ∧ args = none) := by
  unfold motorRunCmdsTask at h
  repeat' split at h
  all_goals first | exact .inl rfl | exact .inr ⟨rfl, rfl⟩ | cases h

theorem ledRunCmdsTask_null {run : Bool} {args : Option Str} {pc : LedPc} {hw hw' : Hw}
    {eff : Effect} (h : ledRunCmdsTask run args pc hw = some (.null, eff, hw')) :
    pc = .null ∨ (pc.entering = true ∧ args = none) := by
  unfold ledRunCmdsTask at h
  repeat' split at h
  all_goals first | exact .inl rfl | exact .inr ⟨rfl, rfl⟩ | cases h

theorem task_null {e : w.Env} {i : ℕ} {run : Bool} {args : w.Args} {pc pc' : w.Pc} {hw hw' : Hw}
    {eff : Effect} (h : w.body.task e i run args pc hw = some (pc', eff, hw'))
    (hnull : w.isNull pc' = true) :
    w.isNull pc = true ∨ (w.entering pc = true ∧ w.argsStr args = none) := by
  cases w with
  | notes =>
    obtain rfl : pc' = .null := by cases pc' <;> first | rfl | cases hnull
    exact (playNotesTask_null h).imp (by rintro rfl; rfl) id
  | motor =>
    obtain rfl : pc' = .null := by cases pc' <;> first | rfl | cases hnull
    exact (motorRunCmdsTask_null h).imp (by rintro rfl; rfl) id
  | light =>
    obtain rfl : pc' = .null := by cases pc' <;> first | rfl | cases hnull
    exact (ledRunCmdsTask_null h).imp (by rintro rfl; rfl) id
  | mp3 => cases hnull
  | renderer => cases hnull
  | audioConvert => cases hnull

theorem not_isNull_fresh : w.isNull w.body.fresh = false := by
  cases w <;> rfl

theorem Lettered.init : w.Lettered (State.init w.noArgs w.body.absent) where
  supplied := by
    refine ⟨?_, fun _ _ ha => (by cases ha)⟩
    rintro (⟨i, hi⟩ | ⟨c, hc⟩)
    · cases w <;> cases hi
    · cases hc
  null _ := by cases w <;> rfl

theorem Lettered.goto {c : ℕ} {k : Option w.Args} (h : w.Lettered t)
    (hk : ∀ a, k = some a → (w.argsStr a).isSome) :
    w.Lettered (t.goto c (w.body.proto.entry k)) :=
  ⟨h.supplied.goto hk, h.null⟩

theorem Lettered.call {c now : ℕ} (hw : w.isTrack = true) (h : w.Lettered t)
    (hc : State.CallStep w.body.proto w.body.fresh now t c t') : w.Lettered t' := by
  refine ⟨h.supplied.call hw hc, fun i => ?_⟩
  rcases hc.pc with hpc | ⟨-, -, hpc⟩
  · rw [hpc]
    exact h.null i
  · rw [hpc, Function.update_apply]
    split_ifs
    · exact not_isNull_fresh
    · exact h.null i

theorem Lettered.task {e : w.Env} {i : ℕ} {pc : w.Pc} {eff : Effect} {hw hw' : Hw}
    (h : w.Lettered t) (ht : w.body.task e i t.taskRun t.args (t.pc i) hw = some (pc, eff, hw')) :
    w.Lettered (t.move w.body.proto i pc eff) := by
  refine ⟨h.supplied.move (task_str ht).2, fun j => ?_⟩
  rw [State.move_pc]
  split_ifs
  · by_contra hnull
    rcases task_null ht (by simpa using hnull) with hnull | ⟨he, hargs⟩
    · rw [h.null i] at hnull
      cases hnull
    · have hsome := h.supplied.args (.inl ⟨i, he⟩)
      rw [hargs] at hsome
      cases hsome
  · exact h.null j

end Worker

namespace Firmware

variable {s s' : Firmware} {a : FwAct} {k : ℕ}

/-- An accepted `C_CMDS` has strings for its tracks, or else lacks a field and comes while no
`run_cmds_task` is restarting the tracks. -/
def TextsOnly (s : Firmware) (a : FwAct) : Prop :=
  s.Accepts a → ∀ r, s.main = .cCmds r →
    Texts r.json ∨ (¬ Complete r.json ∧ ∀ k, (s.restart k).inRun = false)

/-- All that the tracks could be started with are strings. -/
def Plain (s : Firmware) : Prop :=
  ∀ x r, x ≠ .v1 → s.rV x = some r → r.valuestring.isSome

/-- Nobody will start the tracks with the present `r_vx`. -/
structure Barred (s : Firmware) : Prop where
  flag : s.sys.hw.runCmdsIsRun = false
  restart : ∀ k, (s.restart k).inRun = false
  starting : s.main.starting = false
  flagOn : s.main ≠ .flagOn
  nullTest : s.main = .nullTest → ∃ x, s.rV x = none

/-- The document being taken over has strings for its tracks, or will be found to lack a
field. -/
def Offered (s : Firmware) (r : Root) : Prop :=
  Texts r.json ∨ (¬ Complete r.json ∧ ∀ k, (s.restart k).inRun = false)

/-- What holds in every run that meets the condition. -/
structure Worded (s : Firmware) : Prop where
  early : s.main.early = true → s.sys.hw.runCmdsIsRun = false
  offered : ∀ r, s.main.taking = some r → s.Offered r
  items : ∀ x r, s.main = .item x r → ∀ y, s.main.stale y = false →
    s.rV y = (r.json (.V y)).map (⟨r.doc, ·⟩)
  refs : Plain s ∨ Barred s
  lettered : ∀ w : Worker, w.isTrack = true → w.Lettered (s.sys.task w)

theorem Worded.init : Worded Firmware.init where
  early h := by cases h
  offered _ h := by cases h
  items _ _ h := by cases h
  refs := .inl fun _ _ _ h => by cases h
  lettered _ _ := .init

theorem Worded.items_next {x : Var} {r : Root} (h : Worded s) (hmain : s.main = .item x r) (y : Var)
    (hy : y = x ∨ s.main.stale y = false) :
    Function.update s.rV x ((r.json (.V x)).map (⟨r.doc, ·⟩)) y =
      (r.json (.V y)).map (⟨r.doc, ·⟩) := by
  by_cases hyx : y = x
  · subst hyx
    rw [Function.update_self]
  · rw [Function.update_of_ne hyx]
    exact h.items x r hmain y (hy.resolve_left hyx)

theorem Worded.refs_item {x : Var} {r : Root} (h : Worded s) (hmain : s.main = .item x r) :
    let s' := { s with
      main := x.andThen r
      rV := Function.update s.rV x ((r.json (.V x)).map (⟨r.doc, ·⟩)) }
    Plain s' ∨ Barred s' := by
  intro s'
  have hoff : s.sys.hw.runCmdsIsRun = false := h.early (by rw [hmain]; rfl)
  have hstale : s.main = .item .v4 r → ∀ y, y = .v4 ∨ s.main.stale y = false := by
    rintro hv4 y
    rw [hv4]
    cases y <;> simp [MainPc.stale]
  rcases h.offered r (by rw [hmain]; rfl) with htexts | ⟨hcomplete, hidle⟩
  · have htext (y : Var) (r' : Ref) (hy : y ≠ .v1)
        (hr : (r.json (.V y)).map (⟨r.doc, ·⟩) = some r') : r'.valuestring.isSome := by
      obtain ⟨item, hitem, rfl⟩ := Option.map_eq_some_iff.mp hr
      simpa [Ref.valuestring] using htexts y item hy hitem
    by_cases hx : x = .v4
    · subst hx
      left
      intro y r' hy hr
      exact htext y r' hy ((h.items_next hmain y (hstale hmain y)).symm.trans hr)
    rcases h.refs with hplain | hbarred
    · left
      intro y r' hy hr
      by_cases hyx : y = x
      · subst hyx
        exact htext y r' hy ((h.items_next hmain y (.inl rfl)).symm.trans hr)
      · exact hplain y r' hy ((Function.update_of_ne hyx ..).symm.trans hr)
    · right
      exact ⟨hoff, hbarred.restart, by cases x <;> rfl, by cases x <;> simp [s', Var.andThen],
        fun hnull => by cases x <;> first | exact absurd rfl hx | cases hnull⟩
  · right
    refine ⟨hoff, hidle, by cases x <;> rfl, by cases x <;> simp [s', Var.andThen], fun hnull => ?_⟩
    obtain rfl : x = .v4 := by cases x <;> first | rfl | cases hnull
    obtain ⟨y, hy⟩ : ∃ y, r.json (.V y) = none := by
      by_contra hall
      exact hcomplete fun y => Option.isSome_iff_ne_none.mpr fun hy => hall ⟨y, hy⟩
    exact ⟨y, (h.items_next hmain y (hstale hmain y)).trans (by rw [hy]; rfl)⟩

theorem Skip.ne_nullTest {pc pc' : MainPc} (h : Skip s pc pc') :
    pc' ≠ .nullTest ∧ pc'.taking = none := by
  cases h
  case type r =>
    have hearly := dispatch_early r
    refine ⟨fun heq => ?_, ?_⟩
    · rw [heq] at hearly
      cases hearly
    · by_contra htaking
      obtain ⟨r', hr'⟩ := Option.ne_none_iff_exists'.mp htaking
      rw [MainPc.early_of_taking hr'] at hearly
      cases hearly
  all_goals exact ⟨by simp, rfl⟩

theorem Skip.of_flagOn {pc pc' : MainPc} (h : Skip s pc pc') (hon : pc' = .flagOn) :
    pc = .nullTest := by
  cases h
  case type r =>
    have hearly := dispatch_early r
    rw [hon] at hearly
    cases hearly
  case full => rfl
  all_goals cases hon

theorem MainStep.nullTest (hm : MainStep s s') (hnull : s'.main = .nullTest) :
    s.main = .nullTest ∨ ∃ r, s.main = .item .v4 r := by
  cases hm
  case skip hs => exact absurd hnull hs.ne_nullTest.1
  case abort => exact .inl hnull
  case item x r hmain => cases x <;> first | exact .inr ⟨r, hmain⟩ | cases hnull
  all_goals cases hnull

/-- `run_cmds` goes on only with all four items. -/
theorem mainStep_flagOn (h : s.mainStep = some s') (hon : s'.main = .flagOn) :
    s.main = .flagOn ∨ (s.main = .nullTest ∧ ∀ x, s.rV x ≠ none) := by
  by_cases hnull : s.main = .nullTest
  · refine .inr ⟨hnull, fun x hx => ?_⟩
    have hidle : s.goMain .idle = s' := by
      cases x <;> simpa [mainStep, hnull, hx] using h
    rw [← hidle] at hon
    cases hon
  · have hm := mainStep_cases h
    cases hm
    case skip pc hs => exact absurd (hs.of_flagOn hon) hnull
    case abort => exact .inl hon
    case item x r hmain => cases x <;> cases hon
    all_goals cases hon

theorem Worded.refs_main (h : Worded s) (hs : s.mainStep = some s') : Plain s' ∨ Barred s' := by
  have hm := mainStep_cases hs
  by_cases hitem : ∃ x r, s.main = .item x r
  · obtain ⟨x, r, hmain⟩ := hitem
    obtain rfl : { s with
      main := x.andThen r
      rV := Function.update s.rV x ((r.json (.V x)).map (⟨r.doc, ·⟩)) } = s' := by
      cases x <;> simpa [mainStep, hmain, Var.andThen] using hs
    exact h.refs_item hmain
  have hrV : s'.rV = s.rV := by
    cases hm
    case item x r hmain => exact absurd ⟨x, r, hmain⟩ hitem
    all_goals rfl
  rcases h.refs with hplain | hbarred
  · left
    intro x r hx hr
    exact hplain x r hx (hrV ▸ hr)
  have hoff : s'.sys.hw.runCmdsIsRun = false := by
    rcases hm.flag with hsame | ⟨hmain, -, -⟩ | ⟨r, -, -, hoff⟩
    · exact hsame.trans hbarred.flag
    · exact absurd hmain hbarred.flagOn
    · exact hoff
  right
  refine ⟨hoff, by rw [hm.restart_eq]; exact hbarred.restart, ?_, fun hon => ?_, fun hnull => ?_⟩
  · by_contra hstart
    rcases hm.starting (by simpa using hstart) with hstart | hset
    · rw [hbarred.starting] at hstart
      cases hstart
    · rw [hoff] at hset
      cases hset
  · rcases mainStep_flagOn hs hon with hmain | ⟨hmain, hall⟩
    · exact hbarred.flagOn hmain
    · obtain ⟨x, hx⟩ := hbarred.nullTest hmain
      exact hall x hx
  · rw [hrV]
    rcases hm.nullTest hnull with hmain | ⟨r, hmain⟩
    · exact hbarred.nullTest hmain
    · exact absurd ⟨_, _, hmain⟩ hitem

theorem Worded.offered_main (h : Worded s) (hok : TextsOnly s .main) (hm : MainStep s s')
    (r : Root) (htaking : s'.main.taking = some r) : s'.Offered r := by
  have hsame (hr : s.main.taking = some r) : s'.Offered r := by
    rw [Offered, hm.restart_eq]
    exact h.offered r hr
  cases hm
  case skip hs =>
    rw [goMain, hs.ne_nullTest.2] at htaking
    cases htaking
  case abort => exact hsame htaking
  case accept r' hmain hflag =>
    obtain rfl := Option.some.inj htaking
    exact hok ⟨rfl, ⟨_, hmain⟩, hflag⟩ _ hmain
  case delete hmain => exact hsame (by rw [hmain]; exact htaking)
  case setRoot hmain => exact hsame (by rw [hmain]; exact htaking)
  case item x r' hmain =>
    refine hsame ?_
    rw [hmain]
    cases x <;> first | exact htaking | cases htaking
  all_goals cases htaking

theorem Worded.items_main (h : Worded s) (hm : MainStep s s') (x : Var) (r : Root)
    (hitem : s'.main = .item x r) (y : Var) (hy : s'.main.stale y = false) :
    s'.rV y = (r.json (.V y)).map (⟨r.doc, ·⟩) := by
  cases hm
  case skip hs => exact absurd hitem (hs.keeps.2 x r)
  case abort => exact h.items x r hitem y hy
  case setRoot => cases hy
  case item x' r' hmain =>
    obtain rfl : r' = r := by cases x' <;> cases hitem <;> rfl
    refine h.items_next hmain y ?_
    rw [hmain]
    clear hitem
    cases x' <;> cases y <;> simp_all [MainPc.stale, Var.andThen]
  all_goals cases hitem

theorem Worded.enter {v : Worker} {c : ℕ} {k : Option v.Args} (h : Worded s)
    (hk : v.isTrack = true → ∀ a, k = some a → (v.argsStr a).isSome) (w : Worker)
    (hw : w.isTrack = true) : w.Lettered ((s.sys.enter v c k).task w) := by
  by_cases hwv : w = v
  · subst hwv
    rw [System.enter, System.put_task_self]
    exact (h.lettered w hw).goto (hk hw)
  · rw [System.enter, System.put_task_of_ne hwv]
    exact h.lettered w hw

theorem Worded.start {v : Worker} {c : ℕ} {x : Var} {r : Ref} {a : v.Args} (h : Worded s)
    (hplain : Plain s) (hx : x ≠ .v1) (hr : s.rV x = some r) (ha : v.argsStr a = r.valuestring)
    (w : Worker) (hw : w.isTrack = true) : w.Lettered ((s.sys.enter v c (some a)).task w) := by
  refine h.enter (fun _ b hb => ?_) w hw
  obtain rfl := Option.some.inj hb
  rw [ha]
  exact hplain x r hx hr

theorem Worded.plain (h : Worded s)
    (hstart : s.main.starting = true ∨ ∃ k, (s.restart k).inRun = true) : Plain s := by
  refine h.refs.resolve_right fun hbarred => ?_
  rcases hstart with hstart | ⟨k, hk⟩
  · rw [hbarred.starting] at hstart
    cases hstart
  · rw [hbarred.restart k] at hk
    cases hk

theorem Worded.lettered_main (h : Worded s) (hm : MainStep s s') (w : Worker)
    (hw : w.isTrack = true) : w.Lettered (s'.sys.task w) := by
  have hplain (hstart : s.main.starting = true) : Plain s := h.plain (.inl hstart)
  cases hm
  case play => exact h.enter (fun htrack => by cases htrack) w hw
  case notesRun r hmain hr =>
    exact h.start (hplain (by rw [hmain]; rfl)) (by decide) hr rfl w hw
  case motorRun r hmain hr =>
    exact h.start (hplain (by rw [hmain]; rfl)) (by decide) hr rfl w hw
  case ledRun r hmain hr =>
    exact h.start (hplain (by rw [hmain]; rfl)) (by decide) hr rfl w hw
  case motorStop => exact h.enter (fun _ a ha => by cases ha) w hw
  case ledStop => exact h.enter (fun _ a ha => by cases ha) w hw
  case notesStop => exact h.enter (fun _ a ha => by cases ha) w hw
  all_goals exact h.lettered w hw

/-- A `run_cmds_task` restarts the tracks only after it has found the flag set. -/
theorem RestartStep.inRun {j : ℕ} (hr : RestartStep s k s') (h : (s'.restart j).inRun = true) :
    (s.restart j).inRun = true ∨ s.sys.hw.runCmdsIsRun = true := by
  by_cases hj : j = k
  case neg => exact .inl (by rwa [hr.restart_of_ne hj] at h)
  subst hj
  cases hr
  case abort => exact .inl h
  case print _ hflag => exact .inr hflag
  case isLoop hk => exact .inl (by rw [hk]; rfl)
  case loop hk => exact .inl (by rw [hk]; rfl)
  case notesRun hk _ => exact .inl (by rw [hk]; rfl)
  case motorRun hk _ => exact .inl (by rw [hk]; rfl)
  all_goals
    rw [goRestart_restart, if_pos rfl] at h
    cases h

theorem Worded.lettered_restart (h : Worded s) (hr : RestartStep s k s') (w : Worker)
    (hw : w.isTrack = true) : w.Lettered (s'.sys.task w) := by
  have hplain (hstart : (s.restart k).inRun = true) : Plain s := h.plain (.inr ⟨k, hstart⟩)
  cases hr
  case notesRun r hk hr => exact h.start (hplain (by rw [hk]; rfl)) (by decide) hr rfl w hw
  case motorRun r hk hr => exact h.start (hplain (by rw [hk]; rfl)) (by decide) hr rfl w hw
  case ledRun r hk hr => exact h.start (hplain (by rw [hk]; rfl)) (by decide) hr rfl w hw
  all_goals exact h.lettered w hw

theorem RestartStep.not_inRun (hr : RestartStep s k s') (hoff : s.sys.hw.runCmdsIsRun = false)
    (hidle : ∀ k, (s.restart k).inRun = false) (j : ℕ) : (s'.restart j).inRun = false := by
  by_contra hrun
  rcases hr.inRun (by simpa using hrun) with hrun | hset
  · rw [hidle j] at hrun
    cases hrun
  · rw [hoff] at hset
    cases hset

theorem Worded.mainStep (h : Worded s) (hok : TextsOnly s .main) (hs : s.mainStep = some s') :
    Worded s' where
  early := (mainStep_cases hs).flag_of_early h.early
  offered := h.offered_main hok (mainStep_cases hs)
  items := h.items_main (mainStep_cases hs)
  refs := h.refs_main hs
  lettered := h.lettered_main (mainStep_cases hs)

theorem RestartStep.rV_eq (hr : RestartStep s k s') : s'.rV = s.rV := by
  cases hr <;> rfl

theorem Worded.restartStep (h : Worded s) (hr : RestartStep s k s') : Worded s' where
  early he := hr.flag_off (h.early (hr.main_eq ▸ he))
  offered r htaking := by
    rw [hr.main_eq] at htaking
    have hoff := h.early (MainPc.early_of_taking htaking)
    exact (h.offered r htaking).imp id (And.imp id (hr.not_inRun hoff))
  items := by
    rw [hr.main_eq, hr.rV_eq]
    exact h.items
  refs := by
    rcases h.refs with hplain | hbarred
    · left
      intro x r hx hr'
      exact hplain x r hx (hr.rV_eq ▸ hr')
    · right
      refine ⟨hr.flag_off hbarred.flag, hr.not_inRun hbarred.flag hbarred.restart, ?_, ?_, ?_⟩
      · rw [hr.main_eq]
        exact hbarred.starting
      · rw [hr.main_eq]
        exact hbarred.flagOn
      · rw [hr.main_eq, hr.rV_eq]
        exact hbarred.nullTest
  lettered := h.lettered_restart hr

theorem Worded.sys {sys : System} (h : Worded s)
    (hflag : sys.hw.runCmdsIsRun = s.sys.hw.runCmdsIsRun)
    (hlettered : ∀ w : Worker, w.isTrack = true → w.Lettered (sys.task w)) :
    Worded { s with sys := sys } where
  early he := hflag.trans (h.early he)
  offered := h.offered
  items := h.items
  refs := h.refs.imp id fun hb =>
    ⟨hflag.trans hb.flag, hb.restart, hb.starting, hb.flagOn, hb.nullTest⟩
  lettered := hlettered

theorem Worded.parse {json : Json} (h : Worded s) :
    Worded { s with main := .type ⟨s.parsed, json⟩, parsed := s.parsed + 1 } where
  early he := by cases he
  offered _ htaking := by cases htaking
  items _ _ hitem := by cases hitem
  refs := h.refs.imp id fun hb =>
    ⟨hb.flag, hb.restart, rfl, fun hon => (by cases hon), fun hnull => (by cases hnull)⟩
  lettered := h.lettered

theorem Worded.put {v : Worker} {hw : Hw} {t : State v.Args v.Pc} (h : Worded s)
    (hflag : hw.runCmdsIsRun = s.sys.hw.runCmdsIsRun)
    (ht : v.isTrack = true → v.Lettered t) : Worded { s with sys := s.sys.put v hw t } := by
  refine h.sys hflag fun w hw' => ?_
  by_cases hwv : w = v
  · subst hwv
    rw [System.put_task_self]
    exact ht hw'
  · rw [System.put_task_of_ne hwv]
    exact h.lettered w hw'

theorem Worded.step (h : Worded s) (hok : TextsOnly s a) (hs : s.step a = some s') :
    Worded s' := by
  cases step_cases hs with
  | ignore => exact h
  | parse => exact h.parse
  | main => exact h.mainStep hok (mainStep_of_step hs)
  | restart _ _ hr => exact h.restartStep hr
  | tick => exact h.sys rfl h.lettered
  | call hc => exact h.put rfl fun hw => (h.lettered _ hw).call hw hc
  | task ht => exact h.put (task_frame ht).1 fun hw => (h.lettered _ hw).task ht

theorem Worded.run (h : Reach Firmware.step TextsOnly Firmware.init s) : Worded s :=
  h.invariant .init fun _ _ _ hI hok hs => hI.step hok hs

end Firmware

open Firmware

/-- No call that starts a track, no `handle->args` that an instance has still to read, is a
NULL pointer, and no instance is about to dereference one. -/
theorem strings_valid {s : Firmware} (h : Reach Firmware.step TextsOnly Firmware.init s)
    {w : Worker} (hw : w.isTrack = true) :
    (∀ c a, ((s.sys.task w).call c).carries = some a → (w.argsStr a).isSome) ∧
      (w.Awaited (s.sys.task w) → (w.argsStr (s.sys.task w).args).isSome) ∧
      ∀ i, w.isNull ((s.sys.task w).pc i) = false := by
  obtain ⟨⟨hargs, hcarried⟩, hnull⟩ := (Worded.run h).lettered w hw
  exact ⟨hcarried, hargs, hnull⟩

def Firmware.textsOnly (s : Firmware) (_ : FwAct) : Bool :=
  match s.main with
  | .cCmds r => [Var.v2, .v3, .v4].all fun x =>
      (r.json (.V x)).all fun item => item.valuestring.isSome
  | _ => true

theorem textsOnly_of_check {s : Firmware} {a : FwAct} (h : s.textsOnly a = true) :
    TextsOnly s a := by
  rintro - r hmain
  simp only [textsOnly, hmain, List.all_cons, List.all_nil, Bool.and_true, Bool.and_eq_true] at h
  obtain ⟨h₂, h₃, h₄⟩ := h
  refine .inl fun x item hx hitem => ?_
  cases x
  case v1 => exact absurd rfl hx
  case v2 => simpa [hitem] using h₂
  case v3 => simpa [hitem] using h₃
  case v4 => simpa [hitem] using h₄

/-- The motor instance of a first message has not yet read its string. -/
theorem strings_valid_first : ∃ s : Firmware, Worker.motor.Awaited (s.sys.task .motor) ∧
    (Worker.motor.argsStr (s.sys.task .motor).args).isSome := by
  obtain ⟨s, hs, hobs⟩ : ∃ s, run Firmware.step textsOnly Firmware.init
      (startTracks (cmdsMessage 0 [] [] [])) = some s ∧
        Worker.motor.entering ((s.sys.task .motor).pc 0) = true :=
    Option.map_eq_some_iff.mp (by decide +kernel)
  have hreach := reach_of_run (fun _ _ => textsOnly_of_check) hs
  have hawaited : Worker.motor.Awaited (s.sys.task .motor) := .inl ⟨0, hobs⟩
  exact ⟨s, hawaited, (strings_valid hreach (w := .motor) rfl).2.1 hawaited⟩

def numberMessage : Json
  | .V .v2 => some (number 1)
  | key => cmdsMessage 0 [] [] [] key

theorem strings_null : ¬ ∀ (s : Firmware) (w : Worker),
    Reach Firmware.step (fun _ _ => True) Firmware.init s → w.isTrack = true →
      (∀ c a, ((s.sys.task w).call c).carries = some a → (w.argsStr a).isSome) ∧
        (w.Awaited (s.sys.task w) → (w.argsStr (s.sys.task w).args).isSome) ∧
        ∀ i, w.isNull ((s.sys.task w).pc i) = false := by
  intro h
  obtain ⟨s, hs, hnull⟩ : ∃ s, run Firmware.step (fun _ _ => true) Firmware.init
      (.receive (some numberMessage) :: mains 11 ++ calls .notes 0 4 ++ tasks .notes 0 2 true) =
        some s ∧ Worker.notes.isNull ((s.sys.task .notes).pc 0) = true :=
    Option.map_eq_some_iff.mp (by decide +kernel)
  obtain ⟨-, -, hnot⟩ := h s .notes (reach_of_run (fun _ _ _ => trivial) hs) rfl
  rw [hnot 0] at hnull
  cases hnull

end Car
