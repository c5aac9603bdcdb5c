import CarFirmware.Lib.Deadline
import CarFirmware.Proofs.Players
import CarFirmware.Proofs.Timeline

/-! The 5 s that `motor_run_cmds_stop` and `led_run_cmds_stop` wait are enough. No command of 0
to 8 beats delays for longer, so a stopped instance has set the bit before, if no time passes
while it could go on. Beats below 0 are left out: their durations are not what `int` and
`TickType_t` compute. -/

namespace Car

open Handshake Transition

/-- The commands of the string are of 0 to 8 beats. -/
def Brief (s : CStr) : Prop := ∀ c ∈ commandList s, 0 ≤ c.beat ∧ c.beat ≤ 8

def longest : ℕ := 480

def Worker.Given : (w : Worker) → w.Args → Prop
  | .notes | .motor | .light => fun args : Option Str => ∀ str, args = some str → Brief str.text
  | .mp3 | .renderer | .audioConvert => fun _ => True

theorem ticks_of_beat {b : ℤ} (h : b ≤ 8) : 60 * b.toNat ≤ longest := by
  rw [longest]
  omega

theorem brief_exec {run : Bool} {s : CStr} {pos pos' : ℕ} {pc : CmdPc} {c : Cmd}
    (hs : Brief (s.drop pos)) (h : cmdStep run s pos pc = .exec c pos') :
    pc = .parse ∧ c.beat ≤ 8 ∧ Brief (s.drop pos') := by
  obtain ⟨rfl, hlist⟩ := cmdStep_exec h
  rw [Brief, hlist] at hs
  exact ⟨rfl, (hs c (List.mem_cons_self ..)).2, fun c' hc' => hs c' (List.mem_cons_of_mem _ hc')⟩

theorem cmdStep_goto {run : Bool} {s : CStr} {pos : ℕ} {pc pc' : CmdPc}
    (h : cmdStep run s pos pc = .goto pc') : pc' = .test ∨ (pc' = .parse ∧ run = true) := by
  cases pc with
  | loop =>
    simp only [cmdStep] at h
    split_ifs at h
    cases h
    exact .inl rfl
  | test =>
    simp only [cmdStep] at h
    split_ifs at h with hrun
    cases h
    exact .inr ⟨rfl, hrun⟩
  | parse =>
    simp only [cmdStep] at h
    split at h <;> cases h

def motorPace : Pace MotorPc where
  wake
    | .delay d _ _ => some d
    | _ => none
  rest
    | .cmds .parse _ _ => longest
    | .exec _ c _ _ => motorDelay c
    | _ => 0

def lightPace : Pace LedPc where
  wake
    | .delay d _ _ _ => some d
    | _ => none
  rest
    | .cmds .parse _ _ => longest
    | .acts l _ _ | .delay _ l _ _ => actTicks l
    | _ => 0

def MotorPc.Brief : MotorPc → Prop
  | .cmds _ s pos | .delay _ s pos => Car.Brief (s.text.drop pos)
  | .exec _ c s pos => c.beat ≤ 8 ∧ Car.Brief (s.text.drop pos)
  | _ => True

def LedPc.Brief : LedPc → Prop
  | .cmds _ s pos | .acts _ s pos | .delay _ _ s pos => Car.Brief (s.text.drop pos)
  | _ => True

theorem motorDelay_le {c : Cmd} (h : c.beat ≤ 8) : motorDelay c ≤ longest := by
  rw [motorDelay, pdMsToTicks_delaytime]
  exact ticks_of_beat h

theorem actTicks_ledActs_le {c : Cmd} (h : c.beat ≤ 8) : actTicks (ledActs c) ≤ longest := by
  have hticks := ticks_of_beat h
  rw [actTicks_ledActs]
  split_ifs
  · omega
  · exact hticks

section Task

variable {i : ℕ} {run : Bool} {args : Option Str} {hw hw' : Hw} {eff : Effect}

/-- A statement that does not begin a delay brings the next look at the flag no later. -/
theorem settled {β : Type} {T : Pace β} {now : ℕ} {pc pc' : β} {brief : Prop}
    (hot : T.OnTime longest now pc) (hbrief : brief) (hwake : T.wake pc' = none)
    (hrest : T.rest pc' = 0) : brief ∧ T.OnTime longest now pc' ∧
      (run = false → T.due pc' now ≤ T.due pc now) := by
  obtain ⟨hot', hdue⟩ := hot.settle hwake hrest
  exact ⟨hbrief, hot', fun _ => hdue⟩

theorem motorRunCmdsTask_onTime {pc pc' : MotorPc} (hbrief : pc.Brief)
    (hgiven : Worker.motor.Given args) (hot : motorPace.OnTime longest hw.now pc)
    (h : motorRunCmdsTask i run args pc hw = some (pc', eff, hw')) :
    pc'.Brief ∧ motorPace.OnTime longest hw.now pc' ∧
      (run = false → motorPace.due pc' hw.now ≤ motorPace.due pc hw.now) := by
  cases pc with
  | absent | ended => cases h
  | entry =>
    cases h
    cases args with
    | none => exact settled hot trivial rfl rfl
    | some s => exact settled hot (hgiven s rfl) rfl rfl
  | null | setBits | delete =>
    cases h
    exact settled hot trivial rfl rfl
  | cmds cpc s pos =>
    simp only [motorRunCmdsTask] at h
    cases hout : cmdStep run s.text pos cpc with
    | goto cpc' =>
      rw [hout] at h
      cases h
      rcases cmdStep_goto hout with rfl | ⟨rfl, rfl⟩
      · exact settled hot hbrief rfl rfl
      · exact ⟨hbrief, Pace.onTime_of_ready rfl le_rfl, fun hoff => absurd hoff (by decide)⟩
    | leave =>
      rw [hout] at h
      cases h
      exact settled hot trivial rfl rfl
    | exec c pos' =>
      rw [hout] at h
      cases h
      obtain ⟨rfl, hbeat, hrest⟩ := brief_exec hbrief hout
      have hdelay := motorDelay_le hbeat
      exact ⟨⟨hbeat, hrest⟩, Pace.onTime_of_ready rfl hdelay, fun _ => Nat.add_le_add_left hdelay _⟩
  | exec ops c s pos =>
    cases ops with
    | nil =>
      cases h
      exact ⟨hbrief.2, ⟨Nat.le_add_right _ _, hot.due⟩, fun _ => le_rfl⟩
    | cons op ops =>
      cases h
      exact ⟨hbrief, ⟨hot.wake, hot.due⟩, fun _ => le_rfl⟩
  | delay d s pos =>
    simp only [motorRunCmdsTask] at h
    split_ifs at h
    cases h
    exact settled hot hbrief rfl rfl
  | carStop ops =>
    cases ops <;> cases h <;> exact settled hot trivial rfl rfl

theorem ledRunCmdsTask_onTime {pc pc' : LedPc} (hbrief : pc.Brief)
    (hgiven : Worker.light.Given args) (hot : lightPace.OnTime longest hw.now pc)
    (h : ledRunCmdsTask run args pc hw = some (pc', eff, hw')) :
    pc'.Brief ∧ lightPace.OnTime longest hw.now pc' ∧
      (run = false → lightPace.due pc' hw.now ≤ lightPace.due pc hw.now) := by
  cases pc with
  | absent | ended => cases h
  | entry =>
    cases h
    cases args with
    | none => exact settled hot trivial rfl rfl
    | some s => exact settled hot (hgiven s rfl) rfl rfl
  | null | ledOn | clear | cbCreate | setBits | delete =>
    cases h
    exact settled hot trivial rfl rfl
  | test | cbTest =>
    cases h
    split_ifs <;> exact settled hot trivial rfl rfl
  | cmds cpc s pos =>
    simp only [ledRunCmdsTask] at h
    cases hout : cmdStep run s.text pos cpc with
    | goto cpc' =>
      rw [hout] at h
      cases h
      rcases cmdStep_goto hout with rfl | ⟨rfl, rfl⟩
      · exact settled hot hbrief rfl rfl
      · exact ⟨hbrief, Pace.onTime_of_ready rfl le_rfl, fun hoff => absurd hoff (by decide)⟩
    | leave =>
      rw [hout] at h
      cases h
      exact settled hot trivial rfl rfl
    | exec c pos' =>
      rw [hout] at h
      cases h
      obtain ⟨rfl, hbeat, hrest⟩ := brief_exec hbrief hout
      have hdelay := actTicks_ledActs_le hbeat
      exact ⟨hrest, Pace.onTime_of_ready rfl hdelay, fun _ => Nat.add_le_add_left hdelay _⟩
  | acts l s pos =>
    cases l with
    | nil =>
      cases h
      exact settled hot hbrief rfl rfl
    | cons act l =>
      cases act with
      | fill f =>
        cases h
        have hsame : lightPace.due (.acts (.fill f :: l) s pos) hw.now =
            lightPace.due (.acts l s pos) hw.now := by
          rw [Pace.due_of_ready rfl, Pace.due_of_ready rfl]
          exact congrArg (hw.now + ·) ((actTicks_cons _ _).trans (Nat.zero_add _))
        exact ⟨hbrief, ⟨hot.wake, hsame ▸ hot.due⟩, fun _ => hsame.ge⟩
      | delay n =>
        cases h
        have hsame : lightPace.due (.acts (.delay n :: l) s pos) hw.now =
            lightPace.due (.delay (hw.now + n) l s pos) hw.now := by
          rw [Pace.due_of_ready rfl, Pace.due_of_wake rfl, Nat.add_assoc]
          exact congrArg (hw.now + ·) (actTicks_cons _ _)
        exact ⟨hbrief, ⟨Nat.le_add_right _ _, hsame ▸ hot.due⟩, fun _ => hsame.ge⟩
  | delay d l s pos =>
    simp only [ledRunCmdsTask] at h
    split_ifs at h with hd
    cases h
    obtain rfl : d = hw.now := le_antisymm hd hot.wake
    exact ⟨hbrief, ⟨le_rfl, hot.due⟩, fun _ => le_rfl⟩

end Task

/-! ### In the system -/

/-- What is known of the time that the instances of a worker take. -/
structure Schedule (w : Worker) where
  pace : Pace w.Pc
  brief : w.Pc → Prop
  player : w.isPlayer = true
  loyal : w ≠ .notes
  timeout : longest < w.body.proto.timeout
  given_none : w.Given w.noArgs
  brief_fresh : brief w.body.fresh
  fresh : pace.wake w.body.fresh = none ∧ pace.rest w.body.fresh = 0
  ready : ∀ i run args pc hw, (w.body.phase pc).live = true →
    (pace.wake pc).getD hw.now ≤ hw.now → ∃ e, w.body.task e i run args pc hw ≠ none
  task : ∀ e i run args pc hw pc' eff hw', brief pc → w.Given args →
    pace.OnTime longest hw.now pc → w.body.task e i run args pc hw = some (pc', eff, hw') →
      brief pc' ∧ pace.OnTime longest hw.now pc' ∧
        (run = false → pace.due pc' hw.now ≤ pace.due pc hw.now)

theorem motorRunCmdsTask_ready (i : ℕ) (run : Bool) (args : Option Str) (pc : MotorPc) (hw : Hw)
    (hlive : pc.phase.live = true) (hwake : (motorPace.wake pc).getD hw.now ≤ hw.now) :
    motorRunCmdsTask i run args pc hw ≠ none := by
  cases pc with
  | absent | ended => cases hlive
  | exec ops c s pos => cases ops <;> exact Option.some_ne_none _
  | carStop ops => cases ops <;> exact Option.some_ne_none _
  | delay d s pos =>
    have hd : d ≤ hw.now := hwake
    rw [motorRunCmdsTask, if_pos hd]
    exact Option.some_ne_none _
  | _ => exact Option.some_ne_none _

theorem ledRunCmdsTask_ready (run : Bool) (args : Option Str) (pc : LedPc) (hw : Hw)
    (hlive : pc.phase.live = true) (hwake : (lightPace.wake pc).getD hw.now ≤ hw.now) :
    ledRunCmdsTask run args pc hw ≠ none := by
  cases pc with
  | absent | ended => cases hlive
  | acts l s pos =>
    cases l with
    | nil => exact Option.some_ne_none _
    | cons act l => cases act <;> exact Option.some_ne_none _
  | delay d l s pos =>
    have hd : d ≤ hw.now := hwake
    rw [ledRunCmdsTask, if_pos hd]
    exact Option.some_ne_none _
  | _ => exact Option.some_ne_none _

def motorSchedule : Schedule .motor where
  pace := motorPace
  brief := MotorPc.Brief
  player := rfl
  loyal := by decide
  timeout := by decide
  given_none := nofun
  brief_fresh := trivial
  fresh := ⟨rfl, rfl⟩
  ready i run args pc hw hlive hwake := ⟨(), motorRunCmdsTask_ready i run args pc hw hlive hwake⟩
  task _ _ _ _ _ _ _ _ _ hb hg hot h := motorRunCmdsTask_onTime hb hg hot h

def lightSchedule : Schedule .light where
  pace := lightPace
  brief := LedPc.Brief
  player := rfl
  loyal := by decide
  timeout := by decide
  given_none := nofun
  brief_fresh := trivial
  fresh := ⟨rfl, rfl⟩
  ready _ run args pc hw hlive hwake := ⟨(), ledRunCmdsTask_ready run args pc hw hlive hwake⟩
  task _ _ _ _ _ _ _ _ _ hb hg hot h := ledRunCmdsTask_onTime hb hg hot h

/-- A stop clears the bit only while exactly one instance has yet to set it. -/
def Alone (w : Worker) (s : State w.Args w.Pc) (a : Act w.Args w.Pc) : Prop :=
  ∀ c now, a = .call c now → (s.call c).arming w.body.proto.guarded = true →
    ∃ i, (w.body.phase (s.pc i)).live = true ∧ ∀ j, (w.body.phase (s.pc j)).live = true → j = i

/-- Time passes only while no instance that has yet to set the bit can execute a statement. -/
def Prompt (w : Worker) (s : System) (a : SysAct) : Prop :=
  ∀ n, a = .tick n → ∀ i, (w.body.phase ((s.task w).pc i)).live = true → ∀ m < n, ∀ e,
    w.body.task e i (s.task w).taskRun (s.task w).args ((s.task w).pc i)
      { s.hw with now := s.hw.now + m } = none

/-- The calls on `w` follow one another, its instances are not kept from running, and its
strings are brief. -/
structure Punctual (w : Worker) (s : System) (a : SysAct) : Prop where
  sequential : System.Meets w Sequential s a
  alone : System.Meets w (Alone w) s a
  prompt : Prompt w s a
  brief : ∀ c k, a = .task w (.begin c (some k)) → w.Given k

section Kept

variable {w : Worker} {T : Schedule w} {s s' : System} {a : SysAct}

theorem Prompt.sleeps {n i : ℕ} (h : Prompt w s (.tick n))
    (hlive : (w.body.phase ((s.task w).pc i)).live = true)
    (hot : T.pace.OnTime longest s.hw.now ((s.task w).pc i)) :
    T.pace.Sleeps s.hw.now n ((s.task w).pc i) := by
  by_contra hlate
  have hwake := hot.wake
  simp only [Pace.Sleeps, not_le] at hlate
  -- the instance could have gone on when its delay was over
  obtain ⟨m, hm⟩ := Nat.le.dest hwake
  have hready : (T.pace.wake ((s.task w).pc i)).getD (s.hw.now + m) ≤ s.hw.now + m := by
    cases hw : T.pace.wake ((s.task w).pc i) with
    | none => exact le_rfl
    | some d =>
      rw [hw] at hm
      exact hm.ge
  obtain ⟨e, he⟩ := T.ready i (s.task w).taskRun (s.task w).args ((s.task w).pc i)
    { s.hw with now := s.hw.now + m } hlive hready
  exact he (h n rfl i hlive m (by omega) e)

structure Kept (T : Schedule w) (s : System) : Prop where
  settled : Settled w.body.proto w.body.phase (s.task w)
  signal : Signal w.body.proto w.body.phase (s.task w)
  inTime : InTime T.pace w.body.phase longest s.hw.now (s.task w)
  supplied : Supplied w.Given (s.task w)
  brief : ∀ i, (w.body.phase ((s.task w).pc i)).live = true → T.brief ((s.task w).pc i)
  answered : ∀ c k, (s.task w).call c ≠ .ret k false

namespace Kept

theorem init (T : Schedule w) : Kept T System.init where
  settled := .init _ w.body.absent_phase
  signal := .init _ _
  inTime := .init _ w.body.absent_phase
  supplied := .init _ T.given_none
  brief _ hi := absurd (w.body.absent_phase ▸ hi : Phase.absent.live = true) (by decide)
  answered _ _ := nofun

theorem congr (h : Kept T s) (htask : s'.task w = s.task w) (hnow : s'.hw.now = s.hw.now) :
    Kept T s' where
  settled := htask ▸ h.settled
  signal := htask ▸ h.signal
  inTime := hnow ▸ htask ▸ h.inTime
  supplied := htask ▸ h.supplied
  brief := htask ▸ h.brief
  answered := htask ▸ h.answered

theorem tick {n : ℕ} (h : Kept T s) (hp : Prompt w s (.tick n)) :
    Kept T { s with hw := { s.hw with now := s.hw.now + n } } :=
  { h with inTime := h.inTime.tick fun i hi => hp.sleeps hi (h.inTime.onTime i hi) }

theorem not_expired {c : ℕ} {t : State w.Args w.Pc} (h : Kept T s)
    (hs : State.CallStep w.body.proto w.body.fresh s.hw.now (s.task w) c t)
    (hb : ((s.task w).call c).blocked = true) : c ∉ (s.task w).waiters := by
  intro hwait
  obtain ⟨i, hi⟩ := h.signal.waiting c hwait
  cases hs
  case woken hnot => exact hnot hwait
  case expire hc _ hd => exact h.inTime.not_live hc hwait hd i hi
  all_goals simp_all [Call.blocked]

theorem exclusive {b : Act w.Args w.Pc} (ha : Alone w (s.task w) b) (hg : w.isPlayer = true) :
    Exclusive w.body.proto w.body.phase (s.task w) b := by
  intro c now hb harming i hi
  obtain ⟨i₀, -, hall⟩ := ha c now hb harming
  refine ⟨fun hplain => ?_, fun j hj => ?_⟩
  · rw [w.guarded_eq, hg] at hplain
    cases hplain
  · rw [hall j hj, hall i (by rw [hi]; rfl)]

theorem begin {c : ℕ} {k : Option w.Args} (h : Kept T s) (hidle : ∀ c', (s.task w).call c' = .idle)
    (hk : ∀ a, k = some a → w.Given a) :
    Kept T (s.put w s.hw ((s.task w).goto c (w.body.proto.entry k))) := by
  have hg : w.body.proto.guarded = true := w.guarded_eq.trans T.player
  have hsignal : Handshake.step w.body.proto w.body.phase w.body.fresh (s.task w) (.begin c k) =
      some ((s.task w).goto c (w.body.proto.entry k)) := by
    simp only [Handshake.step, State.begin, hidle c]
  refine ⟨?_, ?_, ?_, ?_, ?_, ?_⟩ <;> simp only [System.put_task_self, System.put_hw]
  · exact h.settled.begin hg hidle
  · refine h.signal.step hg w.body.fresh_active h.settled.base (fun _ _ _ => hidle) ?_ hsignal
    exact ⟨fun _ _ heq => (by cases heq), fun _ _ _ heq => (by cases heq)⟩
  · exact h.inTime.begin hidle
  · exact h.supplied.begin hk
  · exact h.brief
  · intro c' k'
    rw [State.goto_call]
    split_ifs
    · exact w.body.proto.entry_ne_ret k k' false
    · exact h.answered c' k'

theorem call {c : ℕ} {t : State w.Args w.Pc} (h : Kept T s)
    (ha : Alone w (s.task w) (.call c s.hw.now))
    (hs : State.CallStep w.body.proto w.body.fresh s.hw.now (s.task w) c t) :
    Kept T (s.put w s.hw t) := by
  have hg : w.body.proto.guarded = true := w.guarded_eq.trans T.player
  have hpatient : Patient w.body.phase (s.task w) (.call c s.hw.now) := by
    rintro c' now heq hb hwait
    cases heq
    exact absurd hwait (h.not_expired hs hb)
  have hheard : Heard w.body.proto w.body.phase (s.task w) (.call c s.hw.now) := by
    refine ⟨fun c' now heq harming => ?_, fun _ _ _ heq => (by cases heq)⟩
    obtain ⟨i, hi, -⟩ := ha c' now heq harming
    exact ⟨i, hi⟩
  have hfresh : T.pace.OnTime longest s.hw.now w.body.fresh :=
    Pace.onTime_of_ready T.fresh.1 (T.fresh.2.trans_le (Nat.zero_le _))
  refine ⟨?_, ?_, ?_, ?_, ?_, ?_⟩ <;> simp only [System.put_task_self, System.put_hw]
  · exact h.settled.callStep (exclusive ha T.player) hpatient hs
  · exact h.signal.callStep hg w.body.fresh_active h.settled.base hheard hs
  · exact h.inTime.callStep T.timeout hfresh h.settled.base hs
  · exact h.supplied.callStep hg hs
  · intro i hi
    rcases hs.pc with hpc | ⟨-, -, hpc⟩
    · rw [hpc] at hi ⊢
      exact h.brief i hi
    · rw [hpc, Function.update_apply] at hi ⊢
      split_ifs at hi ⊢
      · exact T.brief_fresh
      · exact h.brief i hi
  · intro c' k' hret
    by_cases hcc : c' = c
    · subst hcc
      have hnot := h.not_expired hs
      cases hs <;> simp only [State.goto_call, if_true] at hret
      case expire hc hwait _ => exact hnot (by rw [hc]; rfl) hwait
      case runTest => split_ifs at hret
      case stopTest k _ =>
        split_ifs at hret
        cases k <;> cases hret
      case ret k _ _ => cases k <;> cases hret
      case set => split_ifs at hret
      all_goals cases hret
    · rw [hs.call_of_ne hcc] at hret
      exact h.answered c' k' hret

theorem inst {e : w.Env} {i : ℕ} {pc : w.Pc} {eff : Effect} {hw : Hw} (h : Kept T s)
    (ht : w.body.task e i (s.task w).taskRun (s.task w).args ((s.task w).pc i) s.hw =
      some (pc, eff, hw)) :
    Kept T (s.put w hw ((s.task w).move w.body.proto i pc eff)) := by
  have hg : w.body.proto.guarded = true := w.guarded_eq.trans T.player
  have hl := w.body.lawful ht
  have hheard : Heard w.body.proto w.body.phase (s.task w) (.inst i pc eff) := by
    refine ⟨fun _ _ heq => (by cases heq), fun j pc' eff' heq hp hp' => ?_⟩
    cases heq
    exact absurd hp' (loyal_of_ne_notes T.loyal ht hp)
  have hpc (hlive : (w.body.phase pc).live = true) : T.brief pc ∧
      T.pace.OnTime longest s.hw.now pc ∧ ((s.task w).taskRun = false →
        T.pace.due pc s.hw.now ≤ T.pace.due ((s.task w).pc i) s.hw.now) := by
    have hlive' := hl.live_of_live hlive
    exact T.task e i _ _ _ _ _ _ _ (h.brief i hlive') h.supplied.args (h.inTime.onTime i hlive') ht
  refine ⟨?_, ?_, ?_, ?_, ?_, ?_⟩ <;> simp only [System.put_task_self, System.put_hw]
  · exact h.settled.inst hl
  · exact h.signal.inst hg h.settled.base hheard hl
  · rw [task_now ht]
    exact h.inTime.inst hl fun hlive => (hpc hlive).2
  · exact h.supplied.inst
  · intro j hj
    rw [State.move_pc] at hj ⊢
    split_ifs at hj ⊢
    · exact (hpc hj).1
    · exact h.brief j hj
  · intro c k
    rw [State.move_call]
    exact h.answered c k

theorem step (h : Kept T s) (ha : Punctual w s a) (hs : System.step s a = some s') :
    Kept T s' := by
  obtain ⟨n, rfl, rfl⟩ | ⟨v, b, hw, t, rfl, ht, rfl⟩ | ⟨op, rfl, rfl⟩ | ⟨b, rfl, rfl⟩ | ⟨rfl, rfl⟩ :=
    System.step_cases hs
  case inl => exact h.tick ha.prompt
  case inr.inl =>
    by_cases hv : w = v
    case neg =>
      refine h.congr (System.put_task_of_ne hv s hw t) ?_
      obtain ⟨-, -, -, rfl, -, -⟩ | ⟨-, -, rfl, -⟩ | ⟨j, e, pc, eff, -, hr, -, -⟩ :=
        Body.step_cases ht
      · rfl
      · rfl
      · exact task_now hr
    subst hv
    have hact : System.act w s (.task w b) = w.body.act s.hw.now s.hw (s.task w) b := by
      simp only [System.act, dif_pos]
    obtain ⟨c, k, rfl, rfl, -, rfl⟩ | ⟨c, rfl, rfl, hc⟩ | ⟨i, e, pc, eff, rfl, hr, -, rfl⟩ :=
      Body.step_cases ht
    · refine h.begin (ha.sequential _ hact c k rfl) fun a hk => ?_
      rw [hk] at ha
      exact ha.brief c a rfl
    · exact h.call (ha.alone _ hact) hc
    · exact h.inst hr
  case inr.inr.inl =>
    refine h.congr rfl ?_
    cases op <;> rfl
  case inr.inr.inr.inl => exact h.congr rfl rfl
  case inr.inr.inr.inr => exact h.congr rfl rfl

theorem run (T : Schedule w) (h : Reach System.step (Punctual w) System.init s) : Kept T s :=
  h.invariant (.init T) fun _ _ _ hI ha hs => hI.step ha hs

end Kept

end Kept

/-- If the commands are of 0 to 8 beats, a stop clears the bit only while exactly one
instance has yet to set it, and no instance is kept from running, then no stop of the motor or
the light player runs out of its 5 s, whoever gets `ESP_OK` finds no instance in its command
loop, and there is at most one at any time. -/
theorem stop_in_time {w : Worker} {s : System} (hw : w = .motor ∨ w = .light)
    (h : Reach System.step (Punctual w) System.init s) :
    (∀ c k, (s.task w).call c ≠ .ret k false) ∧
      (∀ c k i, (s.task w).call c = .ret k true → ¬ s.Executing w i) ∧
      ∀ i j, s.Executing w i → s.Executing w j → i = j := by
  obtain ⟨T⟩ : Nonempty (Schedule w) := by
    rcases hw with rfl | rfl
    · exact ⟨motorSchedule⟩
    · exact ⟨lightSchedule⟩
  have hkept := Kept.run T h
  refine ⟨hkept.answered, hkept.settled.armed.sound, fun i j hi hj => ?_⟩
  have hi' := hkept.settled.calm.newest i hi
  have hj' := hkept.settled.calm.newest j hj
  omega

/-! ### A run that is punctual -/

theorem motorRunCmdsTask_sleeps {i n m : ℕ} {run : Bool} {args : Option Str} {pc : MotorPc}
    {hw : Hw} (h : motorPace.Sleeps hw.now n pc) (hm : m < n) :
    motorRunCmdsTask i run args pc { hw with now := hw.now + m } = none := by
  cases pc with
  | delay d s pos =>
    have hd : hw.now + n ≤ d := h
    rw [motorRunCmdsTask, if_neg (by simp only; omega)]
  | _ =>
    have hn : hw.now + n ≤ hw.now := h
    omega

instance (s : CStr) : Decidable (Brief s) :=
  inferInstanceAs (Decidable (∀ c ∈ commandList s, 0 ≤ c.beat ∧ c.beat ≤ 8))

/-- The conditions on the motor player, checked for its first instance. -/
def punctual (s : System) : SysAct → Bool
  | .tick n => decide ((s.task .motor).created ≤ 1) &&
      decide (s.hw.now + n ≤ (motorPace.wake ((s.task .motor).pc 0)).getD s.hw.now)
  | .task .motor (.call c) => !((s.task .motor).call c).arming true ||
      (decide ((s.task .motor).created = 1) && ((s.task .motor).pc 0).phase.live)
  | .task .motor (.begin _ (some args)) => args.all fun str => decide (Brief str.text)
  | _ => true

theorem punctual_of_check {s s' : System} {a : SysAct} (hI : s.Solo)
    (h : (System.solo a && punctual s a) = true) (hs : System.step s a = some s') :
    Punctual .motor s a := by
  obtain ⟨hsolo, hcheck⟩ := Bool.and_eq_true_iff.mp h
  refine ⟨hI.sequential hsolo hs .motor, ?_, ?_, ?_⟩
  · rintro b hb c now rfl harming
    obtain ⟨d, rfl, hd⟩ := System.act_eq_some hb
    obtain ⟨rfl, -⟩ := Body.act_call hd
    have harming' : ((s.task .motor).call c).arming true = true := harming
    simp only [punctual, harming', Bool.not_true, Bool.false_or, Bool.and_eq_true,
      decide_eq_true_eq] at hcheck
    exact ⟨0, hcheck.2, fun j hj => eq_zero_of_live hI.numbered hcheck.1 hj⟩
  · rintro n rfl i hi m hm -
    simp only [punctual, Bool.and_eq_true, decide_eq_true_eq] at hcheck
    have hlt := (hI.numbered .motor).lt Worker.motor.body.absent_phase (i := i)
      (by rintro habs; rw [habs] at hi; cases hi)
    obtain rfl : i = 0 := by omega
    exact motorRunCmdsTask_sleeps hcheck.2 hm
  · rintro c args rfl str rfl
    simpa [punctual] using hcheck

/-- A restart while a command of 8 beats is executed, which delays for 4.8 s. -/
def justInTime : List SysAct :=
  let cmds : Str := ⟨0, ['F', ',', '8', ';']⟩
  motorRunCmds 0 (some cmds) :: System.calls .motor 4 ++ System.tasks .motor 0 8 () ++
    motorRunCmds 0 (some cmds) :: System.calls .motor 5 ++
    .tick 480 :: System.tasks .motor 0 8 () ++ System.calls .motor 1

theorem stop_in_time_restart : ∃ (s : System) (k : Option (Option Str)),
    (s.task .motor).call 0 = .ret k true ∧ s.hw.now = 480 ∧ ¬ s.Executing .motor 0 := by
  obtain ⟨s, hs, hobs⟩ : ∃ s,
      run System.step (fun s a => System.solo a && punctual s a) System.init justInTime = some s ∧
        ((s.task .motor).call 0, s.hw.now) =
          (.ret (some (some ⟨0, ['F', ',', '8', ';']⟩)) true, 480) :=
    Option.map_eq_some_iff.mp (by decide +kernel)
  obtain ⟨hcall, hnow⟩ := Prod.mk.inj hobs
  have hreach : Reach System.step (Punctual .motor) System.init s :=
    (System.reach_of_solo_run hs fun _ _ _ hI ha hstep => punctual_of_check hI ha hstep).1
  exact ⟨s, _, hcall, hnow, (stop_in_time (.inl rfl) hreach).2.1 0 _ 0 hcall⟩

end Car
