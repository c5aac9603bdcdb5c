import CarFirmware.Proofs.Stop

/-! What reaches the bridges: the duties given to `ledc_set_duty`, and the state that a
completed motor operation leaves. -/

namespace Car

open Handshake Transition

/-! ### The duty of a speed -/

theorem duty_of_nonneg {v : ℤ} (h : 0 ≤ v) : (v * 1024).tdiv 100 = v * 1024 / 100 :=
  Int.tdiv_eq_ediv_of_nonneg (by omega)

theorem duty_of_neg {v : ℤ} (h : v < 0) : (v * 1024).tdiv 100 = -(-v * 1024 / 100) := by
  have hneg : v * 1024 = -(-v * 1024) := by omega
  rw [hneg, Int.neg_tdiv, Int.tdiv_eq_ediv_of_nonneg (by omega)]

theorem duty_in_range (v : ℤ) :
    (0 ≤ (v * 1024).tdiv 100 ∧ (v * 1024).tdiv 100 ≤ 1024) ↔ 0 ≤ v ∧ v ≤ 100 := by
  rcases le_or_gt 0 v with h | h
  · rw [duty_of_nonneg h]
    omega
  · rw [duty_of_neg h]
    omega

theorem duty_eq_zero (v : ℤ) : (v * 1024).tdiv 100 = 0 ↔ v = 0 := by
  rcases le_or_gt 0 v with h | h
  · rw [duty_of_nonneg h]
    omega
  · rw [duty_of_neg h]
    omega

/-! ### The duties of a run -/

def PwmOp.handed : PwmOp → List ℤ
  | .run _ speed direction =>
    let duty := (speed * 1024).tdiv 100
    if direction ≥ 0 then [duty, 0] else [0, duty]
  | .stop _ => [1024, 1024]
  | .enable | .disable => []

/-- Every duty is one of the 10-bit timer, and the product in `speed*1024/100` is an `int`. -/
structure PwmOp.Fits (op : PwmOp) : Prop where
  duty : ∀ d ∈ op.handed, 0 ≤ d ∧ d ≤ 1024
  product : ∀ b speed direction, op = .run b speed direction →
    -2 ^ 31 ≤ speed * 1024 ∧ speed * 1024 < 2 ^ 31

/-- The product in `speed*1024/100` is an `int`. -/
def PwmOp.Product : PwmOp → Prop
  | .run _ speed _ => -2 ^ 31 ≤ speed * 1024 ∧ speed * 1024 < 2 ^ 31
  | _ => True

/-- The duties of the two channels for a speed and a direction. -/
def dutiesOf (speed direction : ℤ) : ℤ × ℤ :=
  if 0 ≤ direction then ((speed * 1024).tdiv 100, 0) else (0, (speed * 1024).tdiv 100)

/-- A drive statement sets the flag and the duties of its bridge or the enable pin, and nothing
else. -/
def PwmOp.Applied (p p' : Pwm) : PwmOp → Prop
  | .enable => p'.enable = true ∧ p'.duty = p.duty ∧ p'.isRun = p.isRun
  | .disable => p'.enable = false ∧ p'.duty = p.duty ∧ p'.isRun = p.isRun
  | .run b speed direction =>
    p'.duty b = dutiesOf speed direction ∧ (p'.isRun b = true ↔ speed ≠ 0) ∧
      p'.enable = p.enable ∧ ∀ b' ≠ b, p'.duty b' = p.duty b' ∧ p'.isRun b' = p.isRun b'
  | .stop b =>
    p'.duty b = (1024, 1024) ∧ p'.isRun b = false ∧
      p'.enable = p.enable ∧ ∀ b' ≠ b, p'.duty b' = p.duty b' ∧ p'.isRun b' = p.isRun b'

theorem PwmOp.exec_applied (op : PwmOp) (p : Pwm) : op.Applied p (op.exec p) := by
  cases op with
  | enable | disable => exact ⟨rfl, rfl, rfl⟩
  | run b speed direction =>
    refine ⟨Function.update_self .., ?_, rfl, fun b' hb => ?_⟩
    · simp only [exec, drv8833MotorRun, Function.update_self, decide_eq_true_eq]
    · exact ⟨Function.update_of_ne hb .., Function.update_of_ne hb ..⟩
  | stop b =>
    refine ⟨Function.update_self .., Function.update_self .., rfl, fun b' hb => ?_⟩
    exact ⟨Function.update_of_ne hb .., Function.update_of_ne hb ..⟩

theorem fits_run_iff {b : Bridge} {v d : ℤ} : (PwmOp.run b v d).Fits ↔ 0 ≤ v ∧ v ≤ 100 := by
  constructor
  · intro h
    apply (duty_in_range v).mp
    apply h.duty
    simp only [PwmOp.handed]
    split_ifs <;> simp
  · intro hv
    have hduty := (duty_in_range v).mpr hv
    refine ⟨fun x hx => ?_, fun b' v' d' heq => ?_⟩
    · have hx : x = (v * 1024).tdiv 100 ∨ x = 0 := by
        simp only [PwmOp.handed] at hx
        split_ifs at hx <;> simp only [List.mem_cons, List.not_mem_nil, or_false] at hx
        · exact hx
        · exact hx.symm
      rcases hx with rfl | rfl
      · exact hduty
      · omega
    · cases heq
      omega

theorem fits_enable : PwmOp.enable.Fits := ⟨by simp [PwmOp.handed], by simp⟩

theorem fits_disable : PwmOp.disable.Fits := ⟨by simp [PwmOp.handed], by simp⟩

theorem fits_stop (b : Bridge) : (PwmOp.stop b).Fits := ⟨by simp [PwmOp.handed], by simp⟩

theorem fits_of_ne_run {op : PwmOp} (h : ∀ b v d, op ≠ .run b v d) : op.Fits := by
  cases op with
  | enable => exact fits_enable
  | disable => exact fits_disable
  | run b v d => exact absurd rfl (h b v d)
  | stop b => exact fits_stop b

theorem carStop_fits {op : PwmOp} (h : op ∈ carStop) : op.Fits := by
  simp only [carStop, List.mem_cons, List.not_mem_nil, or_false] at h
  rcases h with rfl | rfl | rfl
  · exact fits_stop .A
  · exact fits_stop .B
  · exact fits_disable

inductive Whole : List PwmOp → Prop
  | none : Whole []
  | drive (v₁ d₁ v₂ d₂ : ℤ) : Whole [.enable, .run .A v₁ d₁, .run .B v₂ d₂]
  | stop : Whole carStop

def DrivesInRange (ops : List PwmOp) : Prop := ∃ v₁ d₁ v₂ d₂ : ℤ,
  ops = [.enable, .run .A v₁ d₁, .run .B v₂ d₂] ∧ (0 ≤ v₁ ∧ v₁ ≤ 100) ∧ 0 ≤ v₂ ∧ v₂ ≤ 100

theorem motorRunOneCmd_drives (cmd : CStr) : DrivesInRange (motorRunOneCmd cmd) := by
  unfold motorRunOneCmd carForward carBack
  repeat' refine iteInduction (motive := DrivesInRange) (fun _ => ?_) fun _ => ?_
  all_goals exact ⟨_, _, _, _, rfl, by decide, by decide⟩

theorem motorOps_cases (c : Cmd) : motorOps c = carStop ∨ DrivesInRange (motorOps c) := by
  unfold motorOps
  split
  · exact .inl rfl
  · exact .inr (motorRunOneCmd_drives c.code)

theorem motorOps_whole (c : Cmd) : Whole (motorOps c) := by
  rcases motorOps_cases c with h | ⟨v₁, d₁, v₂, d₂, h, -⟩ <;> rw [h]
  · exact .stop
  · exact .drive v₁ d₁ v₂ d₂

theorem motorOps_fits {c : Cmd} {op : PwmOp} (h : op ∈ motorOps c) : op.Fits := by
  rcases motorOps_cases c with hstop | ⟨v₁, d₁, v₂, d₂, hdrive, h₁, h₂⟩
  · rw [hstop] at h
    exact carStop_fits h
  · simp only [hdrive, List.mem_cons, List.not_mem_nil, or_false] at h
    rcases h with rfl | rfl | rfl
    · exact fits_enable
    · exact fits_run_iff.mpr h₁
    · exact fits_run_iff.mpr h₂

def MainPc.ops : MainPc → List PwmOp
  | .mRun ops _ | .mStop ops _ => ops
  | _ => []

def MotorPc.ops : MotorPc → List PwmOp
  | .exec ops _ _ _ | .carStop ops => ops
  | _ => []

def Bridge.speedKey : Bridge → Key
  | .A => .m1s
  | .B => .m2s

/-- The statements of the branch, if there are any, drive with the speeds of the message. -/
structure MainPc.FromMessage (r : Root) (pc : MainPc) : Prop where
  whole : Whole pc.ops
  speed : ∀ b v d, .run b v d ∈ pc.ops →
    ∃ ops item, pc = .mRun ops r ∧ r.json b.speedKey = some item ∧ item.valueint = v

theorem MainPc.FromMessage.of_nil {r : Root} {pc : MainPc} (h : pc.ops = []) :
    pc.FromMessage r :=
  ⟨h ▸ .none, by simp [h]⟩

theorem MainPc.FromMessage.mStop (r : Root) : (MainPc.mStop carStop r).FromMessage r :=
  ⟨.stop, by simp [MainPc.ops, carStop]⟩

theorem MainPc.FromMessage.mRun {r : Root} {s₁ s₂ : Item} (d₁ d₂ : ℤ)
    (h₁ : r.json .m1s = some s₁) (h₂ : r.json .m2s = some s₂) :
    (MainPc.mRun [.enable, .run .A s₁.valueint d₁, .run .B s₂.valueint d₂] r).FromMessage r := by
  refine ⟨.drive .., fun b v d hmem => ?_⟩
  simp only [MainPc.ops, List.mem_cons, PwmOp.run.injEq, List.not_mem_nil, or_false,
    reduceCtorEq, false_or] at hmem
  rcases hmem with ⟨rfl, rfl, -⟩ | ⟨rfl, rfl, -⟩
  · exact ⟨_, s₁, rfl, h₁, rfl⟩
  · exact ⟨_, s₂, rfl, h₂, rfl⟩

theorem dispatch_ops (r : Root) : (dispatch r).FromMessage r := by
  unfold dispatch
  cases r.json .T with
  | none => exact .of_nil rfl
  | some type =>
    refine iteInduction (fun _ => .of_nil rfl) fun _ => iteInduction (fun _ => ?_) fun _ =>
      iteInduction (fun _ => .mStop r) fun _ => iteInduction (fun _ => ?_) fun _ =>
        iteInduction (fun _ => .of_nil rfl) fun _ => iteInduction (fun _ => .of_nil rfl) fun _ =>
          .of_nil rfl
    · split
      case h_1 h₁ h₂ => exact .mRun _ _ h₁ h₂
      case h_2 => exact .of_nil rfl
    · split <;> exact .of_nil rfl

namespace Firmware

/-- The step executes the drive statement `op`. -/
inductive Executes (s : Firmware) : FwAct → PwmOp → Prop
  | main {op : PwmOp} {ops : List PwmOp} : s.main.ops = op :: ops → Executes s .main op
  | task {i : ℕ} {e : Unit} {op : PwmOp} {ops : List PwmOp} :
      ((s.sys.task .motor).pc i).ops = op :: ops → Executes s (.task .motor i e) op

variable {s s' : Firmware} {a : FwAct} {k : ℕ}

theorem motorRunCmdsTask_pwm {i : ℕ} {run : Bool} {args : Option Str} {pc pc' : MotorPc}
    {hw hw' : Hw} {eff : Effect} (h : motorRunCmdsTask i run args pc hw = some (pc', eff, hw')) :
    (∃ op, pc.ops = op :: pc'.ops ∧ hw'.pwm = op.exec hw.pwm) ∨
      (pc.ops = [] ∧ hw'.pwm = hw.pwm ∧
        (pc'.ops = [] ∨ pc'.ops = carStop ∨ ∃ c, pc'.ops = motorOps c)) := by
  unfold motorRunCmdsTask at h
  split at h
  case h_5 op ops c s pos => cases h; exact .inl ⟨op, rfl, rfl⟩
  case h_8 op ops => cases h; exact .inl ⟨op, rfl, rfl⟩
  case h_4 pc s pos =>
    cases h
    refine .inr ⟨rfl, rfl, ?_⟩
    split
    · exact .inl rfl
    · exact .inr (.inl rfl)
    · exact .inr (.inr ⟨_, rfl⟩)
  case h_2 =>
    cases h
    refine .inr ⟨rfl, rfl, .inl ?_⟩
    split <;> rfl
  case h_7 =>
    split_ifs at h
    cases h
    exact .inr ⟨rfl, rfl, .inl rfl⟩
  all_goals first | cases h; exact .inr ⟨rfl, rfl, .inl rfl⟩ | cases h

theorem task_pwm {w : Worker} (hne : w ≠ .motor) {e : w.Env} {i : ℕ} {run : Bool} {args : w.Args}
    {pc pc' : w.Pc} {hw hw' : Hw} {eff : Effect}
    (h : w.body.task e i run args pc hw = some (pc', eff, hw')) : hw'.pwm = hw.pwm := by
  cases w with
  | notes => cases playNotesTask_writes h <;> rfl
  | motor => exact absurd rfl hne
  | light => rcases ledRunCmdsTask_writes h with rfl | rfl | ⟨f, rfl⟩ | ⟨-, -, rfl⟩ <;> rfl
  | mp3 => cases soundPlayMp3Task_writes h <;> rfl
  | renderer | audioConvert => rw [loopTask_writes h]

theorem MainStep.pwm (hm : MainStep s s') :
    (∃ op, Executes s .main op ∧ s'.sys.hw.pwm = op.exec s.sys.hw.pwm) ∨
      s'.sys.hw.pwm = s.sys.hw.pwm := by
  cases hm
  case run op ops r hmain => exact .inl ⟨op, .main (by rw [hmain]; rfl), rfl⟩
  case stop op ops r hmain => exact .inl ⟨op, .main (by rw [hmain]; rfl), rfl⟩
  all_goals exact .inr rfl

/-- Duties, flags and pin change only by drive statements. -/
theorem Step.pwm (hs : Step s a s') :
    (∃ op, Executes s a op ∧ s'.sys.hw.pwm = op.exec s.sys.hw.pwm) ∨
      s'.sys.hw.pwm = s.sys.hw.pwm := by
  cases hs with
  | ignore => exact .inr rfl
  | parse => exact .inr rfl
  | main _ hm => exact hm.pwm
  | restart _ _ hr => exact .inr (by cases hr <;> rfl)
  | tick => exact .inr rfl
  | call => exact .inr rfl
  | @task w i e pc eff hw ht _ =>
    by_cases hw : w = .motor
    · subst hw
      rcases motorRunCmdsTask_pwm ht with ⟨op, hops, hpwm⟩ | ⟨-, hpwm, -⟩
      · exact .inl ⟨op, .task hops, hpwm⟩
      · exact .inr hpwm
    · exact .inr (task_pwm hw ht)

structure Fitted (s : Firmware) : Prop where
  main : ∀ b v d, .run b v d ∈ s.main.ops → ∃ ops r item, s.main = .mRun ops r ∧
    r.json b.speedKey = some item ∧ item.valueint = v
  task : ∀ i, ∀ op ∈ ((s.sys.task .motor).pc i).ops, op.Fits

theorem Fitted.init : Fitted Firmware.init := ⟨fun _ _ _ h => (by cases h), fun _ _ h => by cases h⟩

theorem Skip.ops {pc pc' : MainPc} (h : Skip s pc pc') :
    pc'.ops = [] ∨ ∃ r, pc' = dispatch r := by
  cases h
  case type r => exact .inr ⟨r, rfl⟩
  all_goals exact .inl rfl

theorem Fitted.main_step (h : Fitted s) (hm : MainStep s s') (b : Bridge) (v d : ℤ)
    (hmem : .run b v d ∈ s'.main.ops) : ∃ ops r item, s'.main = .mRun ops r ∧
      r.json b.speedKey = some item ∧ item.valueint = v := by
  cases hm
  case skip pc hs =>
    rcases hs.ops with hnil | ⟨r, rfl⟩
    · simp [goMain, hnil] at hmem
    · obtain ⟨ops, item, hmain, hitem⟩ := (dispatch_ops r).speed b v d hmem
      exact ⟨ops, r, item, hmain, hitem⟩
  case abort => exact h.main b v d hmem
  case run op ops r hmain =>
    obtain ⟨ops', r', item, hmain', hitem⟩ :=
      h.main b v d (by rw [hmain]; exact List.mem_cons_of_mem _ hmem)
    rw [hmain] at hmain'
    cases hmain'
    exact ⟨ops, r, item, rfl, hitem⟩
  case stop op ops r hmain =>
    obtain ⟨ops', r', item, hmain', -⟩ :=
      h.main b v d (by rw [hmain]; exact List.mem_cons_of_mem _ hmem)
    rw [hmain] at hmain'
    cases hmain'
  case item x r hmain => cases x <;> cases hmem
  all_goals cases hmem

theorem Fitted.step (h : Fitted s) (hs : Step s a s') : Fitted s' := by
  cases hs with
  | ignore => exact h
  | parse => exact ⟨fun _ _ _ hmem => (by cases hmem), h.task⟩
  | main _ hm => exact ⟨h.main_step hm, by rw [hm.begins.pc .motor]; exact h.task⟩
  | restart _ _ hr =>
    exact ⟨by rw [hr.main_eq]; exact h.main, by rw [hr.begins.pc .motor]; exact h.task⟩
  | tick => exact ⟨h.main, h.task⟩
  | @call w c t hc =>
    refine ⟨h.main, fun i op hop => ?_⟩
    by_cases hw : Worker.motor = w
    case neg =>
      rw [System.put_task_of_ne hw] at hop
      exact h.task i op hop
    subst hw
    rw [System.put_task_self] at hop
    rcases hc.pc with hpc | ⟨-, -, hpc⟩
    · rw [hpc] at hop
      exact h.task i op hop
    · rw [hpc, Function.update_apply] at hop
      split_ifs at hop
      · cases hop
      · exact h.task i op hop
  | @task w i e pc eff hw ht _ =>
    refine ⟨h.main, fun j op hop => ?_⟩
    by_cases hw : Worker.motor = w
    case neg =>
      rw [System.put_task_of_ne hw] at hop
      exact h.task j op hop
    subst hw
    rw [System.put_task_self, State.move_pc] at hop
    split_ifs at hop with hji
    · rcases motorRunCmdsTask_pwm ht with ⟨op', hops, -⟩ | ⟨-, -, hnil | hstop | ⟨c, hc⟩⟩
      · exact h.task i op (by rw [hops]; exact List.mem_cons_of_mem _ hop)
      · rw [hnil] at hop
        cases hop
      · exact carStop_fits (hstop ▸ hop)
      · exact motorOps_fits (hc ▸ hop)
    · exact h.task j op hop

/-- A drive for an `M_RUN` message has a speed of 0 to 100. -/
def InRange (s : Firmware) (a : FwAct) : Prop :=
  a = .main → ∀ b v d ops r item, s.main = .mRun (.run b v d :: ops) r →
    r.json b.speedKey = some item → 0 ≤ item.valueint ∧ item.valueint ≤ 100

theorem Fitted.executes_iff (h : Fitted s) :
    (∀ op, Executes s a op → op.Fits) ↔ InRange s a := by
  constructor
  · rintro hfits rfl b v d ops r item hmain hitem
    have hops : s.main.ops = .run b v d :: ops := by rw [hmain]; rfl
    obtain ⟨ops', r', item', hmain', hitem', rfl⟩ :=
      h.main b v d (by rw [hops]; exact List.mem_cons_self ..)
    rw [hmain] at hmain'
    cases hmain'
    obtain rfl := Option.some.inj (hitem.symm.trans hitem')
    exact fits_run_iff.mp (hfits _ (.main hops))
  · intro hrange op hexec
    cases hexec with
    | task hops => exact h.task _ op (by rw [hops]; exact List.mem_cons_self ..)
    | @main _ ops hops =>
      by_cases hrun : ∀ b v d, op ≠ .run b v d
      · exact fits_of_ne_run hrun
      · simp only [not_forall, not_not] at hrun
        obtain ⟨b, v, d, rfl⟩ := hrun
        obtain ⟨ops', r, item, hmain, hitem, rfl⟩ :=
          h.main b v d (by rw [hops]; exact List.mem_cons_self ..)
        obtain rfl : ops' = .run b item.valueint d :: ops := by
          rw [hmain] at hops
          exact hops
        exact fits_run_iff.mpr (hrange rfl b _ d ops r item hmain hitem)

end Firmware

open Firmware

/-- In a run every duty given to `ledc_set_duty` is in the range of the timer and computed
without overflow, if and only if every speed that a drive takes from an `M_RUN` message is
one of 0 to 100. -/
theorem duties_fit_iff {l : List (Firmware × FwAct × Firmware)} {s : Firmware}
    (h : Path Firmware.step Firmware.init l s) :
    (∀ x ∈ l, ∀ op, Executes x.1 x.2.1 op → op.Fits) ↔ ∀ x ∈ l, InRange x.1 x.2.1 := by
  obtain ⟨-, hall⟩ := h.invariant .init fun _ _ _ _ hI hs => Fitted.step hI (step_cases hs)
  constructor
  · intro hfits x hx
    exact (hall x hx).1.executes_iff.mp (hfits x hx)
  · intro hrange x hx
    exact (hall x hx).1.executes_iff.mpr (hrange x hx)

def runMessage (m1s m2s : ℤ) : Json
  | .T => some (number M_RUN)
  | .m1d => some (number 1)
  | .m1s => some (number m1s)
  | .m2d => some (number 1)
  | .m2s => some (number m2s)
  | _ => none

def Firmware.inRange (s : Firmware) (_ : FwAct) : Bool :=
  match s.main with
  | .mRun (.run b _ _ :: _) r => (r.json b.speedKey).all fun item =>
      decide (0 ≤ item.valueint ∧ item.valueint ≤ 100)
  | _ => true

theorem inRange_of_check {s : Firmware} {a : FwAct} (h : s.inRange a = true) : InRange s a := by
  rintro - b v d ops r item hmain hitem
  simpa [inRange, hmain, hitem] using h

theorem duties_fit_turn : ∃ (l : List (Firmware × FwAct × Firmware)) (s : Firmware),
    Path Firmware.step Firmware.init l s ∧ s.sys.hw.pwm.duty .A = (1024, 0) ∧
      ∀ x ∈ l, ∀ op, Executes x.1 x.2.1 op → op.Fits := by
  obtain ⟨s, hs, hduty⟩ : ∃ s, run Firmware.step inRange Firmware.init
      (.receive (some (runMessage 100 50)) :: mains 4) = some s ∧
        s.sys.hw.pwm.duty .A = (1024, 0) :=
    Option.map_eq_some_iff.mp (by decide +kernel)
  obtain ⟨l, hl, hgood⟩ := path_of_run hs
  exact ⟨l, s, hl, hduty, (duties_fit_iff hl).mpr fun x hx => inRange_of_check (hgood x hx)⟩

/-- The speed 200 gives the duty 2048. -/
theorem duty_exceeds : ¬ ∀ (l : List (Firmware × FwAct × Firmware)) (s : Firmware),
    Path Firmware.step Firmware.init l s → ∀ x ∈ l, ∀ op, Executes x.1 x.2.1 op → op.Fits := by
  intro h
  obtain ⟨s, hs, hrest⟩ : ∃ s, run Firmware.step (fun _ _ => true) Firmware.init
      (.receive (some (runMessage 200 50)) :: mains 2) = some s ∧
        ((s.step .main).map fun _ => s.main.ops.head?) = some (some (.run .A 200 1)) :=
    Option.bind_eq_some_iff.mp (by decide +kernel)
  obtain ⟨t, ht, hhead⟩ := Option.map_eq_some_iff.mp hrest
  obtain ⟨ops, hops⟩ := List.head?_eq_some_iff.mp hhead
  obtain ⟨l, hl, -⟩ := path_of_run hs
  have hfits := h _ t (hl.snoc ht) (s, .main, t) (by simp) _ (.main hops)
  exact absurd (fits_run_iff.mp hfits).2 (by decide)

/-! ### The state after completed operations -/

def perform (ops : List PwmOp) (p : Pwm) : Pwm := ops.foldl (fun p op => op.exec p) p

/-- Both motors follow these speeds and directions, and the driver is enabled. -/
structure Pwm.Drives (p : Pwm) (s₁ d₁ s₂ d₂ : ℤ) : Prop where
  enable : p.enable = true
  duty : p.duty .A = dutiesOf s₁ d₁ ∧ p.duty .B = dutiesOf s₂ d₂
  flag : (p.isRun .A = true ↔ s₁ ≠ 0) ∧ (p.isRun .B = true ↔ s₂ ≠ 0)

/-- What moves the motors from one quiescent state to the next: a message, a command of the
motor player, the end of a motor task. -/
inductive Operation where
  | message (r : Root)
  | command (c : Cmd)
  | finish

def Operation.ops : Operation → List PwmOp
  | .message r => (dispatch r).ops
  | .command c => motorOps c
  | .finish => carStop

/-- Flag and duties of one bridge agree, and two duties stand for a brake. -/
structure Pwm.Coherent (p : Pwm) (b : Bridge) : Prop where
  flag : p.isRun b = true ↔ (p.duty b).1 ≠ (p.duty b).2
  brake : (p.duty b).1 ≠ 0 → (p.duty b).2 ≠ 0 → p.duty b = (1024, 1024)

structure Pwm.Steady (p : Pwm) : Prop where
  coherent : ∀ b, p.Coherent b
  enable : p.isMotorRun = true → p.enable = true

theorem Pwm.Coherent.exec {p : Pwm} {b : Bridge} (h : p.Coherent b) (op : PwmOp) :
    (op.exec p).Coherent b := by
  cases op with
  | enable => exact ⟨h.flag, h.brake⟩
  | disable => exact ⟨h.flag, h.brake⟩
  | run b' v d =>
    by_cases hb : b = b'
    case neg =>
      have hduty : ((PwmOp.run b' v d).exec p).duty b = p.duty b := Function.update_of_ne hb ..
      have hrun : ((PwmOp.run b' v d).exec p).isRun b = p.isRun b := Function.update_of_ne hb ..
      exact ⟨by rw [hduty, hrun]; exact h.flag, by rw [hduty]; exact h.brake⟩
    subst hb
    have hzero := duty_eq_zero v
    constructor <;> simp only [PwmOp.exec, drv8833MotorRun, Function.update_self] <;>
      split_ifs <;> simp <;> omega
  | stop b' =>
    by_cases hb : b = b'
    case neg =>
      have hduty : ((PwmOp.stop b').exec p).duty b = p.duty b := Function.update_of_ne hb ..
      have hrun : ((PwmOp.stop b').exec p).isRun b = p.isRun b := Function.update_of_ne hb ..
      exact ⟨by rw [hduty, hrun]; exact h.flag, by rw [hduty]; exact h.brake⟩
    subst hb
    constructor <;> simp [PwmOp.exec, drv8833MotorStop]

theorem Pwm.Coherent.perform {p : Pwm} {b : Bridge} (h : p.Coherent b) (ops : List PwmOp) :
    (Car.perform ops p).Coherent b := by
  induction ops generalizing p with
  | nil => exact h
  | cons op ops ih => exact ih (h.exec op)

theorem Pwm.Steady.perform {p : Pwm} {ops : List PwmOp} (h : p.Steady) (hops : Whole ops) :
    (Car.perform ops p).Steady := by
  refine ⟨fun b => (h.coherent b).perform ops, ?_⟩
  cases hops with
  | none => exact h.enable
  | drive v₁ d₁ v₂ d₂ => exact fun _ => rfl
  | stop =>
    intro hrun
    have hoff : (Car.perform carStop p).isMotorRun = false := by
      simp [Car.perform, carStop, PwmOp.exec, drv8833MotorStop, isMotorRun]
    rw [hoff] at hrun
    cases hrun

theorem Operation.whole (o : Operation) : Whole o.ops := by
  cases o with
  | message r => exact (dispatch_ops r).whole
  | command c => exact motorOps_whole c
  | finish => exact .stop

theorem Pwm.init_steady : Pwm.init.Steady := by
  refine ⟨fun b => ⟨by simp [init], by simp [init]⟩, by simp [init, isMotorRun]⟩

/-- After any sequence of completed operations the flag of a motor is set if and only if its
duties differ, two duties that are not zero are a brake, and a motor that runs has its
driver enabled. -/
theorem motors_steady (os : List Operation) :
    (os.foldl (fun p o => perform o.ops p) Pwm.init).Steady := by
  suffices h : ∀ p : Pwm, p.Steady → (os.foldl (fun p o => perform o.ops p) p).Steady from
    h _ Pwm.init_steady
  induction os with
  | nil => exact fun p hp => hp
  | cons o os ih => exact fun p hp => ih _ (hp.perform o.whole)

namespace Firmware

variable {s s' : Firmware} {a : FwAct}

def opsOf (s : Firmware) : Option ℕ → List PwmOp
  | none => s.main.ops
  | some i => ((s.sys.task .motor).pc i).ops

def Apart (s : Firmware) : Prop := ∀ p q, s.opsOf p ≠ [] → s.opsOf q ≠ [] → p = q

/-- A step executes one drive statement of one party, or parties begin whole operations. -/
def Advances (s s' : Firmware) : Prop :=
  (∃ p op, s.opsOf p = op :: s'.opsOf p ∧ s'.sys.hw.pwm = op.exec s.sys.hw.pwm ∧
    ∀ q ≠ p, s'.opsOf q = s.opsOf q) ∨
  (s'.sys.hw.pwm = s.sys.hw.pwm ∧
    ∀ p, s'.opsOf p = s.opsOf p ∨ (s.opsOf p = [] ∧ Whole (s'.opsOf p)))

theorem Advances.of_eq (hpwm : s'.sys.hw.pwm = s.sys.hw.pwm) (hops : s'.opsOf = s.opsOf) :
    Advances s s' :=
  .inr ⟨hpwm, fun p => .inl (by rw [hops])⟩

theorem Advances.main (hpwm : s'.sys.hw.pwm = s.sys.hw.pwm)
    (hpc : (s'.sys.task .motor).pc = (s.sys.task .motor).pc)
    (hmain : s'.main.ops = s.main.ops ∨ (s.main.ops = [] ∧ Whole s'.main.ops)) :
    Advances s s' := by
  refine .inr ⟨hpwm, fun p => ?_⟩
  cases p with
  | none => exact hmain
  | some i => exact .inl (by simp only [opsOf, hpc])

theorem Skip.ops_nil {pc pc' : MainPc} (h : Skip s pc pc') : pc.ops = [] := by
  cases h <;> rfl

theorem MainStep.advances (hm : MainStep s s') : Advances s s' := by
  have hpc := hm.begins.pc .motor
  cases hm
  case run op ops r hmain =>
    refine .inl ⟨none, op, by simp [opsOf, hmain, MainPc.ops], rfl, fun q hq => ?_⟩
    cases q with
    | none => exact absurd rfl hq
    | some i => rfl
  case stop op ops r hmain =>
    refine .inl ⟨none, op, by simp [opsOf, hmain, MainPc.ops], rfl, fun q hq => ?_⟩
    cases q with
    | none => exact absurd rfl hq
    | some i => rfl
  case skip pc hs =>
    refine .main rfl hpc (.inr ⟨hs.ops_nil, ?_⟩)
    rcases hs.ops with hnil | ⟨r, hr⟩
    · rw [goMain, hnil]
      exact .none
    · rw [goMain, hr]
      exact (dispatch_ops r).whole
  case abort => exact .of_eq rfl rfl
  case item x r hmain =>
    exact .main rfl hpc (.inl (by rw [hmain]; cases x <;> rfl))
  all_goals exact .main rfl hpc (.inl (by simp [*, MainPc.ops, goMain]))

theorem Advances.call {w : Worker} {c : ℕ} {t : State w.Args w.Pc} (hn : s.sys.Numbered)
    (hc : State.CallStep w.body.proto w.body.fresh s.sys.hw.now (s.sys.task w) c t) :
    Advances s { s with sys := s.sys.put w s.sys.hw t } := by
  by_cases hw : Worker.motor = w
  case neg => exact .main rfl (by rw [System.put_task_of_ne hw]) (.inl rfl)
  subst hw
  rcases hc.pc with hpc | ⟨-, -, hpc⟩
  · exact .main rfl (by rw [System.put_task_self, hpc]) (.inl rfl)
  · refine .inr ⟨rfl, fun p => .inl ?_⟩
    cases p with
    | none => rfl
    | some i =>
      simp only [opsOf, System.put_task_self, hpc, Function.update_apply]
      split_ifs with hi
      · -- the new instance has nothing to execute yet, nor had its number before
        rw [hi, hn .motor _ le_rfl]
        rfl
      · rfl

theorem Advances.task {w : Worker} {e : w.Env} {i : ℕ} {pc : w.Pc} {eff : Effect} {hw : Hw}
    (ht : w.body.task e i (s.sys.task w).taskRun (s.sys.task w).args ((s.sys.task w).pc i)
      s.sys.hw = some (pc, eff, hw)) :
    Advances s { s with sys := s.sys.put w hw ((s.sys.task w).move w.body.proto i pc eff) } := by
  by_cases hw : Worker.motor = w
  case neg => exact .main (task_pwm (Ne.symm hw) ht) (by rw [System.put_task_of_ne hw]) (.inl rfl)
  subst hw
  set s' : Firmware :=
    { s with
      sys := s.sys.put .motor hw ((s.sys.task .motor).move Worker.motor.body.proto i pc eff) }
  have hself : s'.opsOf (some i) = MotorPc.ops pc := by
    simp only [opsOf, s', System.put_task_self, State.move_pc, if_pos]
  have hother (q : Option ℕ) (hq : q ≠ some i) : s'.opsOf q = s.opsOf q := by
    cases q with
    | none => rfl
    | some j =>
      have hj : j ≠ i := fun heq => hq (by rw [heq])
      simp only [opsOf, s', System.put_task_self, State.move_pc, if_neg hj]
  rcases motorRunCmdsTask_pwm ht with ⟨op, hops, hpwm⟩ | ⟨hnil, hpwm, hbegun⟩
  · exact .inl ⟨some i, op, by rw [hself]; exact hops, hpwm, hother⟩
  · refine .inr ⟨hpwm, fun p => ?_⟩
    by_cases hp : p = some i
    · subst hp
      refine .inr ⟨hnil, ?_⟩
      rw [hself]
      rcases hbegun with h | h | ⟨c, h⟩ <;> rw [h]
      · exact .none
      · exact .stop
      · exact motorOps_whole c
    · exact .inl (hother p hp)

theorem Step.advances (hn : s.sys.Numbered) (hs : Step s a s') : Advances s s' := by
  cases hs with
  | ignore => exact .of_eq rfl rfl
  | parse hidle => exact .main rfl rfl (.inl (by rw [hidle]; rfl))
  | main _ hm => exact hm.advances
  | restart _ _ hr =>
    exact .main (by cases hr <;> rfl) (hr.begins.pc .motor) (.inl (by rw [hr.main_eq]))
  | tick => exact .of_eq rfl rfl
  | call hc => exact .call hn hc
  | task ht => exact .task ht

/-- Once the operation in progress, if there is one, has been completed, the state is steady. -/
def Settling (s : Firmware) : Prop :=
  ∀ p, (∀ q ≠ p, s.opsOf q = []) → (perform (s.opsOf p) s.sys.hw.pwm).Steady

theorem Settling.advance (h : Settling s) (hapart : Apart s) (hs : Advances s s') :
    Settling s' := by
  intro p hp
  have hothers (q : Option ℕ) (hq : s.opsOf q ≠ []) : ∀ r ≠ q, s.opsOf r = [] := by
    intro r hr
    by_contra hne
    exact hr (hapart r q hne hq)
  rcases hs with ⟨p₀, op, hops, hpwm, hsame⟩ | ⟨hpwm, hbegun⟩
  · have hsteady := h p₀ (hothers p₀ (by simp [hops]))
    rw [hops] at hsteady
    rw [hpwm]
    by_cases hpp : p = p₀
    · subst hpp
      exact hsteady
    · -- the statement was the last one of its operation
      rw [hp p₀ (Ne.symm hpp)] at hsteady
      rw [hsame p hpp, hothers p₀ (by simp [hops]) p hpp]
      exact hsteady
  · rw [hpwm]
    by_cases hall : ∀ q, s.opsOf q = []
    · have hsteady : s.sys.hw.pwm.Steady := by
        have := h p fun q _ => hall q
        rwa [hall p] at this
      rcases hbegun p with heq | ⟨-, hwhole⟩
      · rw [heq, hall p]
        exact hsteady
      · exact hsteady.perform hwhole
    · simp only [not_forall] at hall
      obtain ⟨q, hq⟩ := hall
      have hsame : s'.opsOf q = s.opsOf q := (hbegun q).resolve_right fun hb => hq hb.1
      have hqp : q = p := by
        by_contra hne
        exact hq (hsame.symm.trans (hp q hne))
      subst hqp
      rw [hsame]
      exact h q (hothers q hq)

/-- The same for the firmware: in a run in which motor operations do not overlap, the state
is steady whenever none is in progress. -/
theorem Settling.run (h : Reach Firmware.step (fun s _ => Apart s) Firmware.init s)
    (hidle : ∀ p, s.opsOf p = []) : s.sys.hw.pwm.Steady := by
  have hinv := h.invariant (I := fun s => s.sys.Numbered ∧ Settling s)
    ⟨fun _ => .init _ _, fun p _ => by cases p <;> exact Pwm.init_steady⟩
    fun s a s' hI hapart hs => ⟨(step_cases hs).numbered hI.1,
      hI.2.advance hapart ((step_cases hs).advances hI.1)⟩
  have hsteady := hinv.2 none fun q _ => hidle q
  rwa [hidle none] at hsteady

end Firmware

end Car
