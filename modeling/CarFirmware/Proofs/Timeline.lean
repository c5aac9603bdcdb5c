import CarFirmware.Lib.Plan
import CarFirmware.Proofs.Durations
import CarFirmware.Proofs.Motors
import CarFirmware.Proofs.ParseCmd
import CarFirmware.Proofs.Writes

/-! The motor and the light track in time. The string of an instance is a plan: for each
command a look at `task_run`, then what the command does and its delay; whatever else
happens in the system, the instance carries out its plan. -/

namespace Car

open Handshake Plan Transition

/-! ### The command loop -/

theorem commandList_of_none {s : CStr} (h : parseCmd s = none) : commandList s = [] := by
  by_cases hs : ';' ∈ s
  · obtain ⟨w, t, rfl, hw⟩ := List.eq_append_cons_of_mem hs
    rw [parseCmd_append hw] at h
    split_ifs at h with hwf
    rw [commandList, goodSegments_append hw, if_neg hwf]
    rfl
  · rw [commandList, goodSegments_of_notMem hs]
    rfl

theorem commandList_of_some {s : CStr} {pos : ℕ} {r : Parsed} (h : parseCmd (s.drop pos) = some r) :
    commandList (s.drop pos) = r.toCmd :: commandList (s.drop (pos + r.pos + 1)) := by
  obtain ⟨w, t, hdrop, hw, hwf, rfl⟩ := parseCmd_eq_some h
  have hrest : s.drop (pos + w.length + 1) = t := by
    rw [Nat.add_assoc, ← List.drop_drop, hdrop]
    simp
  rw [hrest, hdrop, commandList, goodSegments_append hw, if_pos hwf]
  rfl

theorem cmdStep_exec {run : Bool} {s : CStr} {pos pos' : ℕ} {pc : CmdPc} {c : Cmd}
    (h : cmdStep run s pos pc = .exec c pos') : pc = .parse ∧
      commandList (s.drop pos) = c :: commandList (s.drop pos') := by
  cases pc with
  | loop =>
    simp only [cmdStep] at h
    split_ifs at h
  | test =>
    simp only [cmdStep] at h
    split_ifs at h
  | parse =>
    cases hr : parseCmd (s.drop pos) with
    | none =>
      simp only [cmdStep, hr] at h
      cases h
    | some r =>
      simp only [cmdStep, hr] at h
      cases h
      exact ⟨rfl, commandList_of_some hr⟩

section CommandLoop

variable {α : Type} (body : Cmd → List (Todo α)) (fin : List (Todo α))

/-- A track: before each command a look at `task_run`, and `fin` at the end or when the flag
is false. -/
def cmdsPlan (cs : List Cmd) : List (Todo α) := cs.flatMap (fun c => .check :: body c) ++ fin

theorem cmdsPlan_cons (c : Cmd) (cs : List Cmd) :
    cmdsPlan body fin (c :: cs) = .check :: (body c ++ cmdsPlan body fin cs) := by
  rw [cmdsPlan, List.flatMap_cons, List.cons_append, List.cons_append, List.append_assoc]
  rfl

/-- What is left at a statement of the command loop. -/
def cmdTodo (cs : List Cmd) : CmdPc → List (Todo α)
  | .loop | .test => cmdsPlan body fin cs
  | .parse =>
    match cs with
    | [] => fin
    | c :: cs => body c ++ cmdsPlan body fin cs

def CmdOut.todo (s : CStr) (pos : ℕ) : CmdOut → List (Todo α)
  | .goto pc => cmdTodo body fin (commandList (s.drop pos)) pc
  | .leave => fin
  | .exec c pos => body c ++ cmdsPlan body fin (commandList (s.drop pos))

theorem cmdStep_plan (run : Bool) (now : ℕ) (s : CStr) (pos : ℕ) (pc : CmdPc) :
    Step (if run then none else some fin) now (cmdTodo body fin (commandList (s.drop pos)) pc) none
      ((cmdStep run s pos pc).todo body fin s pos) := by
  cases pc with
  | loop =>
    by_cases hpos : pos < s.length
    · simp only [cmdStep, if_pos hpos]
      exact .stay
    · have hend : commandList (s.drop pos) = [] := by
        rw [List.drop_of_length_le (by omega)]
        rfl
      simp only [cmdStep, if_neg hpos, hend]
      exact .stay
  | test =>
    cases run with
    | true =>
      simp only [cmdStep, if_true, CmdOut.todo, cmdTodo]
      cases commandList (s.drop pos) with
      | nil => exact .stay
      | cons c cs =>
        rw [cmdsPlan_cons]
        exact .pass
    | false =>
      simp only [cmdStep, Bool.false_eq_true, if_false, CmdOut.todo, cmdTodo]
      cases commandList (s.drop pos) with
      | nil => exact .stay
      | cons c cs =>
        rw [cmdsPlan_cons]
        exact .quit rfl
  | parse =>
    cases hr : parseCmd (s.drop pos) with
    | none =>
      simp only [cmdStep, hr, cmdTodo, commandList_of_none hr]
      exact .stay
    | some r =>
      simp only [cmdStep, hr, cmdTodo, commandList_of_some hr]
      exact .stay

theorem follows_cmdsPlan {whole : Prop} {t : ℕ} {log : List (ℕ × α)} {cs : List Cmd}
    (hbody : ∀ c, .check ∉ body c) (hfin : .check ∉ fin)
    (h : Follows (some fin) whole t (cmdsPlan body fin cs) log) :
    ∃ k, Follows none whole t (cmdsPlan body fin (cs.take k)) log := by
  induction cs generalizing t log with
  | nil => exact ⟨0, h.unquit hfin⟩
  | cons c cs ih =>
    rw [cmdsPlan_cons] at h
    cases h with
    | nil hw => exact ⟨0, .nil fun h => nomatch hw h⟩
    | pass hrest =>
      obtain ⟨k, hk⟩ := hrest.unquit_append (hbody c) fun t log => ih
      refine ⟨k + 1, ?_⟩
      rw [List.take_succ_cons, cmdsPlan_cons]
      exact .pass hk
    | quit hq hrest =>
      cases hq
      exact ⟨0, hrest.unquit hfin⟩

theorem actions_cmdsPlan (cs : List Cmd) :
    actions (cmdsPlan body fin cs) = (cs.flatMap fun c => actions (body c)) ++ actions fin := by
  rw [cmdsPlan, actions_append, actions_flatMap]
  simp only [actions_check]

end CommandLoop

/-! ### An instance in the system -/

theorem task_now {w : Worker} {e : w.Env} {i : ℕ} {run : Bool} {args : w.Args} {pc pc' : w.Pc}
    {hw hw' : Hw} {eff : Effect} (h : w.body.task e i run args pc hw = some (pc', eff, hw')) :
    hw'.now = hw.now := by
  cases w with
  | notes => cases playNotesTask_writes h <;> rfl
  | mp3 => cases soundPlayMp3Task_writes h <;> rfl
  | motor =>
    rcases motorRunCmdsTask_writes h with rfl | rfl | ⟨op, rfl⟩
    · rfl
    · rfl
    · cases op <;> rfl
  | light => rcases ledRunCmdsTask_writes h with rfl | rfl | ⟨f, rfl⟩ | ⟨-, -, rfl⟩ <;> rfl
  | renderer => rw [loopTask_writes h]
  | audioConvert => rw [loopTask_writes h]

abbrev Trace : Type := List (System × SysAct × System)

def System.performed {α : Type} (w : Worker) (i : ℕ) (perform : w.Pc → Hw → Option α) (s : System) :
    SysAct → Option α
  | .task v (.task j _) => if v = w ∧ j = i then perform ((s.task w).pc i) s.hw else none
  | _ => none

def events {α : Type} (w : Worker) (i : ℕ) (perform : w.Pc → Hw → Option α) (l : Trace) :
    List (ℕ × α) :=
  timedLog (·.hw.now) (System.performed w i perform) l

/-- The step, if it is one of the instance before the end of its track, finds the flag set. -/
def FlagSet (w : Worker) (i : ℕ) (s : System) (a : SysAct) : Prop :=
  (∃ e, a = .task w (.task i e)) → w.body.phase ((s.task w).pc i) = .active →
    (s.task w).taskRun = true

/-- The instance finds the flag set whenever it looks. -/
def Unstopped (w : Worker) (i : ℕ) (l : Trace) : Prop := ∀ x ∈ l, FlagSet w i x.1 x.2.1

/-- A step of the system as an instance sees it. -/
inductive Seen (w : Worker) (i : ℕ) (s : System) (a : SysAct) (s' : System) : Prop
  | aside : (s'.task w).pc i = (s.task w).pc i →
      (∀ α (perform : w.Pc → Hw → Option α), s.performed w i perform a = none) → Seen w i s a s'
  | own (e : w.Env) {pc : w.Pc} {eff : Effect} : a = .task w (.task i e) →
      w.body.task e i (s.task w).taskRun (s.task w).args ((s.task w).pc i) s.hw =
        some (pc, eff, s'.hw) → (s'.task w).pc i = pc → Seen w i s a s'

theorem seen_of_step {w : Worker} {i : ℕ} {s s' : System} {a : SysAct} (hn : s.Numbered)
    (hi : (s.task w).pc i ≠ w.body.absent) (h : System.step s a = some s') :
    s.hw.now ≤ s'.hw.now ∧ Seen w i s a s' := by
  obtain ⟨n, rfl, rfl⟩ | ⟨v, b, hw, t, rfl, ht, rfl⟩ | ⟨op, rfl, rfl⟩ | ⟨b, rfl, rfl⟩ | ⟨rfl, rfl⟩ :=
    System.step_cases h
  case inl => exact ⟨Nat.le_add_right _ _, .aside rfl fun _ _ => rfl⟩
  case inr.inl =>
    obtain ⟨c, k, rfl, rfl, -, rfl⟩ | ⟨c, rfl, rfl, hc⟩ | ⟨j, e, pc, eff, rfl, hr, -, rfl⟩ :=
      Body.step_cases ht
    · refine ⟨le_rfl, .aside ?_ fun _ _ => rfl⟩
      by_cases hv : w = v
      · subst hv
        rw [System.put_task_self, State.goto_pc]
      · rw [System.put_task_of_ne hv]
    · refine ⟨le_rfl, .aside ?_ fun _ _ => rfl⟩
      by_cases hv : w = v
      · subst hv
        rw [System.put_task_self]
        rcases hc.pc with hpc | ⟨-, -, hpc⟩
        · rw [hpc]
        · rw [hpc, Function.update_of_ne]
          -- the new instance is not this one, which has been created already
          rintro rfl
          exact hi (hn w _ le_rfl)
      · rw [System.put_task_of_ne hv]
    · refine ⟨(task_now hr).ge, ?_⟩
      by_cases hv : v = w ∧ j = i
      · obtain ⟨rfl, rfl⟩ := hv
        exact .own e rfl hr (by rw [System.put_task_self, State.move_pc, if_pos rfl])
      · refine .aside ?_ fun _ _ => if_neg hv
        by_cases hvw : w = v
        · subst hvw
          rw [System.put_task_self, State.move_pc, if_neg fun hji => hv ⟨rfl, hji.symm⟩]
        · rw [System.put_task_of_ne hvw]
  case inr.inr.inl =>
    refine ⟨le_of_eq ?_, .aside rfl fun _ _ => rfl⟩
    cases op <;> rfl
  case inr.inr.inr.inl => exact ⟨le_rfl, .aside rfl fun _ _ => rfl⟩
  case inr.inr.inr.inr => exact ⟨le_rfl, .aside rfl fun _ _ => rfl⟩

/-- What the statements of an instance do, they do in a run. -/
theorem performed_does {α : Type} {w : Worker} {i : ℕ} (perform : w.Pc → Hw → Option α)
    (does : Option α → Hw → Hw → Prop) {s s' : System} {l : Trace}
    (htask : ∀ e run args pc hw pc' eff hw',
      w.body.task e i run args pc hw = some (pc', eff, hw') → does (perform pc hw) hw hw')
    (hl : Path System.step s l s') {x : System × SysAct × System} (hx : x ∈ l) {e : w.Env}
    (hact : x.2.1 = .task w (.task i e)) :
    does (x.1.performed w i perform x.2.1) x.1.hw x.2.2.hw := by
  have hstep := ((hl.invariant trivial fun _ _ _ _ _ _ => trivial).2 x hx).2
  rw [hact] at hstep ⊢
  obtain ⟨n, hc, -⟩ | ⟨v, b, hw, t, hc, ht, hs'⟩ | ⟨op, hc, -⟩ | ⟨b, hc, -⟩ | ⟨hc, -⟩ :=
    System.step_cases hstep
  case inr.inl =>
    cases hc
    obtain ⟨c, k, hc, -⟩ | ⟨c, hc, -⟩ | ⟨j, e', pc, eff, hc, hr, -, -⟩ := Body.step_cases ht
    case inr.inr =>
      cases hc
      rw [hs', System.performed, if_pos ⟨rfl, rfl⟩]
      exact htask _ _ _ _ _ _ _ _ hr
    all_goals cases hc
  all_goals cases hc

/-- Every statement of the task carries out the plan that its program counter stands for. -/
structure Plays {α : Type} (w : Worker) (perform : w.Pc → Hw → Option α) (started : w.Pc → Prop)
    (todo : w.Pc → List (Todo α)) (fin : List (Todo α)) : Prop where
  absent : ¬ started w.body.absent
  idle : ∀ pc, w.body.phase pc ≠ .active → todo pc = []
  task : ∀ e i run args pc hw pc' eff hw', started pc →
    w.body.task e i run args pc hw = some (pc', eff, hw') → started pc' ∧
      Step (if run then none else some fin) hw.now (todo pc) (perform pc hw) (todo pc')

theorem Plays.follows {α : Type} {w : Worker} {perform : w.Pc → Hw → Option α}
    {started : w.Pc → Prop} {todo : w.Pc → List (Todo α)} {fin : List (Todo α)}
    {quit : Option (List (Todo α))} {i : ℕ} (hp : Plays w perform started todo fin)
    {s s' : System} {l : Trace} (hn : s.Numbered) (hs : started ((s.task w).pc i))
    (hl : Path System.step s l s') (hq : quit = some fin ∨ quit = none ∧ Unstopped w i l) :
    Follows quit (todo ((s'.task w).pc i) = []) s.hw.now (todo ((s.task w).pc i))
      (events w i perform l) := by
  let R (s : System) (p : List (Todo α)) : Prop :=
    s.Numbered ∧ started ((s.task w).pc i) ∧ p = todo ((s.task w).pc i)
  let ok (s : System) (a : SysAct) : Prop := quit = some fin ∨ quit = none ∧ FlagSet w i s a
  have hsim (s : System) (a : SysAct) (s' : System) (p : List (Todo α)) (hR : R s p) (ha : ok s a)
      (h : System.step s a = some s') : s.hw.now ≤ s'.hw.now ∧
        ∃ p', Step quit s.hw.now p (s.performed w i perform a) p' ∧ R s' p' := by
    obtain ⟨hn, hs, rfl⟩ := hR
    obtain ⟨hnow, hseen⟩ := seen_of_step (i := i) hn (fun heq => hp.absent (heq ▸ hs)) h
    refine ⟨hnow, ?_⟩
    cases hseen with
    | aside hpc hev =>
      rw [hev]
      exact ⟨_, .stay, hn.step h, hpc ▸ hs, by rw [hpc]⟩
    | own e hae hr hpc =>
      obtain ⟨hs', hstep⟩ := hp.task _ _ _ _ _ _ _ _ _ hs hr
      refine ⟨_, ?_, hn.step h, hpc ▸ hs', by rw [hpc]⟩
      rw [hae, System.performed, if_pos ⟨rfl, rfl⟩]
      rcases ha with rfl | ⟨rfl, hrun⟩
      · split_ifs at hstep
        · exact hstep.weaken
        · exact hstep
      · by_cases hphase : w.body.phase ((s.task w).pc i) = .active
        · rwa [if_pos (hrun ⟨e, hae⟩ hphase)] at hstep
        · rw [hp.idle _ hphase] at hstep ⊢
          exact hstep.of_nil
  have hok : ∀ x ∈ l, ok x.1 x.2.1 := fun x hx => hq.imp_right fun h => ⟨h.1, h.2 x hx⟩
  have hR : R s (todo ((s.task w).pc i)) := ⟨hn, hs, rfl⟩
  obtain ⟨p', ⟨-, -, rfl⟩, hfol⟩ := follows_of_path hsim hl hok hR
  exact hfol

/-! ### The motor track -/

def motorPart (c : Cmd) : List (Todo PwmOp) := (motorOps c).map .act ++ [.wait (motorDelay c)]

def motorFin : List (Todo PwmOp) := carStop.map .act

def MotorPc.started : MotorPc → Prop
  | .absent | .entry | .null => False
  | _ => True

def MotorPc.perform (pc : MotorPc) (_ : Hw) : Option PwmOp :=
  match pc with
  | .exec (op :: _) _ _ _ | .carStop (op :: _) => some op
  | _ => none

def MotorPc.todo : MotorPc → List (Todo PwmOp)
  | .cmds pc s pos => cmdTodo motorPart motorFin (commandList (s.text.drop pos)) pc
  | .exec ops c s pos => ops.map .act ++
      (.wait (motorDelay c) :: cmdsPlan motorPart motorFin (commandList (s.text.drop pos)))
  | .delay d s pos => .hold d :: cmdsPlan motorPart motorFin (commandList (s.text.drop pos))
  | .carStop ops => ops.map .act
  | _ => []

theorem MotorPc.todo_of_not_active {pc : MotorPc} (h : pc.phase ≠ .active) : pc.todo = [] := by
  cases pc <;> first | rfl | exact absurd rfl h

theorem motor_plays : Plays .motor MotorPc.perform MotorPc.started MotorPc.todo motorFin where
  absent := id
  idle _ := MotorPc.todo_of_not_active
  task := by
    intro e i run args pc hw pc' eff hw' hs h
    change motorRunCmdsTask i run args pc hw = some (pc', eff, hw') at h
    cases pc with
    | absent | entry | null => exact hs.elim
    | cmds pc s pos =>
      cases h
      have hplan := cmdStep_plan motorPart motorFin run hw.now s.text pos pc
      cases hout : cmdStep run s.text pos pc with
      | goto pc' | leave =>
        rw [hout] at hplan
        exact ⟨trivial, hplan⟩
      | exec c pos' =>
        rw [hout] at hplan
        refine ⟨trivial, ?_⟩
        simpa [CmdOut.todo, motorPart, MotorPc.todo, MotorPc.perform] using hplan
    | exec ops c s pos =>
      cases ops with
      | nil =>
        cases h
        exact ⟨trivial, .wait⟩
      | cons op ops =>
        cases h
        exact ⟨trivial, .act⟩
    | delay d s pos =>
      simp only [motorRunCmdsTask] at h
      split_ifs at h with hd
      cases h
      exact ⟨trivial, .hold hd⟩
    | carStop ops =>
      cases ops with
      | nil =>
        cases h
        exact ⟨trivial, .stay⟩
      | cons op ops =>
        cases h
        exact ⟨trivial, .act⟩
    | setBits | delete =>
      cases h
      exact ⟨trivial, .stay⟩
    | ended => cases h

/-- What a statement makes of the bridges and the enable pin. -/
def Drives (op : Option PwmOp) (hw hw' : Hw) : Prop :=
  match op with
  | some op => op.Applied hw.pwm hw'.pwm
  | none => hw'.pwm = hw.pwm

theorem motorRunCmdsTask_drives {i : ℕ} {run : Bool} {args : Option Str} {pc pc' : MotorPc}
    {hw hw' : Hw} {eff : Effect} (h : motorRunCmdsTask i run args pc hw = some (pc', eff, hw')) :
    Drives (pc.perform hw) hw hw' := by
  cases pc with
  | exec ops c s pos =>
    cases ops with
    | nil =>
      cases h
      exact rfl
    | cons op ops =>
      cases h
      exact op.exec_applied hw.pwm
  | carStop ops =>
    cases ops with
    | nil =>
      cases h
      exact rfl
    | cons op ops =>
      cases h
      exact op.exec_applied hw.pwm
  | delay d s pos =>
    simp only [motorRunCmdsTask] at h
    split_ifs at h
    cases h
    exact rfl
  | absent | ended => cases h
  | _ =>
    cases h
    exact rfl

/-- A track in time: the commands that are played are a prefix of the list, and all of it
when the flag stays set; what comes after the first `k` of them waits for their delays. -/
theorem track_timeline {α : Type} {w : Worker} {perform : w.Pc → Hw → Option α}
    {started : w.Pc → Prop} {todo : w.Pc → List (Todo α)} {fin : List (Todo α)}
    {body : Cmd → List (Todo α)} (hp : Plays w perform started todo fin)
    (hbody : ∀ c, .check ∉ body c) (hfin : .check ∉ fin) {s s' : System} {l : Trace} {i : ℕ}
    {cs : List Cmd} (hn : s.Numbered) (hs : started ((s.task w).pc i))
    (htodo : todo ((s.task w).pc i) = cmdsPlan body fin cs) (hl : Path System.step s l s') :
    let log := events w i perform l
    ∃ played, played <+: cs ∧ (Unstopped w i l → played = cs) ∧
      Follows none (todo ((s'.task w).pc i) = []) s.hw.now (cmdsPlan body fin played) log := by
  intro log
  by_cases hrun : Unstopped w i l
  · refine ⟨cs, List.prefix_refl _, fun _ => rfl, ?_⟩
    rw [← htodo]
    exact hp.follows hn hs hl (.inr ⟨rfl, hrun⟩)
  · have hfol := hp.follows hn hs hl (.inl rfl)
    rw [htodo] at hfol
    obtain ⟨k, hk⟩ := follows_cmdsPlan body fin hbody hfin hfol
    exact ⟨cs.take k, List.take_prefix _ _, fun h => absurd h hrun, hk⟩

theorem not_before_cmds {α : Type} {body : Cmd → List (Todo α)} {fin : List (Todo α)}
    {whole : Prop} {t : ℕ} {cs : List Cmd} {log : List (ℕ × α)}
    (h : Follows none whole t (cmdsPlan body fin cs) log) (k : ℕ) :
    ∀ e ∈ log.drop ((cs.take k).flatMap fun c => actions (body c)).length,
      t + ((cs.take k).map fun c => waits (body c)).sum ≤ e.1 := by
  have hsplit : cmdsPlan body fin cs =
      (cs.take k).flatMap (fun c => .check :: body c) ++ cmdsPlan body fin (cs.drop k) := by
    rw [cmdsPlan, cmdsPlan, ← List.append_assoc, ← List.flatMap_append, List.take_append_drop]
  rw [hsplit] at h
  have hlate := h.not_before
  rw [actions_flatMap, waits_flatMap] at hlate
  simpa only [actions_check, waits_check] using hlate

/-- From the moment it has read its string, what a motor instance does to the bridges is, in
any interleaving, the drive statements of the first commands of the string and then `car_stop`;
of all commands when the flag stays set. After the first `k` commands it goes on only when 60
ticks for each of their beats are over, which is what `pdMS_TO_TICKS` makes of them. -/
theorem motor_timeline {s s' : System} {l : Trace} {i : ℕ} {str : Str}
    (hs : Reach System.step (fun _ _ => True) System.init s)
    (hpc : (s.task .motor).pc i = .cmds .loop str 0)
    (hbeats : ∀ c ∈ commandList str.text, 0 ≤ c.beat ∧ c.beat ≤ 71582)
    (hl : Path System.step s l s') :
    let log := events .motor i MotorPc.perform l
    ∃ played, played <+: commandList str.text ∧
      (Unstopped .motor i l → played = commandList str.text) ∧
      log.map Prod.snd <+: played.flatMap motorOps ++ carStop ∧
      (((s'.task .motor).pc i).phase ≠ .active →
        log.map Prod.snd = played.flatMap motorOps ++ carStop) ∧
      (∀ x ∈ l, ∀ e, x.2.1 = .task .motor (.task i e) →
        Drives (x.1.performed .motor i MotorPc.perform x.2.1) x.1.hw x.2.2.hw) ∧
      (∀ c ∈ played,
        (pdMS_TO_TICKS (delaytime c.beat)).map UInt32.toNat = some (60 * c.beat.toNat)) ∧
      ∀ k, ∀ e ∈ log.drop ((played.take k).flatMap motorOps).length,
        s.hw.now + 60 * ((played.take k).map (·.beat.toNat)).sum ≤ e.1 := by
  intro log
  have hactions (c : Cmd) : actions (motorPart c) = motorOps c := by simp [motorPart]
  have hwaits (c : Cmd) : waits (motorPart c) = 60 * c.beat.toNat := by
    simp [motorPart, motorDelay, pdMsToTicks_delaytime]
  have hbody (c : Cmd) : .check ∉ motorPart c := by simp [motorPart]
  have hfin : .check ∉ motorFin := by simp [motorFin]
  have htodo : ((s.task .motor).pc i).todo =
      cmdsPlan motorPart motorFin (commandList str.text) := by
    rw [hpc]
    rfl
  obtain ⟨played, hplayed, hall, hfol⟩ := track_timeline motor_plays hbody hfin
    (System.Numbered.run hs) (by rw [hpc]; trivial) htodo hl
  have hlist : actions (cmdsPlan motorPart motorFin played) =
      played.flatMap motorOps ++ carStop := by
    simp only [actions_cmdsPlan, hactions, motorFin, actions_map_act]
  refine ⟨played, hplayed, hall, hlist ▸ hfol.actions_isPrefix, fun hend => ?_,
    fun x hx e hact => ?_, fun c hc => ?_, fun k => ?_⟩
  · rw [← hlist]
    exact hfol.actions_eq (MotorPc.todo_of_not_active hend)
  · exact performed_does (w := .motor) MotorPc.perform Drives
      (fun _ _ _ _ _ _ _ _ h => motorRunCmdsTask_drives h) hl hx hact
  · rw [(Cmd.exact_of_beat (hbeats c (hplayed.subset hc))).delay, pdMsToTicks_delaytime]
  · have hlate := not_before_cmds hfol k
    simpa only [hactions, hwaits, List.sum_map_mul_left] using hlate

theorem motor_timeline_forward : ∃ (s s' : System) (l : Trace),
    Path System.step s l s' ∧ ((s'.task .motor).pc 0).phase = .done ∧
      ∃ played, played <+: commandList ['F', ',', '1', ';'] ∧
        (events .motor 0 MotorPc.perform l).map Prod.snd =
          played.flatMap motorOps ++ carStop := by
  let str : Str := ⟨0, ['F', ',', '1', ';']⟩
  obtain ⟨s, hs, hrest⟩ : ∃ s, run System.step (fun _ a => System.solo a && true) System.init
      (motorRunCmds 0 (some str) :: System.calls .motor 4 ++ System.tasks .motor 0 1 ()) =
        some s ∧
      ((run System.step (fun _ _ => true) s (System.tasks .motor 0 7 () ++ .tick 60 ::
        System.tasks .motor 0 7 ())).map fun s' =>
          ((s.task .motor).pc 0, ((s'.task .motor).pc 0).phase)) =
        some (MotorPc.cmds .loop str 0, .done) :=
    Option.bind_eq_some_iff.mp (by decide +kernel)
  obtain ⟨s', hs', hobs⟩ := Option.map_eq_some_iff.mp hrest
  obtain ⟨hpc, hphase⟩ := Prod.mk.inj hobs
  obtain ⟨l, hl, -⟩ := path_of_run hs'
  obtain ⟨played, hplayed, -, -, hend, -⟩ := motor_timeline
    (System.reach_of_solo_run hs fun _ _ _ _ _ _ => trivial).1 hpc (by decide) hl
  exact ⟨s, s', l, hl, hphase, played, hplayed, hend (by rw [hphase]; nofun)⟩

/-! ### The light track -/

def LedAct.todo : LedAct → Todo Frame
  | .fill f => .act f
  | .delay n => .wait n

def lightFin : List (Todo Frame) := [.act (colorFrame 5 5 5)]

def lightPart (c : Cmd) : List (Todo Frame) := (ledActs c).map LedAct.todo

def LedPc.started : LedPc → Prop
  | .absent | .entry | .null => False
  | _ => True

def LedPc.perform (pc : LedPc) (_ : Hw) : Option Frame :=
  match pc with
  | .acts (.fill f :: _) _ _ => some f
  | .ledOn => some (colorFrame 5 5 5)
  | _ => none

def LedPc.todo : LedPc → List (Todo Frame)
  | .cmds pc s pos => cmdTodo lightPart lightFin (commandList (s.text.drop pos)) pc
  | .acts l s pos => l.map LedAct.todo ++
      cmdsPlan lightPart lightFin (commandList (s.text.drop pos))
  | .delay d l s pos => .hold d :: (l.map LedAct.todo ++
      cmdsPlan lightPart lightFin (commandList (s.text.drop pos)))
  | .ledOn => lightFin
  | _ => []

theorem LedPc.todo_of_not_active {pc : LedPc} (h : pc.phase ≠ .active) : pc.todo = [] := by
  cases pc <;> first | rfl | exact absurd rfl h

theorem light_plays : Plays .light LedPc.perform LedPc.started LedPc.todo lightFin where
  absent := id
  idle _ := LedPc.todo_of_not_active
  task := by
    intro e i run args pc hw pc' eff hw' hs h
    change ledRunCmdsTask run args pc hw = some (pc', eff, hw') at h
    cases pc with
    | absent | entry | null => exact hs.elim
    | cmds pc s pos =>
      cases h
      have hplan := cmdStep_plan lightPart lightFin run hw.now s.text pos pc
      cases hout : cmdStep run s.text pos pc with
      | goto pc' | leave | exec c pos' =>
        rw [hout] at hplan
        exact ⟨trivial, hplan⟩
    | acts l s pos =>
      rcases l with _ | ⟨a, l⟩
      · cases h
        exact ⟨trivial, .stay⟩
      · cases a with
        | fill f =>
          cases h
          exact ⟨trivial, .act⟩
        | delay n =>
          cases h
          exact ⟨trivial, .wait⟩
    | delay d l s pos =>
      simp only [ledRunCmdsTask] at h
      split_ifs at h with hd
      cases h
      exact ⟨trivial, .hold hd⟩
    | ledOn =>
      cases h
      exact ⟨trivial, .act⟩
    | test =>
      cases h
      cases run <;> exact ⟨trivial, .stay⟩
    | cbTest =>
      cases h
      split_ifs <;> exact ⟨trivial, .stay⟩
    | clear | cbCreate | setBits | delete =>
      cases h
      exact ⟨trivial, .stay⟩
    | ended => cases h

/-- What a statement hands over to the renderer. -/
def Fills (f : Option Frame) (hw hw' : Hw) : Prop := hw'.frames = hw.frames ++ f.toList

theorem ledRunCmdsTask_fills {run : Bool} {args : Option Str} {pc pc' : LedPc}
    {hw hw' : Hw} {eff : Effect} (h : ledRunCmdsTask run args pc hw = some (pc', eff, hw')) :
    Fills (pc.perform hw) hw hw' := by
  have hsame (hw₁ : Hw) (heq : hw₁.frames = hw.frames) : Fills none hw hw₁ :=
    heq.trans (List.append_nil _).symm
  cases pc with
  | acts l s pos =>
    rcases l with _ | ⟨a, l⟩
    · cases h
      exact hsame hw rfl
    · cases a with
      | fill f =>
        cases h
        exact rfl
      | delay n =>
        cases h
        exact hsame hw rfl
  | delay d l s pos =>
    simp only [ledRunCmdsTask] at h
    split_ifs at h
    cases h
    exact hsame hw rfl
  | ledOn =>
    cases h
    exact rfl
  | absent | ended => cases h
  | _ =>
    cases h
    exact hsame _ rfl

theorem actions_lightPart (c : Cmd) : actions (lightPart c) = ledFrames (ledActs c) := by
  rw [actions, lightPart, ledFrames, List.filterMap_map]
  congr 1
  funext a
  cases a <;> rfl

theorem waits_lightPart (c : Cmd) : waits (lightPart c) = actTicks (ledActs c) := by
  rw [waits, lightPart, actTicks, List.map_map]
  congr 2
  funext a
  cases a <;> rfl

/-- The frames that a light instance sends from the moment it has read its string, in any
interleaving: those of the first commands of the string and then the dim white of `led_on`; of
all commands when the flag stays set. After the first `k` commands it goes on only when all
their delays are over, which are those that the machine computes. -/
theorem light_timeline {s s' : System} {l : Trace} {i : ℕ} {str : Str}
    (hs : Reach System.step (fun _ _ => True) System.init s)
    (hpc : (s.task .light).pc i = .cmds .loop str 0)
    (hbeats : ∀ c ∈ commandList str.text, 0 ≤ c.beat ∧ c.beat ≤ 71582)
    (hl : Path System.step s l s') :
    let log := events .light i LedPc.perform l
    let frames := fun c => ledFrames (ledActs c)
    ∃ played, played <+: commandList str.text ∧
      (Unstopped .light i l → played = commandList str.text) ∧
      log.map Prod.snd <+: played.flatMap frames ++ [colorFrame 5 5 5] ∧
      (((s'.task .light).pc i).phase ≠ .active →
        log.map Prod.snd = played.flatMap frames ++ [colorFrame 5 5 5]) ∧
      (∀ x ∈ l, ∀ e, x.2.1 = .task .light (.task i e) →
        Fills (x.1.performed .light i LedPc.perform x.2.1) x.1.hw x.2.2.hw) ∧
      (∀ c ∈ played, c.Exact) ∧
      ∀ k, ∀ e ∈ log.drop ((played.take k).flatMap frames).length,
        s.hw.now + ((played.take k).map fun c => actTicks (ledActs c)).sum ≤ e.1 := by
  intro log frames
  have hbody (c : Cmd) : .check ∉ lightPart c := by
    intro h
    obtain ⟨a, -, ha⟩ := List.mem_map.mp h
    cases a <;> cases ha
  have hfin : .check ∉ lightFin := by simp [lightFin]
  have htodo : ((s.task .light).pc i).todo =
      cmdsPlan lightPart lightFin (commandList str.text) := by
    rw [hpc]
    rfl
  obtain ⟨played, hplayed, hall, hfol⟩ := track_timeline light_plays hbody hfin
    (System.Numbered.run hs) (by rw [hpc]; trivial) htodo hl
  have hlist : actions (cmdsPlan lightPart lightFin played) =
      played.flatMap frames ++ [colorFrame 5 5 5] := by
    rw [actions_cmdsPlan]
    simp only [actions_lightPart]
    rfl
  refine ⟨played, hplayed, hall, hlist ▸ hfol.actions_isPrefix, fun hend => ?_,
    fun x hx e hact => ?_, fun c hc => Cmd.exact_of_beat (hbeats c (hplayed.subset hc)),
    fun k => ?_⟩
  · rw [← hlist]
    exact hfol.actions_eq (LedPc.todo_of_not_active hend)
  · exact performed_does (w := .light) LedPc.perform Fills
      (fun _ _ _ _ _ _ _ _ h => ledRunCmdsTask_fills h) hl hx hact
  · have hlate := not_before_cmds hfol k
    simpa only [actions_lightPart, waits_lightPart] using hlate

theorem light_timeline_red : ∃ (s s' : System) (l : Trace),
    Path System.step s l s' ∧ ((s'.task .light).pc 0).phase = .done ∧
      ∃ played, played <+: commandList ['R', ',', '1', ';'] ∧
        (events .light 0 LedPc.perform l).map Prod.snd =
          (played.flatMap fun c => ledFrames (ledActs c)) ++ [colorFrame 5 5 5] := by
  let str : Str := ⟨0, ['R', ',', '1', ';']⟩
  obtain ⟨s, hs, hrest⟩ : ∃ s, run System.step (fun _ a => System.solo a && true) System.init
      (ledRunCmds 0 (some str) :: System.calls .light 4 ++ System.tasks .light 0 1 ()) =
        some s ∧
      ((run System.step (fun _ _ => true) s (System.tasks .light 0 5 () ++ .tick 60 ::
        System.tasks .light 0 8 ())).map fun s' =>
          ((s.task .light).pc 0, ((s'.task .light).pc 0).phase)) =
        some (LedPc.cmds .loop str 0, .done) :=
    Option.bind_eq_some_iff.mp (by decide +kernel)
  obtain ⟨s', hs', hobs⟩ := Option.map_eq_some_iff.mp hrest
  obtain ⟨hpc, hphase⟩ := Prod.mk.inj hobs
  obtain ⟨l, hl, -⟩ := path_of_run hs'
  obtain ⟨played, hplayed, -, -, hend, -⟩ := light_timeline
    (System.reach_of_solo_run hs fun _ _ _ _ _ _ => trivial).1 hpc (by decide) hl
  exact ⟨s, s', l, hl, hphase, played, hplayed, hend (by rw [hphase]; nofun)⟩

end Car
