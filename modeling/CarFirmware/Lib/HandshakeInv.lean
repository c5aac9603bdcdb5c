import CarFirmware.Lib.Handshake

/-! Invariants of the handshake. Each is kept by the steps that meet a condition:
`QuitsCovered`, `Sequential`, `Exclusive`, `Patient` and `Heard` say of one step
what has to be avoided for the flag, the instances and the bit to stay in order. -/

namespace Handshake

open Transition

variable {α β : Type} {P : Proto} {phase : β → Phase} {fresh : β} {s s' : State α β}
  {a : Act α β} {c now : ℕ}

/-! ### Instances are numbered in the order of creation -/

def Numbered (absent : β) (s : State α β) : Prop := ∀ i, s.created ≤ i → s.pc i = absent

theorem Numbered.init (a₀ : α) (absent : β) : Numbered absent (State.init a₀ absent) :=
  fun _ _ => rfl

theorem Numbered.lt {absent : β} (h : Numbered absent s) (hp : phase absent = .absent) {i : ℕ}
    (hi : phase (s.pc i) ≠ .absent) : i < s.created := by
  by_contra hle
  rw [h i (by omega)] at hi
  exact hi hp

theorem Numbered.callStep {absent : β} (h : Numbered absent s)
    (hs : State.CallStep P fresh now s c s') : Numbered absent s' := by
  cases hs
  case create =>
    intro i hi
    have hi : s.created + 1 ≤ i := hi
    have hne : i ≠ s.created := by omega
    rw [State.goto_pc]
    exact (Function.update_of_ne hne _ _).trans (h i (by omega))
  all_goals exact h

theorem Numbered.inst {absent : β} (hp : phase absent = .absent) (h : Numbered absent s) {i : ℕ}
    {pc : β} {e : Effect} (hl : Lawful s.taskRun (phase (s.pc i)) e (phase pc)) :
    Numbered absent (s.move P i pc e) := by
  have hi : i < s.created := h.lt hp hl.ne_absent
  intro j hj
  rw [State.move_created] at hj
  have hne : j ≠ i := by omega
  rw [State.move_pc, if_neg hne]
  exact h j hj

theorem Numbered.step {absent : β} (hp : phase absent = .absent) (h : Numbered absent s)
    (hs : step P phase fresh s a = some s') : Numbered absent s' := by
  rcases step_cases hs with ⟨c, k, rfl, -, rfl⟩ | ⟨c, now, rfl, hc⟩ | ⟨i, pc, e, rfl, hl, rfl⟩
  · exact h
  · exact h.callStep hc
  · exact h.inst hp hl

/-! ### What a step of an instance keeps -/

theorem active_of_move {i j : ℕ} {pc : β} {e e' : Effect}
    (hl : Lawful s.taskRun (phase (s.pc i)) e (phase pc))
    (hj : phase ((s.move P i pc e').pc j) = .active) : phase (s.pc j) = .active := by
  rw [State.move_pc] at hj
  split_ifs at hj with hij
  · rw [hij]
    exact hl.of_active hj
  · exact hj

theorem live_of_move {i j : ℕ} {pc : β} {e e' : Effect}
    (hl : Lawful s.taskRun (phase (s.pc i)) e (phase pc))
    (hj : (phase ((s.move P i pc e').pc j)).live = true) : (phase (s.pc j)).live = true := by
  rw [State.move_pc] at hj
  split_ifs at hj with hij
  · rw [hij]
    exact hl.live_of_live hj
  · exact hj

theorem phase_move {i j : ℕ} {pc : β} {e : Effect} (hsame : j = i → phase pc = phase (s.pc i)) :
    phase ((s.move P i pc e).pc j) = phase (s.pc j) := by
  rw [State.move_pc]
  split_ifs with hij
  · rw [hij]
    exact hsame hij
  · rfl

/-! ### The flag has an owner -/

/-- Between setting the flag and creating the instance. -/
def Call.starting : Call α → Bool
  | .args _ | .create => true
  | _ => false

theorem Proto.entry_starting (P : Proto) (k : Option α) : (P.entry k).starting = false := by
  cases k <;> simp only [entry] <;> split_ifs <;> rfl

/-- An instance that quits without clearing the flag leaves somebody who will. -/
def QuitsCovered (phase : β → Phase) (s : State α β) (a : Act α β) : Prop :=
  ∀ i pc e, a = .inst i pc e → phase (s.pc i) = .active → phase pc = .done →
    s.taskRun = false ∨ (∃ c, (s.call c).starting = true) ∨ ∃ j, j ≠ i ∧ phase (s.pc j) = .active

/-- The flag is up only while somebody is around to take it down. -/
def FlagOwned (phase : β → Phase) (s : State α β) : Prop :=
  s.taskRun = true → (∃ c, (s.call c).starting = true) ∨ ∃ i, phase (s.pc i) = .active

theorem FlagOwned.begin {k : Option α} (h : FlagOwned phase s) (hc : s.call c = .idle) :
    FlagOwned phase (s.goto c (P.entry k)) := by
  intro hrun
  rcases h hrun with ⟨c', hc'⟩ | hi
  · refine .inl ⟨c', ?_⟩
    have hne : c' ≠ c := by
      rintro rfl
      rw [hc] at hc'
      cases hc'
    rwa [State.goto_call, if_neg hne]
  · exact .inr hi

theorem FlagOwned.callStep (hf : phase fresh = .active) (h : FlagOwned phase s)
    (hs : State.CallStep P fresh now s c s') : FlagOwned phase s' := by
  cases hs
  case unset hc => exact fun hrun => absurd hrun (by simp)
  case set hc =>
    refine fun _ => .inl ⟨c, ?_⟩
    rw [State.goto_call, if_pos rfl]
    split_ifs <;> rfl
  case create hc => exact fun _ => .inr ⟨s.created, by simp [hf]⟩
  -- the other statements leave the flag, the instances and the starting callers alone
  all_goals
    intro hrun
    rcases h hrun with ⟨c', hc'⟩ | hi
    · refine .inl ⟨c', ?_⟩
      by_cases hcc : c' = c
      · subst hcc
        simp_all [Call.starting]
      · rwa [State.goto_call, if_neg hcc]
    · exact .inr hi

theorem FlagOwned.inst {i : ℕ} {pc : β} {e : Effect} (h : FlagOwned phase s)
    (hq : QuitsCovered phase s (.inst i pc e))
    (hl : Lawful s.taskRun (phase (s.pc i)) e (phase pc)) :
    FlagOwned phase (s.move P i pc e) := by
  intro hrun
  generalize hp : phase (s.pc i) = p at hl
  generalize hp' : phase pc = p' at hl
  cases hl with
  | stay _ =>
    rcases h hrun with hc | ⟨j, hj⟩
    · exact .inl (by simpa using hc)
    · exact .inr ⟨j, (phase_move fun _ => hp'.trans hp.symm).trans hj⟩
  | clear => exact absurd hrun (by simp [State.move, State.effect])
  | seen hoff => exact absurd hrun (by simp [State.move, State.effect, hoff])
  | quit =>
    rcases hq i pc .none rfl hp hp' with hoff | hc | ⟨j, hne, hj⟩
    · exact absurd hrun (by simp [State.move, State.effect, hoff])
    · exact .inl (by simpa using hc)
    · exact .inr ⟨j, by rw [State.move_pc, if_neg hne, hj]⟩
  | set =>
    rcases h hrun with hc | ⟨j, hj⟩
    · exact .inl (by simpa using hc)
    · have hne : j ≠ i := by
        rintro rfl
        rw [hp] at hj
        cases hj
      exact .inr ⟨j, (phase_move fun hij => absurd hij hne).trans hj⟩

theorem FlagOwned.step (hf : phase fresh = .active) (h : FlagOwned phase s)
    (hq : QuitsCovered phase s a) (hs : step P phase fresh s a = some s') :
    FlagOwned phase s' := by
  rcases step_cases hs with ⟨c, k, rfl, hc, rfl⟩ | ⟨c, now, rfl, hc⟩ | ⟨i, pc, e, rfl, hl, rfl⟩
  · exact h.begin hc
  · exact h.callStep hf hc
  · exact h.inst hq hl

theorem FlagOwned.run {a₀ : α} {absent : β} (hf : phase fresh = .active)
    (h : Reach (Handshake.step P phase fresh) (QuitsCovered phase) (State.init a₀ absent) s) :
    FlagOwned phase s :=
  h.invariant (fun hrun => by cases hrun) fun _ _ _ hI hq hs => hI.step hf hq hs

/-! ### One call at a time -/

def Call.blocked : Call α → Bool
  | .waiting _ _ => true
  | _ => false

/-- A call begins only when no other call on this worker is in progress. -/
def Sequential (s : State α β) (a : Act α β) : Prop :=
  ∀ c k, a = .begin c k → ∀ c', s.call c' = .idle

/-- At most one caller is inside a call, and only blocked callers wait for the bit. -/
structure Base (s : State α β) : Prop where
  sole : ∀ c c', s.call c ≠ .idle → s.call c' ≠ .idle → c = c'
  waiters : ∀ c ∈ s.waiters, (s.call c).blocked = true

theorem Base.eq_of_open {c' : ℕ} (hb : Base s) (hs : State.CallStep P fresh now s c s')
    (hopen : s'.call c' ≠ .idle) : c' = c := by
  by_contra hcc
  rw [hs.call_of_ne hcc] at hopen
  exact hcc (hb.sole c' c hopen hs.ne_idle)

theorem Base.waiters_callStep {c' : ℕ} (hb : Base s) (hs : State.CallStep P fresh now s c s')
    (hc' : c' ∈ s'.waiters) : (s'.call c').blocked = true := by
  have hblocked := hb.waiters c'
  by_cases hcc : c' = c
  · subst hcc
    cases hs
    case block => rw [State.goto_call, if_pos rfl]; rfl
    case woken hout => exact absurd hc' hout
    case expire =>
      have hne := (List.mem_filter.mp hc').2
      simp at hne
    all_goals
      -- at any other statement the caller was not in the list
      have hwaits := hblocked hc'
      simp_all [Call.blocked]
  · rw [hs.call_of_ne hcc]
    apply hblocked
    cases hs
    case block => exact (List.mem_cons.mp hc').resolve_left hcc
    case expire => exact (List.mem_filter.mp hc').1
    all_goals exact hc'

theorem Base.callStep (h : Base s) (hs : State.CallStep P fresh now s c s') : Base s' where
  sole _ _ h₁ h₂ := (h.eq_of_open hs h₁).trans (h.eq_of_open hs h₂).symm
  waiters _ := h.waiters_callStep hs

theorem Base.begin {k : Option α} (h : Base s) (hidle : ∀ c', s.call c' = .idle) :
    Base (s.goto c (P.entry k)) := by
  have hopen (c' : ℕ) (hc' : (s.goto c (P.entry k)).call c' ≠ .idle) : c' = c := by
    by_contra hcc
    rw [State.goto_call, if_neg hcc] at hc'
    exact hc' (hidle c')
  refine ⟨fun c₁ c₂ h₁ h₂ => (hopen c₁ h₁).trans (hopen c₂ h₂).symm, fun c' hc' => ?_⟩
  have hblocked := h.waiters c' hc'
  rw [hidle c'] at hblocked
  cases hblocked

theorem Base.inst {i : ℕ} {pc : β} {e : Effect} (h : Base s) : Base (s.move P i pc e) := by
  refine ⟨by simpa using h.sole, fun c' hc' => ?_⟩
  rw [State.move_call]
  cases e with
  | none => exact h.waiters c' hc'
  | clearRun => exact h.waiters c' hc'
  | setBits => cases hc'

theorem Base.step (h : Base s) (hseq : Sequential s a)
    (hs : step P phase fresh s a = some s') : Base s' := by
  rcases step_cases hs with ⟨c, k, rfl, hc, rfl⟩ | ⟨c, now, rfl, hc⟩ | ⟨i, pc, e, rfl, -, rfl⟩
  · exact h.begin (hseq c k rfl)
  · exact h.callStep hc
  · exact h.inst

theorem Base.init (a₀ : α) (absent : β) : Base (State.init a₀ absent) where
  sole _ _ hc := absurd rfl hc
  waiters _ hc := by cases hc

/-! ### A stop that returns ok has seen the instance end -/

/-- In a stop call, from where the bit must stay clear until the instance sets it. -/
def Call.armed (guarded : Bool) : Call α → Bool
  | .unset _ => guarded
  | .waitBits _ | .waiting _ _ => true
  | _ => false

theorem Proto.entry_armed (P : Proto) (k : Option α) : (P.entry k).armed P.guarded = false := by
  cases k <;> simp only [entry] <;> split_ifs with hg <;> first | rfl | simp [Call.armed, hg]

theorem Proto.entry_ne_ret (P : Proto) (k k' : Option α) (ok : Bool) : P.entry k ≠ .ret k' ok := by
  cases k <;> simp only [entry] <;> split_ifs <;> simp

/-- The statement after which a stop call is armed. -/
def Call.arming (guarded : Bool) : Call α → Bool
  | .clearBits _ => guarded
  | .unset _ => !guarded
  | _ => false

/-- A stop arms itself on a running instance only when that instance is the only one that
has yet to set the bit, and, where it does not clear the bit, when the bit is clear. -/
def Exclusive (P : Proto) (phase : β → Phase) (s : State α β) (a : Act α β) : Prop :=
  ∀ c now, a = .call c now → (s.call c).arming P.guarded = true →
    ∀ i, phase (s.pc i) = .active →
      (P.guarded = false → s.bit = false) ∧ ∀ j, (phase (s.pc j)).live = true → j = i

structure Armed (P : Proto) (phase : β → Phase) (s : State α β) : Prop where
  armed : ∀ c i, (s.call c).armed P.guarded = true → phase (s.pc i) = .active →
    s.bit = false ∧ (∀ j, (phase (s.pc j)).live = true → j = i) ∧
      ((s.call c).blocked = true → c ∈ s.waiters)
  sound : ∀ c k i, s.call c = .ret k true → phase (s.pc i) ≠ .active

theorem Armed.armed_callStep {i : ℕ} (h : Armed P phase s)
    (hx : (s.call c).arming P.guarded = true → (P.guarded = false → s.bit = false) ∧
      ∀ j, (phase (s.pc j)).live = true → j = i)
    (hs : State.CallStep P fresh now s c s') (hc : (s'.call c).armed P.guarded = true)
    (hi : phase (s.pc i) = .active) :
    s'.bit = false ∧ (∀ j, (phase (s.pc j)).live = true → j = i) ∧
      ((s'.call c).blocked = true → c ∈ s'.waiters) := by
  cases hs <;> simp only [State.goto_call, if_true] at hc ⊢
  case clearBits k hk =>
    obtain ⟨-, hlive⟩ := hx (by rw [hk]; exact hc)
    exact ⟨rfl, hlive, fun hblocked => by cases hblocked⟩
  case unset k hk =>
    cases hg : P.guarded with
    | true =>
      obtain ⟨hbit, hlive, -⟩ := h.armed c i (by rw [hk]; exact hg) hi
      exact ⟨hbit, hlive, fun hblocked => by cases hblocked⟩
    | false =>
      obtain ⟨hbit, hlive⟩ := hx (by rw [hk, hg]; rfl)
      exact ⟨hbit hg, hlive, fun hblocked => by cases hblocked⟩
  case block k hk hbit =>
    obtain ⟨-, hlive, -⟩ := h.armed c i (by rw [hk]; rfl) hi
    exact ⟨hbit, hlive, fun _ => List.mem_cons_self ..⟩
  case runTest => split_ifs at hc <;> cases hc
  case stopTest k _ =>
    split_ifs at hc
    · cases hc
    · cases k <;> cases hc
  case ret k _ _ => cases k <;> cases hc
  case set => split_ifs at hc <;> cases hc
  all_goals cases hc

theorem Armed.sound_callStep {k : Option α} {i : ℕ} (h : Armed P phase s)
    (hs : State.CallStep P fresh now s c s') (hc : s'.call c = .ret k true) :
    phase (s.pc i) ≠ .active := by
  intro hi
  cases hs <;> simp only [State.goto_call, if_true] at hc
  case found k' hk hbit =>
    obtain ⟨hoff, -, -⟩ := h.armed c i (by rw [hk]; rfl) hi
    rw [hbit] at hoff
    cases hoff
  case woken k' d hk hout =>
    obtain ⟨-, -, hwait⟩ := h.armed c i (by rw [hk]; rfl) hi
    exact hout (hwait (by rw [hk]; rfl))
  case runTest => split_ifs at hc
  case stopTest k' _ =>
    split_ifs at hc
    cases k' <;> cases hc
  case ret k' _ _ => cases k' <;> cases hc
  case set => split_ifs at hc
  all_goals cases hc

theorem Armed.callStep (hb : Base s) (h : Armed P phase s)
    (hx : Exclusive P phase s (.call c now)) (hs : State.CallStep P fresh now s c s') :
    Armed P phase s' := by
  refine ⟨fun c' i hc' hi => ?_, fun c' k i hc' => ?_⟩
  · obtain rfl := hb.eq_of_open hs (by rintro hidle; rw [hidle] at hc'; cases hc')
    have hpc : s'.pc = s.pc := by
      rcases hs.pc with hpc | ⟨-, hidle, -⟩
      · exact hpc
      · rw [hidle] at hc'
        cases hc'
    rw [hpc] at hi ⊢
    have harming := hx c' now rfl
    exact h.armed_callStep (fun ha => harming ha i hi) hs hc' hi
  · obtain rfl := hb.eq_of_open hs (by rw [hc']; nofun)
    rcases hs.pc with hpc | ⟨-, hidle, -⟩
    · rw [hpc]
      exact h.sound_callStep hs hc'
    · rw [hidle] at hc'
      cases hc'

theorem Armed.inst {i : ℕ} {pc : β} {e : Effect} (h : Armed P phase s)
    (hl : Lawful s.taskRun (phase (s.pc i)) e (phase pc)) : Armed P phase (s.move P i pc e) := by
  refine ⟨fun c j hc hj => ?_, fun c k j hc hj => ?_⟩
  · rw [State.move_call] at hc ⊢
    obtain ⟨hbit, hlive, hwait⟩ := h.armed c j hc (active_of_move hl hj)
    have hlive' (j' : ℕ) (hj' : (phase ((s.move P i pc e).pc j')).live = true) : j' = j :=
      hlive j' (live_of_move hl hj')
    generalize hp : phase (s.pc i) = p at hl
    generalize hp' : phase pc = p' at hl
    cases hl with
    | set =>
      -- the mover is live and is not the active instance
      have hij : i = j := hlive i (by rw [hp]; rfl)
      rw [State.move_pc, if_pos hij.symm, hp'] at hj
      cases hj
    | _ => exact ⟨hbit, hlive', hwait⟩
  · rw [State.move_call] at hc
    exact h.sound c k j hc (active_of_move hl hj)

theorem Armed.begin {k : Option α} (hidle : ∀ c', s.call c' = .idle) :
    Armed P phase (s.goto c (P.entry k)) := by
  have hcall (c' : ℕ) : (s.goto c (P.entry k)).call c' = .idle ∨
      (s.goto c (P.entry k)).call c' = P.entry k := by
    rw [State.goto_call]
    split_ifs
    · exact .inr rfl
    · exact .inl (hidle c')
  refine ⟨fun c' i hc' => ?_, fun c' k' i hc' => ?_⟩
  · rcases hcall c' with heq | heq <;> rw [heq] at hc'
    · cases hc'
    · rw [P.entry_armed] at hc'
      cases hc'
  · rcases hcall c' with heq | heq <;> rw [heq] at hc'
    · cases hc'
    · exact absurd hc' (P.entry_ne_ret k k' true)

theorem Armed.step (hb : Base s) (h : Armed P phase s) (hseq : Sequential s a)
    (hx : Exclusive P phase s a) (hs : step P phase fresh s a = some s') : Armed P phase s' := by
  rcases step_cases hs with ⟨c, k, rfl, hc, rfl⟩ | ⟨c, now, rfl, hc⟩ | ⟨i, pc, e, rfl, hl, rfl⟩
  · exact .begin (hseq c k rfl)
  · exact h.callStep hb hx hc
  · exact h.inst hl

theorem Armed.init (a₀ : α) (absent : β) : Armed P phase (State.init a₀ absent) where
  armed _ _ hc := by cases hc
  sound _ _ _ hc := by cases hc

theorem Armed.run {a₀ : α} {absent : β}
    (h : Reach (Handshake.step P phase fresh) (fun s a => Sequential s a ∧ Exclusive P phase s a)
      (State.init a₀ absent) s) : Armed P phase s :=
  (h.invariant (I := fun s => Base s ∧ Armed P phase s) ⟨.init _ _, .init _ _⟩
    fun _ _ _ hI hok hs => ⟨hI.1.step hok.1 hs, hI.2.step hI.1 hok.1 hok.2 hs⟩).2

/-! ### At most one instance runs -/

/-- Past the wait of a stop call, up to the creation. -/
def Call.quiet : Call α → Bool
  | .ret _ _ | .set _ | .args _ | .create => true
  | _ => false

theorem Proto.entry_quiet (P : Proto) (hg : P.guarded = true) (k : Option α) :
    (P.entry k).quiet = false := by
  cases k <;> simp [entry, hg, Call.quiet]

def Call.stopping : Call α → Bool
  | .waitBits _ | .waiting _ _ => true
  | _ => false

/-- A wait runs out of time only when no instance is running. -/
def Patient (phase : β → Phase) (s : State α β) (a : Act α β) : Prop :=
  ∀ c now, a = .call c now → (s.call c).blocked = true → c ∈ s.waiters →
    ∀ i, phase (s.pc i) ≠ .active

structure Calm (phase : β → Phase) (s : State α β) : Prop where
  newest : ∀ i, phase (s.pc i) = .active → i + 1 = s.created
  stopping : s.taskRun = false → ∀ i, phase (s.pc i) = .active →
    ∃ c, (s.call c).stopping = true
  quiet : ∀ c i, (s.call c).quiet = true → phase (s.pc i) ≠ .active
  started : ∀ c, (s.call c).starting = true → s.taskRun = true

/-- A caller that finds the flag down at the start of its call finds no instance running. -/
theorem Calm.off (hb : Base s) (h : Calm phase s) (hc : s.call c ≠ .idle)
    (hnot : (s.call c).stopping = false) (hoff : s.taskRun = false) (i : ℕ) :
    phase (s.pc i) ≠ .active := by
  intro hi
  obtain ⟨c', hc'⟩ := h.stopping hoff i hi
  have : c' = c := hb.sole c' c (by rintro he; rw [he] at hc'; cases hc') hc
  rw [this, hnot] at hc'
  cases hc'

/-- A caller that gets past its wait, or finds the flag down, finds no instance running. -/
theorem Calm.enters_quiet (hb : Base s) (ha : Armed P phase s) (h : Calm phase s)
    (hp : Patient phase s (.call c now)) (hs : State.CallStep P fresh now s c s')
    (hq : (s'.call c).quiet = true) (i : ℕ) : phase (s.pc i) ≠ .active := by
  have hoff (hnot : (s.call c).stopping = false) (hrun : s.taskRun = false) :
      phase (s.pc i) ≠ .active := h.off hb hs.ne_idle hnot hrun i
  have hquiet := h.quiet c i
  cases hs <;> simp only [State.goto_call, if_true] at hq
  case runTest a hk =>
    split_ifs at hq with hrun
    · cases hq
    · exact hoff (by rw [hk]; rfl) (by simpa using hrun)
  case stopTest k hk =>
    split_ifs at hq with hrun
    · cases hq
    · exact hoff (by rw [hk]; rfl) (by simpa using hrun)
  case found k hk hbit =>
    intro hi
    obtain ⟨hunset, -, -⟩ := ha.armed c i (by rw [hk]; rfl) hi
    rw [hbit] at hunset
    cases hunset
  case woken k d hk hout =>
    intro hi
    obtain ⟨-, -, hwait⟩ := ha.armed c i (by rw [hk]; rfl) hi
    exact hout (hwait (by rw [hk]; rfl))
  case expire k d hk hin _ => exact hp c now rfl (by rw [hk]; rfl) hin i
  case ret k ok hk => exact hquiet (by rw [hk]; rfl)
  case set a hk => exact hquiet (by rw [hk]; rfl)
  case args a hk => exact hquiet (by rw [hk]; rfl)
  all_goals cases hq

theorem Base.quiet_callStep (hb : Base s) (hs : State.CallStep P fresh now s c s')
    (henter : (s'.call c).quiet = true → ∀ i, phase (s.pc i) ≠ .active) (c' i : ℕ)
    (hq : (s'.call c').quiet = true) : phase (s'.pc i) ≠ .active := by
  obtain rfl := hb.eq_of_open hs (by rintro hidle; rw [hidle] at hq; cases hq)
  rcases hs.pc with hpc | ⟨-, hidle, -⟩
  · rw [hpc]
    exact henter hq i
  · rw [hidle] at hq
    cases hq

theorem Calm.newest_callStep (h : Calm phase s) (hs : State.CallStep P fresh now s c s') (i : ℕ)
    (hi : phase (s'.pc i) = .active) : i + 1 = s'.created := by
  have hnew := h.newest i
  have hquiet := h.quiet c i
  cases hs
  case create hc =>
    simp only [State.goto_pc, Function.update_apply, State.goto_created] at hi ⊢
    split_ifs at hi with heq
    · rw [heq]
    · exact absurd hi (hquiet (by rw [hc]; rfl))
  all_goals exact hnew hi

theorem Calm.started_callStep (hb : Base s) (h : Calm phase s)
    (hs : State.CallStep P fresh now s c s') (c' : ℕ) (hc' : (s'.call c').starting = true) :
    s'.taskRun = true := by
  obtain rfl := hb.eq_of_open hs (by rintro hidle; rw [hidle] at hc'; cases hc')
  cases hs <;> simp only [State.goto_call, State.goto_taskRun, if_true] at hc' ⊢
  case args a hk => exact h.started c' (by rw [hk]; rfl)
  case runTest => split_ifs at hc' <;> cases hc'
  case stopTest k _ =>
    split_ifs at hc'
    · cases hc'
    · cases k <;> cases hc'
  case ret k _ _ => cases k <;> cases hc'
  all_goals cases hc'

theorem Calm.stopping_callStep (hb : Base s) (h : Calm phase s)
    (hs : State.CallStep P fresh now s c s')
    (henter : (s'.call c).quiet = true → ∀ i, phase (s.pc i) ≠ .active) (hoff : s'.taskRun = false)
    (i : ℕ) (hi : phase (s'.pc i) = .active) : ∃ c', (s'.call c').stopping = true := by
  refine ⟨c, ?_⟩
  have hnot (hk : (s.call c).stopping = false) (hrun : s.taskRun = false) :
      phase (s.pc i) ≠ .active := h.off hb hs.ne_idle hk hrun i
  have hup (hk : (s.call c).starting = true) (hrun : s.taskRun = false) : False := by
    rw [h.started c hk] at hrun
    cases hrun
  cases hs <;> simp only [State.goto_call, State.goto_taskRun, State.goto_pc, if_true] at *
  case unset => rfl
  case block => rfl
  case found => exact absurd hi (henter rfl i)
  case woken => exact absurd hi (henter rfl i)
  case expire => exact absurd hi (henter rfl i)
  case set => cases hoff
  case create hk => exact (hup (by rw [hk]; rfl) hoff).elim
  all_goals
    rename_i hk
    exact absurd hi (hnot (by rw [hk]; rfl) hoff)

theorem Calm.callStep (hb : Base s) (ha : Armed P phase s)
    (h : Calm phase s) (hp : Patient phase s (.call c now))
    (hs : State.CallStep P fresh now s c s') : Calm phase s' := by
  have henter := h.enters_quiet hb ha hp hs
  exact ⟨h.newest_callStep hs, h.stopping_callStep hb hs henter, hb.quiet_callStep hs henter,
    h.started_callStep hb hs⟩

theorem Calm.inst {i : ℕ} {pc : β} {e : Effect} (h : Calm phase s)
    (hl : Lawful s.taskRun (phase (s.pc i)) e (phase pc)) : Calm phase (s.move P i pc e) := by
  obtain ⟨hnew, hstop, hquiet, hstart⟩ := h
  have hactive (j : ℕ) (hj : phase ((s.move P i pc e).pc j) = .active) :
      phase (s.pc j) = .active := active_of_move hl hj
  generalize hp : phase (s.pc i) = p at hl
  generalize hp' : phase pc = p' at hl
  refine ⟨?_, ?_, ?_, ?_⟩
  · intro j hj
    rw [State.move_created]
    exact hnew j (hactive j hj)
  · intro hoff j hj
    rw [State.move_call]
    refine hstop ?_ j (hactive j hj)
    cases hl with
    | clear =>
      -- the mover was the running instance, so none runs now
      have hij : i = j := by
        have hi := hnew i hp
        have hj := hnew j (hactive j hj)
        omega
      rw [State.move_pc, if_pos hij.symm, hp'] at hj
      cases hj
    | _ => exact hoff
  · intro c j hc hj
    rw [State.move_call] at hc
    exact hquiet c j hc (hactive j hj)
  · intro c hc
    rw [State.move_call] at hc
    cases hl with
    | clear =>
      have hq : (s.call c).quiet = true := by
        cases hk : s.call c <;> rw [hk] at hc <;> first | rfl | cases hc
      exact absurd hp (hquiet c i hq)
    | _ => exact hstart c hc

theorem Calm.begin {k : Option α} (hg : P.guarded = true) (h : Calm phase s)
    (hidle : ∀ c', s.call c' = .idle) : Calm phase (s.goto c (P.entry k)) := by
  have hnone (c' : ℕ) (f : Call α → Bool) (hf : f .idle = false) (he : f (P.entry k) = false) :
      f ((s.goto c (P.entry k)).call c') ≠ true := by
    rw [State.goto_call]
    split_ifs
    · simp [he]
    · simp [hidle c', hf]
  refine ⟨h.newest, fun hoff i hi => ?_, fun c' i hc' => ?_, fun c' hc' => ?_⟩
  · obtain ⟨c', hc'⟩ := h.stopping hoff i hi
    rw [hidle c'] at hc'
    cases hc'
  · exact absurd hc' (hnone c' Call.quiet rfl (P.entry_quiet hg k))
  · exact absurd hc' (hnone c' Call.starting rfl (P.entry_starting k))

theorem Calm.step (hg : P.guarded = true) (hb : Base s) (ha : Armed P phase s)
    (h : Calm phase s) (hseq : Sequential s a)
    (hp : Patient phase s a) (hs : step P phase fresh s a = some s') : Calm phase s' := by
  rcases step_cases hs with ⟨c, k, rfl, hc, rfl⟩ | ⟨c, now, rfl, hc⟩ | ⟨i, pc, e, rfl, hl, rfl⟩
  · exact h.begin hg (hseq c k rfl)
  · exact h.callStep hb ha hp hc
  · exact h.inst hl

theorem Calm.init (a₀ : α) {absent : β} (hp : phase absent = .absent) :
    Calm phase (State.init a₀ absent) where
  newest _ hi := absurd (hp.symm.trans hi) (by decide)
  stopping _ _ hi := absurd (hp.symm.trans hi) (by decide)
  quiet _ _ hc := by cases hc
  started _ hc := by cases hc

/-- A guarded worker whose stops can be trusted and outlast its instances. -/
structure Settled (P : Proto) (phase : β → Phase) (s : State α β) : Prop where
  base : Base s
  armed : Armed P phase s
  calm : Calm phase s

theorem Settled.init (a₀ : α) {absent : β} (hp : phase absent = .absent) :
    Settled P phase (State.init a₀ absent) :=
  ⟨.init _ _, .init _ _, .init _ hp⟩

theorem Settled.step (hg : P.guarded = true) (h : Settled P phase s) (hseq : Sequential s a)
    (hx : Exclusive P phase s a) (hp : Patient phase s a)
    (hs : step P phase fresh s a = some s') : Settled P phase s' :=
  ⟨h.base.step hseq hs, h.armed.step h.base hseq hx hs,
    h.calm.step hg h.base h.armed hseq hp hs⟩

theorem Settled.run {a₀ : α} {absent : β} (hg : P.guarded = true) (hp : phase absent = .absent)
    (h : Reach (Handshake.step P phase fresh)
      (fun s a => Sequential s a ∧ Exclusive P phase s a ∧ Patient phase s a)
      (State.init a₀ absent) s) : Settled P phase s :=
  h.invariant (.init _ hp) fun _ _ _ hI hok hs => hI.step hg hok.1 hok.2.1 hok.2.2 hs

theorem Settled.begin {k : Option α} (hg : P.guarded = true) (h : Settled P phase s)
    (hidle : ∀ c', s.call c' = .idle) : Settled P phase (s.goto c (P.entry k)) :=
  ⟨h.base.begin hidle, .begin hidle, h.calm.begin hg hidle⟩

theorem Settled.callStep (h : Settled P phase s)
    (hx : Exclusive P phase s (.call c now)) (hp : Patient phase s (.call c now))
    (hs : State.CallStep P fresh now s c s') : Settled P phase s' :=
  ⟨h.base.callStep hs, h.armed.callStep h.base hx hs, h.calm.callStep h.base h.armed hp hs⟩

theorem Settled.inst (h : Settled P phase s) {i : ℕ} {pc : β} {e : Effect}
    (hl : Lawful s.taskRun (phase (s.pc i)) e (phase pc)) : Settled P phase (s.move P i pc e) :=
  ⟨h.base.inst, h.armed.inst hl, h.calm.inst hl⟩

def Call.isStop : Call α → Bool
  | .idle => true
  | .stopTest k | .clearBits k | .unset k | .waitBits k | .waiting k _ | .ret k _ => k.isNone
  | .runTest _ | .set _ | .args _ | .create => false

theorem entry_isStop (P : Proto) : (P.entry (none : Option α)).isStop = true := by
  simp only [Proto.entry]
  split_ifs <;> rfl

theorem after_isStop {k : Option α} (h : k.isNone = true) : (after k).isStop = true := by
  cases k with
  | none => rfl
  | some a => cases h

theorem isStop_of_callStep (hc : (s.call c).isStop = true)
    (hs : State.CallStep P fresh now s c s') :
    (s'.call c).isStop = true ∧ s'.pc = s.pc ∧ s'.created = s.created := by
  cases hs <;> simp only [State.goto_call, if_true]
  case stopTest k hk =>
    refine ⟨?_, rfl, rfl⟩
    rw [hk] at hc
    split_ifs
    · exact hc
    · exact after_isStop hc
  case ret k ok hk =>
    rw [hk] at hc
    exact ⟨after_isStop hc, rfl, rfl⟩
  all_goals
    rename_i hk
    simp_all [Call.isStop]

theorem isStop_of_callStep_right (hs : State.CallStep P fresh now s c s')
    (hstop : (s'.call c).isStop = true) (hopen : s'.call c ≠ .idle) :
    (s.call c).isStop = true ∧ s.call c ≠ .idle := by
  refine ⟨?_, hs.ne_idle⟩
  cases hs <;> simp only [State.goto_call, if_true] at hstop hopen
  case runTest a _ => split_ifs at hstop <;> cases hstop
  case stopTest k hk =>
    rw [hk]
    cases k with
    | none => rfl
    | some a => split_ifs at hstop <;> cases hstop
  case set => split_ifs at hstop <;> cases hstop
  case create => exact absurd rfl hopen
  case args => cases hstop
  case ret k ok hk =>
    cases k with
    | none => exact absurd rfl hopen
    | some a => cases hstop
  all_goals simp_all [Call.isStop]

def Call.heading (k : Call α) : Bool := !k.isStop && !k.starting

theorem Call.isStop_of_heading {k : Call α} (h : k.heading = true) : k.isStop = false := by
  cases k <;> simp_all [heading]

theorem Call.isStop_of_starting {k : Call α} (h : k.starting = true) : k.isStop = false := by
  cases k <;> first | rfl | cases h

theorem heading_of_callStep (hs : State.CallStep P fresh now s c s')
    (h : (s.call c).heading = true) : (s'.call c).heading = true ∨ s'.taskRun = true := by
  cases hs
  case set => exact .inr rfl
  case runTest =>
    left
    rw [State.goto_call, if_pos rfl]
    split_ifs <;> rfl
  case stopTest k hk =>
    left
    rw [hk] at h
    rw [State.goto_call, if_pos rfl]
    cases k <;> split_ifs <;> first | rfl | cases h
  case ret k ok hk =>
    left
    rw [hk] at h
    rw [State.goto_call, if_pos rfl]
    cases k <;> first | rfl | cases h
  all_goals
    left
    simp_all [Call.heading, Call.isStop, Call.starting]

/-- The flag is cleared only by a stop. -/
theorem taskRun_of_callStep (hs : State.CallStep P fresh now s c s') (h : s.taskRun = true) :
    s'.taskRun = true ∨ (s'.call c).heading = true ∨
      ((s.call c).isStop = true ∧ s.call c ≠ .idle) := by
  cases hs
  case unset k hk =>
    right
    cases k with
    | none => exact .inr (by rw [hk]; exact ⟨rfl, by simp⟩)
    | some a => exact .inl (by rw [State.goto_call, if_pos rfl]; rfl)
  case set => exact .inl rfl
  all_goals exact .inl h

/-- When a stop call returns, no instance runs. -/
theorem Settled.stopped (h : Settled P phase s) (hc : (s.call c).isStop = true)
    (hs : State.CallStep P fresh now s c s') (hidle : s'.call c = .idle) (i : ℕ) :
    phase (s'.pc i) ≠ .active := by
  rw [(isStop_of_callStep hc hs).2.1]
  cases hs <;> simp only [State.goto_call, if_true] at hidle
  case runTest => split_ifs at hidle
  case stopTest k hk =>
    split_ifs at hidle with hrun
    exact h.calm.off h.base (by rw [hk]; nofun) (by rw [hk]; rfl) (by simpa using hrun) i
  case ret k ok hk => exact h.calm.quiet c i (by rw [hk]; rfl)
  case set => split_ifs at hidle
  case create hk =>
    rw [hk] at hc
    cases hc
  all_goals cases hidle

/-! ### A waiting stop is woken -/

/-- A stop clears the bit, and an instance quits in silence, only while another instance
has yet to set the bit or no stop is on its way to the wait. -/
def Heard (P : Proto) (phase : β → Phase) (s : State α β) (a : Act α β) : Prop :=
  (∀ c now, a = .call c now → (s.call c).arming P.guarded = true →
    ∃ i, (phase (s.pc i)).live = true) ∧
  (∀ i pc e, a = .inst i pc e → phase (s.pc i) = .active → phase pc = .done →
    (∃ j, j ≠ i ∧ (phase (s.pc j)).live = true) ∨ ∀ c, (s.call c).armed P.guarded = false)

/-- Whoever is on the way to the wait finds the bit set or an instance that will set it. -/
structure Signal (P : Proto) (phase : β → Phase) (s : State α β) : Prop where
  pending : ∀ c, (s.call c).armed P.guarded = true → (s.call c).blocked = false →
    s.bit = true ∨ ∃ i, (phase (s.pc i)).live = true
  waiting : ∀ c ∈ s.waiters, ∃ i, (phase (s.pc i)).live = true

theorem Signal.pending_callStep (hg : P.guarded = true) (h : Signal P phase s)
    (harming : (s.call c).arming P.guarded = true → ∃ i, (phase (s.pc i)).live = true)
    (hs : State.CallStep P fresh now s c s') (hc : (s'.call c).armed P.guarded = true)
    (hnb : (s'.call c).blocked = false) :
    s'.bit = true ∨ ∃ i, (phase (s.pc i)).live = true := by
  cases hs <;> simp only [State.goto_call, if_true] at hc hnb
  case clearBits k hk => exact .inr (harming (by rw [hk]; exact hg))
  case unset k hk => exact h.pending c (by rw [hk]; exact hg) (by rw [hk]; rfl)
  case block => cases hnb
  case runTest => split_ifs at hc <;> cases hc
  case stopTest k _ =>
    split_ifs at hc
    · cases hc
    · cases k <;> cases hc
  case ret k _ _ => cases k <;> cases hc
  case set => split_ifs at hc; cases hc
  all_goals cases hc

/-- Only a caller that finds the bit clear starts to wait for it. -/
theorem Signal.waiting_callStep {c' : ℕ} (h : Signal P phase s)
    (hs : State.CallStep P fresh now s c s') (hc' : c' ∈ s'.waiters) :
    ∃ i, (phase (s.pc i)).live = true := by
  cases hs
  case block k hk hbit =>
    rcases List.mem_cons.mp hc' with rfl | hc'
    · rcases h.pending c' (by rw [hk]; rfl) (by rw [hk]; rfl) with hset | hlive
      · rw [hbit] at hset
        cases hset
      · exact hlive
    · exact h.waiting c' hc'
  case expire => exact h.waiting c' (List.mem_filter.mp hc').1
  all_goals exact h.waiting c' hc'

theorem Signal.callStep (hg : P.guarded = true) (hf : phase fresh = .active) (hb : Base s)
    (h : Signal P phase s) (hh : Heard P phase s (.call c now))
    (hs : State.CallStep P fresh now s c s') : Signal P phase s' := by
  have hlive (hex : ∃ i, (phase (s.pc i)).live = true) : ∃ i, (phase (s'.pc i)).live = true := by
    rcases hs.pc with hpc | ⟨-, -, hpc⟩
    · rw [hpc]
      exact hex
    · exact ⟨s.created, by rw [hpc, Function.update_self, hf]; rfl⟩
  refine ⟨fun c' hc' hnb => ?_, fun c' hc' => hlive (h.waiting_callStep hs hc')⟩
  obtain rfl := hb.eq_of_open hs (by rintro hidle; rw [hidle] at hc'; cases hc')
  exact (h.pending_callStep hg (hh.1 c' now rfl) hs hc' hnb).imp id hlive

theorem Signal.inst {i : ℕ} {pc : β} {e : Effect} (hg : P.guarded = true) (hb : Base s)
    (h : Signal P phase s) (hh : Heard P phase s (.inst i pc e))
    (hl : Lawful s.taskRun (phase (s.pc i)) e (phase pc)) : Signal P phase (s.move P i pc e) := by
  obtain ⟨hpend, hwaiting⟩ := h
  have hh := hh.2 i pc e rfl
  generalize hp : phase (s.pc i) = p at hl hh
  generalize hp' : phase pc = p' at hl hh
  -- a silent step leaves a live instance if there was one
  have hlive (hq : ¬ (p = .active ∧ p' = .done)) (he : e ≠ .setBits)
      (hex : ∃ j, (phase (s.pc j)).live = true) :
      ∃ j, (phase ((s.move P i pc e).pc j)).live = true := by
    obtain ⟨j, hj⟩ := hex
    refine ⟨j, ?_⟩
    rw [State.move_pc]
    split_ifs with hij
    · rw [hij, hp] at hj
      rw [hp']
      exact hl.live_of_quiet hq he hj
    · exact hj
  cases hl with
  | set =>
    refine ⟨fun c hc hnb => .inl ?_, fun c hc => by cases hc⟩
    -- a second caller would have to be in the list of waiters
    rw [State.move_call] at hc hnb
    have hempty : s.waiters = [] := by
      apply List.eq_nil_iff_forall_not_mem.mpr
      intro c' hc'
      have hblocked := hb.waiters c' hc'
      have hopen' : s.call c' ≠ .idle := by
        intro hidle
        rw [hidle] at hblocked
        cases hblocked
      have hopen : s.call c ≠ .idle := by
        intro hidle
        rw [hidle] at hc
        cases hc
      rw [hb.sole c' c hopen' hopen, hnb] at hblocked
      cases hblocked
    simp [State.move, State.effect, hg, hempty]
  | quit =>
    rcases hh rfl rfl with ⟨j, hne, hj⟩ | hnone
    · have hj' : (phase ((s.move P i pc .none).pc j)).live = true := by
        rw [State.move_pc, if_neg hne, hj]
      exact ⟨fun _ _ _ => .inr ⟨j, hj'⟩, fun _ _ => ⟨j, hj'⟩⟩
    · refine ⟨?_, ?_⟩
      · intro c hc _
        rw [State.move_call, hnone c] at hc
        cases hc
      · intro c hc
        have hblocked := hb.waiters c hc
        have harmed : (s.call c).armed P.guarded = true := by
          cases hk : s.call c <;> rw [hk] at hblocked <;> first | rfl | cases hblocked
        rw [hnone c] at harmed
        cases harmed
  | stay _ =>
    have hq : ¬ (p = .active ∧ p = .done) := by
      rintro ⟨hactive, hdone⟩
      cases hactive.symm.trans hdone
    exact ⟨fun c hc hnb => (hpend c (by simpa using hc) (by simpa using hnb)).imp id
      (hlive hq (by simp)), fun c hc => hlive hq (by simp) (hwaiting c hc)⟩
  | clear =>
    exact ⟨fun c hc hnb => (hpend c (by simpa using hc) (by simpa using hnb)).imp id
      (hlive (by simp) (by simp)), fun c hc => hlive (by simp) (by simp) (hwaiting c hc)⟩
  | seen _ =>
    exact ⟨fun c hc hnb => (hpend c (by simpa using hc) (by simpa using hnb)).imp id
      (hlive (by simp) (by simp)), fun c hc => hlive (by simp) (by simp) (hwaiting c hc)⟩

theorem Signal.step (hg : P.guarded = true) (hf : phase fresh = .active) (hb : Base s)
    (h : Signal P phase s) (hseq : Sequential s a) (hh : Heard P phase s a)
    (hs : step P phase fresh s a = some s') : Signal P phase s' := by
  rcases step_cases hs with ⟨c, k, rfl, hc, rfl⟩ | ⟨c, now, rfl, hc⟩ | ⟨i, pc, e, rfl, hl, rfl⟩
  · refine ⟨fun c' hc' hnb => ?_, h.waiting⟩
    rw [State.goto_call] at hc' hnb
    split_ifs at hc' hnb
    · rw [P.entry_armed] at hc'
      cases hc'
    · rw [hseq c k rfl c'] at hc'
      cases hc'
  · exact h.callStep hg hf hb hh hc
  · exact h.inst hg hb hh hl

theorem Signal.init (a₀ : α) (absent : β) : Signal P phase (State.init a₀ absent) where
  pending _ hc := by cases hc
  waiting _ hc := by cases hc

theorem Signal.run {a₀ : α} {absent : β} (hg : P.guarded = true) (hf : phase fresh = .active)
    (h : Reach (Handshake.step P phase fresh) (fun s a => Sequential s a ∧ Heard P phase s a)
      (State.init a₀ absent) s) : Signal P phase s :=
  (h.invariant (I := fun s => Base s ∧ Signal P phase s)
    ⟨.init _ _, .init _ _⟩
    fun _ _ _ hI hok hs => ⟨hI.1.step hok.1 hs, hI.2.step hg hf hI.1 hok.1 hok.2 hs⟩).2

end Handshake
