import CarFirmware.Lib.Transition
import Mathlib.Data.List.Basic
import Mathlib.Tactic.Common

/-! A worker that is started and stopped through a flag and an event bit.

Callers start an instance with `start` and ask it to end with `stop`; an instance
ends its loop when it reads the flag as false, or by itself, and then sets the
event bit, which a stop call waits for. All instances share one flag and one bit.
A guarded protocol looks at the flag before it stops or starts, clears the bit
before it waits, and the wait consumes the bit; a plain one does none of this.

The instances' own program counters are a parameter `β`; only their `Phase`
matters here. Callers are numbered, and several may be inside calls at once. -/

namespace Handshake

/-- What an instance still owes: it runs until it has cleared the flag, or has read it
as false for the last time; then it still has to set the bit. -/
inductive Phase where
  | absent | active | cleared | done
  deriving DecidableEq

def Phase.live : Phase → Bool
  | .active | .cleared => true
  | _ => false

/-- The statement a caller executes next. `k` is the argument of the start call that
a stop call belongs to, if there is one. -/
inductive Call (α : Type) where
  | idle
  | runTest (a : α)
  | stopTest (k : Option α)
  | clearBits (k : Option α)
  | unset (k : Option α)
  | waitBits (k : Option α)
  | waiting (k : Option α) (deadline : ℕ)
  | ret (k : Option α) (ok : Bool)
  | set (a : α)
  | args (a : α)
  | create
  deriving DecidableEq

def Call.isIdle {α : Type} : Call α → Bool
  | .idle => true
  | _ => false

@[simp] theorem Call.isIdle_iff {α : Type} {k : Call α} : k.isIdle = true ↔ k = .idle := by
  cases k <;> simp [isIdle]

/-- The argument that the call is to hand over to a new instance. -/
def Call.carries {α : Type} : Call α → Option α
  | .runTest a | .set a | .args a => some a
  | .stopTest k | .clearBits k | .unset k | .waitBits k | .waiting k _ | .ret k _ => k
  | .idle | .create => none

structure Proto where
  guarded : Bool
  timeout : ℕ

/-- `waiters` are the callers blocked on the event bit. -/
structure State (α β : Type) where
  taskRun : Bool
  bit : Bool
  waiters : List ℕ
  args : α
  call : ℕ → Call α
  created : ℕ
  pc : ℕ → β

inductive Effect where
  | none | clearRun | setBits
  deriving DecidableEq

variable {α β : Type}

/-- The first statement of a start call (`some a`) or of a stop call. -/
def Proto.entry (P : Proto) : Option α → Call α
  | some a => if P.guarded then .runTest a else .set a
  | .none => if P.guarded then .stopTest .none else .unset .none

theorem Proto.entry_ne_idle (P : Proto) (k : Option α) : P.entry k ≠ .idle := by
  cases k <;> simp only [entry] <;> split_ifs <;> simp

theorem Proto.entry_carries (P : Proto) (k : Option α) : (P.entry k).carries = k := by
  cases k <;> simp only [entry] <;> split_ifs <;> rfl

theorem Proto.entry_ne_create (P : Proto) (k : Option α) : P.entry k ≠ .create := by
  cases k <;> simp only [entry] <;> split_ifs <;> simp

def after : Option α → Call α
  | some a => .set a
  | .none => .idle

theorem after_carries (k : Option α) : (after k).carries = k := by
  cases k <;> rfl

theorem after_ne_create (k : Option α) : after k ≠ .create := by
  cases k <;> simp [after]

namespace State

def init (a : α) (absent : β) : State α β where
  taskRun := false
  bit := false
  waiters := []
  args := a
  call _ := .idle
  created := 0
  pc _ := absent

def goto (s : State α β) (c : ℕ) (k : Call α) : State α β :=
  { s with call := Function.update s.call c k }

/-- The effect of an instance on flag and bit. Setting the bit wakes every waiter,
and a guarded wait consumes it on the spot. -/
def effect (P : Proto) (s : State α β) : Effect → State α β
  | .none => s
  | .clearRun => { s with taskRun := false }
  | .setBits => { s with bit := if P.guarded then s.waiters.isEmpty else true, waiters := [] }

def move (P : Proto) (s : State α β) (i : ℕ) (pc : β) (e : Effect) : State α β :=
  { s.effect P e with pc := Function.update s.pc i pc }

/-- A caller that is in no call begins one. -/
def begin (P : Proto) (s : State α β) (c : ℕ) (k : Option α) : Option (State α β) :=
  match s.call c with
  | .idle => some (s.goto c (P.entry k))
  | _ => .none

/-- One statement of the call that `c` is in; `fresh` is where a new instance starts. -/
def callStep (P : Proto) (fresh : β) (now : ℕ) (s : State α β) (c : ℕ) : Option (State α β) :=
  match s.call c with
  | .idle => .none
  | .runTest a => some (s.goto c (if s.taskRun then .stopTest (some a) else .set a))
  | .stopTest k => some (s.goto c (if s.taskRun then .clearBits k else after k))
  | .clearBits k => some ({ s with bit := false }.goto c (.unset k))
  | .unset k => some ({ s with taskRun := false }.goto c (.waitBits k))
  | .waitBits k =>
    if s.bit then some ({ s with bit := !P.guarded }.goto c (.ret k true))
    else some ({ s with waiters := c :: s.waiters }.goto c (.waiting k (now + P.timeout)))
  | .waiting k deadline =>
    if c ∈ s.waiters then
      if deadline ≤ now then
        some ({ s with waiters := s.waiters.filter (· ≠ c) }.goto c (.ret k false))
      else .none
    else some (s.goto c (.ret k true))
  | .ret k _ => some (s.goto c (after k))
  | .set a => some ({ s with taskRun := true }.goto c (if P.guarded then .args a else .create))
  | .args a => some ({ s with args := a }.goto c .create)
  | .create =>
    some ({ s with created := s.created + 1, pc := Function.update s.pc s.created fresh }.goto c
      .idle)

end State

/-- What an instance may do: it leaves the active phase by clearing the flag, by reading
it as false, or by quitting without a word; it leaves the cleared one by setting the bit. -/
inductive Lawful (run : Bool) : Phase → Effect → Phase → Prop
  | stay (p : Phase) : p ≠ .absent → Lawful run p .none p
  | clear : Lawful run .active .clearRun .cleared
  | seen : run = false → Lawful run .active .none .cleared
  | quit : Lawful run .active .none .done
  | set : Lawful run .cleared .setBits .done

theorem Lawful.ne_absent {run : Bool} {p p' : Phase} {e : Effect} (h : Lawful run p e p') :
    p ≠ .absent := by
  cases h with
  | stay _ hp => exact hp
  | _ => simp

theorem Lawful.of_active {run : Bool} {p p' : Phase} {e : Effect} (h : Lawful run p e p')
    (hp' : p' = .active) : p = .active := by
  cases h with
  | stay => exact hp'
  | _ => cases hp'

theorem Lawful.live_of_live {run : Bool} {p p' : Phase} {e : Effect} (h : Lawful run p e p')
    (hp' : p'.live = true) : p.live = true := by
  cases h with
  | stay => exact hp'
  | clear | seen => rfl
  | quit | set => cases hp'

theorem Lawful.live_of_quiet {run : Bool} {p p' : Phase} {e : Effect} (h : Lawful run p e p')
    (hq : ¬ (p = .active ∧ p' = .done)) (he : e ≠ .setBits) (hp : p.live = true) :
    p'.live = true := by
  cases h with
  | stay => exact hp
  | clear | seen => rfl
  | quit => exact absurd ⟨rfl, rfl⟩ hq
  | set => exact absurd rfl he

instance (run : Bool) (p : Phase) (e : Effect) (p' : Phase) : Decidable (Lawful run p e p') :=
  decidable_of_iff
    ((p = p' ∧ e = .none ∧ p ≠ .absent) ∨ (p = .active ∧ e = .clearRun ∧ p' = .cleared) ∨
      (run = false ∧ p = .active ∧ e = .none ∧ p' = .cleared) ∨
      (p = .active ∧ e = .none ∧ p' = .done) ∨ (p = .cleared ∧ e = .setBits ∧ p' = .done)) <| by
    constructor
    · rintro (⟨rfl, rfl, h⟩ | ⟨rfl, rfl, rfl⟩ | ⟨h, rfl, rfl, rfl⟩ | ⟨rfl, rfl, rfl⟩ |
        ⟨rfl, rfl, rfl⟩)
      · exact .stay _ h
      · exact .clear
      · exact .seen h
      · exact .quit
      · exact .set
    · rintro (⟨_, h⟩ | _ | h | _ | _) <;> simp_all

inductive Act (α β : Type) where
  | begin (c : ℕ) (k : Option α)
  | call (c : ℕ) (now : ℕ)
  | inst (i : ℕ) (pc : β) (e : Effect)

def step (P : Proto) (phase : β → Phase) (fresh : β) (s : State α β) :
    Act α β → Option (State α β)
  | .begin c k => s.begin P c k
  | .call c now => s.callStep P fresh now c
  | .inst i pc e =>
    if Lawful s.taskRun (phase (s.pc i)) e (phase pc) then some (s.move P i pc e) else .none

namespace State

variable {P : Proto} {s s' : State α β} {fresh : β} {now c : ℕ}

@[simp] theorem goto_call (s : State α β) (c : ℕ) (k : Call α) (c' : ℕ) :
    (s.goto c k).call c' = if c' = c then k else s.call c' := by
  simp [goto, Function.update_apply]

@[simp] theorem goto_taskRun (s : State α β) (c : ℕ) (k : Call α) :
    (s.goto c k).taskRun = s.taskRun := rfl

@[simp] theorem goto_bit (s : State α β) (c : ℕ) (k : Call α) : (s.goto c k).bit = s.bit := rfl

@[simp] theorem goto_waiters (s : State α β) (c : ℕ) (k : Call α) :
    (s.goto c k).waiters = s.waiters := rfl

@[simp] theorem goto_args (s : State α β) (c : ℕ) (k : Call α) : (s.goto c k).args = s.args := rfl

@[simp] theorem goto_created (s : State α β) (c : ℕ) (k : Call α) :
    (s.goto c k).created = s.created := rfl

@[simp] theorem goto_pc (s : State α β) (c : ℕ) (k : Call α) : (s.goto c k).pc = s.pc := rfl

@[simp] theorem move_call (P : Proto) (s : State α β) (i : ℕ) (pc : β) (e : Effect) :
    (s.move P i pc e).call = s.call := by cases e <;> rfl

@[simp] theorem move_args (P : Proto) (s : State α β) (i : ℕ) (pc : β) (e : Effect) :
    (s.move P i pc e).args = s.args := by cases e <;> rfl

@[simp] theorem move_created (P : Proto) (s : State α β) (i : ℕ) (pc : β) (e : Effect) :
    (s.move P i pc e).created = s.created := by cases e <;> rfl

@[simp] theorem move_pc (P : Proto) (s : State α β) (i : ℕ) (pc : β) (e : Effect) (j : ℕ) :
    (s.move P i pc e).pc j = if j = i then pc else s.pc j := by
  cases e <;> simp [move, Function.update_apply]

/-- What one statement of a call can do. -/
inductive CallStep (P : Proto) (fresh : β) (now : ℕ) (s : State α β) (c : ℕ) : State α β → Prop
  | runTest {a : α} : s.call c = .runTest a →
      CallStep P fresh now s c (s.goto c (if s.taskRun then .stopTest (some a) else .set a))
  | stopTest {k : Option α} : s.call c = .stopTest k →
      CallStep P fresh now s c (s.goto c (if s.taskRun then .clearBits k else after k))
  | clearBits {k : Option α} : s.call c = .clearBits k →
      CallStep P fresh now s c ({ s with bit := false }.goto c (.unset k))
  | unset {k : Option α} : s.call c = .unset k →
      CallStep P fresh now s c ({ s with taskRun := false }.goto c (.waitBits k))
  | found {k : Option α} : s.call c = .waitBits k → s.bit = true →
      CallStep P fresh now s c ({ s with bit := !P.guarded }.goto c (.ret k true))
  | block {k : Option α} : s.call c = .waitBits k → s.bit = false →
      CallStep P fresh now s c
        ({ s with waiters := c :: s.waiters }.goto c (.waiting k (now + P.timeout)))
  | woken {k : Option α} {d : ℕ} : s.call c = .waiting k d → c ∉ s.waiters →
      CallStep P fresh now s c (s.goto c (.ret k true))
  | expire {k : Option α} {d : ℕ} : s.call c = .waiting k d → c ∈ s.waiters → d ≤ now →
      CallStep P fresh now s c
        ({ s with waiters := s.waiters.filter (· ≠ c) }.goto c (.ret k false))
  | ret {k : Option α} {ok : Bool} : s.call c = .ret k ok →
      CallStep P fresh now s c (s.goto c (after k))
  | set {a : α} : s.call c = .set a →
      CallStep P fresh now s c
        ({ s with taskRun := true }.goto c (if P.guarded then .args a else .create))
  | args {a : α} : s.call c = .args a →
      CallStep P fresh now s c ({ s with args := a }.goto c .create)
  | create : s.call c = .create →
      CallStep P fresh now s c
        ({ s with created := s.created + 1, pc := Function.update s.pc s.created fresh }.goto c
          .idle)

/-- A call touches no instance but the one it creates. -/
theorem CallStep.pc (h : CallStep P fresh now s c s') :
    s'.pc = s.pc ∨ (s.call c = .create ∧ s'.call c = .idle ∧
      s'.pc = Function.update s.pc s.created fresh) := by
  cases h
  case create hc => exact .inr ⟨hc, by simp, rfl⟩
  all_goals exact .inl rfl

/-- An argument is carried from the begin of a call to the statement that stores it. -/
theorem CallStep.carries {a : α} (h : CallStep P fresh now s c s')
    (ha : (s'.call c).carries = some a) : (s.call c).carries = some a := by
  cases h <;> simp only [goto_call, if_true] at ha
  case runTest b hc =>
    rw [hc]
    split_ifs at ha <;> exact ha
  case stopTest k hc =>
    rw [hc]
    split_ifs at ha
    · exact ha
    · exact (after_carries k).symm.trans ha
  case ret k ok hc =>
    rw [hc]
    exact (after_carries k).symm.trans ha
  case set b hc =>
    rw [hc]
    split_ifs at ha
    · exact ha
    · cases ha
  case args | create => cases ha
  all_goals
    rename_i hc
    simp_all [Call.carries]

theorem CallStep.args_eq (hg : P.guarded = true) (h : CallStep P fresh now s c s') :
    (s'.args = s.args ∧ (s'.call c = .create → s.call c = .create)) ∨
      (s.call c).carries = some s'.args := by
  cases h
  case args hc => exact .inr (by rw [hc]; rfl)
  all_goals
    refine .inl ⟨rfl, fun hcreate => ?_⟩
    simp only [goto_call, if_true] at hcreate
  case runTest => split_ifs at hcreate
  case stopTest k _ =>
    split_ifs at hcreate
    exact absurd hcreate (after_ne_create k)
  case ret k _ _ => exact absurd hcreate (after_ne_create k)
  case set =>
    rw [if_pos hg] at hcreate
    cases hcreate
  all_goals cases hcreate

theorem CallStep.ne_idle (h : CallStep P fresh now s c s') : s.call c ≠ .idle := by
  intro hidle
  cases h <;> simp_all

theorem CallStep.call_of_ne {c' : ℕ} (h : CallStep P fresh now s c s') (hc : c' ≠ c) :
    s'.call c' = s.call c' := by
  cases h <;> simp only [goto_call, if_neg hc]

theorem callStep_cases (h : s.callStep P fresh now c = some s') : CallStep P fresh now s c s' := by
  unfold callStep at h
  cases hc : s.call c <;> simp only [hc] at h
  case idle => cases h
  case runTest a => exact Option.some.inj h ▸ .runTest hc
  case stopTest k => exact Option.some.inj h ▸ .stopTest hc
  case clearBits k => exact Option.some.inj h ▸ .clearBits hc
  case unset k => exact Option.some.inj h ▸ .unset hc
  case waitBits k =>
    split_ifs at h with hb
    · exact Option.some.inj h ▸ .found hc hb
    · exact Option.some.inj h ▸ .block hc (by simpa using hb)
  case waiting k d =>
    split_ifs at h with hw hd
    · exact Option.some.inj h ▸ .expire hc hw hd
    · exact Option.some.inj h ▸ .woken hc hw
  case ret k ok => exact Option.some.inj h ▸ .ret hc
  case set a => exact Option.some.inj h ▸ .set hc
  case args a => exact Option.some.inj h ▸ .args hc
  case create => exact Option.some.inj h ▸ .create hc

theorem begin_cases {k : Option α} (h : s.begin P c k = some s') :
    s.call c = .idle ∧ s' = s.goto c (P.entry k) := by
  unfold begin at h
  cases hc : s.call c <;> simp only [hc] at h
  case idle => exact ⟨rfl, (Option.some.inj h).symm⟩
  all_goals cases h

end State

/-- A step of the protocol begins a call, executes one of its statements, or moves an
instance. -/
theorem step_cases {P : Proto} {phase : β → Phase} {fresh : β} {s s' : State α β}
    {a : Act α β} (h : step P phase fresh s a = some s') :
    (∃ c k, a = .begin c k ∧ s.call c = .idle ∧ s' = s.goto c (P.entry k)) ∨
    (∃ c now, a = .call c now ∧ State.CallStep P fresh now s c s') ∨
    (∃ i pc e, a = .inst i pc e ∧ Lawful s.taskRun (phase (s.pc i)) e (phase pc) ∧
      s' = s.move P i pc e) := by
  cases a with
  | begin c k =>
    obtain ⟨hc, rfl⟩ := State.begin_cases h
    exact .inl ⟨c, k, rfl, hc, rfl⟩
  | call c now => exact .inr (.inl ⟨c, now, rfl, State.callStep_cases h⟩)
  | inst i pc e =>
    simp only [step] at h
    split_ifs at h with hl
    exact .inr (.inr ⟨i, pc, e, rfl, hl, (Option.some.inj h).symm⟩)

theorem step_idle {P : Proto} {phase : β → Phase} {fresh : β} {s s' : State α β}
    {a : Act α β} {c : ℕ} (h : step P phase fresh s a = some s') (hc : s.call c = .idle)
    (ha : ∀ k, a ≠ .begin c k) : s'.call c = .idle := by
  rcases step_cases h with ⟨c', k, rfl, -, rfl⟩ | ⟨c', now, rfl, hs⟩ | ⟨i, pc, e, rfl, -, rfl⟩
  · have hne : c ≠ c' := by
      rintro rfl
      exact ha k rfl
    rw [State.goto_call, if_neg hne, hc]
  · have hne : c ≠ c' := by
      rintro rfl
      cases hs <;> simp_all
    cases hs <;> simp only [State.goto_call, if_neg hne] <;> exact hc
  · rw [State.move_call, hc]

end Handshake
