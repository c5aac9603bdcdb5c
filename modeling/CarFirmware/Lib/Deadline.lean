import CarFirmware.Lib.HandshakeInv

/-! The waits of the handshake against a clock. An instance that reads the flag as false is
over after the delay that it is in and those that it has begun; if they are shorter than the
wait, and no time passes while an instance could go on, the wait does not run out. -/

namespace Handshake

open Transition

variable {α β : Type} {P : Proto} {phase : β → Phase} {fresh : β} {s s' : State α β}
  {c now bound : ℕ}

/-- `wake` is when a delay ends, if the instance is in one; `rest` are the further delays before
it looks at the flag. -/
structure Pace (β : Type) where
  wake : β → Option ℕ
  rest : β → ℕ

namespace Pace

variable {T : Pace β} {pc : β}

def due (T : Pace β) (pc : β) (now : ℕ) : ℕ := (T.wake pc).getD now + T.rest pc

/-- The delay has not been over for any time, and what is left fits. -/
structure OnTime (T : Pace β) (bound now : ℕ) (pc : β) : Prop where
  wake : now ≤ (T.wake pc).getD now
  due : T.due pc now ≤ now + bound

theorem OnTime.le_due (h : T.OnTime bound now pc) : now ≤ T.due pc now :=
  Nat.le_trans h.wake (Nat.le_add_right _ _)

theorem onTime_of_ready (hw : T.wake pc = none) (hr : T.rest pc ≤ bound) :
    T.OnTime bound now pc := by
  have hnow : (T.wake pc).getD now = now := by rw [hw, Option.getD_none]
  refine ⟨Nat.le_of_eq hnow.symm, ?_⟩
  rw [Pace.due, hnow]
  omega

theorem due_of_ready (hw : T.wake pc = none) : T.due pc now = now + T.rest pc := by
  rw [Pace.due, hw, Option.getD_none]

theorem due_of_wake {d : ℕ} (hw : T.wake pc = some d) : T.due pc now = d + T.rest pc := by
  rw [Pace.due, hw, Option.getD_some]

/-- Whoever is about to look at the flag comes no later than before. -/
theorem OnTime.settle {pc' : β} (h : T.OnTime bound now pc) (hw : T.wake pc' = none)
    (hr : T.rest pc' = 0) : T.OnTime bound now pc' ∧ T.due pc' now ≤ T.due pc now := by
  refine ⟨onTime_of_ready hw (by omega), ?_⟩
  rw [due_of_ready hw, hr]
  exact h.le_due

/-- `n` ticks pass while the instance is in a delay. -/
def Sleeps (T : Pace β) (now n : ℕ) (pc : β) : Prop := now + n ≤ (T.wake pc).getD now

theorem OnTime.tick {n : ℕ} (h : T.OnTime bound now pc) (hn : T.Sleeps now n pc) :
    T.OnTime bound (now + n) pc ∧ T.due pc (now + n) = T.due pc now := by
  unfold Sleeps at hn
  have hdue := h.due
  cases hw : T.wake pc with
  | none =>
    rw [hw, Option.getD_none] at hn
    obtain rfl : n = 0 := by omega
    exact ⟨h, rfl⟩
  | some d =>
    rw [hw, Option.getD_some] at hn
    rw [due_of_wake hw] at hdue
    refine ⟨⟨?_, ?_⟩, (due_of_wake hw).trans (due_of_wake hw).symm⟩
    · rw [hw, Option.getD_some]
      exact hn
    · rw [due_of_wake hw]
      omega

end Pace

/-- Between the statement that clears the flag and the end of the wait. -/
def Call.told : Call α → Bool
  | .waitBits _ | .waiting _ _ => true
  | _ => false

theorem Proto.entry_told (P : Proto) (k : Option α) : (P.entry k).told = false := by
  cases k <;> simp only [entry] <;> split_ifs <;> rfl

/-- Whoever waits will wait for longer than any instance needs. -/
structure InTime (T : Pace β) (phase : β → Phase) (bound now : ℕ) (s : State α β) : Prop where
  onTime : ∀ i, (phase (s.pc i)).live = true → T.OnTime bound now (s.pc i)
  told : ∀ c, (s.call c).told = true → s.taskRun = false
  waiting : ∀ c k d i, s.call c = .waiting k d → c ∈ s.waiters →
    (phase (s.pc i)).live = true → T.due (s.pc i) now < d

namespace InTime

variable {T : Pace β}

theorem init (a₀ : α) {absent : β} (hp : phase absent = .absent) :
    InTime T phase bound now (State.init a₀ absent) where
  onTime _ hi := absurd hi (by rw [State.init, hp]; decide)
  told _ hc := by cases hc
  waiting _ _ _ _ hc := by cases hc

theorem begin {k : Option α} (h : InTime T phase bound now s) (hidle : ∀ c', s.call c' = .idle) :
    InTime T phase bound now (s.goto c (P.entry k)) := by
  have hnone (c' : ℕ) : ((s.goto c (P.entry k)).call c').told = false := by
    rw [State.goto_call]
    split_ifs
    · exact P.entry_told k
    · rw [hidle c']
      rfl
  refine ⟨h.onTime, fun c' hc' => ?_, fun c' k' d i hc' => ?_⟩
  · rw [hnone c'] at hc'
    cases hc'
  · have htold := hnone c'
    rw [hc'] at htold
    cases htold

/-- What a call does to the flag and to the waits. -/
theorem told_callStep (h : InTime T phase bound now s) (hs : State.CallStep P fresh now s c s')
    (hc : (s'.call c).told = true) : s'.taskRun = false := by
  cases hs <;> simp only [State.goto_call, if_true] at hc
  case unset => rfl
  case block k hk _ => exact h.told c (by rw [hk]; rfl)
  case runTest => split_ifs at hc <;> cases hc
  case stopTest k _ =>
    split_ifs at hc
    · cases hc
    · cases k <;> cases hc
  case ret k _ _ => cases k <;> cases hc
  case set => split_ifs at hc <;> cases hc
  all_goals cases hc

theorem waiting_callStep {k : Option α} {d i : ℕ} (hbound : bound < P.timeout)
    (h : InTime T phase bound now s) (hs : State.CallStep P fresh now s c s')
    (hc : s'.call c = .waiting k d) (hi : (phase (s.pc i)).live = true) :
    T.due (s.pc i) now < d := by
  cases hs <;> simp only [State.goto_call, if_true] at hc
  case block =>
    obtain ⟨-, rfl⟩ := Call.waiting.inj hc
    have := (h.onTime i hi).due
    omega
  case runTest => split_ifs at hc
  case stopTest k' _ =>
    split_ifs at hc
    cases k' <;> cases hc
  case ret k' _ _ => cases k' <;> cases hc
  case set => split_ifs at hc
  all_goals cases hc

theorem callStep (hbound : bound < P.timeout) (hfresh : T.OnTime bound now fresh) (hb : Base s)
    (h : InTime T phase bound now s) (hs : State.CallStep P fresh now s c s') :
    InTime T phase bound now s' := by
  have hother {c' : ℕ} (hc' : s'.call c' ≠ .idle) : c' = c := hb.eq_of_open hs hc'
  refine ⟨fun i hi => ?_, fun c' hc' => ?_, fun c' k d i hc' hwait hi => ?_⟩
  · rcases hs.pc with hpc | ⟨-, -, hpc⟩
    · rw [hpc] at hi ⊢
      exact h.onTime i hi
    · rw [hpc, Function.update_apply] at hi ⊢
      split_ifs at hi ⊢
      · exact hfresh
      · exact h.onTime i hi
  · obtain rfl := hother (by rintro hidle; rw [hidle] at hc'; cases hc')
    exact h.told_callStep hs hc'
  · obtain rfl := hother (by rw [hc']; nofun)
    rcases hs.pc with hpc | ⟨-, hidle, -⟩
    · rw [hpc] at hi ⊢
      exact h.waiting_callStep hbound hs hc' hi
    · rw [hidle] at hc'
      cases hc'

theorem inst {i : ℕ} {pc : β} {e : Effect} (h : InTime T phase bound now s)
    (hl : Lawful s.taskRun (phase (s.pc i)) e (phase pc))
    (hpc : (phase pc).live = true → T.OnTime bound now pc ∧
      (s.taskRun = false → T.due pc now ≤ T.due (s.pc i) now)) :
    InTime T phase bound now (s.move P i pc e) := by
  refine ⟨fun j hj => ?_, fun c hc => ?_, fun c k d j hc hwait hj => ?_⟩
  · rw [State.move_pc] at hj ⊢
    split_ifs at hj ⊢
    · exact (hpc hj).1
    · exact h.onTime j hj
  · rw [State.move_call] at hc
    cases e with
    | clearRun => rfl
    | none | setBits => exact h.told c hc
  · rw [State.move_call] at hc
    have hc' : c ∈ s.waiters := by
      cases e with
      | setBits => cases hwait
      | none | clearRun => exact hwait
    rw [State.move_pc] at hj ⊢
    split_ifs at hj ⊢
    · have hoff : s.taskRun = false := h.told c (by rw [hc]; rfl)
      have hlt := h.waiting c k d i hc hc' (hl.live_of_live hj)
      exact Nat.lt_of_le_of_lt ((hpc hj).2 hoff) hlt
    · exact h.waiting c k d j hc hc' hj

theorem tick {n : ℕ} (h : InTime T phase bound now s)
    (hn : ∀ i, (phase (s.pc i)).live = true → T.Sleeps now n (s.pc i)) :
    InTime T phase bound (now + n) s := by
  refine ⟨fun i hi => ((h.onTime i hi).tick (hn i hi)).1, h.told, fun c k d i hc hwait hi => ?_⟩
  rw [((h.onTime i hi).tick (hn i hi)).2]
  exact h.waiting c k d i hc hwait hi

theorem not_live {k : Option α} {d : ℕ} (h : InTime T phase bound now s)
    (hc : s.call c = .waiting k d) (hwait : c ∈ s.waiters) (hd : d ≤ now) (i : ℕ) :
    (phase (s.pc i)).live ≠ true := by
  intro hi
  have hle := (h.onTime i hi).le_due
  have hlt := h.waiting c k d i hc hwait hi
  omega

end InTime

/-! ### What the instances are given -/

/-- What a worker has been given, or is about to be, has the property. -/
structure Supplied (Q : α → Prop) (s : State α β) : Prop where
  args : Q s.args
  carried : ∀ c a, (s.call c).carries = some a → Q a

namespace Supplied

variable {Q : α → Prop}

theorem init {a₀ : α} (absent : β) (h : Q a₀) : Supplied Q (State.init a₀ absent) :=
  ⟨h, fun _ _ hc => by cases hc⟩

theorem begin {k : Option α} (h : Supplied Q s) (hk : ∀ a, k = some a → Q a) :
    Supplied Q (s.goto c (P.entry k)) := by
  refine ⟨h.args, fun c' a hc' => ?_⟩
  rw [State.goto_call] at hc'
  split_ifs at hc'
  · exact hk a ((P.entry_carries k).symm.trans hc')
  · exact h.carried c' a hc'

theorem callStep (hg : P.guarded = true) (h : Supplied Q s)
    (hs : State.CallStep P fresh now s c s') : Supplied Q s' := by
  refine ⟨?_, fun c' a hc' => ?_⟩
  · rcases hs.args_eq hg with ⟨hargs, -⟩ | hcarries
    · rw [hargs]
      exact h.args
    · exact h.carried c _ hcarries
  · by_cases hcc : c' = c
    · subst hcc
      exact h.carried c' a (hs.carries hc')
    · rw [hs.call_of_ne hcc] at hc'
      exact h.carried c' a hc'

theorem inst {i : ℕ} {pc : β} {e : Effect} (h : Supplied Q s) : Supplied Q (s.move P i pc e) := by
  refine ⟨?_, fun c a hc => ?_⟩
  · cases e <;> exact h.args
  · rw [State.move_call] at hc
    exact h.carried c a hc

end Supplied

end Handshake
