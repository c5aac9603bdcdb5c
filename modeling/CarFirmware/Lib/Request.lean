import CarFirmware.Lib.HandshakeInv

/-! One start call against the instance before it. An instance is `busy` as long as it may
have something that the new one needs. If the call finds the flag false only when no
instance is busy, and its wait is answered, then no instance but the new one is busy from
its creation on, whatever stop calls are in progress. -/

namespace Handshake

open Transition

variable {α β : Type} {P : Proto} {phase : β → Phase} {busy : β → Bool} {fresh : β}
  {s s' : State α β} {a : Act α β} {c n now : ℕ} {x : α}

def Free (busy : β → Bool) (s : State α β) : Prop := ∀ i, busy (s.pc i) = false

def Lone (phase : β → Phase) (s : State α β) : Prop :=
  ∀ i j, (phase (s.pc i)).live = true → (phase (s.pc j)).live = true → i = j

/-- The next statement looks at the flag for the call that starts an instance with `x`. -/
def Call.Tests (x : α) (k : Call α) : Prop := k = .runTest x ∨ k = .stopTest (some x)

instance [DecidableEq α] (x : α) (k : Call α) : Decidable (k.Tests x) :=
  inferInstanceAs (Decidable (_ ∨ _))

/-- Nobody but `c` starts an instance, its wait does not run out, and it finds the flag false
only when no instance is busy; an instance that is not busy stays so. -/
structure Unhindered (busy : β → Bool) (c : ℕ) (x : α) (s : State α β) (a : Act α β) : Prop where
  alone : ∀ c' y, a ≠ .begin c' (some y)
  answered : s.call c ≠ .ret (some x) false
  released : ∀ now, a = .call c now → (s.call c).Tests x → s.taskRun = false → Free busy s
  keeps : ∀ i pc e, a = .inst i pc e → busy pc = true → busy (s.pc i) = true

/-- The call has, or is about to get, the answer that no instance is busy: the bit is set,
or the caller does not wait any more. -/
def Call.Sure (bit : Bool) (waits : Prop) : Call α → Prop
  | .unset _ | .waitBits _ => bit = true
  | .waiting _ _ => ¬ waits
  | .ret _ ok => ok = true
  | .set _ | .args _ | .create => True
  | _ => False

def State.Sure (s : State α β) (c : ℕ) : Prop := (s.call c).Sure s.bit (c ∈ s.waiters)

theorem Call.Sure.mono {k : Call α} {bit bit' : Bool} {waits waits' : Prop}
    (h : k.Sure bit waits) (hbit : bit = true → bit' = true) (hwaits : waits' → waits) :
    k.Sure bit' waits' := by
  cases k with
  | unset | waitBits => exact hbit h
  | waiting => exact mt hwaits h
  | ret | set | args | create => exact h
  | idle | runTest | stopTest | clearBits => exact h.elim

/-- The call has not created its instance yet, which will be number `n`. -/
structure Asking (phase : β → Phase) (busy : β → Bool) (c : ℕ) (x : α) (n : ℕ)
    (s : State α β) : Prop where
  created : s.created = n
  carries : s.call c = .create ∨ (s.call c).carries = some x
  args : s.call c = .create → s.args = x
  others : ∀ c' ≠ c, (s.call c').isStop = true
  lone : Lone phase s
  free : s.Sure c → Free busy s

/-- The call has created its instance. -/
structure Served (busy : β → Bool) (x : α) (n : ℕ) (s : State α β) : Prop where
  created : s.created = n + 1
  args : s.args = x
  calls : ∀ c, (s.call c).isStop = true
  free : ∀ i ≠ n, busy (s.pc i) = false

def Requested (phase : β → Phase) (busy : β → Bool) (c : ℕ) (x : α) (n : ℕ)
    (s : State α β) : Prop :=
  Asking phase busy c x n s ∨ Served busy x n s

theorem Call.isStop_of_carries {k : Call α} (h : k = .create ∨ k.carries = some x) :
    k.isStop = false := by
  cases k <;> simp_all [isStop, carries]

theorem Asking.begin_self (hg : P.guarded = true) (hcalls : ∀ c', (s.call c').isStop = true)
    (hlone : Lone phase s) :
    Asking phase busy c x s.created (s.goto c (P.entry (some x))) where
  created := rfl
  carries := .inr (by simp [Proto.entry_carries])
  args h := absurd h (by simp [Proto.entry_ne_create])
  others c' hc' := by simpa [hc'] using hcalls c'
  lone := hlone
  free h := by simp [State.Sure, Call.Sure, Proto.entry, hg] at h

theorem Asking.begin_stop (h : Asking phase busy c x n s) {c' : ℕ} (hc' : s.call c' = .idle) :
    Asking phase busy c x n (s.goto c' (P.entry none)) := by
  have hne : c ≠ c' := by
    rintro rfl
    have hstop := Call.isStop_of_carries h.carries
    rw [hc'] at hstop
    cases hstop
  have hcall : (s.goto c' (P.entry none)).call c = s.call c := by simp [hne]
  refine ⟨h.created, hcall ▸ h.carries, hcall ▸ h.args, fun d hd => ?_, h.lone,
    fun hs => h.free ?_⟩
  · rw [State.goto_call]
    split_ifs
    · exact entry_isStop P
    · exact h.others d hd
  · rw [State.Sure, hcall] at hs
    exact hs

/-- A stop call does not make another call sure of anything. -/
theorem sure_of_stop {c' : ℕ} (hg : P.guarded = true) (hne : c ≠ c')
    (hstop : (s.call c').isStop = true) (hs : State.CallStep P fresh now s c' s')
    (h : s'.Sure c) : s.Sure c := by
  have hcall := hs.call_of_ne hne
  rw [State.Sure, hcall] at h
  refine h.mono ?_ ?_
  · cases hs <;> simp_all [Call.isStop]
  · cases hs <;> simp_all [Call.isStop]

theorem Asking.other_step (hg : P.guarded = true) (h : Asking phase busy c x n s) {c' : ℕ}
    (hne : c' ≠ c) (hs : State.CallStep P fresh now s c' s') : Asking phase busy c x n s' := by
  have hstop := h.others c' hne
  obtain ⟨hstop', hpc, hcreated⟩ := isStop_of_callStep hstop hs
  have hcall := hs.call_of_ne (Ne.symm hne)
  have hargs : s'.args = s.args := by
    cases hs <;> simp_all [Call.isStop]
  refine ⟨hcreated.trans h.created, hcall ▸ h.carries, fun hc => ?_,
    fun d hd => ?_, fun i j => by rw [hpc]; exact h.lone i j, fun hsure i => ?_⟩
  · rw [hargs]
    exact h.args (hcall ▸ hc)
  · by_cases hd' : d = c'
    · exact hd' ▸ hstop'
    · rw [hs.call_of_ne hd']
      exact h.others d hd
  · rw [hpc]
    exact h.free (sure_of_stop hg (Ne.symm hne) hstop hs hsure) i

/-! ### The steps of the call itself -/

theorem carries_of_callStep (hs : State.CallStep P fresh now s c s')
    (h : (s.call c).carries = some x) :
    s'.call c = .create ∨ (s'.call c).carries = some x := by
  cases hs <;> rw [State.goto_call, if_pos rfl]
  case runTest hc =>
    rw [hc] at h
    split_ifs <;> exact .inr h
  case stopTest hc =>
    rw [hc] at h
    split_ifs
    · exact .inr h
    · exact .inr ((after_carries _).trans h)
  case ret hc =>
    rw [hc] at h
    exact .inr ((after_carries _).trans h)
  case set hc =>
    rw [hc] at h
    split_ifs
    · exact .inr h
    · exact .inl rfl
  case args => exact .inl rfl
  case create hc =>
    rw [hc] at h
    cases h
  case clearBits hc | unset hc | found hc _ | block hc _ | woken hc _ | expire hc _ _ =>
    rw [hc] at h
    exact .inr h

theorem args_of_callStep (hg : P.guarded = true) (hs : State.CallStep P fresh now s c s')
    (h : (s.call c).carries = some x) (hcreate : s'.call c = .create) : s'.args = x := by
  rcases hs.args_eq hg with ⟨-, hback⟩ | hcarries
  · rw [hback hcreate] at h
    cases h
  · exact Option.some.inj (hcarries.symm.trans h)

theorem sure_of_callStep (ha : Unhindered busy c x s (.call c now))
    (hs : State.CallStep P fresh now s c s') (hcarries : (s.call c).carries = some x)
    (hfree : s.Sure c → Free busy s) (hsure : s'.Sure c) : Free busy s := by
  have hreleased := ha.released now rfl
  rw [State.Sure] at hfree hsure
  cases hs <;> simp only [State.goto_call, if_true] at hsure
  case runTest y hc =>
    obtain rfl : y = x := by simpa [hc, Call.carries] using hcarries
    by_cases hrun : s.taskRun = true
    · simp [hrun, Call.Sure] at hsure
    · exact hreleased (.inl hc) (by simpa using hrun)
  case stopTest k hc =>
    obtain rfl : k = some x := by simpa [hc, Call.carries] using hcarries
    by_cases hrun : s.taskRun = true
    · simp [hrun, Call.Sure] at hsure
    · exact hreleased (.inr hc) (by simpa using hrun)
  case clearBits => cases hsure
  case unset hc => exact hfree (by rw [hc]; exact hsure)
  case found hc hbit => exact hfree (by rw [hc]; exact hbit)
  case block => exact absurd (List.mem_cons_self ..) hsure
  case woken hc hw => exact hfree (by rw [hc]; exact hw)
  case expire => cases hsure
  case ret k ok hc =>
    obtain rfl : k = some x := by simpa [hc, Call.carries] using hcarries
    cases ok with
    | false => exact absurd hc ha.answered
    | true => exact hfree (by rw [hc]; rfl)
  case set hc => exact hfree (by rw [hc]; trivial)
  case args hc => exact hfree (by rw [hc]; trivial)
  case create hc =>
    rw [hc] at hcarries
    cases hcarries

theorem created_of_callStep (hs : State.CallStep P fresh now s c s')
    (hc : s.call c ≠ .create) : s'.pc = s.pc ∧ s'.created = s.created := by
  cases hs
  case create hcreate => exact absurd hcreate hc
  all_goals exact ⟨rfl, rfl⟩

theorem Asking.create (h : Asking phase busy c x n s) (hc : s.call c = .create) :
    Served busy x n ({ s with
      created := s.created + 1, pc := Function.update s.pc s.created fresh }.goto c .idle) where
  created := congrArg (· + 1) h.created
  args := h.args hc
  calls c' := by
    rw [State.goto_call]
    split_ifs with hc'
    · rfl
    · exact h.others c' hc'
  free i hi := by
    rw [← h.created] at hi
    rw [State.goto_pc]
    exact (congrArg busy (Function.update_of_ne hi _ _)).trans
      (h.free (by rw [State.Sure, hc]; trivial) i)

theorem Asking.own_step (hg : P.guarded = true) (h : Asking phase busy c x n s)
    (ha : Unhindered busy c x s (.call c now)) (hs : State.CallStep P fresh now s c s') :
    Requested phase busy c x n s' := by
  by_cases hcreate : s.call c = .create
  · right
    cases hs
    case create => exact h.create hcreate
    all_goals simp_all
  · left
    have hcarries := h.carries.resolve_left hcreate
    obtain ⟨hpc, hcreated⟩ := created_of_callStep hs hcreate
    exact {
      created := hcreated.trans h.created
      carries := carries_of_callStep hs hcarries
      args := args_of_callStep hg hs hcarries
      others := fun c' hc' => hs.call_of_ne hc' ▸ h.others c' hc'
      lone := fun i j => by rw [hpc]; exact h.lone i j
      free := fun hsure i => by rw [hpc]; exact sure_of_callStep ha hs hcarries h.free hsure i }

/-! ### The steps of the instances -/

theorem Lawful.live {run : Bool} {p p' : Phase} {e : Effect} (h : Lawful run p e p')
    (hp' : p'.live = true) : p.live = true := by
  cases h with
  | stay => exact hp'
  | clear | seen | quit | set => rfl

theorem Lone.move {i : ℕ} {pc : β} {e : Effect} (h : Lone phase s)
    (hl : Lawful s.taskRun (phase (s.pc i)) e (phase pc)) : Lone phase (s.move P i pc e) := by
  have hback (j : ℕ) (hj : (phase ((s.move P i pc e).pc j)).live = true) :
      (phase (s.pc j)).live = true := by
    rw [State.move_pc] at hj
    split_ifs at hj with hji
    · rw [hji]
      exact hl.live hj
    · exact hj
  intro j k hj hk
  exact h j k (hback j hj) (hback k hk)

theorem Free.move {i : ℕ} {pc : β} {e : Effect} (h : Free busy s)
    (hkeeps : busy pc = true → busy (s.pc i) = true) : Free busy (s.move P i pc e) := by
  intro j
  rw [State.move_pc]
  split_ifs
  · exact Bool.eq_false_iff.mpr fun hpc => by simp [h i] at hkeeps; simp [hkeeps] at hpc
  · exact h j

theorem Lone.free_of_setBits {i : ℕ} {pc : β}
    (hbusy : ∀ pc, busy pc = true → (phase pc).live = true) (h : Lone phase s)
    (hl : Lawful s.taskRun (phase (s.pc i)) .setBits (phase pc)) :
    Free busy (s.move P i pc .setBits) := by
  have hdone (pc : β) (hpc : (phase pc).live = false) : busy pc = false :=
    Bool.eq_false_iff.mpr fun hb => by simp [hbusy pc hb] at hpc
  generalize hp : phase (s.pc i) = p, hp' : phase pc = p' at hl
  cases hl
  intro j
  rw [State.move_pc]
  split_ifs with hji
  · exact hdone pc (by rw [hp']; rfl)
  · refine hdone _ (Bool.eq_false_iff.mpr fun hj => hji ?_)
    exact h j i hj (by rw [hp]; rfl)

theorem Asking.inst {i : ℕ} {pc : β} {e : Effect}
    (hbusy : ∀ pc, busy pc = true → (phase pc).live = true) (h : Asking phase busy c x n s)
    (ha : Unhindered busy c x s (.inst i pc e))
    (hl : Lawful s.taskRun (phase (s.pc i)) e (phase pc)) :
    Asking phase busy c x n (s.move P i pc e) := by
  refine ⟨by simp [h.created], by simpa using h.carries, by simpa using h.args,
    by simpa using h.others, h.lone.move hl, fun hsure => ?_⟩
  cases e with
  | setBits => exact h.lone.free_of_setBits hbusy hl
  | none | clearRun =>
    rw [State.Sure, State.move_call] at hsure
    exact (h.free hsure).move (ha.keeps i pc _ rfl)

/-! ### After the creation -/

theorem Served.inst {i : ℕ} {pc : β} {e : Effect} (h : Served busy x n s)
    (ha : Unhindered busy c x s (.inst i pc e)) : Served busy x n (s.move P i pc e) := by
  refine ⟨by simp [h.created], by simp [h.args], by simpa using h.calls, fun j hj => ?_⟩
  rw [State.move_pc]
  split_ifs with hji
  · subst hji
    exact Bool.eq_false_iff.mpr fun hpc => by simpa [h.free j hj] using ha.keeps j pc e rfl hpc
  · exact h.free j hj

theorem Served.callStep (hg : P.guarded = true) {c' : ℕ} (h : Served busy x n s)
    (hs : State.CallStep P fresh now s c' s') : Served busy x n s' := by
  obtain ⟨hstop, hpc, hcreated⟩ := isStop_of_callStep (h.calls c') hs
  refine ⟨hcreated.trans h.created, ?_, fun d => ?_, fun j hj => by rw [hpc]; exact h.free j hj⟩
  · rcases hs.args_eq hg with ⟨hargs, -⟩ | hcarries
    · exact hargs.trans h.args
    · have hstart := Call.isStop_of_carries (.inr hcarries)
      rw [h.calls c'] at hstart
      cases hstart
  · by_cases hd : d = c'
    · exact hd ▸ hstop
    · rw [hs.call_of_ne hd]
      exact h.calls d

theorem Requested.step (hg : P.guarded = true)
    (hbusy : ∀ pc, busy pc = true → (phase pc).live = true) (h : Requested phase busy c x n s)
    (ha : Unhindered busy c x s a) (hs : Handshake.step P phase fresh s a = some s') :
    Requested phase busy c x n s' := by
  rcases step_cases hs with ⟨c', k, rfl, hidle, rfl⟩ | ⟨c', now, rfl, hstep⟩ |
    ⟨i, pc, e, rfl, hl, rfl⟩
  · obtain rfl : k = none := Option.eq_none_iff_forall_ne_some.mpr fun y hy =>
      ha.alone c' y (by rw [hy])
    rcases h with h | h
    · exact .inl (h.begin_stop hidle)
    · refine .inr ⟨h.created, h.args, fun d => ?_, h.free⟩
      rw [State.goto_call]
      split_ifs
      · exact entry_isStop P
      · exact h.calls d
  · rcases h with h | h
    · by_cases hc : c' = c
      · subst hc
        exact h.own_step hg ha hstep
      · exact .inl (h.other_step hg hc hstep)
    · exact .inr (h.callStep hg hstep)
  · exact h.imp (·.inst hbusy ha hl) (·.inst ha)

end Handshake
