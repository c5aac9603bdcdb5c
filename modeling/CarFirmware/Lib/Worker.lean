import CarFirmware.Lib.HandshakeInv

/-! The body of a worker: a step function over the instance's program counter and
a world `ω` that it shares with everybody else. A worker under its callers is, with
the world left out, a run of the handshake. -/

namespace Handshake

/-- `task e i run args pc w` is the next statement of instance `i`, which reads the flag
as `run`; `e` is what the statement receives from outside. -/
structure Body (α β ω ε : Type) where
  proto : Proto
  phase : β → Phase
  absent : β
  fresh : β
  task : ε → ℕ → Bool → α → β → ω → Option (β × Effect × ω)
  absent_phase : phase absent = .absent
  fresh_active : phase fresh = .active
  lawful : ∀ {e i run args pc w pc' eff w'}, task e i run args pc w = some (pc', eff, w') →
    Lawful run (phase pc) eff (phase pc')

inductive BodyAct (α ε : Type) where
  | begin (c : ℕ) (k : Option α)
  | call (c : ℕ)
  | task (i : ℕ) (e : ε)

namespace Body

variable {α β ω ε : Type} (W : Body α β ω ε)

def step (now : ℕ) (w : ω) (s : State α β) : BodyAct α ε → Option (ω × State α β)
  | .begin c k => (s.begin W.proto c k).map (w, ·)
  | .call c => (s.callStep W.proto W.fresh now c).map (w, ·)
  | .task i e =>
    (W.task e i s.taskRun s.args (s.pc i) w).map fun r => (r.2.2, s.move W.proto i r.1 r.2.1)

def act (now : ℕ) (w : ω) (s : State α β) : BodyAct α ε → Option (Act α β)
  | .begin c k => some (.begin c k)
  | .call c => some (.call c now)
  | .task i e => (W.task e i s.taskRun s.args (s.pc i) w).map fun r => .inst i r.1 r.2.1

variable {W} {now : ℕ} {w w' : ω} {s s' : State α β}

theorem step_cases {a : BodyAct α ε} (h : W.step now w s a = some (w', s')) :
    (∃ c k, a = .begin c k ∧ w' = w ∧ s.call c = .idle ∧ s' = s.goto c (W.proto.entry k)) ∨
    (∃ c, a = .call c ∧ w' = w ∧ State.CallStep W.proto W.fresh now s c s') ∨
    (∃ i e pc eff, a = .task i e ∧ W.task e i s.taskRun s.args (s.pc i) w = some (pc, eff, w') ∧
      Lawful s.taskRun (W.phase (s.pc i)) eff (W.phase pc) ∧ s' = s.move W.proto i pc eff) := by
  cases a with
  | begin c k =>
    obtain ⟨t, ht, heq⟩ := Option.map_eq_some_iff.mp h
    obtain ⟨rfl, rfl⟩ := Prod.mk.inj heq
    obtain ⟨hc, rfl⟩ := State.begin_cases ht
    exact .inl ⟨c, k, rfl, rfl, hc, rfl⟩
  | call c =>
    obtain ⟨t, ht, heq⟩ := Option.map_eq_some_iff.mp h
    obtain ⟨rfl, rfl⟩ := Prod.mk.inj heq
    exact .inr (.inl ⟨c, rfl, rfl, State.callStep_cases ht⟩)
  | task i e =>
    obtain ⟨⟨pc, eff, v⟩, ht, heq⟩ := Option.map_eq_some_iff.mp h
    obtain ⟨rfl, rfl⟩ := Prod.mk.inj heq
    exact .inr (.inr ⟨i, e, pc, eff, rfl, ht, W.lawful ht, rfl⟩)

theorem act_inst {a : BodyAct α ε} {i : ℕ} {pc : β} {eff : Effect}
    (h : W.act now w s a = some (.inst i pc eff)) :
    ∃ e w', a = .task i e ∧ W.task e i s.taskRun s.args (s.pc i) w = some (pc, eff, w') := by
  cases a with
  | begin c k => cases h
  | call c => cases h
  | task j e =>
    obtain ⟨⟨pc', eff', w'⟩, ht, heq⟩ := Option.map_eq_some_iff.mp h
    cases heq
    exact ⟨e, w', rfl, ht⟩

theorem act_call {a : BodyAct α ε} {c now' : ℕ} (h : W.act now w s a = some (.call c now')) :
    a = .call c ∧ now' = now := by
  cases a with
  | begin c k => cases h
  | call c => cases h; exact ⟨rfl, rfl⟩
  | task j e =>
    obtain ⟨r, -, heq⟩ := Option.map_eq_some_iff.mp h
    cases heq

theorem act_begin {a : BodyAct α ε} {c : ℕ} {k : Option α}
    (h : W.act now w s a = some (.begin c k)) : a = .begin c k := by
  cases a with
  | begin c k => cases h; rfl
  | call c => cases h
  | task j e =>
    obtain ⟨r, -, heq⟩ := Option.map_eq_some_iff.mp h
    cases heq

/-- A worker's step is a step of the handshake. -/
theorem step_handshake {a : BodyAct α ε} (h : W.step now w s a = some (w', s')) :
    ∃ b, W.act now w s a = some b ∧ Handshake.step W.proto W.phase W.fresh s b = some s' := by
  cases a with
  | begin c k =>
    obtain ⟨t, ht, heq⟩ := Option.map_eq_some_iff.mp h
    exact ⟨_, rfl, by rw [← (Prod.mk.inj heq).2]; exact ht⟩
  | call c =>
    obtain ⟨t, ht, heq⟩ := Option.map_eq_some_iff.mp h
    exact ⟨_, rfl, by rw [← (Prod.mk.inj heq).2]; exact ht⟩
  | task i e =>
    obtain ⟨⟨pc, eff, v⟩, ht, heq⟩ := Option.map_eq_some_iff.mp h
    refine ⟨.inst i pc eff, by simp [act, ht], ?_⟩
    simp only [Handshake.step, if_pos (W.lawful ht), ← (Prod.mk.inj heq).2]

end Body

end Handshake
