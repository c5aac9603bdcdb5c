import CarFirmware.Lib.Transition
import Mathlib.Data.List.Basic
import Mathlib.Data.UInt
import Mathlib.Tactic.Common

/-! Timed plans: actions and waits that are carried out one after the other. `Step` is what one
statement of whoever carries out a plan may do, `Follows` what has happened after any number
of them. -/

namespace Plan

variable {α : Type*}

/-- `hold d` waits until the time `d`; at a `check` the rest may be given up. -/
inductive Todo (α : Type*) where
  | act (a : α)
  | wait (n : ℕ)
  | hold (d : ℕ)
  | check

/-- The actions of a plan that is not given up. -/
def actions (p : List (Todo α)) : List α := p.filterMap fun
  | .act a => some a
  | _ => none

/-- From time `t` on, the timed actions `log` carry out the plan: in its order, each no earlier
than the one before it and the waits in between. At a check the plan may be replaced by `quit`,
if there is one; nothing is left to do at the end when `whole` holds. -/
inductive Follows (quit : Option (List (Todo α))) (whole : Prop) :
    ℕ → List (Todo α) → List (ℕ × α) → Prop
  | nil {t : ℕ} {p : List (Todo α)} : (whole → p = []) → Follows quit whole t p []
  | act {t u : ℕ} {a : α} {p : List (Todo α)} {log : List (ℕ × α)} : t ≤ u →
      Follows quit whole u p log → Follows quit whole t (.act a :: p) ((u, a) :: log)
  | wait {t n : ℕ} {p : List (Todo α)} {log : List (ℕ × α)} :
      Follows quit whole (t + n) p log → Follows quit whole t (.wait n :: p) log
  | hold {t d : ℕ} {p : List (Todo α)} {log : List (ℕ × α)} :
      Follows quit whole (max t d) p log → Follows quit whole t (.hold d :: p) log
  | pass {t : ℕ} {p : List (Todo α)} {log : List (ℕ × α)} :
      Follows quit whole t p log → Follows quit whole t (.check :: p) log
  | quit {t : ℕ} {p q : List (Todo α)} {log : List (ℕ × α)} : quit = some q →
      Follows quit whole t q log → Follows quit whole t (.check :: p) log

/-- What one statement at time `now` does with the plan. -/
inductive Step (quit : Option (List (Todo α))) (now : ℕ) :
    List (Todo α) → Option α → List (Todo α) → Prop
  | stay {p : List (Todo α)} : Step quit now p none p
  | act {a : α} {p : List (Todo α)} : Step quit now (.act a :: p) (some a) p
  | wait {n : ℕ} {p : List (Todo α)} : Step quit now (.wait n :: p) none (.hold (now + n) :: p)
  | hold {d : ℕ} {p : List (Todo α)} : d ≤ now → Step quit now (.hold d :: p) none p
  | pass {p : List (Todo α)} : Step quit now (.check :: p) none p
  | quit {p q : List (Todo α)} : quit = some q → Step quit now (.check :: p) none q

variable {quit : Option (List (Todo α))} {whole : Prop} {t u now : ℕ} {p p' : List (Todo α)}
  {log : List (ℕ × α)}

theorem Step.weaken {e : Option α} (h : Step none now p e p') : Step quit now p e p' := by
  cases h with
  | stay => exact .stay
  | act => exact .act
  | wait => exact .wait
  | hold hd => exact .hold hd
  | pass => exact .pass
  | quit hq => cases hq

theorem Step.of_nil {quit' : Option (List (Todo α))} {e : Option α} (h : Step quit now [] e p') :
    Step quit' now [] e p' := by
  cases h
  exact .stay

/-- Whoever starts earlier has nothing to make up. -/
theorem Follows.earlier (h : Follows quit whole u p log) (htu : t ≤ u) :
    Follows quit whole t p log := by
  induction h generalizing t with
  | nil hp => exact .nil hp
  | act hu hrest => exact .act (Nat.le_trans htu hu) hrest
  | wait _ ih => exact .wait (ih (by omega))
  | hold _ ih => exact .hold (ih (by omega))
  | pass _ ih => exact .pass (ih htu)
  | quit hq _ ih => exact .quit hq (ih htu)

theorem Follows.step {e : Option α} (hs : Step quit now p e p') (htn : t ≤ now)
    (h : Follows quit whole now p' log) :
    Follows quit whole t p ((e.map (now, ·)).toList ++ log) := by
  cases hs with
  | stay => exact h.earlier htn
  | act => exact .act htn h
  | wait =>
    refine .wait ?_
    cases h with
    | nil hp => exact .nil fun hw => nomatch hp hw
    | hold hrest => exact hrest.earlier (by omega)
  | hold hd => exact .hold (h.earlier (by omega))
  | pass => exact .pass (h.earlier htn)
  | quit hq => exact .quit hq (h.earlier htn)

theorem Follows.actions_isPrefix (h : Follows none whole t p log) :
    log.map Prod.snd <+: actions p := by
  induction h with
  | nil => exact List.nil_prefix
  | act _ _ ih => exact (List.prefix_cons_inj _).mpr ih
  | wait _ ih | hold _ ih | pass _ ih => exact ih
  | quit hq => cases hq

theorem Follows.actions_eq (h : Follows none whole t p log) (hw : whole) :
    log.map Prod.snd = actions p := by
  induction h with
  | nil hp =>
    rw [hp hw]
    rfl
  | act _ _ ih => exact congrArg (List.cons _) ih
  | wait _ ih | hold _ ih | pass _ ih => exact ih
  | quit hq => cases hq

theorem Follows.unquit_append {ι : Type*} {f : ι → List (Todo α)} (hp : .check ∉ p)
    (hrest : ∀ t log, Follows quit whole t p' log → ∃ i, Follows none whole t (f i) log)
    (h : Follows quit whole t (p ++ p') log) : ∃ i, Follows none whole t (p ++ f i) log := by
  induction p generalizing t log with
  | nil => exact hrest t log h
  | cons x p ih =>
    have hp' : .check ∉ p := fun hx => hp (List.mem_cons_of_mem _ hx)
    cases h with
    | nil hw =>
      have hnot : ¬ whole := fun h => nomatch hw h
      obtain ⟨i, -⟩ := hrest t [] (.nil fun h => absurd h hnot)
      exact ⟨i, .nil fun h => absurd h hnot⟩
    | act hu hfol =>
      obtain ⟨i, hi⟩ := ih hp' hfol
      exact ⟨i, .act hu hi⟩
    | wait hfol =>
      obtain ⟨i, hi⟩ := ih hp' hfol
      exact ⟨i, .wait hi⟩
    | hold hfol =>
      obtain ⟨i, hi⟩ := ih hp' hfol
      exact ⟨i, .hold hi⟩
    | pass => exact absurd List.mem_cons_self hp
    | quit => exact absurd List.mem_cons_self hp

theorem Follows.unquit (hp : .check ∉ p) (h : Follows quit whole t p log) :
    Follows none whole t p log := by
  have hend (t : ℕ) (log : List (ℕ × α)) (hl : Follows quit whole t [] log) :
      ∃ _ : Unit, Follows none whole t [] log := by
    cases hl with
    | nil hw => exact ⟨(), .nil hw⟩
  rw [← List.append_nil p] at h ⊢
  obtain ⟨-, hnone⟩ := h.unquit_append hp hend
  exact hnone

@[simp] theorem actions_append (p p' : List (Todo α)) :
    actions (p ++ p') = actions p ++ actions p' := List.filterMap_append

@[simp] theorem actions_act (a : α) (p : List (Todo α)) :
    actions (.act a :: p) = a :: actions p := rfl

@[simp] theorem actions_wait (n : ℕ) (p : List (Todo α)) : actions (.wait n :: p) = actions p := rfl

@[simp] theorem actions_check (p : List (Todo α)) : actions (.check :: p) = actions p := rfl

@[simp] theorem actions_nil : actions ([] : List (Todo α)) = [] := rfl

@[simp] theorem actions_map_act (l : List α) : actions (l.map .act) = l := by
  induction l with
  | nil => rfl
  | cons a l ih => rw [List.map_cons, actions_act, ih]

/-- The time a plan waits at least. -/
def waits (p : List (Todo α)) : ℕ := (p.map fun
  | .wait n => n
  | _ => 0).sum

@[simp] theorem waits_act (a : α) (p : List (Todo α)) : waits (.act a :: p) = waits p := by
  simp [waits]

@[simp] theorem waits_wait (n : ℕ) (p : List (Todo α)) :
    waits (.wait n :: p) = n + waits p := by simp [waits]

@[simp] theorem waits_hold (d : ℕ) (p : List (Todo α)) : waits (.hold d :: p) = waits p := by
  simp [waits]

@[simp] theorem waits_check (p : List (Todo α)) : waits (.check :: p) = waits p := by
  simp [waits]

@[simp] theorem waits_map_act (l : List α) : waits (l.map .act) = 0 := by
  induction l with
  | nil => rfl
  | cons a l ih => rw [List.map_cons, waits_act, ih]

@[simp] theorem waits_nil : waits ([] : List (Todo α)) = 0 := rfl

@[simp] theorem waits_append (p p' : List (Todo α)) : waits (p ++ p') = waits p + waits p' := by
  simp [waits]

theorem Follows.not_before_start (h : Follows none whole t p log) : ∀ e ∈ log, t ≤ e.1 := by
  induction h with
  | nil => nofun
  | act hu _ ih =>
    intro e he
    rcases List.mem_cons.mp he with rfl | he
    · exact hu
    · exact Nat.le_trans hu (ih e he)
  | wait _ ih => exact fun e he => Nat.le_trans (Nat.le_add_right _ _) (ih e he)
  | hold _ ih => exact fun e he => Nat.le_trans (Nat.le_max_left _ _) (ih e he)
  | pass _ ih => exact ih
  | quit hq => cases hq

/-- What comes after `p` is not done before the waits of `p` are over. -/
theorem Follows.not_before (h : Follows none whole t (p ++ p') log) :
    ∀ e ∈ log.drop (actions p).length, t + waits p ≤ e.1 := by
  induction p generalizing t log with
  | nil => exact h.not_before_start
  | cons x p ih =>
    cases h with
    | nil => simp
    | act hu hrest =>
      intro e he
      have := ih hrest e he
      rw [waits_act]
      omega
    | wait hrest =>
      intro e he
      have := ih hrest e he
      rw [waits_wait]
      omega
    | hold hrest =>
      intro e he
      have := ih hrest e he
      rw [waits_hold]
      omega
    | pass hrest =>
      rw [waits_check]
      exact ih hrest
    | quit hq => cases hq

theorem waits_flatMap {β : Type*} (f : β → List (Todo α)) (l : List β) :
    waits (l.flatMap f) = (l.map fun b => waits (f b)).sum := by
  induction l with
  | nil => rfl
  | cons b l ih => rw [List.flatMap_cons, waits_append, ih, List.map_cons, List.sum_cons]

theorem actions_flatMap {β : Type*} (f : β → List (Todo α)) (l : List β) :
    actions (l.flatMap f) = l.flatMap fun b => actions (f b) := by
  induction l with
  | nil => rfl
  | cons b l ih => rw [List.flatMap_cons, actions_append, ih, List.flatMap_cons]

/-! ### Carried out by a transition system -/

section Simulation

variable {σ β : Type*} {step : σ → β → Option σ} {time : σ → ℕ} {event : σ → β → Option α}

def timedLog (time : σ → ℕ) (event : σ → β → Option α) (l : List (σ × β × σ)) : List (ℕ × α) :=
  l.flatMap fun x => ((event x.1 x.2.1).map (time x.1, ·)).toList

/-- A system whose steps are steps of the plan carries out the plan. -/
theorem follows_of_path {R : σ → List (Todo α) → Prop} {ok : σ → β → Prop} {s s' : σ}
    {l : List (σ × β × σ)}
    (hsim : ∀ s a s' p, R s p → ok s a → step s a = some s' → time s ≤ time s' ∧
      ∃ p', Step quit (time s) p (event s a) p' ∧ R s' p')
    (hl : Transition.Path step s l s') (hok : ∀ x ∈ l, ok x.1 x.2.1) (h : R s p) :
    ∃ p', R s' p' ∧ Follows quit (p' = []) (time s) p (timedLog time event l) := by
  induction hl generalizing p with
  | nil => exact ⟨p, h, .nil id⟩
  | @cons s t s' a l ht _ ih =>
    obtain ⟨htime, p₁, hstep, hR⟩ := hsim s a t p h (hok _ List.mem_cons_self) ht
    obtain ⟨p', hp', hfol⟩ := ih (fun x hx => hok x (List.mem_cons_of_mem _ hx)) hR
    exact ⟨p', hp', .step hstep (Nat.le_refl _) (hfol.earlier htime)⟩

end Simulation

end Plan
