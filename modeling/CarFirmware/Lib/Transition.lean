import Mathlib.Logic.Function.Basic
import Mathlib.Data.Option.Basic
import Mathlib.Tactic.Common

/-! Partial step functions. A run is a list of labels; `Reach` collects the
states reached by steps that all meet a side condition, so that a property can
be stated for every run whose steps avoid some event; `Path` keeps the steps
themselves, for a property that a run has if and only if its steps meet a condition;
`Always` says that a run meets a condition as far as it goes. -/

namespace Transition

variable {σ τ α β : Type*}

/-- Executes the labels in order; `none` as soon as one of them is not enabled or not `good`. -/
def run (step : σ → α → Option σ) (good : σ → α → Bool) : σ → List α → Option σ
  | s, [] => some s
  | s, a :: as => if good s a then (step s a).bind fun s' => run step good s' as else none

inductive Reach (step : σ → α → Option σ) (ok : σ → α → Prop) (s₀ : σ) : σ → Prop
  | refl : Reach step ok s₀ s₀
  | tail {s s' : σ} (a : α) : Reach step ok s₀ s → ok s a → step s a = some s' →
      Reach step ok s₀ s'

variable {step : σ → α → Option σ} {ok : σ → α → Prop} {s₀ s s' : σ}

theorem Reach.invariant {I : σ → Prop} (h : Reach step ok s₀ s) (h0 : I s₀)
    (hstep : ∀ s a s', I s → ok s a → step s a = some s' → I s') : I s := by
  induction h with
  | refl => exact h0
  | tail a _ hok hs ih => exact hstep _ a _ ih hok hs

theorem Reach.strengthen {I : σ → Prop} {ok' : σ → α → Prop} (h : Reach step ok s₀ s) (h0 : I s₀)
    (hstep : ∀ s a s', I s → ok s a → step s a = some s' → I s')
    (hok : ∀ s a s', I s → ok s a → step s a = some s' → ok' s a) : Reach step ok' s₀ s := by
  induction h with
  | refl => exact .refl
  | tail a h ha hs ih => exact .tail a ih (hok _ a _ (h.invariant h0 hstep) ha hs) hs

theorem Reach.mono {ok' : σ → α → Prop} (h : Reach step ok s₀ s)
    (hok : ∀ s a, ok s a → ok' s a) : Reach step ok' s₀ s := by
  induction h with
  | refl => exact .refl
  | tail a _ ha hs ih => exact .tail a ih (hok _ a ha) hs

theorem Reach.trans {s₁ s₂ : σ} (h₁ : Reach step ok s₀ s₁) (h₂ : Reach step ok s₁ s₂) :
    Reach step ok s₀ s₂ := by
  induction h₂ with
  | refl => exact h₁
  | tail a _ hok hs ih => exact .tail a ih hok hs

theorem reach_of_run {good : σ → α → Bool} {as : List α} (hok : ∀ s a, good s a = true → ok s a)
    (h : run step good s as = some s') : Reach step ok s s' := by
  induction as generalizing s with
  | nil =>
    obtain rfl : s = s' := by simpa [run] using h
    exact .refl
  | cons a as ih =>
    rw [run] at h
    split_ifs at h with hg
    obtain ⟨t, ht, hrest⟩ := Option.bind_eq_some_iff.mp h
    have hhead : Reach step ok s t := .tail a .refl (hok s a hg) ht
    exact hhead.trans (ih hrest)

inductive Path (step : σ → α → Option σ) : σ → List (σ × α × σ) → σ → Prop
  | nil {s : σ} : Path step s [] s
  | cons {s t s' : σ} {a : α} {l : List (σ × α × σ)} : step s a = some t → Path step t l s' →
      Path step s ((s, a, t) :: l) s'

theorem Path.invariant {I : σ → Prop} {l : List (σ × α × σ)} (h : Path step s l s') (h0 : I s)
    (hstep : ∀ s a s', (s, a, s') ∈ l → I s → step s a = some s' → I s') :
    I s' ∧ ∀ x ∈ l, I x.1 ∧ step x.1 x.2.1 = some x.2.2 := by
  induction h with
  | nil => exact ⟨h0, by simp⟩
  | @cons s t s' a l ht _ ih =>
    obtain ⟨hlast, hall⟩ := ih (hstep s a t (List.mem_cons_self ..) h0 ht) fun u b u' hu =>
      hstep u b u' (List.mem_cons_of_mem _ hu)
    refine ⟨hlast, fun x hx => ?_⟩
    rcases List.mem_cons.mp hx with rfl | hx
    · exact ⟨h0, ht⟩
    · exact hall x hx

theorem Path.snoc {t : σ} {a : α} {l : List (σ × α × σ)} (h : Path step s l s')
    (ht : step s' a = some t) : Path step s (l ++ [(s', a, t)]) t := by
  induction h with
  | nil => exact .cons ht .nil
  | cons hs _ ih => exact .cons hs (ih ht)

/-- A property that each step keeps exactly when it meets a condition holds along a run
if and only if all its steps meet the condition. -/
theorem Path.forall_iff {I P : σ → Prop} {Q : σ → α → Prop} {l : List (σ × α × σ)}
    (h : Path step s l s') (h0 : I s)
    (hiff : ∀ s a s', I s → step s a = some s' → (P s' ↔ Q s a))
    (hstep : ∀ s a s', I s → Q s a → step s a = some s' → I s') :
    (∀ x ∈ l, P x.2.2) ↔ ∀ x ∈ l, Q x.1 x.2.1 := by
  induction h with
  | nil => simp
  | @cons s t s' a l ht _ ih =>
    simp only [List.forall_mem_cons, hiff s a t h0 ht]
    exact and_congr_right fun hq => ih (hstep s a t h0 hq ht)

theorem path_of_run {good : σ → α → Bool} {as : List α} (h : run step good s as = some s') :
    ∃ l, Path step s l s' ∧ ∀ x ∈ l, good x.1 x.2.1 = true := by
  induction as generalizing s with
  | nil =>
    obtain rfl : s = s' := by simpa [run] using h
    exact ⟨[], .nil, by simp⟩
  | cons a as ih =>
    rw [run] at h
    split_ifs at h with hg
    obtain ⟨t, ht, hrest⟩ := Option.bind_eq_some_iff.mp h
    obtain ⟨l, hl, hgood⟩ := ih hrest
    refine ⟨(s, a, t) :: l, .cons ht hl, fun x hx => ?_⟩
    rcases List.mem_cons.mp hx with rfl | hx
    · exact hg
    · exact hgood x hx

theorem run_to_end {I done : σ → Prop} {a : α} (μ : σ → ℕ)
    (hstep : ∀ s, I s → ¬ done s → ∃ s', step s a = some s' ∧ I s' ∧ μ s' < μ s) (h : I s) :
    ∃ n s', run step (fun _ _ => true) s (List.replicate n a) = some s' ∧ done s' ∧ I s' := by
  induction hμ : μ s using Nat.strongRecOn generalizing s with
  | ind m ih =>
    by_cases hdone : done s
    · exact ⟨0, s, rfl, hdone, h⟩
    · obtain ⟨t, ht, hI, hlt⟩ := hstep s h hdone
      obtain ⟨n, s', hrun, hend⟩ := ih (μ t) (hμ ▸ hlt) hI rfl
      refine ⟨n + 1, s', ?_, hend⟩
      rw [List.replicate_succ, run, if_pos rfl, ht]
      exact hrun

/-- `P` holds at every step of a run of the labels, which ends where a step is not defined. -/
def Always (step : σ → α → Option σ) (P : σ → α → Prop) : σ → List α → Prop
  | _, [] => True
  | s, a :: as => P s a ∧ ∀ s', step s a = some s' → Always step P s' as

theorem always_of_forall {P : σ → α → Prop} {as : List α} (h : ∀ s a, P s a) :
    Always step P s as := by
  induction as generalizing s with
  | nil => trivial
  | cons a as ih => exact ⟨h s a, fun _ _ => ih⟩

/-- Two properties of a step that agree where an invariant holds agree along every run, as
long as the invariant is kept while they hold. -/
theorem always_congr {I : σ → Prop} {P Q : σ → α → Prop} {as : List α} (h0 : I s)
    (hiff : ∀ s a, I s → (P s a ↔ Q s a))
    (hstep : ∀ s a s', I s → Q s a → step s a = some s' → I s') :
    Always step P s as ↔ Always step Q s as := by
  induction as generalizing s with
  | nil => exact Iff.rfl
  | cons a as ih =>
    simp only [Always, hiff s a h0]
    exact and_congr_right fun hq => forall₂_congr fun s' hs' => ih (hstep s a s' h0 hq hs')

/-- The step `a` of the whole as seen by a component: it takes the step `act s a`, or it stays. -/
def Projects (step : σ → α → Option σ) (part : σ → τ) (act : σ → α → Option β)
    (step' : τ → β → Option τ) : Prop :=
  ∀ s a s', step s a = some s' →
    match act s a with
    | none => part s' = part s
    | some b => step' (part s) b = some (part s')

theorem Reach.project {part : σ → τ} {act : σ → α → Option β} {step' : τ → β → Option τ}
    {ok' : τ → β → Prop} (hp : Projects step part act step')
    (hok : ∀ s a b, ok s a → act s a = some b → ok' (part s) b)
    (h : Reach step ok s₀ s) : Reach step' ok' (part s₀) (part s) := by
  induction h with
  | refl => exact .refl
  | @tail s s' a _ ha hs ih =>
    have hproj := hp s a s' hs
    cases hact : act s a with
    | none =>
      simp only [hact] at hproj
      rwa [hproj]
    | some b =>
      simp only [hact] at hproj
      exact .tail b ih (hok s a b ha hact) hproj

end Transition
