import Mathlib.Logic.Function.Basic
import Mathlib.Data.List.Basic
import Mathlib.Tactic.Common

/-! A buffer that is handed out by reference. A loan is a set of cells that somebody has
still to read, with the values they should be read with; the owner goes on storing into
the buffer, one cell at a time, and nothing keeps it from a cell that is on loan. -/

namespace Loans

variable {ι α : Type*}

structure Loan (ι α : Type*) where
  covers : ι → Prop
  value : ι → α

/-- The cells of the loan have the values they were lent with. -/
def Loan.Intact (l : Loan ι α) (cell : ι → α) : Prop := ∀ i, l.covers i → cell i = l.value i

def Honoured (loans : List (Loan ι α)) (cell : ι → α) : Prop := ∀ l ∈ loans, l.Intact cell

/-- Storing `x` in cell `i` does not change what any loan reads. -/
def Permits (loans : List (Loan ι α)) (i : ι) (x : α) : Prop :=
  ∀ l ∈ loans, l.covers i → x = l.value i

variable {l l' : Loan ι α} {loans loans' : List (Loan ι α)} {cell : ι → α} {i : ι} {x : α}

theorem Loan.Intact.narrow (h : l.Intact cell) (hcov : ∀ i, l'.covers i → l.covers i)
    (hval : l'.value = l.value) : l'.Intact cell := by
  intro i hi
  rw [hval]
  exact h i (hcov i hi)

theorem Loan.Intact.store [DecidableEq ι] (h : l.Intact cell)
    (hcov : ∀ j, l'.covers j → j = i ∨ l.covers j) (hval : l'.value = l.value) :
    l'.Intact (Function.update cell i (l.value i)) := by
  intro j hj
  rw [hval]
  by_cases hji : j = i
  · rw [hji, Function.update_self]
  · rw [Function.update_of_ne hji]
    exact h j ((hcov j hj).resolve_left hji)

theorem Loan.Intact.update [DecidableEq ι] (h : l.Intact cell) (hx : l.covers i → x = l.value i) :
    l.Intact (Function.update cell i x) := by
  intro j hj
  by_cases hji : j = i
  · subst hji
    rw [Function.update_self]
    exact hx hj
  · rw [Function.update_of_ne hji]
    exact h j hj

@[simp]
theorem honoured_nil : Honoured ([] : List (Loan ι α)) cell := by simp [Honoured]

@[simp]
theorem honoured_append : Honoured (loans ++ loans') cell ↔ Honoured loans cell ∧
    Honoured loans' cell := by
  simp only [Honoured, List.mem_append, or_imp, forall_and]

@[simp]
theorem honoured_cons : Honoured (l :: loans) cell ↔ l.Intact cell ∧ Honoured loans cell := by
  simp only [Honoured, List.mem_cons, forall_eq_or_imp]

theorem Honoured.mono (h : Honoured loans cell) (hsub : loans' ⊆ loans) : Honoured loans' cell :=
  fun l hl => h l (hsub hl)

/-- A store keeps the loans exactly when they permit it. -/
theorem Honoured.update_iff [DecidableEq ι] (h : Honoured loans cell) :
    Honoured loans (Function.update cell i x) ↔ Permits loans i x := by
  constructor
  · intro hu l hl hi
    have hcell := hu l hl i hi
    rwa [Function.update_self] at hcell
  · intro hx l hl
    exact (h l hl).update (hx l hl)

end Loans
