import Mathlib.Data.List.Basic

/-! The pieces of a list that are closed by a separator, and induction over them. -/

namespace Segments

variable {α : Type*} [DecidableEq α]

/-- The pieces of `l` that a `sep` closes; what follows the last `sep` is dropped. -/
def closed (sep : α) (l : List α) : List (List α) := (l.splitOn sep).dropLast

theorem closed_of_notMem {sep : α} {l : List α} (h : sep ∉ l) : closed sep l = [] := by
  rw [closed, List.splitOn_eq_singleton h]
  rfl

theorem closed_append_cons {sep : α} {w : List α} (h : sep ∉ w) (t : List α) :
    closed sep (w ++ sep :: t) = w :: closed sep t := by
  rw [closed, List.splitOn_append_cons_self, List.splitOn_eq_singleton h, List.singleton_append,
    List.dropLast_cons_of_ne_nil (List.splitOn_ne_nil sep t)]
  rfl

/-- A list either has no separator, or it is a piece, a separator and a shorter list. -/
theorem closed_induction (sep : α) {motive : List α → Prop}
    (last : ∀ l, sep ∉ l → motive l)
    (piece : ∀ w t, sep ∉ w → motive t → motive (w ++ sep :: t)) (l : List α) : motive l := by
  induction hn : l.length using Nat.strongRecOn generalizing l with
  | ind n ih =>
    by_cases h : sep ∈ l
    · obtain ⟨w, t, rfl, hw⟩ := List.eq_append_cons_of_mem h
      refine piece w t hw (ih t.length ?_ t rfl)
      simp only [List.length_append, List.length_cons] at hn
      omega
    · exact last l h

theorem notMem_of_mem_closed {sep : α} {l w : List α} (h : w ∈ closed sep l) : sep ∉ w := by
  induction l using closed_induction sep with
  | last l hl =>
    rw [closed_of_notMem hl] at h
    cases h
  | piece v t hv ih =>
    rw [closed_append_cons hv] at h
    rcases List.mem_cons.mp h with rfl | h
    · exact hv
    · exact ih h

end Segments
