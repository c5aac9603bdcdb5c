import Mathlib.Data.List.Range
import Mathlib.Tactic.Common
import Mathlib.Tactic.Ring

/-! Sequences that are put together from blocks of one length, and the block at an index. -/

namespace Blocks

variable {α : Type*} {f : ℕ → List α} {m : ℕ}

def joined (f : ℕ → List α) (n : ℕ) : List α := (List.range n).flatMap f

/-- The block of length `m` at index `j`. -/
def block (m : ℕ) (l : List α) (j : ℕ) : List α := (l.drop (m * j)).take m

theorem joined_succ (f : ℕ → List α) (n : ℕ) : joined f (n + 1) = joined f n ++ f n := by
  simp [joined, List.range_succ]

theorem length_joined (hf : ∀ j, (f j).length = m) (n : ℕ) : (joined f n).length = m * n := by
  induction n with
  | zero => rfl
  | succ n ih =>
    rw [joined_succ, List.length_append, ih, hf]
    ring

theorem joined_add (f : ℕ → List α) (n d : ℕ) :
    joined f (n + d) = joined f n ++ joined (fun j => f (n + j)) d := by
  rw [joined, List.range_add, List.flatMap_append, List.flatMap_map]
  rfl

theorem joined_one_add (f : ℕ → List α) (n : ℕ) :
    joined f (n + 1) = f 0 ++ joined (fun j => f (j + 1)) n := by
  rw [Nat.add_comm, joined_add]
  simp [joined, Nat.add_comm]

/-- The block at index `j` is the `j`-th one put in. -/
theorem block_joined (hf : ∀ j, (f j).length = m) {n j : ℕ} (hj : j < n) :
    block m (joined f n) j = f j := by
  obtain ⟨d, rfl⟩ : ∃ d, n = j + (d + 1) := ⟨n - j - 1, by omega⟩
  have hdrop : (joined f (j + (d + 1))).drop (m * j) = joined (fun k => f (j + k)) (d + 1) := by
    rw [joined_add]
    exact List.drop_left' (length_joined hf j)
  rw [block, hdrop, joined_one_add]
  exact List.take_left' (hf j)

theorem joined_block (l : List α) (n : ℕ) : joined (block m l) n = l.take (m * n) := by
  induction n with
  | zero => simp [joined]
  | succ n ih => rw [joined_succ, ih, block, Nat.mul_succ, List.take_add]

theorem length_flatten {l : List (List α)} (h : ∀ b ∈ l, b.length = m) :
    l.flatten.length = m * l.length := by
  induction l with
  | nil => rfl
  | cons b l ih =>
    rw [List.flatten_cons, List.length_append, h b (List.mem_cons_self ..),
      ih fun c hc => h c (List.mem_cons_of_mem _ hc), List.length_cons]
    ring

end Blocks
