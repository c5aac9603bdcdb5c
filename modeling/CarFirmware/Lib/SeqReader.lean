import Mathlib.Data.List.TakeDrop
import Mathlib.Tactic.Common

/-! A reader that hands out a file front to back, in blocks of at most the requested size. -/

structure SeqReader (α : Type*) where
  file : List α
  pos : ℕ
  pos_le : pos ≤ file.length

namespace SeqReader

variable {α : Type*}

/-- A reader at the front of `file`. -/
def opened (file : List α) : SeqReader α := ⟨file, 0, Nat.zero_le _⟩

def given (r : SeqReader α) : List α := r.file.take r.pos

def left (r : SeqReader α) : ℕ := r.file.length - r.pos

/-- What a request for `n` elements gets. -/
def block (r : SeqReader α) (n : ℕ) : List α := (r.file.drop r.pos).take n

def read (r : SeqReader α) (n : ℕ) : SeqReader α where
  file := r.file
  pos := r.pos + min n r.left
  pos_le := by
    have := r.pos_le
    unfold left
    omega

theorem block_eq_take_left (r : SeqReader α) (n : ℕ) :
    r.block n = (r.file.drop r.pos).take (min n r.left) := by
  rw [block, left, ← List.length_drop, ← List.take_take, List.take_length]

/-- Blocks follow each other without a gap or an overlap. -/
theorem given_read (r : SeqReader α) (n : ℕ) : (r.read n).given = r.given ++ r.block n := by
  rw [block_eq_take_left, given, given, ← List.take_add]
  rfl

theorem given_isPrefix (r : SeqReader α) : r.given <+: r.file := List.take_prefix _ _

theorem left_eq_zero_iff (r : SeqReader α) : r.left = 0 ↔ r.given = r.file := by
  have hpos := r.pos_le
  rw [given, List.take_eq_self_iff, left]
  omega

theorem read_of_left_eq_zero {r : SeqReader α} (h : r.left = 0) (n : ℕ) : r.read n = r := by
  unfold read
  simp [h]

end SeqReader
