import Mathlib.Data.List.GetD
import Mathlib.Data.List.OfFn
import Mathlib.Data.List.TakeWhile
import Mathlib.Tactic.Common

/-! Arrays of a fixed size. Copying into an array is defined only where it stays inside,
and a string is read up to its first NUL, which must come before the end. -/

namespace CArray

variable {α : Type*} {n : ℕ}

/-- `memcpy(a + off, src, len)` for the `len` elements `src`. -/
def memcpy (a : Fin n → α) (off : ℕ) (src : List α) : Option (Fin n → α) :=
  if off + src.length ≤ n then
    some fun k => if off ≤ k.val then src.getD (k.val - off) (a k) else a k
  else none

def store (a : Fin n → α) (i : ℕ) (x : α) : Option (Fin n → α) := memcpy a i [x]

def stores (a : Fin n → α) (ws : List (ℕ × α)) : Option (Fin n → α) :=
  ws.foldlM (fun a w => store a w.1 w.2) a

def read (a : Fin n → α) (len : ℕ) : Option (List α) :=
  if len ≤ n then some ((List.ofFn a).take len) else none

def str [Zero α] [DecidableEq α] (a : Fin n → α) : Option (List α) :=
  if 0 ∈ List.ofFn a then some ((List.ofFn a).takeWhile (· ≠ 0)) else none

variable {a b : Fin n → α} {off : ℕ} {src : List α}

theorem memcpy_isSome : (memcpy a off src).isSome = true ↔ off + src.length ≤ n := by
  unfold memcpy
  split_ifs with h <;> simp [h]

theorem memcpy_eq_none : memcpy a off src = none ↔ n < off + src.length := by
  unfold memcpy
  split_ifs with h
  · simp [h]
  · simpa using h

theorem store_isSome {i : ℕ} {x : α} : (store a i x).isSome = true ↔ i < n := by
  rw [store, memcpy_isSome, List.length_singleton, Nat.succ_le_iff]

theorem read_isSome {len : ℕ} : (read a len).isSome = true ↔ len ≤ n := by
  unfold read
  split_ifs with h <;> simp [h]

theorem stores_isSome {ws : List (ℕ × α)} :
    (stores a ws).isSome = true ↔ ∀ w ∈ ws, w.1 < n := by
  induction ws generalizing a with
  | nil => simp [stores]
  | cons w ws ih =>
    rw [List.forall_mem_cons, ← store_isSome (a := a) (x := w.2), stores, List.foldlM_cons]
    cases hstore : store a w.1 w.2 with
    | none => simp
    | some b => simpa [stores] using ih (a := b)

/-- Behind the copied elements nothing changes. -/
theorem memcpy_apply_of_le {k : Fin n} (h : memcpy a off src = some b)
    (hk : off + src.length ≤ k.val) : b k = a k := by
  unfold memcpy at h
  split_ifs at h
  obtain rfl := Option.some.inj h
  change (if off ≤ k.val then src.getD (k.val - off) (a k) else a k) = a k
  rw [if_pos (by omega), List.getD_eq_default _ _ (by omega)]

/-- A copy replaces a segment and keeps what is before and behind it. -/
theorem ofFn_memcpy (h : memcpy a off src = some b) :
    List.ofFn b = (List.ofFn a).take off ++ src ++ (List.ofFn a).drop (off + src.length) := by
  unfold memcpy at h
  split_ifs at h with hfit
  obtain rfl := Option.some.inj h
  apply List.ext_getElem
  · simp only [List.length_ofFn, List.length_append, List.length_take, List.length_drop]
    omega
  · intro k hk _
    have hkn : k < n := by simpa using hk
    rw [List.getElem_ofFn]
    change (if off ≤ k then src.getD (k - off) (a ⟨k, hkn⟩) else a ⟨k, hkn⟩) = _
    by_cases hlow : off ≤ k
    · by_cases hsrc : k - off < src.length
      · rw [if_pos hlow, List.getD_eq_getElem _ _ hsrc, List.getElem_append_left
          (by simp; omega), List.getElem_append_right (by simp; omega)]
        simp [Nat.min_eq_left (show off ≤ n by omega)]
      · rw [if_pos hlow, List.getD_eq_default _ _ (by omega), List.getElem_append_right
          (by simp; omega), List.getElem_drop, List.getElem_ofFn]
        congr 1
        simp only [Fin.mk.injEq, List.length_append, List.length_take, List.length_ofFn]
        omega
    · rw [if_neg hlow, List.getElem_append_left (by simp; omega), List.getElem_append_left
        (by simp; omega), List.getElem_take, List.getElem_ofFn]

/-- A copy to the front of a zeroed array pads it with zeros. -/
theorem ofFn_memcpy_zero [Zero α] (h : memcpy (0 : Fin n → α) 0 src = some b) :
    List.ofFn b = src ++ List.replicate (n - src.length) 0 := by
  have hzero : List.ofFn (0 : Fin n → α) = List.replicate n 0 := List.ofFn_const n 0
  rw [ofFn_memcpy h, hzero]
  simp

theorem memcpy_zero [Zero α] (h : src.length ≤ n) :
    memcpy (0 : Fin n → α) 0 src = some fun k => src.getD k.val 0 := by
  rw [memcpy, if_pos (by omega)]
  congr 1

section Strings

variable [Zero α] [DecidableEq α]

theorem takeWhile_append_zero (s t : List α) :
    (s ++ 0 :: t).takeWhile (· ≠ 0) = s.takeWhile (· ≠ 0) := by
  induction s with
  | nil => simp
  | cons x s ih =>
    by_cases hx : x = 0
    · simp [hx]
    · simpa [hx] using ih

theorem str_of_ofFn {s t : List α} (h : List.ofFn a = s ++ 0 :: t) :
    str a = some (s.takeWhile (· ≠ 0)) := by
  rw [str, h, if_pos (by simp), takeWhile_append_zero]

/-- A string that was copied to the front of an array and terminated there is read back up
to its first NUL, whatever the array held before. -/
theorem str_terminated {b' : Fin n → α} (h : memcpy a 0 src = some b)
    (h' : store b src.length 0 = some b') : str b' = some (src.takeWhile (· ≠ 0)) := by
  apply str_of_ofFn (t := (List.ofFn a).drop (src.length + 1))
  rw [ofFn_memcpy h', ofFn_memcpy h]
  simp

end Strings

end CArray
