import Mathlib.Logic.Function.Basic
import Mathlib.Data.List.Basic
import Mathlib.Tactic.Common

/-! A device that is switched on and off under a lock. `ι` are the parties; a party takes
the lock, switches the device on and off any number of times, and gives the lock back.
Nobody checks that the device is in the right state, or that it is the owner who gives
the lock back: this is what the invariant says. -/

namespace LockedDevice

inductive Role where
  | out | holding | on
  deriving DecidableEq

/-- `log` are the calls that switch the device, oldest first. -/
structure Device (ι : Type) where
  owner : Option ι
  enabled : Bool
  log : List Bool

/-- What a party may do to the device and to its own role. -/
inductive Move {ι : Type} (o : ι) : Device ι → Role → Device ι → Role → Prop
  | stay (d : Device ι) (r : Role) : Move o d r d r
  | take (d : Device ι) : d.owner = none → Move o d .out { d with owner := some o } .holding
  | enable (d : Device ι) :
      Move o d .holding { d with enabled := true, log := d.log ++ [true] } .on
  | disable (d : Device ι) :
      Move o d .on { d with enabled := false, log := d.log ++ [false] } .holding
  | give (d : Device ι) : Move o d .holding { d with owner := none } .out

def Alternates (l : List Bool) : Prop := ∀ n, ∀ h : n < l.length, l[n] = decide (n % 2 = 0)

theorem Alternates.concat {l : List Bool} {b : Bool} (h : Alternates l)
    (hb : b = decide (l.length % 2 = 0)) : Alternates (l ++ [b]) := by
  intro n hn
  rw [List.getElem_append]
  split_ifs with hlt
  · exact h n hlt
  · have : n = l.length := by
      rw [List.length_append, List.length_singleton] at hn
      omega
    simp [this, hb]

variable {ι : Type} {d d' : Device ι} {role : ι → Role} {o o' : ι} {r' : Role}

structure Inv (d : Device ι) (role : ι → Role) : Prop where
  held : ∀ o, role o ≠ .out ↔ d.owner = some o
  enabled : d.enabled = true ↔ ∃ o, role o = .on
  alternates : Alternates d.log
  parity : d.enabled = decide (d.log.length % 2 = 1)

theorem Inv.init (h : ∀ o, role o = .out) : Inv ⟨none, false, []⟩ role where
  held o := by simp [h]
  enabled := by simp [h]
  alternates _ hn := absurd hn (Nat.not_lt_zero _)
  parity := rfl

theorem Inv.unique (h : Inv d role) (ho : role o ≠ .out) (ho' : role o' ≠ .out) : o = o' :=
  Option.some.inj (((h.held o).mp ho).symm.trans ((h.held o').mp ho'))

theorem Inv.disabled (h : Inv d role) (ho : role o = .holding) : d.enabled = false := by
  apply Bool.eq_false_iff.mpr
  intro hon
  obtain ⟨o', ho'⟩ := h.enabled.mp hon
  have heq : o = o' := h.unique (by simp [ho]) (by simp [ho'])
  rw [← heq, ho] at ho'
  cases ho'

theorem Inv.held_update [DecidableEq ι] (h : Inv d role) (ho : role o ≠ .out) (hr' : r' ≠ .out)
    (o' : ι) : Function.update role o r' o' ≠ .out ↔ d.owner = some o' := by
  by_cases heq : o' = o
  · subst heq
    rw [Function.update_self]
    exact ⟨fun _ => (h.held o').mp ho, fun _ => hr'⟩
  · rw [Function.update_of_ne heq]
    exact h.held o'

theorem on_update [DecidableEq ι] (ho : role o ≠ .on) (hr' : r' ≠ .on) :
    (∃ o', Function.update role o r' o' = .on) ↔ ∃ o', role o' = .on := by
  refine exists_congr fun o' => ?_
  by_cases heq : o' = o
  · subst heq
    rw [Function.update_self]
    exact ⟨fun hon => absurd hon hr', fun hon => absurd hon ho⟩
  · rw [Function.update_of_ne heq]

/-- The next call is the one that the log lacks. -/
theorem Inv.parity_concat (h : Inv d role) (b : Bool) (hb : d.enabled = !b) :
    b = decide (d.log.length % 2 = 0) ∧ b = decide ((d.log ++ [b]).length % 2 = 1) := by
  have hpar := h.parity
  rw [hb] at hpar
  rw [List.length_append, List.length_singleton]
  cases b
  · have hodd : d.log.length % 2 = 1 := by simpa using hpar
    have hnot : ¬ d.log.length % 2 = 0 ∧ ¬ (d.log.length + 1) % 2 = 1 := by omega
    simp [hnot]
  · have heven : ¬ d.log.length % 2 = 1 := by simpa using hpar
    have hnext : d.log.length % 2 = 0 ∧ (d.log.length + 1) % 2 = 1 := by omega
    simp [hnext]

theorem Inv.move [DecidableEq ι] (h : Inv d role) (hm : Move o d (role o) d' r') :
    Inv d' (Function.update role o r') := by
  generalize hr : role o = r at hm
  cases hm with
  | stay _ =>
    rw [← hr, Function.update_eq_self]
    exact h
  | take hfree =>
    have hnone : ∀ o', role o' = .out := by
      intro o'
      by_contra hne
      have := (h.held o').mp hne
      rw [hfree] at this
      cases this
    refine ⟨fun o' => ?_, ?_, h.alternates, h.parity⟩
    · by_cases ho' : o' = o
      · simp [ho']
      · simpa [ho', hnone] using Ne.symm ho'
    · rw [on_update (by simp [hr]) (by simp)]
      exact h.enabled
  | enable =>
    obtain ⟨hnext, hpar⟩ := h.parity_concat true (h.disabled hr)
    refine ⟨h.held_update (by simp [hr]) (by simp), ?_, h.alternates.concat hnext, hpar⟩
    simp only [true_iff]
    exact ⟨o, Function.update_self ..⟩
  | disable =>
    obtain ⟨hnext, hpar⟩ := h.parity_concat false (h.enabled.mpr ⟨o, hr⟩)
    refine ⟨h.held_update (by simp [hr]) (by simp), ?_, h.alternates.concat hnext, hpar⟩
    simp only [Bool.false_eq_true, false_iff, not_exists]
    intro o' hon
    by_cases heq : o' = o
    · subst heq
      rw [Function.update_self] at hon
      cases hon
    · rw [Function.update_of_ne heq] at hon
      exact heq (h.unique (by simp [hon]) (by simp [hr]))
  | give =>
    have hholds : d.owner = some o := (h.held o).mp (by simp [hr])
    refine ⟨fun o' => ?_, ?_, h.alternates, h.parity⟩
    · by_cases heq : o' = o
      · simp [heq]
      · rw [Function.update_of_ne heq, h.held o', hholds]
        simpa using Ne.symm heq
    · rw [on_update (by simp [hr]) (by simp)]
      exact h.enabled

end LockedDevice
