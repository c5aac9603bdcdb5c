import Mathlib.Data.List.TakeDrop
import Mathlib.Data.UInt
import Mathlib.Tactic.Common

/-! Encoders that write into a memory of limited room and go on in a later call where an
earlier one stopped. `Lawful` is the contract of one call; what the calls of a whole
transaction write follows from it for every sequence of rooms. -/

/-- What one call writes, its two flags and the state it leaves. -/
structure Chunk (σ α : Type*) where
  out : List α
  complete : Bool
  full : Bool
  next : σ

/-- A call is given the room that is left. -/
abbrev Encoder (σ α : Type*) := σ → ℕ → Chunk σ α

namespace Encoder

variable {σ α δ : Type*}

/-- The call for room `n` of a transaction that still has to write `xs`. It is complete when it
writes the last of `xs`, and then goes back to `home`; it is full when it fills the room. Both
can happen at once. -/
structure Serves (c : Chunk σ α) (xs : List α) (n : ℕ) (home : σ) (Left : σ → List α → Prop) :
    Prop where
  out : c.out = xs.take n
  complete : c.complete = true ↔ xs.length ≤ n
  full : c.full = true ↔ n ≤ xs.length
  next_home : xs.length ≤ n → c.next = home
  next_left : n < xs.length → Left c.next (xs.drop n)

/-- `Left s xs` says that a transaction in state `s` still has to write `xs`. -/
def Lawful (e : Encoder σ α) (home : σ) (Left : σ → List α → Prop) : Prop :=
  ∀ s xs n, Left s xs → Serves (e s n) xs n home Left

def Writes (e : Encoder σ α) (home : σ) (xs : List α) : Prop :=
  ∃ Left, Lawful e home Left ∧ Left home xs

/-- The calls of one transaction, one for each room, until one is complete: what they write,
and the state and the rooms left when it completes. -/
def session (e : Encoder σ α) : σ → List ℕ → List α × Option (σ × List ℕ)
  | _, [] => ([], none)
  | s, n :: ns =>
    let c := e s n
    if c.complete then (c.out, some (c.next, ns))
    else
      let r := session e c.next ns
      (c.out ++ r.1, r.2)

def sessions (e : δ → Encoder σ α) : σ → List δ → List ℕ → List α × Option (σ × List ℕ)
  | s, [], ns => ([], some (s, ns))
  | s, d :: ds, ns =>
    match session (e d) s ns with
    | (out, none) => (out, none)
    | (out, some (s', ns')) =>
      let r := sessions e s' ds ns'
      (out ++ r.1, r.2)

theorem session_cons_complete {e : Encoder σ α} {s : σ} {n : ℕ} (h : (e s n).complete = true)
    (ns : List ℕ) : session e s (n :: ns) = ((e s n).out, some ((e s n).next, ns)) := by
  simp [session, h]

theorem session_cons_more {e : Encoder σ α} {s : σ} {n : ℕ} (h : ¬ (e s n).complete = true)
    (ns : List ℕ) : session e s (n :: ns) =
      ((e s n).out ++ (session e (e s n).next ns).1, (session e (e s n).next ns).2) := by
  simp [session, h]

section Lawful

variable {e : Encoder σ α} {home : σ} {Left : σ → List α → Prop}

theorem Lawful.session_out (he : Lawful e home Left) {s : σ} {xs : List α} (hs : Left s xs)
    (ns : List ℕ) : (session e s ns).1 = xs.take ns.sum := by
  induction ns generalizing s xs with
  | nil => simp [session]
  | cons n ns ih =>
    have hcall := he s xs n hs
    rw [List.sum_cons]
    by_cases hn : xs.length ≤ n
    · rw [session_cons_complete (hcall.complete.mpr hn), hcall.out, List.take_of_length_le hn,
        List.take_of_length_le (by omega)]
    · rw [session_cons_more (mt hcall.complete.mp hn), hcall.out,
        ih (hcall.next_left (by omega)), ← List.take_add]

theorem Lawful.session_some (he : Lawful e home Left) {s s' : σ} {xs : List α} (hs : Left s xs)
    {ns ns' : List ℕ} (h : (session e s ns).2 = some (s', ns')) :
    (session e s ns).1 = xs ∧ s' = home := by
  induction ns generalizing s xs with
  | nil => simp [session] at h
  | cons n ns ih =>
    have hcall := he s xs n hs
    by_cases hn : xs.length ≤ n
    · rw [session_cons_complete (hcall.complete.mpr hn)] at h ⊢
      cases h
      exact ⟨by rw [hcall.out, List.take_of_length_le hn], hcall.next_home hn⟩
    · rw [session_cons_more (mt hcall.complete.mp hn)] at h ⊢
      obtain ⟨hout, hhome⟩ := ih (hcall.next_left (by omega)) h
      exact ⟨by rw [hout, hcall.out, List.take_append_drop], hhome⟩

theorem Lawful.session_isSome (he : Lawful e home Left) {s : σ} {xs : List α} (hs : Left s xs)
    (hne : xs ≠ []) {ns : List ℕ} (hlen : xs.length ≤ ns.sum) : (session e s ns).2.isSome := by
  induction ns generalizing s xs with
  | nil => exact absurd (List.eq_nil_of_length_eq_zero (by simpa using hlen)) hne
  | cons n ns ih =>
    have hcall := he s xs n hs
    rw [List.sum_cons] at hlen
    by_cases hn : xs.length ≤ n
    · rw [session_cons_complete (hcall.complete.mpr hn)]
      rfl
    · rw [session_cons_more (mt hcall.complete.mp hn)]
      exact ih (hcall.next_left (by omega)) (by simpa using hn) (by rw [List.length_drop]; omega)

/-- Rooms that are not empty complete it within as many calls as it has to write. -/
theorem Lawful.session_completes (he : Lawful e home Left) {s : σ} {xs : List α} (hs : Left s xs)
    {ns : List ℕ} (hne : xs ≠ []) (hpos : ∀ n ∈ ns, 0 < n) (hlen : xs.length ≤ ns.length) :
    ∃ ns', (session e s ns).2 = some (home, ns') ∧ (∀ n ∈ ns', 0 < n) ∧
      ns.length ≤ xs.length + ns'.length := by
  induction ns generalizing s xs with
  | nil => exact absurd (by simpa using hlen) hne
  | cons n ns ih =>
    have hcall := he s xs n hs
    have hn₀ := hpos n List.mem_cons_self
    have hpos' : ∀ k ∈ ns, 0 < k := fun k hk => hpos k (List.mem_cons_of_mem _ hk)
    rw [List.length_cons] at hlen ⊢
    by_cases hn : xs.length ≤ n
    · rw [session_cons_complete (hcall.complete.mpr hn), hcall.next_home hn]
      have := List.length_pos_of_ne_nil hne
      exact ⟨ns, rfl, hpos', by omega⟩
    · rw [session_cons_more (mt hcall.complete.mp hn)]
      obtain ⟨ns', hdone, hrooms, hused⟩ := ih (hcall.next_left (by omega)) (by simpa using hn)
        hpos' (by rw [List.length_drop]; omega)
      rw [List.length_drop] at hused
      exact ⟨ns', hdone, hrooms, by omega⟩

end Lawful

section Sessions

variable {e : δ → Encoder σ α} {home : σ} {whole : δ → List α}

theorem sessions_cons_none {s : σ} {d : δ} {ns : List ℕ} (h : (session (e d) s ns).2 = none)
    (ds : List δ) : sessions e s (d :: ds) ns = ((session (e d) s ns).1, none) := by
  rw [sessions]
  split <;> simp_all

theorem sessions_cons_some {s s' : σ} {d : δ} {ns ns' : List ℕ}
    (h : (session (e d) s ns).2 = some (s', ns')) (ds : List δ) :
    sessions e s (d :: ds) ns =
      ((session (e d) s ns).1 ++ (sessions e s' ds ns').1, (sessions e s' ds ns').2) := by
  rw [sessions]
  split <;> simp_all

/-- Whatever the rooms, what is written is the beginning of the transactions in order. -/
theorem sessions_isPrefix (he : ∀ d, Writes (e d) home (whole d)) (ds : List δ) (ns : List ℕ) :
    (sessions e home ds ns).1 <+: ds.flatMap whole := by
  induction ds generalizing ns with
  | nil => exact List.nil_prefix
  | cons d ds ih =>
    obtain ⟨Left, hlaw, hleft⟩ := he d
    rw [List.flatMap_cons]
    rcases hses : (session (e d) home ns).2 with _ | ⟨s', ns'⟩
    · rw [sessions_cons_none hses, hlaw.session_out hleft]
      exact (List.take_prefix _ _).trans (List.prefix_append _ _)
    · obtain ⟨hout, rfl⟩ := hlaw.session_some hleft hses
      rw [sessions_cons_some hses, hout]
      exact List.prefix_append_right_inj _ |>.mpr (ih ns')

theorem sessions_some (he : ∀ d, Writes (e d) home (whole d)) {ds : List δ} {ns ns' : List ℕ}
    {s' : σ} (h : (sessions e home ds ns).2 = some (s', ns')) :
    (sessions e home ds ns).1 = ds.flatMap whole ∧ s' = home := by
  induction ds generalizing ns with
  | nil =>
    simp only [sessions, Option.some.injEq, Prod.mk.injEq] at h
    exact ⟨rfl, h.1.symm⟩
  | cons d ds ih =>
    obtain ⟨Left, hlaw, hleft⟩ := he d
    rw [List.flatMap_cons]
    rcases hses : (session (e d) home ns).2 with _ | ⟨t, ms⟩
    · rw [sessions_cons_none hses] at h
      cases h
    · obtain ⟨hout, rfl⟩ := hlaw.session_some hleft hses
      rw [sessions_cons_some hses] at h ⊢
      obtain ⟨hrest, hhome⟩ := ih h
      exact ⟨by rw [hout, hrest], hhome⟩

theorem sessions_isSome (he : ∀ d, Writes (e d) home (whole d)) (hne : ∀ d, whole d ≠ [])
    {ds : List δ} {ns : List ℕ} (h : (sessions e home ds ns).1 = ds.flatMap whole) :
    (sessions e home ds ns).2.isSome := by
  induction ds generalizing ns with
  | nil => rfl
  | cons d ds ih =>
    obtain ⟨Left, hlaw, hleft⟩ := he d
    rw [List.flatMap_cons] at h
    rcases hses : (session (e d) home ns).2 with _ | ⟨s', ns'⟩
    · rw [sessions_cons_none hses, hlaw.session_out hleft] at h
      have hlen := congrArg List.length h
      rw [List.length_take, List.length_append] at hlen
      have hsum : (whole d).length ≤ ns.sum := by omega
      have hdone := hlaw.session_isSome hleft (hne d) hsum
      rw [hses] at hdone
      cases hdone
    · obtain ⟨hout, rfl⟩ := hlaw.session_some hleft hses
      rw [sessions_cons_some hses, hout] at h
      rw [sessions_cons_some hses]
      exact ih (List.append_cancel_left h)

theorem sessions_completes (he : ∀ d, Writes (e d) home (whole d)) (hne : ∀ d, whole d ≠ [])
    {ds : List δ} {ns : List ℕ} (hpos : ∀ n ∈ ns, 0 < n)
    (hlen : (ds.flatMap whole).length ≤ ns.length) : (sessions e home ds ns).2.isSome := by
  induction ds generalizing ns with
  | nil => rfl
  | cons d ds ih =>
    obtain ⟨Left, hlaw, hleft⟩ := he d
    rw [List.flatMap_cons, List.length_append] at hlen
    obtain ⟨ns', hdone, hrooms, hused⟩ := hlaw.session_completes hleft (hne d) hpos (by omega)
    rw [sessions_cons_some hdone]
    exact ih hrooms (by omega)

end Sessions

/-! ### An encoder that counts what it has written -/

def ofList (xs : List α) (k n : ℕ) : Chunk ℕ α where
  out := (xs.drop k).take n
  complete := (xs.drop k).length ≤ n
  full := n ≤ (xs.drop k).length
  next := if (xs.drop k).length ≤ n then 0 else k + n

theorem ofList_writes (xs : List α) : Writes (ofList xs) 0 xs := by
  refine ⟨fun k ys => ys = xs.drop k, ?_, by simp⟩
  rintro k _ n rfl
  exact {
    out := rfl
    complete := by simp [ofList]
    full := by simp [ofList]
    next_home := fun hn => by simp only [ofList, if_pos hn]
    next_left := fun hn => by simp only [ofList, if_neg (Nat.not_le.mpr hn), List.drop_drop] }

end Encoder
