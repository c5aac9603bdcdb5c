import CarFirmware.Spec.EnergyMode
import CarFirmware.Lib.Transition

/-! The falling branch of `cnv_pattern_energy_mode` clears `x_forward + level_pre`, one pixel
further than the rising branch has lit. The pixel exists unless the bar has filled the strip,
so a run stays inside the pixels if and only if no reading but the last one fills it. -/

namespace Car.EnergyMode

open Transition

variable {n a b : ℕ} {s s' : State} {v : Volume}

/-- All assignments of a call are to pixels. -/
def Inside (n : ℕ) (s : State) (v : Volume) : Prop := ∀ w ∈ (s.draw n v).1, w.1 < n * 3

theorem step_eq_some_iff : s.step n v = some s' ↔ Inside n s v ∧ s' = (s.draw n v).2 := by
  rw [State.step, Option.map_eq_some_iff, Inside, ← CArray.stores_isSome (a := 0),
    Option.isSome_iff_exists]
  constructor
  · rintro ⟨out, hout, rfl⟩
    obtain ⟨pixels, hpixels, rfl⟩ := Option.map_eq_some_iff.mp hout
    exact ⟨⟨pixels, hpixels⟩, rfl⟩
  · rintro ⟨⟨pixels, hpixels⟩, rfl⟩
    exact ⟨_, Option.map_eq_some_iff.mpr ⟨pixels, hpixels, rfl⟩, rfl⟩

theorem step_of_inside (h : Inside n s v) : s.step n v = some (s.draw n v).2 :=
  step_eq_some_iff.mpr ⟨h, rfl⟩

theorem forall_paint_iff {coordx red green blue : UInt8} :
    (∀ w ∈ paint coordx red green blue, w.1 < n * 3) ↔ coordx.toNat < n := by
  simp only [paint, List.forall_mem_cons, List.not_mem_nil, false_imp_iff, implies_true, and_true]
  omega

theorem toNat_coord_add : (UInt8.ofInt ((a : ℤ) + b)).toNat = (a + b) % 256 := by
  rw [UInt8.ofInt, UInt8.toNat_ofNat']
  omega

theorem toNat_coord_sub (h : b ≤ a) : (UInt8.ofInt ((a : ℤ) - b)).toNat = (a - b) % 256 := by
  rw [UInt8.ofInt, UInt8.toNat_ofNat']
  omega

theorem level_toNat (hn : n ≤ 255) : (level n v).toNat = v.value.toNat * n / 200 := by
  have hmul : v.value.toNat * n ≤ 100 * 255 := Nat.mul_le_mul v.value_le hn
  rw [level, UInt16.toNat_ofNat', Nat.div_div_eq_div_mul, Nat.mod_eq_of_lt (by omega)]

theorem level_le (hn : n ≤ 255) : (level n v).toNat ≤ n / 2 := by
  have hmul : v.value.toNat * n ≤ 100 * n := Nat.mul_le_mul_right n v.value_le
  rw [level_toNat hn]
  omega

theorem toNat_ne_zero {l : UInt16} (h : l ≠ 0) : l.toNat ≠ 0 := fun h0 =>
  h (UInt16.toNat_inj.mp h0)

theorem toNat_sub_one {l : UInt16} (h : l ≠ 0) : (l - 1).toNat = l.toNat - 1 :=
  UInt16.toNat_sub_of_le _ _
    (UInt16.le_iff_toNat_le.mpr (Nat.one_le_iff_ne_zero.mpr (toNat_ne_zero h)))

structure Centred (n : ℕ) (s : State) : Prop where
  forward : s.xForward.toNat = (n + 1) / 2
  reverse : s.xReverse.toNat = n / 2

theorem centred_levelPre : (s.centred n).levelPre = s.levelPre := by
  unfold State.centred
  split_ifs <;> rfl

theorem centred_init (hn : n ≤ 255) : Centred n (State.init.centred n) := by
  have hreverse : (UInt16.ofNat (n >>> 1)).toNat = n / 2 := by
    rw [UInt16.toNat_ofNat', Nat.shiftRight_eq_div_pow]
    omega
  rw [State.centred, if_pos (by decide)]
  refine ⟨?_, hreverse⟩
  change (if n % 2 ≠ 0 then _ else _ : UInt16).toNat = _
  split_ifs with hodd
  · rw [UInt16.toNat_add, hreverse]
    change (n / 2 + 1) % 65536 = _
    omega
  · rw [hreverse]
    omega

theorem Centred.withLevel (h : Centred n s) (l : UInt16) :
    Centred n { s with levelPre := l } := ⟨h.forward, h.reverse⟩

theorem Centred.centred_eq (h : Centred n s) : s.centred n = s := by
  by_cases hzero : s.xForward ||| s.xReverse = 0
  · obtain ⟨hf, hr⟩ := UInt16.or_eq_zero_iff.mp hzero
    have hn : n = 0 := by
      have hforward := h.forward
      rw [hf, UInt16.toNat_zero] at hforward
      omega
    subst hn
    obtain ⟨levelPre, xForward, xReverse⟩ := s
    obtain rfl : xForward = 0 := hf
    obtain rfl : xReverse = 0 := hr
    rw [State.centred, if_pos hzero]
    rfl
  · rw [State.centred, if_neg hzero]

/-- The bar is not longer than half of the strip. -/
structure Inv (n : ℕ) (s : State) : Prop where
  centre : Centred n (s.centred n)
  bar_le : s.levelPre.toNat ≤ n / 2

theorem Inv.init (hn : n ≤ 255) : Inv n .init := ⟨centred_init hn, Nat.zero_le _⟩

theorem Inv.withLevel (h : Inv n s) {l : UInt16} (hl : l.toNat ≤ n / 2) :
    Inv n { s.centred n with levelPre := l } := by
  have hcentre := h.centre.withLevel l
  exact ⟨by rwa [hcentre.centred_eq], hl⟩

/-- What a call does: the bar grows to a higher level, falls by one or stays empty. -/
theorem draw_cases (n : ℕ) (s : State) (v : Volume) :
    (s.levelPre.toNat < (level n v).toNat ∧
      (s.draw n v).1 = (List.range (level n v).toNat).flatMap
        ({ s.centred n with levelPre := level n v } : State).rise ∧
      (s.draw n v).2 = { s.centred n with levelPre := level n v }) ∨
    ((level n v).toNat ≤ s.levelPre.toNat ∧ s.levelPre ≠ 0 ∧
      (s.draw n v).1 = (List.range 2).flatMap (fun _ => (s.centred n).fall) ∧
      (s.draw n v).2 = { s.centred n with levelPre := s.levelPre - 1 }) ∨
    ((level n v).toNat ≤ s.levelPre.toNat ∧ s.levelPre = 0 ∧
      (s.draw n v).1 = [] ∧ (s.draw n v).2 = s.centred n) := by
  have hpre : (s.centred n).levelPre = s.levelPre := centred_levelPre
  by_cases hup : level n v > (s.centred n).levelPre
  · left
    simp only [State.draw]
    rw [if_pos hup]
    exact ⟨hpre ▸ UInt16.lt_iff_toNat_lt.mp hup, rfl, rfl⟩
  · right
    have hle : (level n v).toNat ≤ s.levelPre.toNat :=
      hpre ▸ UInt16.le_iff_toNat_le.mp (UInt16.not_lt.mp hup)
    simp only [State.draw]
    rw [if_neg hup, hpre]
    split_ifs with hne
    · exact .inl ⟨hle, hne, rfl, rfl⟩
    · exact .inr ⟨hle, not_not.mp hne, rfl, rfl⟩

theorem forall_rise_iff {x : ℕ} : (∀ w ∈ s.rise x, w.1 < n * 3) ↔
    (UInt8.ofInt (s.xForward.toNat + x)).toNat < n ∧
    (UInt8.ofInt (s.xForward.toNat - x)).toNat < n := by
  simp only [State.rise, List.forall_mem_append, forall_paint_iff]

theorem forall_fall_iff : (∀ w ∈ s.fall, w.1 < n * 3) ↔
    (UInt8.ofInt (s.xForward.toNat + s.levelPre.toNat)).toNat < n ∧
    (UInt8.ofInt (s.xReverse.toNat - s.levelPre.toNat)).toNat < n := by
  simp only [State.fall, List.forall_mem_append, forall_paint_iff]

theorem rise_inside {x : ℕ} (hn : n ≤ 255) (h : Centred n s) (hx : x < n / 2) :
    ∀ w ∈ s.rise x, w.1 < n * 3 := by
  rw [forall_rise_iff, toNat_coord_add, toNat_coord_sub (by rw [h.forward]; omega), h.forward]
  omega

/-- What is cleared is on the strip unless the bar fills it. -/
theorem fall_inside_iff (hn : n ≤ 255) (h : Centred n s) (hl : s.levelPre.toNat ≤ n / 2) :
    (∀ w ∈ s.fall, w.1 < n * 3) ↔ s.levelPre.toNat < n / 2 := by
  rw [forall_fall_iff, toNat_coord_add, toNat_coord_sub (by rw [h.reverse]; omega), h.forward,
    h.reverse]
  omega

/-- The pixel behind the bar exists, or there is nothing to clear. -/
def Below (n : ℕ) (s : State) (_ : Volume) : Prop := s.levelPre.toNat < n / 2 ∨ n ≤ 1

theorem Inv.inside_iff (h : Inv n s) (hn : n ≤ 255) : Inside n s v ↔ Below n s v := by
  have hlevel : (level n v).toNat ≤ n / 2 := level_le hn
  have hpre : (s.centred n).levelPre = s.levelPre := centred_levelPre
  unfold Inside Below
  obtain ⟨hup, hwrites, -⟩ | ⟨-, hne, hwrites, -⟩ | ⟨-, hzero, hwrites, -⟩ := draw_cases n s v
  · rw [hwrites, List.forall_mem_flatMap]
    refine iff_of_true (fun x hx => ?_) (.inl (by omega))
    have hlt : x < (level n v).toNat := List.mem_range.mp hx
    exact rise_inside hn (h.centre.withLevel _) (by omega)
  · have hpos : s.levelPre.toNat ≠ 0 := toNat_ne_zero hne
    have hfall : (∀ w ∈ (s.centred n).fall, w.1 < n * 3) ↔ s.levelPre.toNat < n / 2 := by
      rw [fall_inside_iff hn h.centre (hpre ▸ h.bar_le), hpre]
    have hn1 : ¬ n ≤ 1 := by
      have hle : s.levelPre.toNat ≤ n / 2 := h.bar_le
      omega
    rw [hwrites, or_iff_left hn1, ← hfall]
    simp [List.range_succ]
  · rw [hwrites]
    refine iff_of_true (List.forall_mem_nil _) ?_
    rw [hzero, UInt16.toNat_zero]
    omega

theorem draw_levelPre : (s.draw n v).2.levelPre.toNat =
    if s.levelPre.toNat < (level n v).toNat then (level n v).toNat else s.levelPre.toNat - 1 := by
  obtain ⟨hup, -, hs⟩ | ⟨hle, hne, -, hs⟩ | ⟨hle, hzero, -, hs⟩ := draw_cases n s v
  · rw [hs, if_pos hup]
  · rw [hs, if_neg (by omega)]
    exact toNat_sub_one hne
  · rw [hs, if_neg (by omega), centred_levelPre, hzero]
    rfl

theorem draw_centre :
    (s.draw n v).2 = { s.centred n with levelPre := (s.draw n v).2.levelPre } := by
  obtain ⟨-, -, hs⟩ | ⟨-, -, -, hs⟩ | ⟨-, -, -, hs⟩ := draw_cases n s v <;> rw [hs]

theorem Inv.draw (h : Inv n s) (hn : n ≤ 255) : Inv n (s.draw n v).2 := by
  have hbar : s.levelPre.toNat ≤ n / 2 := h.bar_le
  have hlevel : (level n v).toNat ≤ n / 2 := level_le hn
  rw [draw_centre]
  apply h.withLevel
  rw [draw_levelPre]
  split_ifs <;> omega

theorem Inv.step (h : Inv n s) (hn : n ≤ 255) (hs : s.step n v = some s') : Inv n s' := by
  obtain ⟨-, rfl⟩ := step_eq_some_iff.mp hs
  exact h.draw hn

/-- A run from a bar that does not fill the strip stays below exactly when no reading but
the last one fills it. -/
theorem always_below_iff {vs : List Volume} (h : Inv n s) (hn : n ≤ 255)
    (hbar : s.levelPre.toNat < n / 2) :
    Always (State.step n) (Below n) s vs ↔ ∀ v ∈ vs.dropLast, (level n v).toNat < n / 2 := by
  induction vs generalizing s with
  | nil => simp [Always]
  | cons v vs ih =>
    have hbelow : Below n s v := .inl hbar
    have hinside : Inside n s v := (h.inside_iff hn).mpr hbelow
    have hnext : Always (State.step n) (Below n) s (v :: vs) ↔
        Always (State.step n) (Below n) (s.draw n v).2 vs := by
      simp only [Always, step_of_inside hinside, Option.some.injEq, forall_eq', hbelow, true_and]
    rw [hnext]
    cases vs with
    | nil => simp [Always]
    | cons u us =>
      rw [List.dropLast_cons_cons, List.forall_mem_cons]
      by_cases hlevel : (level n v).toNat < n / 2
      · have hbar' : (s.draw n v).2.levelPre.toNat < n / 2 := by
          rw [draw_levelPre]
          split_ifs <;> omega
        rw [ih (h.draw hn) hbar', and_iff_right hlevel]
      · have hfull : ¬ Below n (s.draw n v).2 u := by
          rw [Below, draw_levelPre, if_pos (by omega)]
          omega
        exact iff_of_false (fun hall => hfull hall.1) fun hall => hlevel hall.1

/-- From 256 LEDs on, no `uint8_t` coordinate is outside. -/
theorem inside_of_wide (hn : 256 ≤ n) : Inside n s v := by
  have hcoord : ∀ coordx : UInt8, coordx.toNat < n := fun coordx =>
    Nat.lt_of_lt_of_le coordx.toNat_lt hn
  unfold Inside
  obtain ⟨-, hwrites, -⟩ | ⟨-, -, hwrites, -⟩ | ⟨-, -, hwrites, -⟩ := draw_cases n s v
  · rw [hwrites, List.forall_mem_flatMap]
    exact fun _ _ => forall_rise_iff.mpr ⟨hcoord _, hcoord _⟩
  · rw [hwrites, List.forall_mem_flatMap]
    exact fun _ _ => forall_fall_iff.mpr ⟨hcoord _, hcoord _⟩
  · rw [hwrites]
    exact List.forall_mem_nil _

theorem level_lt_iff (hn : n ≤ 255) :
    (level n v).toNat < n / 2 ↔ v.value.toNat * n < 200 * (n / 2) := by
  rw [level_toNat hn, Nat.div_lt_iff_lt_mul (by omega), Nat.mul_comm 200]

/-- In every run, all assignments are to pixels if and only if no reading but the last one
fills half of the strip, or the strip is so short that the bar has no length, or so long
that a `uint8_t` coordinate cannot leave it. -/
theorem energyMode_inside_iff (n : ℕ) (vs : List Volume) :
    Always (State.step n) (Inside n) .init vs ↔
      n ≤ 1 ∨ 256 ≤ n ∨ ∀ v ∈ vs.dropLast, v.value.toNat * n < 200 * (n / 2) := by
  by_cases hwide : 256 ≤ n
  · exact iff_of_true (always_of_forall fun _ _ => inside_of_wide hwide) (.inr (.inl hwide))
  · have hn : n ≤ 255 := by omega
    have hbelow : Always (State.step n) (Inside n) .init vs ↔
        Always (State.step n) (Below n) .init vs :=
      always_congr (Inv.init hn) (fun _ _ h => h.inside_iff hn) fun _ _ _ h _ hs => h.step hn hs
    rw [hbelow]
    by_cases hshort : n ≤ 1
    · exact iff_of_true (always_of_forall fun _ _ => .inr hshort) (.inl hshort)
    · have hempty : State.init.levelPre.toNat < n / 2 := by
        change 0 < n / 2
        omega
      rw [always_below_iff (Inv.init hn) hn hempty, or_iff_right hshort, or_iff_right hwide]
      simp only [level_lt_iff hn]

theorem energyMode_outside :
    ¬ Always (State.step 4) (Inside 4) .init [⟨100, by decide⟩, ⟨0, by decide⟩] := by
  intro h
  have hfirst : Inside 4 .init ⟨100, by decide⟩ := h.1
  have hsecond : Inside 4 (State.init.draw 4 ⟨100, by decide⟩).2 ⟨0, by decide⟩ :=
    (h.2 _ (step_of_inside hfirst)).1
  exact absurd (hsecond (12, 0) (by decide)) (by decide)

end Car.EnergyMode
