import CarFirmware.Proofs.Tempo
import CarFirmware.Spec.Durations

/-! Which beat counts the duration arithmetic can hold. Nothing between `atoi` and the
players rejects the others. -/

namespace Car

/-- A delay is converted exactly and its product with the tick rate does not wrap; the
blink count does not overflow. -/
def Duration.InRange : Duration → Prop
  | .delay beatCnt => ∃ t, toTickType (delaytime beatCnt) = some t ∧ t.toNat = delaytime beatCnt ∧
      (t * configTICK_RATE_HZ).toNat = t.toNat * configTICK_RATE_HZ.toNat
  | .blink beatCnt => (sixBeats beatCnt).isSome = true

theorem delaytime_eq (beatCnt : ℤ) : delaytime beatCnt = ((600 * beatCnt : ℤ) : ℚ) := by
  push_cast [delaytime, BEAT_DURATION]
  ring

theorem toTickType_delaytime {beatCnt : ℤ} (h : 0 ≤ beatCnt) (hlt : 600 * beatCnt < 2 ^ 32) :
    toTickType (delaytime beatCnt) = some (UInt32.ofNat (600 * beatCnt).toNat) := by
  have hneg : (-1 : ℚ) < ((600 * beatCnt : ℤ) : ℚ) := by
    have : (-1 : ℤ) < 600 * beatCnt := by omega
    exact_mod_cast this
  have hfit : ((600 * beatCnt : ℤ) : ℚ) < 2 ^ 32 := by exact_mod_cast hlt
  rw [delaytime_eq, toTickType, if_pos ⟨hneg, hfit⟩, Int.floor_intCast]

theorem toNat_mul_rate {n : ℕ} (h : n < 2 ^ 32) :
    (UInt32.ofNat n).toNat = n ∧
      (UInt32.ofNat n * configTICK_RATE_HZ).toNat = n * 100 % 2 ^ 32 := by
  have hn : (UInt32.ofNat n).toNat = n := by
    rw [UInt32.toNat_ofNat']
    exact Nat.mod_eq_of_lt h
  refine ⟨hn, ?_⟩
  rw [UInt32.toNat_mul, hn]
  rfl

theorem delay_inRange_iff (beatCnt : ℤ) :
    (Duration.delay beatCnt).InRange ↔ 0 ≤ beatCnt ∧ beatCnt ≤ 71582 := by
  constructor
  · rintro ⟨t, -, heq, hwrap⟩
    rw [delaytime_eq] at heq
    have hbeat : (t.toNat : ℤ) = 600 * beatCnt := by exact_mod_cast heq
    have hlt : t.toNat * 100 < 2 ^ 32 := hwrap ▸ UInt32.toNat_lt _
    omega
  · rintro ⟨h0, hle⟩
    have hlt : (600 * beatCnt).toNat < 2 ^ 32 := by omega
    obtain ⟨hn, hmul⟩ := toNat_mul_rate hlt
    refine ⟨_, toTickType_delaytime h0 (by omega), ?_, ?_⟩
    · rw [hn, delaytime_eq]
      have hz : ((600 * beatCnt).toNat : ℤ) = 600 * beatCnt := Int.toNat_of_nonneg (by omega)
      exact_mod_cast hz
    · rw [hmul, hn, Nat.mod_eq_of_lt (by omega)]
      rfl

theorem blink_inRange_iff (beatCnt : ℤ) :
    (Duration.blink beatCnt).InRange ↔ -357913941 ≤ beatCnt ∧ beatCnt ≤ 357913941 := by
  change (sixBeats beatCnt).isSome = true ↔ _
  unfold sixBeats
  split_ifs with h
  · simp only [Option.isSome_some, true_iff]
    omega
  · simp only [Option.isSome_none, Bool.false_eq_true, false_iff]
    omega

theorem pdMS_TO_TICKS_delaytime {beatCnt : ℤ} (h : (Duration.delay beatCnt).InRange) :
    (pdMS_TO_TICKS (delaytime beatCnt)).map UInt32.toNat =
      some (pdMsToTicks (delaytime beatCnt)) := by
  obtain ⟨h0, hle⟩ := (delay_inRange_iff beatCnt).mp h
  obtain ⟨-, hmul⟩ := toNat_mul_rate (n := (600 * beatCnt).toNat) (by omega)
  rw [pdMS_TO_TICKS, toTickType_delaytime h0 (by omega), Option.map_some, Option.map_some,
    UInt32.toNat_div, hmul, pdMsToTicks_delaytime]
  congr 1
  have h1000 : (1000 : UInt32).toNat = 1000 := rfl
  rw [h1000]
  omega

/-- Everything that the three players compute for a command is in range. -/
def DurationsInRange (c : Cmd) : Prop :=
  ∀ d ∈ noteDurations c ++ motorDurations c ++ ledDurations c, d.InRange

theorem durationsInRange_iff (c : Cmd) : DurationsInRange c ↔ 0 ≤ c.beat ∧ c.beat ≤ 71582 := by
  constructor
  · intro h
    exact (delay_inRange_iff c.beat).mp (h _ (by simp [motorDurations]))
  · intro h d hd
    have hdelay : (Duration.delay c.beat).InRange := (delay_inRange_iff c.beat).mpr h
    have hblink : (Duration.blink c.beat).InRange := (blink_inRange_iff c.beat).mpr (by omega)
    have hd : d = .delay c.beat ∨ d = .blink c.beat := by
      simp only [List.mem_append, noteDurations, motorDurations, ledDurations] at hd
      split_ifs at hd <;> simp_all
    rcases hd with rfl | rfl
    · exact hdelay
    · exact hblink

/-- The 32-bit arithmetic on the beats of a command gives what the exact arithmetic does. -/
structure Cmd.Exact (c : Cmd) : Prop where
  delay : (pdMS_TO_TICKS (delaytime c.beat)).map UInt32.toNat =
    some (pdMsToTicks (delaytime c.beat))
  blinks : sixBeats c.beat = some (6 * c.beat)

theorem Cmd.exact_of_beat {c : Cmd} (h : 0 ≤ c.beat ∧ c.beat ≤ 71582) : c.Exact where
  delay := pdMS_TO_TICKS_delaytime ((delay_inRange_iff c.beat).mpr h)
  blinks := by
    rw [sixBeats, if_pos]
    omega

/-- For the command at the front of any string. -/
theorem durations_iff (cmds : CStr) :
    (∀ r ∈ parseCmd cmds, DurationsInRange r.toCmd) ↔
      ∀ r ∈ parseCmd cmds, 0 ≤ r.beat ∧ r.beat ≤ 71582 := by
  constructor
  · exact fun h r hr => (durationsInRange_iff r.toCmd).mp (h r hr)
  · exact fun h r hr => (durationsInRange_iff r.toCmd).mpr (h r hr)

theorem negative_beat_accepted :
    ¬ ∀ cmds : CStr, ∀ r ∈ parseCmd cmds, DurationsInRange r.toCmd := by
  intro h
  have hparse : parseCmd ['F', ',', '-', '1', ';'] = some ⟨⟨['F'], -1⟩, 4⟩ := by decide
  have hrange := (durationsInRange_iff ⟨['F'], -1⟩).mp (h _ _ hparse)
  exact absurd hrange.1 (by decide)

end Car
