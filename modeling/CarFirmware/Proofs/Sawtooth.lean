import CarFirmware.Proofs.Tempo
import Mathlib.Analysis.Normed.Field.Lemmas
import Mathlib.Tactic.FunProp
import Mathlib.Tactic.Positivity
import Mathlib.Topology.Instances.Rat

/-! The samples of a note: a sawtooth between -1 and 1 that starts at 0, under an envelope
that rises from 0, has no jump and ends at 0. -/

namespace Car

open Filter Topology

/-- The generator at tick `k` of a note. -/
def sawAt (freq : ℚ) (beatCnt : ℤ) (k : ℕ) : Saw := { sawReset freq beatCnt with tickIdx := k }

/-- `out` of `saw_tick` before the envelope. -/
def sawRaw (s : Saw) : ℚ :=
  2 * s.freq * fmod (s.tickIdx / s.sampleRate + s.invFreq / 2) s.invFreq - 1

/-- `5000 * out` of `saw_tick` at tick `k`. -/
def noteOut (freq : ℚ) (beatCnt : ℤ) (k : ℕ) : ℚ :=
  5000 * adsr (sawRaw (sawAt freq beatCnt k)) (k / MY_SR) (beatCnt * BEAT_DURATION)

theorem sawTick_sawAt {freq : ℚ} {beatCnt : ℤ} {k : ℕ} (h : k / MY_SR < beatCnt * BEAT_DURATION) :
    sawTick (sawAt freq beatCnt k) =
      some (truncate (noteOut freq beatCnt k), sawAt freq beatCnt (k + 1)) :=
  if_neg (not_le.mpr h)

/-! ### The sawtooth -/

theorem truncate_of_nonneg {q : ℚ} (h : 0 ≤ q) : truncate q = ⌊q⌋ := if_pos h

theorem truncate_mem {q : ℚ} {n : ℤ} (h₁ : -(n : ℚ) ≤ q) (h₂ : q ≤ n) :
    -n ≤ truncate q ∧ truncate q ≤ n := by
  have hn : (0 : ℚ) ≤ n := by linarith
  have hn' : 0 ≤ n := by exact_mod_cast hn
  unfold truncate
  split_ifs with h0
  · have hfloor : 0 ≤ ⌊q⌋ := Int.floor_nonneg.mpr h0
    have hle : ⌊q⌋ ≤ n := by
      have : ((⌊q⌋ : ℤ) : ℚ) ≤ n := (Int.floor_le q).trans h₂
      exact_mod_cast this
    omega
  · have hceil : ⌈q⌉ ≤ 0 := Int.ceil_le.mpr (by push_cast; linarith)
    have hle : -n ≤ ⌈q⌉ := by
      have : ((-n : ℤ) : ℚ) ≤ ⌈q⌉ := by
        push_cast
        exact h₁.trans (Int.le_ceil q)
      exact_mod_cast this
    omega

theorem fmod_mem {x y : ℚ} (hx : 0 ≤ x) (hy : 0 < y) : 0 ≤ fmod x y ∧ fmod x y < y := by
  have hdiv : x = y * (x / y) := by field_simp
  have hlow : (⌊x / y⌋ : ℚ) ≤ x / y := Int.floor_le _
  have hhigh : x / y < ⌊x / y⌋ + 1 := Int.lt_floor_add_one _
  rw [fmod, truncate_of_nonneg (div_nonneg hx hy.le)]
  constructor
  · have := mul_le_mul_of_nonneg_left hlow hy.le
    linarith
  · have := mul_lt_mul_of_pos_left hhigh hy
    linarith

theorem fmod_eq_self {x y : ℚ} (hx : 0 ≤ x) (hlt : x < y) : fmod x y = x := by
  have hy : 0 < y := by linarith
  have hfloor : ⌊x / y⌋ = 0 :=
    Int.floor_eq_zero_iff.mpr ⟨div_nonneg hx hy.le, (div_lt_one hy).mpr hlt⟩
  rw [fmod, truncate_of_nonneg (div_nonneg hx hy.le), hfloor]
  simp

theorem sawRaw_mem {freq : ℚ} (hf : 0 < freq) (beatCnt : ℤ) (k : ℕ) :
    -1 ≤ sawRaw (sawAt freq beatCnt k) ∧ sawRaw (sawAt freq beatCnt k) < 1 := by
  have hinv : 0 < 1 / freq := one_div_pos.mpr hf
  have ht : 0 ≤ (k : ℚ) / MY_SR + 1 / freq / 2 := by
    have : 0 ≤ (k : ℚ) / MY_SR := div_nonneg (Nat.cast_nonneg k) (by norm_num [MY_SR])
    linarith
  obtain ⟨hlow, hhigh⟩ := fmod_mem ht hinv
  have hscale : 2 * freq * (1 / freq) = 2 := by field_simp
  change -1 ≤ 2 * freq * fmod (k / MY_SR + 1 / freq / 2) (1 / freq) - 1 ∧
    2 * freq * fmod (k / MY_SR + 1 / freq / 2) (1 / freq) - 1 < 1
  constructor
  · have := mul_nonneg (mul_pos two_pos hf).le hlow
    linarith
  · have := mul_lt_mul_of_pos_left hhigh (mul_pos two_pos hf)
    linarith

/-- The sawtooth starts in the middle of its first period. -/
theorem sawRaw_zero {freq : ℚ} (hf : 0 < freq) (beatCnt : ℤ) :
    sawRaw (sawAt freq beatCnt 0) = 0 := by
  have hinv : 0 < 1 / freq := one_div_pos.mpr hf
  change 2 * freq * fmod ((0 : ℕ) / MY_SR + 1 / freq / 2) (1 / freq) - 1 = 0
  rw [Nat.cast_zero, zero_div, zero_add, fmod_eq_self (by linarith) (by linarith)]
  field_simp
  ring

/-! ### The envelope -/

theorem lerp_left {x₁ x₂ : ℚ} (y₁ y₂ : ℚ) : lerp x₁ x₁ x₂ y₁ y₂ = y₁ := by simp [lerp]

theorem lerp_right {x₁ x₂ : ℚ} (h : x₁ < x₂) (y₁ y₂ : ℚ) : lerp x₂ x₁ x₂ y₁ y₂ = y₂ := by
  have hne : x₂ - x₁ ≠ 0 := by linarith
  rw [lerp, mul_div_assoc, mul_div_cancel₀ _ hne]
  ring

theorem lerp_mem {x x₁ x₂ y₁ y₂ : ℚ} (h₁ : x₁ ≤ x) (h₂ : x ≤ x₂) (h : x₁ < x₂)
    (hy₁ : 0 ≤ y₁ ∧ y₁ ≤ 1) (hy₂ : 0 ≤ y₂ ∧ y₂ ≤ 1) :
    0 ≤ lerp x x₁ x₂ y₁ y₂ ∧ lerp x x₁ x₂ y₁ y₂ ≤ 1 := by
  have hu₀ : 0 ≤ (x - x₁) / (x₂ - x₁) := div_nonneg (by linarith) (by linarith)
  have hu₁ : (x - x₁) / (x₂ - x₁) ≤ 1 := (div_le_one (by linarith)).mpr (by linarith)
  have hmix : lerp x x₁ x₂ y₁ y₂ =
      (1 - (x - x₁) / (x₂ - x₁)) * y₁ + (x - x₁) / (x₂ - x₁) * y₂ := by
    rw [lerp]
    ring
  rw [hmix]
  generalize (x - x₁) / (x₂ - x₁) = u at hu₀ hu₁
  have hv₀ : 0 ≤ 1 - u := by linarith
  constructor
  · exact add_nonneg (mul_nonneg hv₀ hy₁.1) (mul_nonneg hu₀ hy₂.1)
  · have ha := mul_le_mul_of_nonneg_left hy₁.2 hv₀
    have hb := mul_le_mul_of_nonneg_left hy₂.2 hu₀
    linarith

theorem continuous_lerp (x₁ x₂ y₁ y₂ : ℚ) : Continuous fun x => lerp x x₁ x₂ y₁ y₂ := by
  unfold lerp
  fun_prop

def decayGain (duration t : ℚ) : ℚ :=
  if t < attackTime + decayTime then lerp t attackTime (attackTime + decayTime) 1 sustainGain
  else if t < duration - releaseTime then sustainGain
  else lerp t (duration - releaseTime) duration sustainGain 0

def sustainedGain (duration t : ℚ) : ℚ :=
  if t < duration - releaseTime then sustainGain
  else lerp t (duration - releaseTime) duration sustainGain 0

theorem continuous_pieces {c : ℚ} {f g : ℚ → ℚ} (hf : Continuous f) (hg : Continuous g)
    (hfg : f c = g c) : Continuous fun t => if t < c then f t else g t := by
  have hswap : (fun t => if t < c then f t else g t) = fun t => if c ≤ t then g t else f t := by
    funext t
    simp only [← not_lt, ite_not]
  rw [hswap]
  refine Continuous.if_le hg hf continuous_const continuous_id fun t ht => ?_
  rw [← show c = t from ht, hfg]

section

variable {duration : ℚ} (h : BEAT_DURATION ≤ duration)
include h

/-- The break points of the envelope are in order. -/
theorem breaks_ordered :
    0 < attackTime ∧ attackTime < attackTime + decayTime ∧
      attackTime + decayTime < duration - releaseTime ∧ duration - releaseTime < duration := by
  norm_num [BEAT_DURATION, attackTime, decayTime, releaseTime] at *
  linarith

theorem continuous_adsrGain : Continuous fun t => adsrGain t duration := by
  obtain ⟨h₁, h₂, h₃, h₄⟩ := breaks_ordered h
  have hsustained : Continuous (sustainedGain duration) :=
    continuous_pieces continuous_const (continuous_lerp ..) (lerp_left ..).symm
  have hdecay : Continuous (decayGain duration) := by
    refine continuous_pieces (continuous_lerp ..) hsustained ?_
    rw [lerp_right h₂]
    exact (if_pos h₃).symm
  refine continuous_pieces (continuous_lerp ..) hdecay ?_
  have hmeet : decayGain duration attackTime = 1 := by rw [decayGain, if_pos h₂, lerp_left]
  rw [lerp_right h₁]
  exact hmeet.symm

theorem adsrGain_mem {t : ℚ} (h₀ : 0 ≤ t) (hle : t ≤ duration) :
    0 ≤ adsrGain t duration ∧ adsrGain t duration ≤ 1 := by
  obtain ⟨h₁, h₂, h₃, h₄⟩ := breaks_ordered h
  have hsustain : (0 : ℚ) ≤ sustainGain ∧ sustainGain ≤ 1 := by norm_num [sustainGain]
  unfold adsrGain
  split_ifs with ha hd hr
  · exact lerp_mem h₀ ha.le h₁ ⟨le_rfl, zero_le_one⟩ ⟨zero_le_one, le_rfl⟩
  · exact lerp_mem (not_lt.mp ha) hd.le h₂ ⟨zero_le_one, le_rfl⟩ hsustain
  · exact hsustain
  · exact lerp_mem (not_lt.mp hr) hle h₄ hsustain ⟨le_rfl, zero_le_one⟩

theorem adsrGain_end : adsrGain duration duration = 0 := by
  obtain ⟨h₁, h₂, h₃, h₄⟩ := breaks_ordered h
  rw [adsrGain, if_neg (by linarith), if_neg (by linarith), if_neg (by linarith), lerp_right h₄]

end

theorem noteOut_mem {freq : ℚ} {beatCnt : ℤ} (hf : 0 < freq) (hb : 1 ≤ beatCnt) {k : ℕ}
    (hk : k / MY_SR < beatCnt * BEAT_DURATION) :
    -5000 ≤ noteOut freq beatCnt k ∧ noteOut freq beatCnt k ≤ 5000 := by
  have hbeat : (1 : ℚ) ≤ beatCnt := by exact_mod_cast hb
  have hdur : BEAT_DURATION ≤ beatCnt * BEAT_DURATION :=
    le_mul_of_one_le_left (by norm_num [BEAT_DURATION]) hbeat
  have ht : (0 : ℚ) ≤ k / MY_SR := div_nonneg (Nat.cast_nonneg k) (by norm_num [MY_SR])
  obtain ⟨hg₀, hg₁⟩ := adsrGain_mem hdur ht hk.le
  obtain ⟨hs₀, hs₁⟩ := sawRaw_mem hf beatCnt k
  have hprod : |sawRaw (sawAt freq beatCnt k) *
      adsrGain (k / MY_SR) (beatCnt * BEAT_DURATION)| ≤ 1 := by
    rw [abs_mul]
    exact mul_le_one₀ (abs_le.mpr ⟨hs₀, hs₁.le⟩) (abs_nonneg _)
      (abs_le.mpr ⟨by linarith, hg₁⟩)
  obtain ⟨hlow, hhigh⟩ := abs_le.mp hprod
  unfold noteOut adsr
  constructor <;> linarith

/-- What holds of every tick of a note; `applied` makes what is said of the gain a statement about
`adsr`. -/
structure NoteInRange (freq : ℚ) (beatCnt : ℤ) : Prop where
  applied : ∀ sample t, adsr sample t (beatCnt * BEAT_DURATION) =
    sample * adsrGain t (beatCnt * BEAT_DURATION)
  gain : ∀ k : ℕ, k / MY_SR < beatCnt * BEAT_DURATION →
    0 ≤ adsrGain (k / MY_SR) (beatCnt * BEAT_DURATION) ∧
      adsrGain (k / MY_SR) (beatCnt * BEAT_DURATION) ≤ 1
  attack : ContinuousAt (fun t => adsrGain t (beatCnt * BEAT_DURATION)) (1 / 100)
  decay : ContinuousAt (fun t => adsrGain t (beatCnt * BEAT_DURATION)) (11 / 100)
  release : ContinuousAt (fun t => adsrGain t (beatCnt * BEAT_DURATION))
    (beatCnt * BEAT_DURATION - 1 / 10)
  fade : Tendsto (fun t => adsrGain t (beatCnt * BEAT_DURATION))
    (𝓝[<] (beatCnt * BEAT_DURATION)) (𝓝 0)
  saw : ∀ k : ℕ, k / MY_SR < beatCnt * BEAT_DURATION →
    -1 ≤ sawRaw (sawAt freq beatCnt k) ∧ sawRaw (sawAt freq beatCnt k) < 1
  start : sawRaw (sawAt freq beatCnt 0) = 0
  out : ∀ k : ℕ, k / MY_SR < beatCnt * BEAT_DURATION →
    -5000 ≤ noteOut freq beatCnt k ∧ noteOut freq beatCnt k ≤ 5000
  sample : ∀ k : ℕ, k / MY_SR < beatCnt * BEAT_DURATION →
    sawTick (sawAt freq beatCnt k) =
      some (truncate (noteOut freq beatCnt k), sawAt freq beatCnt (k + 1)) ∧
    -2 ^ 15 ≤ truncate (noteOut freq beatCnt k) ∧ truncate (noteOut freq beatCnt k) < 2 ^ 15

theorem note_inRange {freq : ℚ} {beatCnt : ℤ} (hf : 0 < freq) (hb : 1 ≤ beatCnt) :
    NoteInRange freq beatCnt := by
  have hbeat : (1 : ℚ) ≤ beatCnt := by exact_mod_cast hb
  have hdur : BEAT_DURATION ≤ beatCnt * BEAT_DURATION :=
    le_mul_of_one_le_left (by norm_num [BEAT_DURATION]) hbeat
  have hcont := continuous_adsrGain hdur
  exact {
    applied := fun _ _ => rfl
    gain := fun k hk =>
      adsrGain_mem hdur (div_nonneg (Nat.cast_nonneg k) (by norm_num [MY_SR])) hk.le
    attack := hcont.continuousAt
    decay := hcont.continuousAt
    release := hcont.continuousAt
    fade := by
      have hlim : Tendsto (fun t => adsrGain t (beatCnt * BEAT_DURATION))
          (𝓝 (beatCnt * BEAT_DURATION)) (𝓝 0) := by
        rw [← adsrGain_end hdur]
        exact hcont.tendsto _
      exact hlim.mono_left nhdsWithin_le_nhds
    saw := fun k _ => sawRaw_mem hf beatCnt k
    start := sawRaw_zero hf beatCnt
    out := fun k hk => noteOut_mem hf hb hk
    sample := fun k hk => by
      obtain ⟨hlow, hhigh⟩ := noteOut_mem hf hb hk
      obtain ⟨h₁, h₂⟩ := truncate_mem (n := 5000) (by exact_mod_cast hlow) (by exact_mod_cast hhigh)
      exact ⟨sawTick_sawAt hk, by omega, by omega⟩ }

theorem note_inRange_440 : NoteInRange 440 2 := note_inRange (by norm_num) (by norm_num)

end Car
