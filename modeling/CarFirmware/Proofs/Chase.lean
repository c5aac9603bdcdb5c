import CarFirmware.Lib.Blocks
import CarFirmware.Spec.LedStrip

/-! The frames of `led_chase`, against the byte order of `led_one_color`: blue is stored in
the place of red, and the place of blue stays zero. -/

namespace Car

open Blocks

def frames (l : List LedAct) : List Frame :=
  l.filterMap fun
    | .fill f => some f
    | .delay _ => none

theorem frames_append (l l' : List LedAct) : frames (l ++ l') = frames l ++ frames l' := by
  simp [frames]

theorem frames_flatMap (g : ℕ → List LedAct) (n : ℕ) :
    frames ((List.range n).flatMap g) = joined (fun i => frames (g i)) n := by
  induction n with
  | zero => rfl
  | succ n ih =>
    rw [List.range_succ, List.flatMap_append, frames_append, ih, joined_succ]
    simp

def startRgb (j : ℕ) : UInt16 := UInt16.ofNat (50 * j)

def chaseHue (j i : ℕ) : UInt16 := UInt16.ofNat (i * 360 / EXAMPLE_LED_NUMBERS) + startRgb j

/-- Pixel `i` in the colour `(r, g, b)`, in the byte order of `led_one_color`, on black. -/
def pixelFrame (i : ℕ) (rgb : ℕ × ℕ × ℕ) : Frame := fun k =>
  if k.val / 3 = i then
    colorFrame (UInt8.ofNat rgb.1) (UInt8.ofNat rgb.2.1) (UInt8.ofNat rgb.2.2) k
  else 0

def stepFrames (j i : ℕ) : List Frame :=
  [pixelFrame i (ledStripHsv2rgb (chaseHue j i).toNat 100 100), 0]

/-- The two frames that `led_chase` sends at a step. -/
def chaseFrames (beatCnt : ℤ) (j i : ℕ) : List Frame :=
  block 2 (block 8 (frames (ledChase beatCnt)) j) i

def chaseData (i : ℕ) (rgb : ℕ × ℕ × ℕ) : Frame :=
  setPixel (setPixel (setPixel 0 (i * 3) rgb.2.1) (i * 3 + 1) rgb.1) (i * 3 + 1) rgb.2.2

theorem frames_chaseStep (j i : ℕ) : frames (chaseStep (startRgb j) i) =
    [chaseData i (ledStripHsv2rgb (chaseHue j i).toNat 100 100), 0] := rfl

theorem startRgb_succ (j : ℕ) : startRgb j + 50 = startRgb (j + 1) := by
  rw [startRgb, startRgb, Nat.mul_succ, UInt16.ofNat_add]
  rfl

theorem frames_chaseBeats (n j : ℕ) : frames (chaseBeats n (startRgb j)) =
    joined (fun d => joined (fun i => frames (chaseStep (startRgb (j + d)) i))
      EXAMPLE_LED_NUMBERS) n := by
  induction n generalizing j with
  | zero => rfl
  | succ n ih =>
    rw [chaseBeats, frames_append, frames_flatMap, startRgb_succ, ih, joined_one_add]
    simp [Nat.add_assoc, Nat.add_comm 1]

theorem length_beat (start : UInt16) :
    (joined (fun i => frames (chaseStep start i)) EXAMPLE_LED_NUMBERS).length = 8 :=
  length_joined (m := 2) (fun _ => rfl) EXAMPLE_LED_NUMBERS

theorem length_frames_ledChase (beatCnt : ℤ) :
    (frames (ledChase beatCnt)).length = 8 * beatCnt.toNat := by
  have h : frames (ledChase beatCnt) = _ := frames_chaseBeats beatCnt.toNat 0
  rw [h]
  exact length_joined (fun d => length_beat _) _

theorem chaseFrames_eq {beatCnt : ℤ} {j i : ℕ} (hj : (j : ℤ) < beatCnt)
    (hi : i < EXAMPLE_LED_NUMBERS) : chaseFrames beatCnt j i =
      [chaseData i (ledStripHsv2rgb (chaseHue j i).toNat 100 100), 0] := by
  have h : frames (ledChase beatCnt) = _ := frames_chaseBeats beatCnt.toNat 0
  have hj' : j < beatCnt.toNat := by omega
  rw [chaseFrames, h, block_joined (fun d => length_beat _) hj',
    block_joined (m := 2) (fun _ => rfl) hi, Nat.zero_add, frames_chaseStep]

/-- Blue is the last value stored in the place of red. -/
theorem chaseData_eq_iff {i : ℕ} (hi : i < EXAMPLE_LED_NUMBERS) (rgb : ℕ × ℕ × ℕ) :
    chaseData i rgb = pixelFrame i rgb ↔
      UInt8.ofNat rgb.1 = UInt8.ofNat rgb.2.2 ∧ UInt8.ofNat rgb.2.2 = 0 := by
  have hlt : i * 3 + 2 < EXAMPLE_LED_NUMBERS * 3 := by omega
  constructor
  · intro h
    have hred := congrFun h ⟨i * 3 + 1, by omega⟩
    have hblue := congrFun h ⟨i * 3 + 2, hlt⟩
    have h1 : (i * 3 + 1) / 3 = i ∧ (i * 3 + 1) % 3 = 1 := by omega
    have h2 : (i * 3 + 2) / 3 = i ∧ (i * 3 + 2) % 3 = 2 := by omega
    simp only [chaseData, setPixel, pixelFrame, colorFrame, h1, h2] at hred hblue
    simp at hred hblue
    exact ⟨hred.symm, hblue.symm⟩
  · rintro ⟨hred, hblue⟩
    funext k
    have hk := Nat.div_add_mod k.val 3
    have hmod := Nat.mod_lt k.val (show 0 < 3 by decide)
    unfold chaseData setPixel pixelFrame colorFrame
    rw [hred, hblue]
    split_ifs <;> first | rfl | omega

/-- Red and blue fit in a byte, and both are zero only at hue 120. -/
theorem ledStripHsv2rgb_full (h : ℕ) :
    (ledStripHsv2rgb h 100 100).1 < 256 ∧ (ledStripHsv2rgb h 100 100).2.2 < 256 ∧
      ((ledStripHsv2rgb h 100 100).1 = 0 ∧ (ledStripHsv2rgb h 100 100).2.2 = 0 ↔
        h % 360 = 120) := by
  have hsixth : h % 360 / 60 = 0 ∨ h % 360 / 60 = 1 ∨ h % 360 / 60 = 2 ∨ h % 360 / 60 = 3 ∨
      h % 360 / 60 = 4 ∨ h % 360 / 60 = 5 := by omega
  rcases hsixth with hq | hq | hq | hq | hq | hq
  all_goals
    simp only [ledStripHsv2rgb, hq, Nat.reduceMul, Nat.reduceDiv, Nat.reduceSub, and_true, true_and]
    omega

theorem byte_eq_zero_iff {n : ℕ} (h : n < 256) : UInt8.ofNat n = 0 ↔ n = 0 := by
  rw [← UInt8.toNat_inj, UInt8.toNat_ofNat', Nat.mod_eq_of_lt h]
  rfl

theorem ledStripHsv2rgb_green (h : ℕ) :
    (UInt8.ofNat (ledStripHsv2rgb h 100 100).1 = UInt8.ofNat (ledStripHsv2rgb h 100 100).2.2 ∧
      UInt8.ofNat (ledStripHsv2rgb h 100 100).2.2 = 0) ↔ h % 360 = 120 := by
  obtain ⟨hred, hblue, hiff⟩ := ledStripHsv2rgb_full h
  rw [← hiff, byte_eq_zero_iff hblue]
  constructor
  · rintro ⟨heq, hb⟩
    rw [hb] at heq
    exact ⟨(byte_eq_zero_iff hred).mp heq, hb⟩
  · rintro ⟨hr, hb⟩
    exact ⟨by rw [hr, hb], hb⟩

theorem chaseFrames_eq_iff {beatCnt : ℤ} {j i : ℕ} (hj : (j : ℤ) < beatCnt)
    (hi : i < EXAMPLE_LED_NUMBERS) :
    chaseFrames beatCnt j i = stepFrames j i ↔ (chaseHue j i).toNat % 360 = 120 := by
  rw [chaseFrames_eq hj hi, stepFrames, ← ledStripHsv2rgb_green, ← chaseData_eq_iff hi]
  simp only [List.cons.injEq, and_true]

/-- A chase sends eight frames a beat. A step sends the frames of its hue exactly when this
is the hue of green, so that a chase of any beats is wrong at its first step. -/
theorem chase_frames (beatCnt : ℤ) :
    (frames (ledChase beatCnt)).length = 8 * beatCnt.toNat ∧
    (∀ j i : ℕ, j < beatCnt → i < EXAMPLE_LED_NUMBERS →
      (chaseFrames beatCnt j i = stepFrames j i ↔ (chaseHue j i).toNat % 360 = 120)) ∧
    ((∀ j i : ℕ, j < beatCnt → i < EXAMPLE_LED_NUMBERS →
      chaseFrames beatCnt j i = stepFrames j i) ↔ beatCnt ≤ 0) := by
  refine ⟨length_frames_ledChase beatCnt, fun j i hj hi => chaseFrames_eq_iff hj hi, ?_, ?_⟩
  · intro h
    by_contra hpos
    have hstart : ((0 : ℕ) : ℤ) < beatCnt := by omega
    have hgreen := (chaseFrames_eq_iff hstart (by decide)).mp (h 0 0 hstart (by decide))
    exact absurd hgreen (by decide)
  · intro h j i hj
    omega

theorem chase_not_red : chaseFrames 1 0 0 = [0, 0] ∧
    stepFrames 0 0 = [pixelFrame 0 (255, 0, 0), 0] ∧
    ¬ ∀ (beatCnt : ℤ) (j i : ℕ), j < beatCnt → i < EXAMPLE_LED_NUMBERS →
      chaseFrames beatCnt j i = stepFrames j i := by
  have hhue : (chaseHue 0 0).toNat = 0 := by decide
  have hrgb : ledStripHsv2rgb 0 100 100 = (255, 0, 0) := by decide
  have hdata : chaseData 0 (255, 0, 0) = 0 := by
    funext k
    unfold chaseData setPixel
    split_ifs <;> rfl
  have hsent : chaseFrames 1 0 0 = [0, 0] := by
    rw [chaseFrames_eq (by decide) (by decide), hhue, hrgb, hdata]
  have hstep : stepFrames 0 0 = [pixelFrame 0 (255, 0, 0), 0] := by
    rw [stepFrames, hhue, hrgb]
  refine ⟨hsent, hstep, fun h => ?_⟩
  have heq := h 1 0 0 (by decide) (by decide)
  rw [hsent, hstep] at heq
  have hred := congrFun (List.cons.inj heq).1 ⟨1, by decide⟩
  exact absurd hred (by decide)

end Car
