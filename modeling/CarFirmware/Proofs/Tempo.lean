import CarFirmware.Spec.Drv8833
import CarFirmware.Spec.LedStrip
import CarFirmware.Spec.Sound
import Mathlib.Tactic.Linarith
import Mathlib.Tactic.NormNum
import Mathlib.Tactic.FieldSimp
import Mathlib.Tactic.Ring
import Mathlib.Algebra.BigOperators.Ring.List

/-! The nominal playing time of the three tracks. A tick is 10 ms, a beat is
60 ticks or 9600 samples. -/

namespace Car

theorem pdMsToTicks_delaytime (beat : ℤ) : pdMsToTicks (delaytime beat) = 60 * beat.toNat := by
  have h : delaytime beat * CONFIG_FREERTOS_HZ / 1000 = ((60 * beat : ℤ) : ℚ) := by
    push_cast [delaytime, BEAT_DURATION, CONFIG_FREERTOS_HZ]
    ring
  rw [pdMsToTicks, h, Int.floor_intCast]
  omega

theorem pdMsToTicks_50 : pdMsToTicks 50 = 5 := by decide +kernel

/-- 75 ms are seven and a half ticks, which the conversion truncates. -/
theorem pdMsToTicks_chase : pdMsToTicks CHASE_SPEED_MS = 7 := by decide +kernel

@[simp] theorem actTicks_nil : actTicks [] = 0 := rfl

@[simp] theorem actTicks_cons (a : LedAct) (l : List LedAct) :
    actTicks (a :: l) = a.ticks + actTicks l := by simp [actTicks]

@[simp] theorem actTicks_append (l l' : List LedAct) :
    actTicks (l ++ l') = actTicks l + actTicks l' := by simp [actTicks]

@[simp] theorem actTicks_ledOneColor (r g b : UInt8) : actTicks (ledOneColor r g b) = 0 := rfl

@[simp] theorem actTicks_ledOff : actTicks ledOff = 0 := rfl

theorem actTicks_replicate (n : ℕ) (l : List LedAct) :
    actTicks (List.replicate n l).flatten = n * actTicks l := by
  induction n with
  | zero => simp
  | succ n ih =>
    rw [List.replicate_succ, List.flatten_cons, actTicks_append, ih]
    ring

theorem actTicks_ledBlink (r g b : UInt8) (count : ℤ) :
    actTicks (ledBlink r g b count) = 10 * count.toNat := by
  rw [ledBlink, actTicks_replicate]
  simp only [actTicks_append, actTicks_ledOneColor, actTicks_ledOff, actTicks_cons, actTicks_nil,
    LedAct.ticks, pdMsToTicks_50]
  ring

theorem actTicks_chaseStep (startRgb : UInt16) (i : ℕ) :
    actTicks (chaseStep startRgb i) = 14 := by
  simp [chaseStep, LedAct.ticks, pdMsToTicks_chase]

/-- A beat of the chase delays 56 ticks, not 60. -/
theorem actTicks_chaseBeats (n : ℕ) (startRgb : UInt16) :
    actTicks (chaseBeats n startRgb) = 56 * n := by
  induction n generalizing startRgb with
  | zero => rfl
  | succ n ih =>
    have hbeat : actTicks ((List.range EXAMPLE_LED_NUMBERS).flatMap (chaseStep startRgb)) = 56 := by
      have hr : List.range EXAMPLE_LED_NUMBERS = [0, 1, 2, 3] := rfl
      simp only [hr, List.flatMap_cons, List.flatMap_nil, actTicks_append, actTicks_chaseStep,
        actTicks_nil]
    rw [chaseBeats, actTicks_append, hbeat, ih]
    ring

def chaseCode : CStr := ['C', 'h', 'a', 's', 'e']

theorem actTicks_ledCmd2data {cmd : CStr} (beat : ℤ) (h : cmd ≠ chaseCode) :
    actTicks (ledCmd2data cmd beat).1 =
      if (ledCmd2data cmd beat).2 then 60 * beat.toNat else 0 := by
  have hblink (r g b : UInt8) : actTicks (ledBlink r g b (6 * beat)) = 60 * beat.toNat := by
    rw [actTicks_ledBlink]
    omega
  unfold ledCmd2data
  by_cases hR : cmd = ['R']
  · rw [if_pos hR]; rfl
  by_cases hG : cmd = ['G']
  · rw [if_neg hR, if_pos hG]; rfl
  by_cases hB : cmd = ['B']
  · rw [if_neg hR, if_neg hG, if_pos hB]; rfl
  rw [if_neg hR, if_neg hG, if_neg hB]
  by_cases hRB : cmd = ['R', 'B']
  · rw [if_pos hRB]; exact hblink ..
  by_cases hGB : cmd = ['G', 'B']
  · rw [if_neg hRB, if_pos hGB]; exact hblink ..
  by_cases hBB : cmd = ['B', 'B']
  · rw [if_neg hRB, if_neg hGB, if_pos hBB]; exact hblink ..
  have hchase : cmd ≠ ['C', 'h', 'a', 's', 'e'] := h
  rw [if_neg hRB, if_neg hGB, if_neg hBB, if_neg hchase]
  by_cases hoff : cmd = ['O', 'F', 'F']
  · rw [if_pos hoff]; rfl
  · rw [if_neg hoff]; rfl

theorem actTicks_ledActs (c : Cmd) :
    actTicks (ledActs c) = if c.code = chaseCode then 56 * c.beat.toNat else 60 * c.beat.toNat := by
  have hdelay : LedAct.ticks (.delay (pdMsToTicks (delaytime c.beat))) = 60 * c.beat.toNat :=
    pdMsToTicks_delaytime c.beat
  by_cases hno : isNo c.code = true
  · have hne : c.code ≠ chaseCode := by
      rintro h
      rw [h] at hno
      exact absurd hno (by decide)
    simp [ledActs, hno, hne, hdelay]
  · by_cases hchase : c.code = chaseCode
    · have hacts : ledActs c = ledChase c.beat := by
        unfold ledActs
        rw [if_neg hno, hchase]
        rfl
      rw [hacts, if_pos hchase, ledChase, actTicks_chaseBeats]
    · have hdata := actTicks_ledCmd2data c.beat hchase
      unfold ledActs
      rw [if_neg hno, if_neg hchase]
      dsimp only
      split_ifs at hdata ⊢
      · exact hdata
      · rw [actTicks_append, hdata, actTicks_cons, hdelay, actTicks_nil]
        omega

/-- The generator at sample `idx` of a note of `total` samples. -/
structure Saw.At (s : Saw) (idx total : ℕ) : Prop where
  rate : s.sampleRate = MY_SR
  idx : s.tickIdx = idx
  duration : s.duration = total / MY_SR

theorem sawReset_at (freq : ℚ) {beat : ℤ} (h : 0 ≤ beat) :
    (sawReset freq beat).At 0 (9600 * beat.toNat) := by
  refine ⟨rfl, rfl, ?_⟩
  have hb : (beat : ℚ) = (beat.toNat : ℚ) := by
    exact_mod_cast (Int.toNat_of_nonneg h).symm
  rw [sawReset, hb]
  push_cast [BEAT_DURATION, MY_SR]
  ring

theorem sawTick_end {s : Saw} {idx total : ℕ} (h : s.At idx total) (hle : total ≤ idx) :
    sawTick s = none := by
  have ht : s.duration ≤ s.tickIdx / s.sampleRate := by
    rw [h.duration, h.idx, h.rate]
    have : (total : ℚ) ≤ idx := by exact_mod_cast hle
    exact div_le_div_of_nonneg_right this (by norm_num [MY_SR])
  simp [sawTick, ht]

theorem sawTick_next {s : Saw} {idx total : ℕ} (h : s.At idx total) (hlt : idx < total) :
    ∃ x s', sawTick s = some (x, s') ∧ s'.At (idx + 1) total := by
  have ht : ¬ s.duration ≤ s.tickIdx / s.sampleRate := by
    rw [h.duration, h.idx, h.rate, not_le]
    have : (idx : ℚ) < total := by exact_mod_cast hlt
    exact div_lt_div_of_pos_right this (by norm_num [MY_SR])
  exact ⟨_, { s with tickIdx := s.tickIdx + 1 }, by simp only [sawTick, ht, if_false]; rfl,
    ⟨h.rate, by simp [h.idx], h.duration⟩⟩

theorem fillBuffer_spec (n : ℕ) {s : Saw} {idx total : ℕ} (h : s.At idx total) (hle : idx ≤ total) :
    (fillBuffer n s).1.length = min n (total - idx) ∧
    (fillBuffer n s).2.1.At (idx + min n (total - idx)) total ∧
    ((fillBuffer n s).2.2 = true ↔ n ≤ total - idx) := by
  induction n generalizing s idx with
  | zero =>
    rw [Nat.zero_min, Nat.add_zero]
    exact ⟨rfl, h, iff_of_true rfl (Nat.zero_le _)⟩
  | succ n ih =>
    rcases Nat.lt_or_ge idx total with hlt | hge
    · obtain ⟨x, s', hs, hat⟩ := sawTick_next h hlt
      obtain ⟨hlen, hnext, hret⟩ := ih hat hlt
      have hmin : min (n + 1) (total - idx) = min n (total - (idx + 1)) + 1 := by omega
      simp only [fillBuffer, hs, List.length_cons, hlen, hmin, hret]
      refine ⟨trivial, ?_, by omega⟩
      have hcount : idx + (min n (total - (idx + 1)) + 1) =
          idx + 1 + min n (total - (idx + 1)) := by
        omega
      rwa [hcount]
    · obtain rfl : total = idx := by omega
      simpa [fillBuffer, sawTick_end h hge] using h

theorem noteBlocks_spec (fuel : ℕ) {s : Saw} {idx total : ℕ} (h : s.At idx total)
    (hle : idx ≤ total) (hfuel : total - idx < BUFF_SIZE * fuel) :
    ∃ blocks, noteBlocks fuel s = some blocks ∧ blocks.flatten.length = total - idx := by
  induction fuel generalizing s idx with
  | zero => simp at hfuel
  | succ fuel ih =>
    obtain ⟨hlen, hnext, hret⟩ := fillBuffer_spec BUFF_SIZE h hle
    simp only [noteBlocks]
    split_ifs with hempty htick
    · refine ⟨[], rfl, ?_⟩
      rw [hempty] at hlen
      simp only [List.length_nil, BUFF_SIZE] at hlen
      simp only [List.flatten_nil, List.length_nil]
      omega
    · have hroom := hret.mp htick
      rw [Nat.min_eq_left hroom] at hnext hlen
      obtain ⟨blocks, hb, hsum⟩ := ih hnext (by omega) (by rw [Nat.mul_succ] at hfuel; omega)
      refine ⟨_ :: blocks, by rw [hb]; rfl, ?_⟩
      rw [List.flatten_cons, List.length_append, hlen, hsum]
      omega
    · have hroom : ¬ BUFF_SIZE ≤ total - idx := fun hr => htick (hret.mpr hr)
      refine ⟨_, rfl, ?_⟩
      rw [List.flatten_singleton, hlen]
      omega

/-- The turns of the `while (tick_ret)` loop that a note of `beat` beats needs. -/
def noteTurns (beat : ℤ) : ℕ := 12 * beat.toNat + 1

/-- The samples of a note, `none` if its loop has not ended after `noteTurns` turns. -/
def noteSamples (c : Cmd) : Option ℕ :=
  (noteBlocks (noteTurns c.beat) (sawReset (noteToFreq c.code) c.beat)).map (·.flatten.length)

theorem noteSamples_eq {c : Cmd} (h : 0 ≤ c.beat) : noteSamples c = some (9600 * c.beat.toNat) := by
  obtain ⟨blocks, hb, hlen⟩ := noteBlocks_spec (noteTurns c.beat)
    (sawReset_at (noteToFreq c.code) h) (Nat.zero_le _) (by simp [noteTurns, BUFF_SIZE]; omega)
  rw [noteSamples, hb, Option.map_some, hlen, Nat.sub_zero]

def ticksToSeconds (n : ℕ) : ℚ := n / CONFIG_FREERTOS_HZ

def noteSeconds (c : Cmd) : ℚ :=
  if isRest c.code then ticksToSeconds (pdMsToTicks (delaytime c.beat))
  else ((noteSamples c).getD 0 : ℚ) / MY_SR

def motorSeconds (c : Cmd) : ℚ := ticksToSeconds (motorDelay c)

def ledSeconds (c : Cmd) : ℚ := ticksToSeconds (actTicks (ledActs c))

def beatSeconds (l : List Cmd) : ℚ := BEAT_DURATION * (l.map fun c => (c.beat : ℚ)).sum

/-- The three tracks keep the beat, command by command and in total. -/
structure InStep (notes motor light : List Cmd) : Prop where
  restTicks : ∀ c ∈ notes, isRest c.code = true → (pdMsToTicks (delaytime c.beat) : ℤ) = 60 * c.beat
  samples : ∀ c ∈ notes, isRest c.code = false → (noteSamples c).map (↑) = some (9600 * c.beat)
  motorTicks : ∀ c ∈ motor, (motorDelay c : ℤ) = 60 * c.beat
  lightTicks : ∀ c ∈ light, (actTicks (ledActs c) : ℤ) = 60 * c.beat
  noteTotal : (notes.map noteSeconds).sum = beatSeconds notes
  motorTotal : (motor.map motorSeconds).sum = beatSeconds motor
  lightTotal : (light.map ledSeconds).sum = beatSeconds light

theorem total_eq {l : List Cmd} {seconds : Cmd → ℚ}
    (h : ∀ c ∈ l, seconds c = BEAT_DURATION * c.beat) : (l.map seconds).sum = beatSeconds l := by
  rw [beatSeconds, List.map_congr_left h]
  exact List.sum_map_mul_left l (fun c => (c.beat : ℚ)) BEAT_DURATION

theorem ticksToSeconds_beat {n : ℕ} {beat : ℤ} (h : (n : ℤ) = 60 * beat) :
    ticksToSeconds n = BEAT_DURATION * beat := by
  have hq : (n : ℚ) = 60 * beat := by exact_mod_cast h
  rw [ticksToSeconds, hq]
  norm_num [CONFIG_FREERTOS_HZ, BEAT_DURATION]
  ring

theorem noteSeconds_eq {c : Cmd} (h : 0 ≤ c.beat) : noteSeconds c = BEAT_DURATION * c.beat := by
  have hb : (c.beat.toNat : ℤ) = c.beat := Int.toNat_of_nonneg h
  unfold noteSeconds
  split_ifs
  · exact ticksToSeconds_beat (by rw [pdMsToTicks_delaytime]; omega)
  · have hq : (c.beat.toNat : ℚ) = c.beat := by exact_mod_cast hb
    rw [noteSamples_eq h]
    push_cast [Option.getD_some, hq, MY_SR, BEAT_DURATION]
    ring

/-- The tracks stay in step exactly when the light track never chases for a
positive number of beats. -/
theorem inStep_iff (notes motor light : List Cmd)
    (hbeat : ∀ c ∈ notes ++ motor ++ light, 0 ≤ c.beat) :
    InStep notes motor light ↔ ∀ c ∈ light, c.code = chaseCode → c.beat = 0 := by
  constructor
  · intro h c hc hchase
    have hticks := h.lightTicks c hc
    rw [actTicks_ledActs, if_pos hchase] at hticks
    have := hbeat c (List.mem_append_right _ hc)
    push_cast at hticks
    omega
  · intro h
    have hdelay (c : Cmd) (hc : 0 ≤ c.beat) :
        (pdMsToTicks (delaytime c.beat) : ℤ) = 60 * c.beat := by
      rw [pdMsToTicks_delaytime]
      omega
    have hnote (c : Cmd) (hc : c ∈ notes) : 0 ≤ c.beat := hbeat c (by simp [hc])
    have hmotor (c : Cmd) (hc : c ∈ motor) : (motorDelay c : ℤ) = 60 * c.beat :=
      hdelay c (hbeat c (by simp [hc]))
    have hlight (c : Cmd) (hc : c ∈ light) : (actTicks (ledActs c) : ℤ) = 60 * c.beat := by
      have h0 := hbeat c (List.mem_append_right _ hc)
      rw [actTicks_ledActs]
      split_ifs with hchase
      · rw [h c hc hchase]
        rfl
      · push_cast
        omega
    exact {
      restTicks := fun c hc _ => hdelay c (hnote c hc)
      samples := fun c hc _ => by
        rw [noteSamples_eq (hnote c hc), Option.map_some]
        push_cast
        rw [Int.toNat_of_nonneg (hnote c hc)]
      motorTicks := hmotor
      lightTicks := hlight
      noteTotal := total_eq fun c hc => noteSeconds_eq (hnote c hc)
      motorTotal := total_eq fun c hc => ticksToSeconds_beat (hmotor c hc)
      lightTotal := total_eq fun c hc => ticksToSeconds_beat (hlight c hc) }

theorem inStep_iff_blink :
    InStep [⟨['1'], 1⟩] [⟨['F'], 1⟩] [⟨['R', 'B'], 1⟩] ↔
      ∀ c ∈ [(⟨['R', 'B'], 1⟩ : Cmd)], c.code = chaseCode → c.beat = 0 :=
  inStep_iff [⟨['1'], 1⟩] [⟨['F'], 1⟩] [⟨['R', 'B'], 1⟩] (by decide)

/-- One beat of chase takes 560 ms. -/
theorem chase_out_of_step : ¬ ∀ notes motor light : List Cmd,
    (∀ c ∈ notes ++ motor ++ light, 0 ≤ c.beat) → InStep notes motor light := by
  intro h
  have hlight := (h [] [] [⟨chaseCode, 1⟩] (by decide)).lightTicks ⟨chaseCode, 1⟩ (by simp)
  rw [actTicks_ledActs] at hlight
  exact absurd hlight (by decide)

end Car
