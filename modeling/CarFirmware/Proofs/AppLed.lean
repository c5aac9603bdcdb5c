import CarFirmware.Proofs.Motors
import CarFirmware.Proofs.Tempo
import CarFirmware.Spec.AppLed
import Mathlib.Tactic.FinCases

/-! What the lights of `app_led_task` tell. Every status of the car has lights of its own, which
already the first frame tells apart, and a turn of the loop delays for a second at most. -/

namespace Car.AppLed

open Handshake Transition

/-- What the lights stand for; `battery` is the number of steps that the charge is over. -/
inductive Status where
  | music
  | driving
  | offline
  | battery (level : Fin 5)
  deriving DecidableEq

/-- The steps of the charge that the voltage is over. -/
def charge (vol : ℤ) : Fin 5 := Fin.ofNat 5 ([3680, 3750, 3800, 3900].countP (· < vol))

def Readings.status (r : Readings) : Status :=
  if r.isSoundPlayRun then .music
  else if r.isMotorRun then .driving
  else if charge (2 * r.gSysVol.value) ≠ 0 ∧ r.connState = 0 then .offline
  else .battery (charge (2 * r.gSysVol.value))

theorem pdMsToTicks_100 : pdMsToTicks 100 = 10 := by decide +kernel

theorem pdMsToTicks_500 : pdMsToTicks 500 = 50 := by decide +kernel

theorem pdMsToTicks_1000 : pdMsToTicks 1000 = 100 := by decide +kernel

namespace Status

def lights : Status → List LedAct
  | music => [.delay 100]
  | driving => ledBlink 5 5 5 10
  | offline => ledBlink2 5 5 0
  | battery level =>
    if level = 0 then ledBlink2 5 0 0
    else ledOneColor2 0 5 0 (UInt8.ofNat level) ++ [.delay 10]

def first : Status → LedAct
  | music => .delay 100
  | driving => .fill (colorFrame 5 5 5)
  | offline => .fill (colorFrame 5 5 0)
  | battery level =>
    .fill (if level = 0 then colorFrame 5 0 0 else fun k =>
      if k.val / 3 < level.val then colorFrame 0 5 0 k else 0)

/-- How to read the first light of a turn: red alone is an empty battery, white a drive, yellow
no connection, and green counts. -/
def ofLight : LedAct → Status
  | .delay _ => .music
  | .fill f =>
    let byte k := (List.ofFn f).getD k 0
    if byte 0 = 0 then .battery 0
    else if byte 2 ≠ 0 then .driving
    else if byte 1 ≠ 0 then .offline
    else .battery (Fin.ofNat 5 ([0, 3, 6, 9].countP fun k => byte k ≠ 0))

theorem ofLight_first (s : Status) : ofLight s.first = s := by
  cases s with
  | music => rfl
  | driving => decide +kernel
  | offline => decide +kernel
  | battery level =>
    revert level
    decide +kernel

theorem lights_cons (s : Status) : ∃ l, s.lights = s.first :: l := by
  cases s with
  | music | driving | offline => exact ⟨_, rfl⟩
  | battery level => fin_cases level <;> exact ⟨_, rfl⟩

theorem actTicks_ledBlink2 (r g b : UInt8) : actTicks (ledBlink2 r g b) = 100 := by
  simp [ledBlink2, LedAct.ticks, pdMsToTicks_500]

/-- A turn delays for a second at most and sends 20 frames at most. -/
theorem actTicks_lights (s : Status) :
    0 < actTicks s.lights ∧ actTicks s.lights + (ledFrames s.lights).length ≤ 120 := by
  cases s with
  | music => decide
  | driving =>
    have hframes : (ledFrames (lights driving)).length = 20 := rfl
    rw [hframes, lights, actTicks_ledBlink]
    decide
  | offline =>
    have hframes : (ledFrames (lights offline)).length = 2 := rfl
    rw [hframes, lights, actTicks_ledBlink2]
    decide
  | battery level =>
    rw [lights]
    split_ifs
    · have hframes : (ledFrames (ledBlink2 5 0 0)).length = 2 := rfl
      rw [hframes, actTicks_ledBlink2]
      decide
    · have hticks : actTicks (ledOneColor2 0 5 0 (UInt8.ofNat level) ++ [.delay 10]) = 10 := rfl
      have hframes :
          (ledFrames (ledOneColor2 0 5 0 (UInt8.ofNat level) ++ [.delay 10])).length = 1 := rfl
      omega

theorem flatMap_lights_inj {l l' : List Status} : l.flatMap lights = l'.flatMap lights ↔ l = l' := by
  refine ⟨fun h => ?_, congrArg _⟩
  induction l generalizing l' with
  | nil =>
    cases l' with
    | nil => rfl
    | cons s l' =>
      obtain ⟨rest, hs⟩ := s.lights_cons
      rw [List.flatMap_cons, hs] at h
      cases h
  | cons s l ih =>
    obtain ⟨rest, hs⟩ := s.lights_cons
    cases l' with
    | nil =>
      rw [List.flatMap_cons, hs] at h
      cases h
    | cons s' l' =>
      obtain ⟨rest', hs'⟩ := s'.lights_cons
      have hfirst : s.first = s'.first := by
        rw [List.flatMap_cons, List.flatMap_cons, hs, hs'] at h
        exact (List.cons.inj h).1
      obtain rfl : s = s' := by rw [← ofLight_first s, hfirst, ofLight_first]
      rw [ih (List.append_cancel_left h)]

end Status

theorem getSysBatLevel_eq (gSysVol : SysVol) :
    getSysBatLevel gSysVol = UInt8.ofNat (charge (2 * gSysVol.value)) := by
  simp only [getSysBatLevel, charge, List.countP_cons, List.countP_nil, decide_eq_true_eq]
  split_ifs <;> first | omega | rfl

theorem turn_eq (r : Readings) : turn r = r.status.lights := by
  have hlevel : 0 = getSysBatLevel r.gSysVol ↔ charge (2 * r.gSysVol.value) = 0 := by
    rw [getSysBatLevel_eq]
    generalize charge (2 * r.gSysVol.value) = level
    revert level
    decide
  unfold turn Readings.status
  rw [pdMsToTicks_100, pdMsToTicks_1000]
  by_cases hsound : r.isSoundPlayRun
  · rw [if_pos hsound, if_pos hsound]
    rfl
  rw [if_neg hsound, if_neg hsound]
  by_cases hmotor : r.isMotorRun
  · rw [if_pos hmotor, if_pos hmotor]
    rfl
  rw [if_neg hmotor, if_neg hmotor]
  dsimp only
  by_cases hempty : charge (2 * r.gSysVol.value) = 0
  · rw [if_pos (hlevel.mpr hempty), if_neg fun h => h.1 hempty, hempty]
    rfl
  rw [if_neg (mt hlevel.mp hempty)]
  by_cases hconn : r.connState = 0
  · rw [if_pos hconn.symm, if_pos ⟨hempty, hconn⟩]
    rfl
  · rw [if_neg (Ne.symm hconn), if_neg fun h => hconn h.2, Status.lights, if_neg hempty,
      getSysBatLevel_eq]

section Looks

variable (car car' : ℕ → Readings) (wait wait' : ℕ → ℕ)

/-- When the turns look at the car, and what they find. -/
def looks : ℕ → ℕ → List (ℕ × Status)
  | 0, _ => []
  | n + 1, now => (now, (car now).status) :: looks n (now + actTicks (turn (car now)) + wait now)

def found (n now : ℕ) : List Status := (looks car wait n now).map Prod.snd

def after : ℕ → ℕ → ℕ
  | 0, now => now
  | n + 1, now => after n (now + actTicks (turn (car now)) + wait now)

variable {car car' wait wait'} {n n' now : ℕ}

theorem found_succ : found car wait (n + 1) now = (car now).status ::
    found car wait n (now + actTicks (turn (car now)) + wait now) := rfl

theorem appLedTask_eq : appLedTask car wait n now = (found car wait n now).flatMap (·.lights) := by
  induction n generalizing now with
  | zero => rfl
  | succ n ih => rw [appLedTask, ih, found_succ, List.flatMap_cons, turn_eq]

/-- The lights tell what the turns found, however long the sends waited. -/
theorem appLedTask_inj : appLedTask car wait n now = appLedTask car' wait' n' now ↔
    found car wait n now = found car' wait' n' now := by
  rw [appLedTask_eq, appLedTask_eq, Status.flatMap_lights_inj]

theorem looks_inj (h : found car wait n now = found car' wait n' now) :
    looks car wait n now = looks car' wait n' now := by
  induction n generalizing n' now with
  | zero =>
    cases n' with
    | zero => rfl
    | succ n' => cases h
  | succ n ih =>
    cases n' with
    | zero => cases h
    | succ n' =>
      rw [found_succ, found_succ, List.cons.injEq] at h
      have hturn : turn (car now) = turn (car' now) := by rw [turn_eq, turn_eq, h.1]
      rw [hturn] at h
      rw [looks, looks, h.1, hturn, ih h.2]

theorem exists_look (hwait : ∀ t, wait t ≤ (ledFrames (turn (car t))).length) {t : ℕ}
    (hle : now ≤ t) (hlt : t < after car wait n now) :
    ∃ x ∈ looks car wait n now, x.1 ≤ t ∧ t < x.1 + 120 := by
  induction n generalizing now with
  | zero =>
    have hnone : t < now := hlt
    omega
  | succ n ih =>
    have hticks := (car now).status.actTicks_lights
    have hsends := hwait now
    rw [← turn_eq] at hticks
    rw [looks]
    by_cases hturn : t < now + actTicks (turn (car now)) + wait now
    · exact ⟨_, List.mem_cons_self .., hle, by simp only; omega⟩
    · obtain ⟨x, hx, hxt⟩ := ih (Nat.not_lt.mp hturn) hlt
      exact ⟨x, List.mem_cons_of_mem _ hx, hxt⟩

theorem mem_looks {x : ℕ × Status} (h : x ∈ looks car wait n now) : x.2 = (car x.1).status := by
  induction n generalizing now with
  | zero => cases h
  | succ n ih =>
    rw [looks, List.mem_cons] at h
    rcases h with rfl | h
    · rfl
    · exact ih h

end Looks

/-! ### Of the car -/

/-- The message thread drives with speeds whose duties do not overflow. -/
def DrivesFit (_ : System) (a : SysAct) : Prop := ∀ op, a = .drive op → op.Product

theorem coherent_of_reach {s : System}
    (h : Reach System.step DrivesFit System.init s) (b : Bridge) : s.hw.pwm.Coherent b := by
  refine h.invariant (I := fun s => s.hw.pwm.Coherent b) (Pwm.init_steady.coherent b) ?_
  rintro s a s' hI - hs
  obtain ⟨n, rfl, rfl⟩ | ⟨w, c, hw, t, rfl, ht, rfl⟩ | ⟨op, rfl, rfl⟩ | ⟨v, rfl, rfl⟩ | ⟨rfl, rfl⟩ :=
    System.step_cases hs
  · exact hI
  · obtain ⟨-, -, -, rfl, -, -⟩ | ⟨-, -, rfl, -⟩ | ⟨i, e, pc, eff, -, hr, -, -⟩ :=
      Body.step_cases ht
    · exact hI
    · exact hI
    · by_cases hmotor : w = .motor
      · subst hmotor
        rcases Firmware.motorRunCmdsTask_pwm hr with ⟨op, -, hpwm⟩ | ⟨-, hpwm, -⟩
        · exact (hpwm ▸ hI.exec op : hw.pwm.Coherent b)
        · exact (hpwm ▸ hI : hw.pwm.Coherent b)
      · exact (Firmware.task_pwm hmotor hr ▸ hI : hw.pwm.Coherent b)
  · exact hI.exec op
  · exact hI
  · exact hI

theorem status_driving {s : System} (h : ∀ b, s.hw.pwm.Coherent b) (gSysVol : SysVol)
    (connState : ℤ) :
    (readings s gSysVol connState).status = .driving ↔ (s.task .mp3).taskRun = false ∧
      ∃ b, (s.hw.pwm.duty b).1 ≠ (s.hw.pwm.duty b).2 := by
  have hrun : s.hw.pwm.isMotorRun = true ↔
      ∃ b, (s.hw.pwm.duty b).1 ≠ (s.hw.pwm.duty b).2 := by
    rw [Pwm.isMotorRun, Bool.or_eq_true, (h .A).flag, (h .B).flag]
    constructor
    · rintro (hA | hB)
      · exact ⟨.A, hA⟩
      · exact ⟨.B, hB⟩
    · rintro ⟨b, hb⟩
      cases b with
      | A => exact .inl hb
      | B => exact .inr hb
  rw [← hrun, Readings.status, readings]
  split_ifs <;> simp_all

theorem charge_of_le {vol : ℤ} (h : vol ≤ 3680) : charge vol = 0 := by
  have hnone : [3680, 3750, 3800, 3900].countP (· < vol) = 0 := by
    simp only [List.countP_eq_zero, List.mem_cons, List.not_mem_nil, or_false, decide_eq_true_eq]
    rintro step (rfl | rfl | rfl | rfl) <;> omega
  rw [charge, hnone]
  rfl

theorem status_of_empty {r : Readings} (h : charge (2 * r.gSysVol.value) = 0) :
    r.status = .music ∨ r.status = .driving ∨ r.status = .battery 0 := by
  have hconn : ¬ (charge (2 * r.gSysVol.value) ≠ 0 ∧ r.connState = 0) := fun hc => hc.1 h
  rw [Readings.status, if_neg hconn, h]
  split_ifs
  · exact .inl rfl
  · exact .inr (.inl rfl)
  · exact .inr (.inr rfl)

theorem vol_of_status {r : Readings}
    (h : r.status = .offline ∨ ∃ level ≠ 0, r.status = .battery level) :
    1840 < r.gSysVol.value := by
  by_contra hle
  have hempty : charge (2 * r.gSysVol.value) = 0 := charge_of_le (by omega)
  rcases status_of_empty hempty with hr | hr | hr <;> rw [hr] at h <;> simp at h

/-- Of `n` turns of `app_led_task` beside a run of the car whose duties do not overflow: whoever
sees their lights knows what each turn found, which at any tick is less than 1.2 s ago if no send
waits for more than a tick, and how long the sends waited tells when it was. White stands for
duties that drive a motor. Whether the car is connected, and how full the battery is, is shown
only for a voltage that the firmware, where nothing assigns `g_sys_vol`, never reads. -/
theorem lights_tell {car : ℕ → System}
    (hcar : ∀ t, Reach System.step DrivesFit System.init (car t)) (gSysVol : ℕ → SysVol)
    (connState : ℕ → ℤ) (wait : ℕ → ℕ) (n : ℕ) :
    let reads := fun t => readings (car t) (gSysVol t) (connState t)
    (∀ reads' wait' n', appLedTask reads wait n 0 = appLedTask reads' wait' n' 0 ↔
        found reads wait n 0 = found reads' wait' n' 0) ∧
      (∀ reads' n', appLedTask reads wait n 0 = appLedTask reads' wait n' 0 ↔
        looks reads wait n 0 = looks reads' wait n' 0) ∧
      ((∀ t, wait t ≤ (ledFrames (turn (reads t))).length) → ∀ t < after reads wait n 0,
        ∃ x ∈ looks reads wait n 0, x.1 ≤ t ∧ t < x.1 + 120) ∧
      ∀ x ∈ looks reads wait n 0,
        (x.2 = .driving ↔ ((car x.1).task .mp3).taskRun = false ∧
          ∃ b, ((car x.1).hw.pwm.duty b).1 ≠ ((car x.1).hw.pwm.duty b).2) ∧
        (x.2 = .offline ∨ (∃ level ≠ 0, x.2 = .battery level) →
          1840 < (gSysVol x.1).value) := by
  intro reads
  refine ⟨fun reads' wait' n' => appLedTask_inj, fun reads' n' => ?_, fun hwait t ht => ?_,
    fun x hx => ?_⟩
  · exact appLedTask_inj.trans ⟨looks_inj, congrArg _⟩
  · exact exists_look hwait t.zero_le ht
  · rw [mem_looks hx]
    exact ⟨status_driving (coherent_of_reach (hcar x.1)) _ _, vol_of_status⟩

def setsOff (t : ℕ) : System :=
  if t < 100 then System.init
  else { System.init with hw := System.init.hw.drive none (.run .A 100 1) }

theorem lights_tell_setsOff :
    let reads := fun t => readings (setsOff t) ⟨0, by decide⟩ 1
    looks reads (fun _ => 1) 2 0 = [(0, .battery 0), (101, .driving)] ∧
      ∃ b, ((setsOff 101).hw.pwm.duty b).1 ≠ ((setsOff 101).hw.pwm.duty b).2 := by
  intro reads
  have hreach (t : ℕ) : Reach System.step DrivesFit System.init (setsOff t) := by
    rw [setsOff]
    split_ifs
    · exact .refl
    · refine .tail (.drive (.run .A 100 1)) .refl ?_ rfl
      rintro op ⟨⟩
      exact ⟨by decide, by decide⟩
  have hlooks : looks reads (fun _ => 1) 2 0 = [(0, .battery 0), (101, .driving)] := by
    decide +kernel
  have hlook : (101, .driving) ∈ looks reads (fun _ => 1) 2 0 := by simp [hlooks]
  obtain ⟨-, -, -, htell⟩ :=
    lights_tell hreach (fun _ => ⟨0, by decide⟩) (fun _ => 1) (fun _ => 1) 2
  exact ⟨hlooks, ((htell _ hlook).1.mp rfl).2⟩

end Car.AppLed
