import CarFirmware.Proofs.Messages
import CarFirmware.Proofs.Motors

/-! What the message thread drives and which sounds it starts, as a function of the messages
alone: the key of a message starts a sound only when it differs from the key before. The
thread may be preempted anywhere and its calls may wait; it does not leave this script. -/

namespace Car

open Handshake Transition

/-- What can be seen of the message thread: it takes up a message, executes a drive
statement, or creates a task that plays a file. -/
inductive MsgEvent where
  | received (json : Json)
  | drive (op : PwmOp)
  | sound (fileid : ℤ)

def messages (tr : List MsgEvent) : List Json :=
  tr.filterMap fun
    | .received json => some json
    | _ => none

/-! ### What a sequence of messages should do -/

/-- The speed and the direction for each motor, of an `M_RUN` message with all four fields. -/
def motorFields (json : Json) : Option (ℤ × ℤ × ℤ × ℤ) :=
  match json .T, json .m1s, json .m1d, json .m2s, json .m2d with
  | some type, some s₁, some d₁, some s₂, some d₂ =>
    if type.isNumber = true ∧ type.valueint = M_RUN then
      some (s₁.valueint, d₁.valueint, s₂.valueint, d₂.valueint)
    else none
  | _, _, _, _, _ => none

/-- The value of `k` of such a message. -/
def keyOf (json : Json) : Option ℤ :=
  if (motorFields json).isSome then (json .k).map Item.valueint else none

def lastKeyOf (earlier : List Json) : ℤ := (earlier.filterMap keyOf).getLast?.getD 0

/-- The file that a message starts after the messages `earlier`. -/
def startedSound (earlier : List Json) (json : Json) : Option ℤ :=
  match keyOf json with
  | none => none
  | some key => if key = lastKeyOf earlier then none else keySound key

/-- The response to messages of other types, and to an `M_RUN` that lacks a motor field. -/
def otherResponse (json : Json) : List MsgEvent :=
  match json .T with
  | none => []
  | some type =>
    if type.isNumber = false then []
    else if type.valueint = M_STOP then carStop.map .drive
    else if type.valueint = S_PLAY then
      match json .fileid with
      | none => []
      | some file => [.sound file.valueint]
    else []

def response (earlier : List Json) (json : Json) : List MsgEvent :=
  match motorFields json with
  | some (s₁, d₁, s₂, d₂) =>
    [.drive .enable, .drive (.run .A s₁ d₁), .drive (.run .B s₂ d₂)] ++
      ((startedSound earlier json).map .sound).toList
  | none => otherResponse json

/-- Each message in turn, with its response. -/
def script (earlier : List Json) : List Json → List MsgEvent
  | [] => []
  | json :: rest => .received json :: response earlier json ++ script (earlier ++ [json]) rest

theorem script_snoc (earlier l : List Json) (json : Json) : script earlier (l ++ [json]) =
    script earlier l ++ .received json :: response (earlier ++ l) json := by
  induction l generalizing earlier with
  | nil => simp [script]
  | cons j l ih => simp [script, ih]

theorem lastKeyOf_snoc (l : List Json) (json : Json) :
    lastKeyOf (l ++ [json]) = (keyOf json).getD (lastKeyOf l) := by
  unfold lastKeyOf
  cases h : keyOf json <;> simp [List.filterMap_append, h]

/-! ### What the message thread does -/

def MainPc.quiet : MainPc → Bool
  | .type _ | .mRun _ _ | .key _ | .play _ _ | .mStop _ _ => false
  | _ => true

/-- The trace so far, completed by what the message at hand still has to do, is the script
of the messages. -/
def OnScript (tr : List MsgEvent) (lastKey : ℤ) : MainPc → Prop
  | .type r => ∃ earlier, lastKey = lastKeyOf earlier ∧
      tr = script [] earlier ++ [.received r.json] ∧ messages tr = earlier ++ [r.json]
  | .mRun ops r => ∃ earlier, lastKey = lastKeyOf earlier ∧ (motorFields r.json).isSome = true ∧
      tr ++ ops.map .drive ++ ((startedSound earlier r.json).map .sound).toList =
        script [] (messages tr) ∧ messages tr = earlier ++ [r.json]
  | .key r => ∃ earlier, lastKey = lastKeyOf earlier ∧ (motorFields r.json).isSome = true ∧
      tr ++ ((startedSound earlier r.json).map .sound).toList =
        script [] (messages tr) ∧ messages tr = earlier ++ [r.json]
  | .play fileid _ => lastKey = lastKeyOf (messages tr) ∧
      tr ++ [.sound fileid] = script [] (messages tr)
  | .mStop ops _ => lastKey = lastKeyOf (messages tr) ∧
      tr ++ ops.map .drive = script [] (messages tr)
  | _ => lastKey = lastKeyOf (messages tr) ∧ tr = script [] (messages tr)

theorem onScript_quiet {tr : List MsgEvent} {lastKey : ℤ} {pc : MainPc} (h : pc.quiet = true) :
    OnScript tr lastKey pc ↔ lastKey = lastKeyOf (messages tr) ∧ tr = script [] (messages tr) := by
  cases pc <;> first | rfl | cases h

/-- The file that `sound_play_mp3_run` has been called with and has not started. -/
def pending (t : State ℤ Mp3Pc) : Option ℤ :=
  match t.call 0 with
  | .create => some t.args
  | k => k.carries

inductive Dispatched (r : Root) : MainPc → Prop
  | run {s₁ d₁ s₂ d₂ : ℤ} : motorFields r.json = some (s₁, d₁, s₂, d₂) →
      Dispatched r (.mRun [.enable, .run .A s₁ d₁, .run .B s₂ d₂] r)
  | stop : motorFields r.json = none → otherResponse r.json = carStop.map .drive →
      Dispatched r (.mStop carStop r)
  | play {fileid : ℤ} : motorFields r.json = none → otherResponse r.json = [.sound fileid] →
      Dispatched r (.play fileid r)
  | quiet {pc : MainPc} : motorFields r.json = none → otherResponse r.json = [] →
      pc.quiet = true → Dispatched r pc

theorem motorFields_eq_none {json : Json} {type : Item} (hT : json .T = some type)
    (h : type.isNumber = true → type.valueint ≠ M_RUN) : motorFields json = none := by
  unfold motorFields
  split
  case h_1 type' s₁ d₁ s₂ d₂ hT' _ _ _ _ =>
    obtain rfl : type = type' := Option.some.inj (hT.symm.trans hT')
    exact if_neg fun hrun => h hrun.1 hrun.2
  case h_2 => rfl

theorem dispatch_dispatched (r : Root) : Dispatched r (dispatch r) := by
  unfold dispatch
  cases hT : r.json .T with
  | none => exact .quiet (by simp [motorFields, hT]) (by simp [otherResponse, hT]) rfl
  | some type =>
    simp only
    by_cases hnum : type.isNumber = false
    · rw [if_pos hnum]
      exact .quiet (motorFields_eq_none hT (by simp [hnum])) (by simp [otherResponse, hT, hnum]) rfl
    rw [if_neg hnum]
    have hnum' : type.isNumber = true := by simpa using hnum
    by_cases hrun : type.valueint = M_RUN
    · rw [if_pos hrun]
      have hother : otherResponse r.json = [] := by
        simp [otherResponse, hT, hrun, M_RUN, M_STOP, S_PLAY]
      split
      case h_1 d₁ d₂ s₁ s₂ hd₁ hd₂ hs₁ hs₂ =>
        exact .run (by simp [motorFields, hT, hd₁, hd₂, hs₁, hs₂, hnum', hrun])
      case h_2 hall =>
        refine .quiet ?_ hother rfl
        unfold motorFields
        split
        case h_1 hs₁ hd₁ hs₂ hd₂ => exact (hall _ _ _ _ hd₁ hd₂ hs₁ hs₂).elim
        case h_2 => rfl
    have hnone : motorFields r.json = none := motorFields_eq_none hT fun _ => hrun
    rw [if_neg hrun]
    by_cases hstop : type.valueint = M_STOP
    · rw [if_pos hstop]
      exact .stop hnone (by simp [otherResponse, hT, hnum', hstop])
    rw [if_neg hstop]
    by_cases hplay : type.valueint = S_PLAY
    · rw [if_pos hplay]
      cases hf : r.json .fileid with
      | none => exact .quiet hnone (by simp [otherResponse, hT, hplay, hf, M_STOP, S_PLAY]) rfl
      | some file =>
        exact .play hnone (by simp [otherResponse, hT, hnum', hplay, hf, M_STOP, S_PLAY])
    · rw [if_neg hplay]
      have hother : otherResponse r.json = [] := by simp [otherResponse, hT, hstop, hplay]
      split_ifs
      all_goals exact .quiet hnone hother rfl

theorem OnScript.dispatched {tr : List MsgEvent} {lastKey : ℤ} {r : Root}
    (h : OnScript tr lastKey (.type r)) : OnScript tr lastKey (dispatch r) := by
  obtain ⟨earlier, hlast, htr, hmsgs⟩ := h
  have hscript : script [] (messages tr) = tr ++ response earlier r.json := by
    rw [hmsgs, script_snoc, htr, List.nil_append, List.append_assoc, List.singleton_append]
  have hkey (hnone : motorFields r.json = none) : lastKey = lastKeyOf (messages tr) := by
    rw [hmsgs, lastKeyOf_snoc, hlast]
    simp [keyOf, hnone]
  have hd := dispatch_dispatched r
  generalize dispatch r = pc at hd ⊢
  cases hd with
  | run hf => exact ⟨earlier, hlast, by simp [hf], by rw [hscript]; simp [response, hf], hmsgs⟩
  | stop hnone hother => exact ⟨hkey hnone, by rw [hscript]; simp [response, hnone, hother]⟩
  | play hnone hother => exact ⟨hkey hnone, by rw [hscript]; simp [response, hnone, hother]⟩
  | quiet hnone hother hquiet =>
    rw [onScript_quiet hquiet]
    exact ⟨hkey hnone, by rw [hscript]; simp [response, hnone, hother]⟩

theorem OnScript.key {tr : List MsgEvent} {lastKey : ℤ} {r : Root} {key : Item}
    (h : OnScript tr lastKey (.key r)) (hkey : r.json .k = some key)
    (hne : lastKey ≠ key.valueint) :
    OnScript tr key.valueint (match keySound key.valueint with
      | none => .out r
      | some fileid => .play fileid r) := by
  obtain ⟨earlier, hlast, hfull, htr, hmsgs⟩ := h
  have hkeyOf : keyOf r.json = some key.valueint := by simp [keyOf, hfull, hkey]
  have hnew : key.valueint = lastKeyOf (messages tr) := by
    rw [hmsgs, lastKeyOf_snoc, hkeyOf, Option.getD_some]
  have hstart : startedSound earlier r.json = keySound key.valueint := by
    rw [startedSound, hkeyOf]
    exact if_neg fun heq => hne (hlast.trans heq.symm)
  rw [hstart] at htr
  cases hsound : keySound key.valueint with
  | none =>
    rw [hsound] at htr
    exact ⟨hnew, (List.append_nil tr).symm.trans htr⟩
  | some fileid =>
    rw [hsound] at htr
    exact ⟨hnew, htr⟩

theorem OnScript.noKey {tr : List MsgEvent} {lastKey : ℤ} {r : Root}
    (h : OnScript tr lastKey (.key r))
    (hkey : ∀ key, r.json .k = some key → lastKey = key.valueint) :
    OnScript tr lastKey (.out r) := by
  obtain ⟨earlier, hlast, hfull, htr, hmsgs⟩ := h
  have hkeyOf : ∀ key, keyOf r.json = some key → key = lastKey := by
    intro key hk
    simp only [keyOf, hfull, if_true, Option.map_eq_some_iff] at hk
    obtain ⟨item, hitem, rfl⟩ := hk
    exact (hkey item hitem).symm
  have hsame : lastKey = lastKeyOf (messages tr) := by
    rw [hmsgs, lastKeyOf_snoc]
    cases hk : keyOf r.json with
    | none => exact hlast
    | some key => exact (hkeyOf key hk).symm
  have hstart : startedSound earlier r.json = none := by
    unfold startedSound
    cases hk : keyOf r.json with
    | none => rfl
    | some key => exact if_pos ((hkeyOf key hk).trans hlast)
  rw [hstart] at htr
  exact ⟨hsame, (List.append_nil tr).symm.trans htr⟩

namespace Firmware

variable {s s' : Firmware} {a : FwAct} {tr : List MsgEvent}

/-- Away from the branches that drive or start a sound, a statement leads to another of
these and leaves the key. -/
theorem MainStep.quiet (hm : MainStep s s') (h : s.main.quiet = true) :
    s'.main.quiet = true ∧ s'.lastKey = s.lastKey := by
  cases hm
  case skip pc hs =>
    refine ⟨?_, rfl⟩
    change pc.quiet = true
    revert h
    generalize s.main = pc₀ at hs
    cases hs <;> intro h <;> first | rfl | cases h
  case item x r hmain => cases x <;> exact ⟨rfl, rfl⟩
  case abort => exact ⟨h, rfl⟩
  all_goals first
    | exact ⟨rfl, rfl⟩
    | (rename_i hmain; rw [hmain] at h; cases h)

section MainStatement

variable {r : Root} {ops : List PwmOp}

end MainStatement

end Firmware

/-- The messages that `handle_message` is called with and that can be parsed. -/
def received (as : List FwAct) : List Json :=
  as.filterMap fun
    | .receive json => json
    | _ => none

namespace Firmware

variable {s s' : Firmware} {a : FwAct}

theorem Parked.init : Parked Firmware.init := ⟨fun _ _ h => absurd rfl h, fun _ _ => rfl⟩

/-- Nothing keeps a message of the branch `M_RUN` from its next drive statement. -/
theorem Parked.enabled {ops : List PwmOp} {r : Root} (h : Parked s) (hrun : s.sys.hw.halted = false)
    (hmain : s.main = .type r ∨ s.main = .mRun ops r) : ∃ s', Firmware.step s .main = some s' := by
  have hready : s.ready 0 = true := by
    refine ready_iff.mpr fun w => ?_
    by_contra hopen
    have hwaits : s.main.waits w = true := h.waits w 0 hopen
    rcases hmain with hmain | hmain <;> rw [hmain] at hwaits <;> cases hwaits
  have hstep : s.mainStep.isSome = true := by
    rcases hmain with hmain | hmain
    · simp [Firmware.mainStep, hmain]
    · cases ops with
      | nil => simp [Firmware.mainStep, hmain]
      | cons op ops => simp [Firmware.mainStep, hmain, exec, System.step, hrun]
  obtain ⟨s', hs'⟩ := Option.isSome_iff_exists.mp hstep
  exact ⟨s', by simp [Firmware.step, hrun, hready, hs']⟩

end Firmware

end Car
