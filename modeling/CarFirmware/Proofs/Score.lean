import CarFirmware.Proofs.I2s
import CarFirmware.Proofs.NoteLoop
import CarFirmware.Proofs.Timeline

/-! The note track in the system: what an instance that is not stopped does with the I2S
channel. The generator and the buffer are shared, but nobody else writes them while the
instance is inside a note. -/

namespace Car

open Handshake LockedDevice Plan Transition

inductive TxAct where
  | enable
  | write (samples : List ℤ)
  | disable

def commandSamples (c : Cmd) : List ℤ :=
  samplesTo (noteToFreq c.code) c.beat (9600 * c.beat.toNat)

/-- The full buffers of a note: 12 for each beat. -/
def noteWrites (c : Cmd) : List TxAct :=
  (List.range (12 * c.beat.toNat)).map fun k => .write (Blocks.block BUFF_SIZE (commandSamples c) k)

def noteActs (c : Cmd) : List TxAct := .enable :: noteWrites c ++ [.disable]

/-- What a command does with the channel; a rest leaves it alone. -/
def noteScore (c : Cmd) : List TxAct := if isRest c.code then [] else noteActs c

def notesPart (c : Cmd) : List (Todo TxAct) :=
  if isRest c.code then [.wait (pdMsToTicks (delaytime c.beat))] else (noteActs c).map .act

/-- The plan of the commands from offset `pos` on. -/
def notesFrom (s : Str) (pos : ℕ) : List (Todo TxAct) :=
  cmdsPlan notesPart [] (commandList (s.text.drop pos))

/-- The string and the offset at a statement inside a note. -/
def NotesPc.inNote : NotesPc → Option (Str × ℕ)
  | .fill _ _ s pos | .tick _ s pos | .test _ _ s pos | .write _ _ s pos => some (s, pos)
  | _ => none

def NotesPc.perform (pc : NotesPc) (hw : Hw) : Option TxAct :=
  match pc with
  | .enable _ _ => some .enable
  | .write n _ _ _ => some (.write (hw.buffered n))
  | .disable _ _ => some .disable
  | _ => none

/-- What is left to do at a statement. Inside a note that depends on the generator and on the
buffer; `written` are the buffers of the note so far. -/
inductive Playing (hw : Hw) : NotesPc → List (Todo TxAct) → Prop
  | cmds {pc : CmdPc} {s : Str} {pos : ℕ} :
      Playing hw (.cmds pc s pos) (cmdTodo notesPart [] (commandList (s.text.drop pos)) pc)
  | delay {d : ℕ} {s : Str} {pos : ℕ} : Playing hw (.delay d s pos) (.hold d :: notesFrom s pos)
  | reset {c : Cmd} {s : Str} {pos : ℕ} :
      Playing hw (.reset c s pos) ((noteActs c).map .act ++ notesFrom s pos)
  | enable {c : Cmd} {s : Str} {pos : ℕ} : hw.saw = sawReset (noteToFreq c.code) c.beat →
      Playing hw (.enable s pos) ((noteActs c).map .act ++ notesFrom s pos)
  | note {c : Cmd} {pc : NotesPc} {s : Str} {pos : ℕ} {written : List (List ℤ)} : 0 ≤ c.beat →
      pc.inNote = some (s, pos) →
      NoteLoop.Undisturbed (noteToFreq c.code) c.beat ⟨pc, hw, written⟩ →
      Playing hw pc
        (((noteWrites c).drop written.length).map .act ++ (.act .disable :: notesFrom s pos))
  | silent {pc : NotesPc} {s : Str} {pos : ℕ} : sawTick hw.saw = none →
      pc = .fill 0 true s pos ∨ pc = .tick 0 s pos ∨ pc = .test 0 false s pos →
      Playing hw pc (.act .disable :: notesFrom s pos)
  | disable {s : Str} {pos : ℕ} :
      Playing hw (.disable s pos) (.act .disable :: notesFrom s pos)
  | ended {pc : NotesPc} : pc = .give ∨ pc = .clear ∨ pc = .setBits ∨ pc = .delete ∨ pc = .ended →
      Playing hw pc []

/-! ### Inside a note -/

theorem length_commandSamples (c : Cmd) : (commandSamples c).length = 9600 * c.beat.toNat := by
  simp [commandSamples, samplesTo]

def written (l : List TxAct) : List ℤ := l.flatMap fun
  | .write samples => samples
  | _ => []

theorem written_noteWrites (c : Cmd) : written (noteWrites c) = commandSamples c := by
  rw [written, noteWrites, List.flatMap_map]
  refine (Blocks.joined_block (commandSamples c) (12 * c.beat.toNat)).trans ?_
  refine List.take_of_length_le ?_
  rw [length_commandSamples, BUFF_SIZE]
  omega

namespace NoteLoop

variable {freq : ℚ} {beatCnt : ℤ}

theorem Undisturbed.congr {pc : NotesPc} {hw hw' : Hw} {written : List (List ℤ)}
    (h : Undisturbed freq beatCnt ⟨pc, hw, written⟩) (hsaw : hw'.saw = hw.saw)
    (hbuf : hw'.i2sDataBuffer = hw.i2sDataBuffer) :
    Undisturbed freq beatCnt ⟨pc, hw', written⟩ := by
  have hbuffered (n : ℕ) : hw'.buffered n = hw.buffered n := by rw [Hw.buffered, hbuf, Hw.buffered]
  refine ⟨⟨?_, ?_, ?_, ?_⟩, ?_, h.whole⟩
  · simpa only [hsaw] using h.kept.saw
  · simpa only [hsaw] using h.kept.le
  · intro n hn
    simpa only [hsaw, hbuffered] using h.kept.buffered n hn
  · simpa only [hsaw] using h.kept.before
  · have hat := h.onTrack
    unfold OnTrack at hat ⊢
    simpa only [hsaw] using hat

theorem Undisturbed.next_block {c : Cmd} {hw : Hw} {written : List (List ℤ)} {n : ℕ} {tick : Bool}
    {str : Str} {pos : ℕ}
    (h : Undisturbed (noteToFreq c.code) c.beat ⟨.write n tick str pos, hw, written⟩) :
    (noteWrites c).drop written.length =
      .write (hw.buffered n) :: (noteWrites c).drop (written.length + 1) := by
  obtain ⟨rfl, rfl⟩ : n = BUFF_SIZE ∧ tick = true := h.onTrack
  have hbuf := h.kept.buffered BUFF_SIZE rfl
  have hlen := Blocks.length_flatten h.whole
  have hpre := samplesTo_mono (noteToFreq c.code) c.beat h.kept.le
  have hk : written.length < 12 * c.beat.toNat := by
    have htotal := congrArg List.length hbuf
    have hle := h.kept.le
    rw [List.length_append, hlen] at htotal
    simp only [Hw.buffered, samplesTo, List.length_map, List.length_range, BUFF_SIZE] at htotal hle
    omega
  have hblock : Blocks.block BUFF_SIZE (commandSamples c) written.length = hw.buffered BUFF_SIZE := by
    obtain ⟨rest, hrest⟩ := hpre
    rw [Blocks.block, commandSamples, ← hrest, ← hbuf, List.append_assoc, List.drop_left' hlen]
    exact List.take_left' (by simp [Hw.buffered])
  rw [List.drop_eq_getElem_cons (by simpa [noteWrites] using hk)]
  simp [noteWrites, hblock]

theorem Undisturbed.all_written {c : Cmd} {hw : Hw} {written : List (List ℤ)} {str : Str} {pos : ℕ}
    (h : Undisturbed (noteToFreq c.code) c.beat ⟨.disable str pos, hw, written⟩) :
    (noteWrites c).drop written.length = [] := by
  have hall : written.flatten = samplesTo (noteToFreq c.code) c.beat (9600 * c.beat.toNat) :=
    h.onTrack
  have hlen := congrArg List.length hall
  rw [Blocks.length_flatten h.whole] at hlen
  simp only [samplesTo, List.length_map, List.length_range, BUFF_SIZE] at hlen
  rw [List.drop_eq_nil_iff]
  simp only [noteWrites, List.length_map, List.length_range]
  omega

end NoteLoop

theorem playNotesTask_ok {ok run : Bool} {i : ℕ} {args : Option Str} {pc pc' : NotesPc}
    {hw hw' : Hw} {eff : Effect} (h : playNotesTask ok i run args pc hw = some (pc', eff, hw')) :
    ∃ hw₁, playNotesTask true i run args pc hw = some (pc', eff, hw₁) ∧ hw'.saw = hw₁.saw ∧
      hw'.i2sDataBuffer = hw₁.i2sDataBuffer := by
  cases pc with
  | write n tick s pos =>
    cases h
    refine ⟨hw, rfl, ?_, ?_⟩ <;> split_ifs <;> rfl
  | _ => exact ⟨hw', h, rfl, rfl⟩

namespace Playing

variable {hw hw' : Hw} {pc pc' : NotesPc} {p : List (Todo TxAct)} {ok : Bool} {i : ℕ}
  {args : Option Str} {eff : Effect}

theorem congr (h : Playing hw pc p) (hsaw : hw'.saw = hw.saw)
    (hbuf : hw'.i2sDataBuffer = hw.i2sDataBuffer) : Playing hw' pc p := by
  cases h with
  | cmds => exact .cmds
  | delay => exact .delay
  | reset => exact .reset
  | enable h => exact .enable (hsaw.trans h)
  | note hb hin hund => exact .note hb hin (hund.congr hsaw hbuf)
  | silent ht hpc => exact .silent (by rw [hsaw, ht]) hpc
  | disable => exact .disable
  | ended hpc => exact .ended hpc

theorem of_out (h : Playing hw pc p) (hout : pc.role = .out) : Playing hw' pc p := by
  cases h with
  | cmds | delay | reset | enable | disable => cases hout
  | note hb hin => cases pc <;> cases hin <;> cases hout
  | silent _ hpc => rcases hpc with rfl | rfl | rfl <;> cases hout
  | ended hpc => exact .ended hpc

theorem undisturbed_step {c : Cmd} {s : Str} {pos : ℕ} {blocks : List (List ℤ)} (hb : 0 ≤ c.beat)
    (hin : pc.inNote = some (s, pos))
    (hund : NoteLoop.Undisturbed (noteToFreq c.code) c.beat ⟨pc, hw, blocks⟩)
    (h : playNotesTask ok i true args pc hw = some (pc', eff, hw')) :
    NoteLoop.Undisturbed (noteToFreq c.code) c.beat
      ⟨pc', hw', blocks ++ NoteLoop.handed ⟨pc, hw, blocks⟩⟩ := by
  obtain ⟨hw₁, h₁, hsaw, hbuf⟩ := playNotesTask_ok h
  have hsize : pc.bfSize.isSome = true := by cases pc <;> cases hin <;> rfl
  have hover : ¬ NoteLoop.Over ⟨pc, hw, blocks⟩ := by
    rintro ⟨s', pos', rfl⟩
    cases hsize
  obtain ⟨t, ht, hund', -⟩ : ∃ t, NoteLoop.step i args ⟨pc, hw, blocks⟩ ⟨true, true⟩ = some t ∧
      NoteLoop.Undisturbed (noteToFreq c.code) c.beat t ∧ _ := hund.progress hb hover
  simp only [NoteLoop.step, hsize, if_true, h₁, Option.map_some, Option.some.injEq] at ht
  subst ht
  exact hund'.congr hsaw hbuf

/-- One statement of a note that is not stopped. -/
theorem note_step {c : Cmd} {s : Str} {pos : ℕ} {blocks : List (List ℤ)} (hb : 0 ≤ c.beat)
    (hin : pc.inNote = some (s, pos))
    (hund : NoteLoop.Undisturbed (noteToFreq c.code) c.beat ⟨pc, hw, blocks⟩)
    (h : playNotesTask ok i true args pc hw = some (pc', eff, hw')) :
    ∃ p', Step none hw.now
        (((noteWrites c).drop blocks.length).map .act ++ (.act .disable :: notesFrom s pos))
        (pc.perform hw) p' ∧ Playing hw' pc' p' := by
  have hund' := undisturbed_step hb hin hund h
  cases pc with
  | fill n tick s' pos' =>
    cases hin
    rw [NoteLoop.handed, List.append_nil] at hund'
    refine ⟨_, .stay, .note hb ?_ hund'⟩
    cases h
    split_ifs <;> rfl
  | tick n s' pos' =>
    cases hin
    rw [NoteLoop.handed, List.append_nil] at hund'
    refine ⟨_, .stay, .note hb ?_ hund'⟩
    simp only [playNotesTask] at h
    split at h <;> cases h <;> rfl
  | test n tick s' pos' =>
    cases hin
    rw [NoteLoop.handed, List.append_nil] at hund'
    refine ⟨_, .stay, ?_⟩
    simp only [playNotesTask, Bool.true_eq_false, or_false] at h
    split_ifs at h with hn <;> cases h
    · rw [hund'.all_written]
      exact .disable
    · exact .note hb rfl hund'
  | write n tick s' pos' =>
    cases hin
    obtain ⟨rfl, rfl⟩ : n = BUFF_SIZE ∧ tick = true := hund.onTrack
    rw [hund.next_block]
    refine ⟨_, .act, ?_⟩
    cases h
    have hlen : (blocks ++ [hw.buffered BUFF_SIZE]).length = blocks.length + 1 := by simp
    rw [← hlen]
    exact .note hb rfl hund'
  | _ => cases hin

theorem silent_step {s : Str} {pos : ℕ} (ht : sawTick hw.saw = none)
    (hpc : pc = .fill 0 true s pos ∨ pc = .tick 0 s pos ∨ pc = .test 0 false s pos)
    (h : playNotesTask ok i true args pc hw = some (pc', eff, hw')) :
    pc.perform hw = none ∧ Playing hw' pc' (.act .disable :: notesFrom s pos) := by
  rcases hpc with rfl | rfl | rfl
  · cases h
    exact ⟨rfl, .silent ht (.inr (.inl rfl))⟩
  · simp only [playNotesTask, ht] at h
    cases h
    exact ⟨rfl, .silent ht (.inr (.inr rfl))⟩
  · cases h
    exact ⟨rfl, .disable⟩

theorem enabled (c : Cmd) {s : Str} {pos : ℕ} (hsaw : hw.saw = sawReset (noteToFreq c.code) c.beat) :
    Playing hw (.fill 0 true s pos)
      ((noteWrites c).map .act ++ (.act .disable :: notesFrom s pos)) := by
  rcases le_or_gt 0 c.beat with hb | hb
  · have hfresh : NoteLoop.Kept (noteToFreq c.code) c.beat
        ⟨.fill 0 true s pos, { hw with saw := sawReset (noteToFreq c.code) c.beat }, []⟩ := .fresh
    rw [← hsaw] at hfresh
    exact .note hb rfl ⟨hfresh, ⟨Nat.zero_le _, rfl⟩, by simp⟩
  · have hnone : noteWrites c = [] := by
      rw [noteWrites, Int.toNat_of_nonpos hb.le]
      rfl
    rw [hnone]
    refine .silent ?_ (.inl rfl)
    rw [hsaw]
    refine if_pos ?_
    simp only [sawReset, Nat.cast_zero, zero_div]
    have : (c.beat : ℚ) < 0 := by exact_mod_cast hb
    simp only [BEAT_DURATION]
    linarith

theorem cmds_step {cpc : CmdPc} {s : Str} {pos : ℕ}
    (h : playNotesTask ok i true args (.cmds cpc s pos) hw = some (pc', eff, hw')) :
    ∃ p', Step none hw.now (cmdTodo notesPart [] (commandList (s.text.drop pos)) cpc) none p' ∧
      Playing hw' pc' p' := by
  have hplan := cmdStep_plan notesPart [] true hw.now s.text pos cpc
  simp only [playNotesTask] at h
  cases hout : cmdStep true s.text pos cpc with
  | goto cpc' =>
    rw [hout] at h hplan
    cases h
    exact ⟨_, hplan, .cmds⟩
  | leave =>
    rw [hout] at h hplan
    cases h
    exact ⟨_, hplan, .ended (.inl rfl)⟩
  | exec c pos' =>
    rw [hout] at h
    obtain ⟨rfl, hlist⟩ := cmdStep_exec hout
    have htodo : cmdTodo notesPart [] (commandList (s.text.drop pos)) .parse =
        notesPart c ++ notesFrom s pos' := by rw [hlist, cmdTodo, notesFrom]
    rw [htodo]
    by_cases hrest : isRest c.code = true
    · simp only [hrest, if_true] at h
      cases h
      rw [notesPart, if_pos hrest]
      exact ⟨_, .wait, .delay⟩
    · simp only [hrest, if_false, Bool.false_eq_true] at h
      cases h
      rw [notesPart, if_neg hrest]
      exact ⟨_, .stay, .reset⟩

theorem ended_step {run : Bool}
    (hpc : pc = .give ∨ pc = .clear ∨ pc = .setBits ∨ pc = .delete ∨ pc = .ended)
    (h : playNotesTask ok i run args pc hw = some (pc', eff, hw')) :
    Step none hw.now [] (pc.perform hw) [] ∧ Playing hw' pc' [] := by
  rcases hpc with rfl | rfl | rfl | rfl | rfl <;> cases h
  all_goals exact ⟨.stay, .ended (by simp)⟩

theorem task (h : Playing hw pc p)
    (ht : playNotesTask ok i true args pc hw = some (pc', eff, hw')) :
    ∃ p', Step none hw.now p (pc.perform hw) p' ∧ Playing hw' pc' p' := by
  cases h with
  | cmds => exact cmds_step ht
  | @delay d s pos =>
    simp only [playNotesTask] at ht
    split_ifs at ht with hd
    cases ht
    exact ⟨_, .hold hd, .cmds⟩
  | reset =>
    cases ht
    exact ⟨_, .stay, .enable rfl⟩
  | @enable c s pos hsaw =>
    cases ht
    rw [noteActs, List.map_append, List.map_cons, List.append_assoc, List.cons_append]
    exact ⟨_, .act, enabled c hsaw⟩
  | note hb hin hund => exact note_step hb hin hund ht
  | silent hnone hpc =>
    obtain ⟨hev, hplay⟩ := silent_step hnone hpc ht
    rw [hev]
    exact ⟨_, .stay, hplay⟩
  | disable =>
    cases ht
    exact ⟨_, .act, .cmds⟩
  | ended hpc => exact ⟨_, ended_step hpc ht⟩

end Playing

/-! ### In the system -/

/-- Nothing is written to the generator or the buffer. -/
def SameBuffer (hw hw' : Hw) : Prop :=
  hw'.saw = hw.saw ∧ hw'.i2sDataBuffer = hw.i2sDataBuffer

theorem playNotesTask_buffer {ok run : Bool} {i : ℕ} {args : Option Str} {pc pc' : NotesPc}
    {hw hw' : Hw} {eff : Effect} (h : playNotesTask ok i run args pc hw = some (pc', eff, hw')) :
    SameBuffer hw hw' ∨ pc.role ≠ .out := by
  by_cases hout : pc.role = .out
  · left
    cases pc with
    | take =>
      simp only [playNotesTask] at h
      split at h <;> cases h <;> exact ⟨rfl, rfl⟩
    | busyDelete | clear | setBits | delete =>
      cases h
      exact ⟨rfl, rfl⟩
    | absent | ended => cases h
    | _ => cases hout
  · exact .inr hout

theorem soundPlayMp3Task_buffer {e : Mp3Env} {i : ℕ} {run : Bool} {fileid : ℤ} {pc pc' : Mp3Pc}
    {hw hw' : Hw} {eff : Effect} (h : soundPlayMp3Task e i run fileid pc hw = some (pc', eff, hw')) :
    SameBuffer hw hw' ∨ pc.role ≠ .out := by
  by_cases hout : pc.role = .out
  · left
    cases pc with
    | take =>
      simp only [soundPlayMp3Task] at h
      split at h <;> cases h <;> exact ⟨rfl, rfl⟩
    | busyClear | setBits | delete =>
      cases h
      exact ⟨rfl, rfl⟩
    | absent | ended => cases h
    | _ => cases hout
  · exact .inr hout

theorem buffer_step {s s' : System} {a : SysAct} (h : System.step s a = some s') :
    SameBuffer s.hw s'.hw ∨ ∃ o, s.role o ≠ .out ∧
      ((∃ j e, a = .task .notes (.task j e) ∧ o = .notes j) ∨
        ∃ j e, a = .task .mp3 (.task j e) ∧ o = .mp3 j) := by
  obtain ⟨n, rfl, rfl⟩ | ⟨w, b, hw, t, rfl, ht, rfl⟩ | ⟨op, rfl, rfl⟩ | ⟨b, rfl, rfl⟩ | ⟨rfl, rfl⟩ :=
    System.step_cases h
  case inr.inl =>
    obtain ⟨c, k, rfl, rfl, -, -⟩ | ⟨c, rfl, rfl, -⟩ | ⟨j, e, pc, eff, rfl, hr, -, -⟩ :=
      Body.step_cases ht
    · exact .inl ⟨rfl, rfl⟩
    · exact .inl ⟨rfl, rfl⟩
    · cases w with
      | notes =>
        refine (playNotesTask_buffer hr).imp_right fun hrole => ?_
        exact ⟨.notes j, hrole, .inl ⟨j, e, rfl, rfl⟩⟩
      | mp3 =>
        refine (soundPlayMp3Task_buffer hr).imp_right fun hrole => ?_
        exact ⟨.mp3 j, hrole, .inr ⟨j, e, rfl, rfl⟩⟩
      | motor =>
        left
        rcases motorRunCmdsTask_writes hr with rfl | rfl | ⟨op, rfl⟩
        · exact ⟨rfl, rfl⟩
        · exact ⟨rfl, rfl⟩
        · cases op <;> exact ⟨rfl, rfl⟩
      | light =>
        left
        rcases ledRunCmdsTask_writes hr with rfl | rfl | ⟨f, rfl⟩ | ⟨-, -, rfl⟩ <;>
          exact ⟨rfl, rfl⟩
      | renderer | audioConvert =>
        obtain rfl := loopTask_writes hr
        exact .inl ⟨rfl, rfl⟩
  case inr.inr.inl => cases op <;> exact .inl ⟨rfl, rfl⟩
  all_goals exact .inl ⟨rfl, rfl⟩

theorem Playing.aside {s s' : System} {a : SysAct} {i : ℕ} {pc : NotesPc} {p : List (Todo TxAct)}
    (h : Playing s.hw pc p) (hpc : (s.task .notes).pc i = pc) (hinv : s.I2sInv)
    (hs : System.step s a = some s') (ha : ∀ e, a ≠ .task .notes (.task i e)) :
    Playing s'.hw pc p := by
  rcases buffer_step hs with ⟨hsaw, hbuf⟩ | ⟨o, ho, hact⟩
  · exact h.congr hsaw hbuf
  · refine h.of_out ?_
    by_contra hout
    have hrole : s.role (.notes i) ≠ .out := by rwa [System.role, hpc]
    have howner := hinv.device.unique hrole ho
    rcases hact with ⟨j, e, rfl, rfl⟩ | ⟨j, e, rfl, rfl⟩
    · cases howner
      exact ha e rfl
    · cases howner

theorem Playing.ne_absent {hw : Hw} {pc : NotesPc} {p : List (Todo TxAct)}
    (h : Playing hw pc p) : pc ≠ .absent := by
  rintro rfl
  cases h with
  | note _ hin => cases hin
  | silent _ hat => simp at hat
  | ended hat => simp at hat

theorem Playing.not_active {hw : Hw} {pc : NotesPc} {p : List (Todo TxAct)} (h : Playing hw pc p)
    (hpc : pc.phase ≠ .active) :
    (pc = .give ∨ pc = .clear ∨ pc = .setBits ∨ pc = .delete ∨ pc = .ended) ∧ p = [] := by
  cases h with
  | ended hat => exact ⟨hat, rfl⟩
  | note _ hin => cases pc <;> cases hin <;> exact absurd rfl hpc
  | silent _ hat => rcases hat with rfl | rfl | rfl <;> exact absurd rfl hpc
  | _ => exact absurd rfl hpc

theorem written_noteScore (c : Cmd) :
    written (noteScore c) = if isRest c.code then [] else commandSamples c := by
  rw [noteScore]
  split_ifs
  · rfl
  · rw [← written_noteWrites, noteActs, written, List.flatMap_append, List.flatMap_cons]
    simp [written]

theorem actions_notesPart (c : Cmd) : actions (notesPart c) = noteScore c := by
  rw [notesPart, noteScore]
  split_ifs
  · rfl
  · exact actions_map_act _

/-- Whatever else plays, starts, stops or restarts: a note instance that is not stopped hands
the notes of its string to the I2S channel in order and whole, each between an enable and a
disable, and when it is over it has handed over all of them. -/
theorem score_played {s s' : System} {l : Trace} {i : ℕ} {str : Str}
    (hs : Reach System.step (fun _ _ => True) System.init s)
    (hpc : (s.task .notes).pc i = .cmds .loop str 0) (hl : Path System.step s l s')
    (hrun : Unstopped .notes i l) :
    let log := (events .notes i NotesPc.perform l).map Prod.snd
    let cs := commandList str.text
    log <+: cs.flatMap noteScore ∧
      (((s'.task .notes).pc i).phase ≠ .active → log = cs.flatMap noteScore ∧
        written log = cs.flatMap fun c => if isRest c.code then [] else commandSamples c) := by
  intro log cs
  let R (s : System) (p : List (Todo TxAct)) : Prop :=
    s.I2sInv ∧ Playing s.hw ((s.task .notes).pc i) p
  have hsim (s : System) (a : SysAct) (s' : System) (p : List (Todo TxAct)) (hR : R s p)
      (ha : FlagSet .notes i s a) (h : System.step s a = some s') : s.hw.now ≤ s'.hw.now ∧
        ∃ p', Step none s.hw.now p (s.performed .notes i NotesPc.perform a) p' ∧ R s' p' := by
    obtain ⟨hinv, hplay⟩ := hR
    obtain ⟨hnow, hseen⟩ := seen_of_step hinv.numbered hplay.ne_absent h
    refine ⟨hnow, ?_⟩
    cases hseen with
    | aside hpc hev =>
      rw [hev]
      refine ⟨p, .stay, hinv.step h, hpc ▸ hplay.aside rfl hinv h fun e he => ?_⟩
      -- a step of the instance would be seen
      have hnone := hev Unit fun _ _ => some ()
      rw [he, System.performed, if_pos ⟨rfl, rfl⟩] at hnone
      cases hnone
    | own e hae hr hpc =>
      rw [hae, System.performed, if_pos ⟨rfl, rfl⟩]
      by_cases hphase : ((s.task .notes).pc i).phase = .active
      · rw [ha ⟨e, hae⟩ hphase] at hr
        obtain ⟨p', hstep, hplay'⟩ := hplay.task hr
        exact ⟨p', hstep, hinv.step h, hpc ▸ hplay'⟩
      · obtain ⟨hended, rfl⟩ := hplay.not_active hphase
        obtain ⟨hstep, hplay'⟩ := Playing.ended_step hended hr
        exact ⟨[], hstep, hinv.step h, hpc ▸ hplay'⟩
  have hinv : s.I2sInv := hs.invariant .init fun _ _ _ hI _ hs => hI.step hs
  have hstart : R s (cmdsPlan notesPart [] cs) := ⟨hinv, by rw [hpc]; exact .cmds⟩
  obtain ⟨p', ⟨-, hplay⟩, hfol⟩ := follows_of_path hsim hl hrun hstart
  have hscore : actions (cmdsPlan notesPart [] cs) = cs.flatMap noteScore := by
    simp only [actions_cmdsPlan, actions_notesPart, actions_nil, List.append_nil]
  refine ⟨hscore ▸ hfol.actions_isPrefix, fun hend => ?_⟩
  have hall : log = cs.flatMap noteScore := by
    rw [← hscore]
    exact hfol.actions_eq (hplay.not_active hend).2
  refine ⟨hall, ?_⟩
  rw [hall, written, List.flatMap_assoc]
  exact congrArg (fun f => cs.flatMap f) (funext written_noteScore)

/-- The flag is set at a statement of instance 0 that still plays. -/
def notesFlagSet (s : System) : SysAct → Bool
  | .task .notes (.task 0 _) =>
    decide (((s.task .notes).pc 0).phase ≠ .active) || (s.task .notes).taskRun
  | _ => true

theorem score_played_rest : ∃ (s s' : System) (l : Trace),
    Path System.step s l s' ∧ ((s'.task .notes).pc 0).phase = .done ∧
      (events .notes 0 NotesPc.perform l).map Prod.snd =
        (commandList ['1', ',', '0', ';', 'N', 'O', ',', '1', ';']).flatMap noteScore := by
  let str : Str := ⟨0, ['1', ',', '0', ';', 'N', 'O', ',', '1', ';']⟩
  obtain ⟨s, hs, hrest⟩ : ∃ s, run System.step (fun _ a => System.solo a && true) System.init
      (playNotesRun 0 (some str) :: System.calls .notes 4 ++ System.tasks .notes 0 2 true) =
        some s ∧
      ((run System.step notesFlagSet s (System.tasks .notes 0 12 true ++ .tick 60 ::
        System.tasks .notes 0 5 true)).map fun s' =>
          ((s.task .notes).pc 0, ((s'.task .notes).pc 0).phase)) =
        some (NotesPc.cmds .loop str 0, .done) :=
    Option.bind_eq_some_iff.mp (by decide +kernel)
  obtain ⟨s', hs', hobs⟩ := Option.map_eq_some_iff.mp hrest
  obtain ⟨hpc, hphase⟩ := Prod.mk.inj hobs
  obtain ⟨l, hl, hgood⟩ := path_of_run hs'
  have hrun : Unstopped .notes 0 l := by
    rintro ⟨t, a, t'⟩ hx ⟨e, rfl⟩ hactive
    have hflag := hgood _ hx
    simp only [notesFlagSet, Bool.or_eq_true, decide_eq_true_eq] at hflag
    exact hflag.resolve_left fun hne => hne hactive
  have hend := (score_played (System.reach_of_solo_run hs fun _ _ _ _ _ _ => trivial).1
    hpc hl hrun).2 (by rw [hphase]; nofun)
  exact ⟨s, s', l, hl, hphase, hend.1⟩

end Car
