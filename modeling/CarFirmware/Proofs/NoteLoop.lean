import CarFirmware.Lib.Blocks
import CarFirmware.Proofs.Sawtooth
import CarFirmware.Spec.System

/-! The note loop of `play_notes_task`: the nested loops that fill the buffer and hand it to
`i2s_channel_write`, whatever they read in `task_run`. -/

namespace Car

open Handshake Transition

def samplesTo (freq : ℚ) (beatCnt : ℤ) (k : ℕ) : List ℤ :=
  (List.range k).map fun j => truncate (noteOut freq beatCnt j)

def Hw.buffered (hw : Hw) (n : ℕ) : List ℤ := (List.range n).map hw.i2sDataBuffer

def NotesPc.bfSize : NotesPc → Option ℕ
  | .fill n _ _ _ | .tick n _ _ | .test n _ _ _ | .write n _ _ _ => some n
  | _ => none

/-- The note loop on its own, with the buffers that were handed to `i2s_channel_write`. -/
structure NoteLoop where
  pc : NotesPc
  hw : Hw
  written : List (List ℤ)

/-- The value that a statement reads in `task_run`, and whether a write succeeds. -/
structure NoteEnv where
  run : Bool
  ok : Bool

namespace NoteLoop

def handed (s : NoteLoop) : List (List ℤ) :=
  match s.pc with
  | .write n _ _ _ => [s.hw.buffered n]
  | _ => []

def step (i : ℕ) (args : Option Str) (s : NoteLoop) (e : NoteEnv) : Option NoteLoop :=
  if s.pc.bfSize.isSome then
    (playNotesTask e.ok i e.run args s.pc s.hw).map fun r => ⟨r.1, r.2.2, s.written ++ s.handed⟩
  else none

inductive Step (s : NoteLoop) (e : NoteEnv) : NoteLoop → Prop
  | more {n : ℕ} {tick : Bool} {str : Str} {pos : ℕ} : s.pc = .fill n tick str pos →
      n < BUFF_SIZE → e.run = true → Step s e { s with pc := .tick n str pos }
  | filled {n : ℕ} {tick : Bool} {str : Str} {pos : ℕ} : s.pc = .fill n tick str pos →
      (n < BUFF_SIZE → e.run = false) → Step s e { s with pc := .test n tick str pos }
  | sample {n : ℕ} {str : Str} {pos : ℕ} {x : ℤ} {saw : Saw} : s.pc = .tick n str pos →
      sawTick s.hw.saw = some (x, saw) → Step s e { s with
        pc := .fill (n + 1) true str pos
        hw := { s.hw with saw := saw, i2sDataBuffer := Function.update s.hw.i2sDataBuffer n x } }
  | ended {n : ℕ} {str : Str} {pos : ℕ} : s.pc = .tick n str pos → sawTick s.hw.saw = none →
      Step s e { s with pc := .test n false str pos }
  | leave {n : ℕ} {tick : Bool} {str : Str} {pos : ℕ} : s.pc = .test n tick str pos →
      n = 0 ∨ e.run = false → Step s e { s with pc := .disable str pos }
  | write {n : ℕ} {tick : Bool} {str : Str} {pos : ℕ} : s.pc = .test n tick str pos →
      n ≠ 0 → e.run = true → Step s e { s with pc := .write n tick str pos }
  | written {n : ℕ} {tick : Bool} {str : Str} {pos : ℕ} : s.pc = .write n tick str pos →
      Step s e
        { pc := if tick then .fill 0 true str pos else .disable str pos
          hw := if e.ok then s.hw else s.hw.abort
          written := s.written ++ [s.hw.buffered n] }

theorem step_iff {i : ℕ} {args : Option Str} {s s' : NoteLoop} {e : NoteEnv} :
    step i args s e = some s' ↔ Step s e s' := by
  constructor
  · intro h
    obtain ⟨pc, hw, w⟩ := s
    cases pc <;> simp only [step, NotesPc.bfSize, Option.isSome_none, Option.isSome_some,
      Bool.false_eq_true, if_true, if_false, reduceCtorEq, playNotesTask, Option.map_some,
      Option.some.injEq, handed, List.append_nil] at h
    case fill n tick str pos =>
      subst h
      split_ifs with hn
      · exact .more rfl hn.1 hn.2
      · exact .filled rfl fun hlt => by simpa [hlt] using hn
    case tick n str pos =>
      subst h
      cases ht : sawTick hw.saw with
      | none => exact .ended rfl ht
      | some r => exact .sample rfl ht
    case test n tick str pos =>
      subst h
      split_ifs with hn
      · exact .leave rfl hn
      · exact .write rfl (fun h0 => hn (.inl h0)) (by simpa using fun hr => hn (.inr hr))
    case write n tick str pos =>
      subst h
      exact .written rfl
  · intro h
    obtain ⟨pc, hw, w⟩ := s
    cases h with
    | more hpc hn hrun => cases hpc; simp [step, NotesPc.bfSize, playNotesTask, handed, hn, hrun]
    | @filled n tick str pos hpc hn =>
      cases hpc
      have hstay : ¬ (n < BUFF_SIZE ∧ e.run = true) := fun hr => by simp [hn hr.1] at hr
      simp [step, NotesPc.bfSize, playNotesTask, handed, hstay]
    | sample hpc ht => cases hpc; simp [step, NotesPc.bfSize, playNotesTask, handed, ht]
    | ended hpc ht => cases hpc; simp [step, NotesPc.bfSize, playNotesTask, handed, ht]
    | leave hpc hn => cases hpc; simp [step, NotesPc.bfSize, playNotesTask, handed, hn]
    | write hpc hn hrun => cases hpc; simp [step, NotesPc.bfSize, playNotesTask, handed, hn, hrun]
    | written hpc => cases hpc; simp [step, NotesPc.bfSize, playNotesTask, handed]

variable {freq : ℚ} {beatCnt : ℤ} {i : ℕ} {args : Option Str} {s s' : NoteLoop} {e : NoteEnv}

/-- What every run of the loop keeps: the samples of the note so far are those that were
handed over, followed by those in the buffer. -/
structure Kept (freq : ℚ) (beatCnt : ℤ) (s : NoteLoop) : Prop where
  saw : s.hw.saw = sawAt freq beatCnt s.hw.saw.tickIdx
  le : s.hw.saw.tickIdx ≤ 9600 * beatCnt.toNat
  buffered : ∀ n, s.pc.bfSize = some n →
    s.written.flatten ++ s.hw.buffered n = samplesTo freq beatCnt s.hw.saw.tickIdx
  before : s.written.flatten <+: samplesTo freq beatCnt s.hw.saw.tickIdx

theorem Kept.fresh {hw : Hw} {str : Str} {pos : ℕ} :
    Kept freq beatCnt ⟨.fill 0 true str pos, { hw with saw := sawReset freq beatCnt }, []⟩ where
  saw := rfl
  le := Nat.zero_le _
  buffered := by
    intro n hn
    cases hn
    rfl
  before := List.nil_prefix

theorem Kept.goto {pc : NotesPc} (h : Kept freq beatCnt s)
    (hpc : pc.bfSize = s.pc.bfSize ∨ pc.bfSize = none) : Kept freq beatCnt { s with pc := pc } where
  saw := h.saw
  le := h.le
  buffered := by
    intro n hn
    rcases hpc with hpc | hpc
    · exact h.buffered n (hpc ▸ hn)
    · cases hpc.symm.trans hn
  before := h.before

end NoteLoop

theorem samplesTo_succ (freq : ℚ) (beatCnt : ℤ) (k : ℕ) :
    samplesTo freq beatCnt (k + 1) =
      samplesTo freq beatCnt k ++ [truncate (noteOut freq beatCnt k)] := by
  simp [samplesTo, List.range_succ]

theorem samplesTo_mono (freq : ℚ) (beatCnt : ℤ) {k m : ℕ} (h : k ≤ m) :
    samplesTo freq beatCnt k <+: samplesTo freq beatCnt m := by
  obtain ⟨d, rfl⟩ := Nat.exists_eq_add_of_le h
  rw [samplesTo, samplesTo, List.range_add, List.map_append]
  exact List.prefix_append _ _

theorem buffered_update (f : ℕ → ℤ) (n : ℕ) (x : ℤ) :
    (List.range (n + 1)).map (Function.update f n x) = (List.range n).map f ++ [x] := by
  rw [List.range_succ, List.map_append, List.map_singleton, Function.update_self]
  congr 1
  refine List.map_congr_left fun j hj => ?_
  exact Function.update_of_ne (List.mem_range.mp hj).ne x f

theorem inNote_iff {beatCnt : ℤ} (hb : 0 ≤ beatCnt) (k : ℕ) :
    k / MY_SR < beatCnt * BEAT_DURATION ↔ k < 9600 * beatCnt.toNat := by
  have hbeat : (beatCnt : ℚ) * BEAT_DURATION = (9600 * beatCnt.toNat : ℕ) / MY_SR := by
    have hcast : (beatCnt : ℚ) = (beatCnt.toNat : ℚ) := by
      exact_mod_cast (Int.toNat_of_nonneg hb).symm
    rw [hcast]
    push_cast [BEAT_DURATION, MY_SR]
    ring
  rw [hbeat, div_lt_div_iff_of_pos_right (by norm_num [MY_SR])]
  exact Nat.cast_lt

namespace NoteLoop

variable {freq : ℚ} {beatCnt : ℤ} {i : ℕ} {args : Option Str} {s s' : NoteLoop} {e : NoteEnv}

theorem Kept.sawTick (h : Kept freq beatCnt s) (hb : 0 ≤ beatCnt) :
    (s.hw.saw.tickIdx < 9600 * beatCnt.toNat ∧ sawTick s.hw.saw =
      some (truncate (noteOut freq beatCnt s.hw.saw.tickIdx),
        sawAt freq beatCnt (s.hw.saw.tickIdx + 1))) ∨
    (s.hw.saw.tickIdx = 9600 * beatCnt.toNat ∧ sawTick s.hw.saw = none) := by
  rcases h.le.lt_or_eq with hlt | heq
  · refine .inl ⟨hlt, ?_⟩
    rw [h.saw]
    exact sawTick_sawAt ((inNote_iff hb _).mpr hlt)
  · refine .inr ⟨heq, ?_⟩
    rw [h.saw]
    exact if_pos (not_lt.mp fun hlt => absurd ((inNote_iff hb _).mp hlt) heq.not_lt)

theorem Kept.step (h : Kept freq beatCnt s) (hb : 0 ≤ beatCnt) (hs : Step s e s') :
    Kept freq beatCnt s' := by
  cases hs with
  | more hpc => exact h.goto (.inl (by rw [hpc]; rfl))
  | filled hpc => exact h.goto (.inl (by rw [hpc]; rfl))
  | ended hpc => exact h.goto (.inl (by rw [hpc]; rfl))
  | leave hpc => exact h.goto (.inr rfl)
  | write hpc => exact h.goto (.inl (by rw [hpc]; rfl))
  | @sample n str pos x saw hpc ht =>
    obtain ⟨hlt, heq⟩ | ⟨-, heq⟩ := h.sawTick hb
    case inr => cases heq.symm.trans ht
    obtain ⟨rfl, rfl⟩ := Prod.mk.inj (Option.some.inj (heq.symm.trans ht))
    have hbuf := h.buffered n (by rw [hpc]; rfl)
    refine ⟨rfl, hlt, fun m hm => ?_, h.before.trans (samplesTo_mono _ _ (Nat.le_succ _))⟩
    cases hm
    change s.written.flatten ++ (List.range (n + 1)).map (Function.update s.hw.i2sDataBuffer n _) =
      samplesTo freq beatCnt (s.hw.saw.tickIdx + 1)
    rw [buffered_update, samplesTo_succ, ← hbuf, List.append_assoc]
    rfl
  | @written n tick str pos hpc =>
    have hbuf := h.buffered n (by rw [hpc]; rfl)
    have hsaw : (if e.ok then s.hw else s.hw.abort).saw = s.hw.saw := by split_ifs <;> rfl
    have hflat : (s.written ++ [s.hw.buffered n]).flatten =
        samplesTo freq beatCnt s.hw.saw.tickIdx := by
      rw [List.flatten_append, List.flatten_singleton, hbuf]
    refine ⟨by rw [hsaw]; exact h.saw, by rw [hsaw]; exact h.le, fun m hm => ?_, ?_⟩
    · cases tick <;> cases hm
      rw [hflat, hsaw]
      exact List.append_nil _
    · rw [hflat, hsaw]

/-! ### The undisturbed loop -/

/-- Where the loop is while `task_run` stays true: a buffer is handed over when it is full,
and the note ends on an empty one. -/
def OnTrack (freq : ℚ) (beatCnt : ℤ) (s : NoteLoop) : Prop :=
  match s.pc with
  | .fill n tick _ _ => n ≤ BUFF_SIZE ∧ tick = true
  | .tick n _ _ => n < BUFF_SIZE
  | .test n tick _ _ => (n = BUFF_SIZE ∧ tick = true) ∨
      (n < BUFF_SIZE ∧ tick = false ∧ s.hw.saw.tickIdx = 9600 * beatCnt.toNat)
  | .write n tick _ _ => n = BUFF_SIZE ∧ tick = true
  | .disable _ _ => s.written.flatten = samplesTo freq beatCnt (9600 * beatCnt.toNat)
  | _ => False

structure Undisturbed (freq : ℚ) (beatCnt : ℤ) (s : NoteLoop) : Prop where
  kept : Kept freq beatCnt s
  onTrack : OnTrack freq beatCnt s
  whole : ∀ b ∈ s.written, b.length = BUFF_SIZE

def Over (s : NoteLoop) : Prop := ∃ str pos, s.pc = .disable str pos

def rank : NotesPc → ℕ
  | .fill n _ _ _ => if n < BUFF_SIZE then 3 else 6
  | .tick _ _ _ => 2
  | .test _ tick _ _ => if tick then 5 else 1
  | .write _ _ _ _ => 4
  | _ => 0

theorem rank_le (pc : NotesPc) : rank pc ≤ 6 := by
  unfold rank
  repeat' split
  all_goals omega

/-- Decreases with every statement: by the ticks left, then by the statements to the next tick. -/
def remaining (beatCnt : ℤ) (s : NoteLoop) : ℕ :=
  8 * (9600 * beatCnt.toNat - s.hw.saw.tickIdx) + rank s.pc

theorem Undisturbed.last_empty (h : Undisturbed freq beatCnt s) {n : ℕ} (hn : n < BUFF_SIZE)
    (hpc : s.pc.bfSize = some n) (hend : s.hw.saw.tickIdx = 9600 * beatCnt.toNat) : n = 0 := by
  have hlen := congrArg List.length (h.kept.buffered n hpc)
  rw [List.length_append, Blocks.length_flatten h.whole, hend] at hlen
  simp only [Hw.buffered, samplesTo, List.length_map, List.length_range, BUFF_SIZE] at hlen hn
  omega

theorem Undisturbed.progress (h : Undisturbed freq beatCnt s) (hb : 0 ≤ beatCnt)
    (hover : ¬ Over s) :
    ∃ s', step i args s ⟨true, true⟩ = some s' ∧ Undisturbed freq beatCnt s' ∧
      remaining beatCnt s' < remaining beatCnt s := by
  have hnext {t : NoteLoop} (hs : Step s ⟨true, true⟩ t) (ht : OnTrack freq beatCnt t)
      (hw : ∀ b ∈ t.written, b.length = BUFF_SIZE)
      (hlt : remaining beatCnt t < remaining beatCnt s) :
      ∃ s', step i args s ⟨true, true⟩ = some s' ∧ Undisturbed freq beatCnt s' ∧
        remaining beatCnt s' < remaining beatCnt s :=
    ⟨t, step_iff.mpr hs, ⟨h.kept.step hb hs, ht, hw⟩, hlt⟩
  have hat := h.onTrack
  unfold OnTrack at hat
  split at hat
  case h_1 n tick str pos hpc =>
    obtain ⟨hn, rfl⟩ := hat
    rcases hn.lt_or_eq with hlt | rfl
    · refine hnext (.more hpc hlt rfl) hlt h.whole ?_
      simp only [remaining, rank, hpc, hlt, if_true]
      omega
    · refine hnext (.filled hpc fun hlt => absurd hlt (lt_irrefl _)) (.inl ⟨rfl, rfl⟩) h.whole ?_
      simp only [remaining, rank, hpc, lt_irrefl, if_true, if_false]
      omega
  case h_2 n str pos hpc =>
    obtain ⟨hlt, ht⟩ | ⟨hend, ht⟩ := h.kept.sawTick hb
    · refine hnext (.sample hpc ht) ⟨hat, rfl⟩ h.whole ?_
      have hrank := rank_le (.fill (n + 1) true str pos)
      change 8 * (9600 * beatCnt.toNat - (s.hw.saw.tickIdx + 1)) +
          rank (.fill (n + 1) true str pos) <
        8 * (9600 * beatCnt.toNat - s.hw.saw.tickIdx) + rank s.pc
      rw [hpc]
      change _ < 8 * (9600 * beatCnt.toNat - s.hw.saw.tickIdx) + 2
      omega
    · refine hnext (.ended hpc ht) (.inr ⟨hat, rfl, hend⟩) h.whole ?_
      simp [remaining, rank, hpc]
  case h_3 n tick str pos hpc =>
    rcases hat with ⟨rfl, rfl⟩ | ⟨hn, rfl, hend⟩
    · refine hnext (.write hpc (by decide) rfl) ⟨rfl, rfl⟩ h.whole ?_
      simp [remaining, rank, hpc]
    · have hsize : s.pc.bfSize = some n := by rw [hpc]; rfl
      obtain rfl := h.last_empty hn hsize hend
      have hall := h.kept.buffered 0 hsize
      rw [hend] at hall
      refine hnext (.leave hpc (.inl rfl)) ((List.append_nil _).symm.trans hall) h.whole ?_
      simp [remaining, rank, hpc]
  case h_4 n tick str pos hpc =>
    obtain ⟨rfl, rfl⟩ := hat
    refine hnext (.written hpc) ⟨Nat.zero_le _, rfl⟩ ?_ ?_
    · intro b hb
      rcases List.mem_append.mp hb with hb | hb
      · exact h.whole b hb
      · rw [List.mem_singleton.mp hb, Hw.buffered, List.length_map, List.length_range]
    · simp [remaining, rank, hpc, BUFF_SIZE]
  case h_5 str pos hpc => exact absurd ⟨str, pos, hpc⟩ hover
  case h_6 => exact hat.elim

/-- From any state of the hardware the undisturbed loop ends, and the buffers that it has
handed over are full and hold the samples of the note in order. -/
theorem undisturbed_ends (hb : 0 ≤ beatCnt) (hw : Hw) (str : Str) (pos : ℕ) :
    ∃ n s, run (step i args) (fun _ _ => true)
        ⟨.fill 0 true str pos, { hw with saw := sawReset freq beatCnt }, []⟩
        (List.replicate n ⟨true, true⟩) = some s ∧
      Over s ∧ (∀ b ∈ s.written, b.length = BUFF_SIZE) ∧
      s.written.flatten = samplesTo freq beatCnt (9600 * beatCnt.toNat) := by
  have hstart : Undisturbed freq beatCnt
      ⟨.fill 0 true str pos, { hw with saw := sawReset freq beatCnt }, []⟩ :=
    ⟨.fresh, ⟨Nat.zero_le _, rfl⟩, by simp⟩
  have hstep (s : NoteLoop) (h : Undisturbed freq beatCnt s) (hover : ¬ Over s) :
      ∃ s', step i args s ⟨true, true⟩ = some s' ∧ Undisturbed freq beatCnt s' ∧
        remaining beatCnt s' < remaining beatCnt s := h.progress hb hover
  obtain ⟨n, s, hrun, hover, hund⟩ := run_to_end (remaining beatCnt) hstep hstart
  obtain ⟨str', pos', hpc⟩ := hover
  have hall := hund.onTrack
  rw [OnTrack, hpc] at hall
  exact ⟨n, s, hrun, ⟨str', pos', hpc⟩, hund.whole, hall⟩

theorem Kept.run (hb : 0 ≤ beatCnt) {es : List NoteEnv}
    (hrun : Transition.run (NoteLoop.step i args) (fun _ _ => true) s es = some s')
    (h : Kept freq beatCnt s) : Kept freq beatCnt s' := by
  have hreach : Reach (NoteLoop.step i args) (fun _ _ => True) s s' :=
    reach_of_run (fun _ _ _ => trivial) hrun
  exact hreach.invariant h fun t e t' ht _ hs => ht.step hb (step_iff.mp hs)

end NoteLoop

/-! ### Every interleaving -/

/-- `bf_size` stays inside the buffer, and an empty buffer is not handed over. -/
def NotesPc.InRoom : NotesPc → Prop
  | .fill n _ _ _ | .test n _ _ _ => n ≤ BUFF_SIZE
  | .tick n _ _ => n < BUFF_SIZE
  | .write n _ _ _ => 0 < n ∧ n ≤ BUFF_SIZE
  | _ => True

theorem playNotesTask_inRoom {ok : Bool} {i : ℕ} {run : Bool} {args : Option Str}
    {pc pc' : NotesPc} {hw hw' : Hw} {eff : Effect} (h : pc.InRoom)
    (hs : playNotesTask ok i run args pc hw = some (pc', eff, hw')) : pc'.InRoom := by
  unfold playNotesTask at hs
  repeat' split at hs
  all_goals cases hs
  all_goals first
    | trivial
    | (simp only [NotesPc.InRoom] at h ⊢; omega)

/-- A property of program counters that every statement of `w` keeps holds of all its
instances, in every reachable state. -/
theorem System.pc_invariant {w : Worker} {P : w.Pc → Prop} {ok : System → SysAct → Prop}
    (habsent : P w.body.absent) (hfresh : P w.body.fresh)
    (htask : ∀ e i run args pc hw pc' eff hw', P pc →
      w.body.task e i run args pc hw = some (pc', eff, hw') → P pc')
    {s : System} (h : Reach System.step ok System.init s) (i : ℕ) : P ((s.task w).pc i) := by
  refine h.invariant (I := fun s => ∀ i, P ((s.task w).pc i)) (fun _ => habsent) ?_ i
  intro s a s' hI _ hs i
  obtain ⟨n, -, rfl⟩ | ⟨v, b, hw, t, -, ht, rfl⟩ | ⟨op, -, rfl⟩ | ⟨b, -, rfl⟩ | ⟨-, rfl⟩ :=
    step_cases hs
  case inr.inl =>
    by_cases hv : w = v
    case neg =>
      rw [put_task_of_ne hv]
      exact hI i
    subst hv
    rw [put_task_self]
    obtain ⟨c, k, -, -, -, rfl⟩ | ⟨c, -, -, hc⟩ | ⟨j, e, pc, eff, -, hr, -, rfl⟩ :=
      Handshake.Body.step_cases ht
    · exact hI i
    · rcases hc.pc with hpc | ⟨-, -, hpc⟩
      · exact hpc ▸ hI i
      · rw [hpc, Function.update_apply]
        split_ifs
        · exact hfresh
        · exact hI i
    · rw [Handshake.State.move_pc]
      split_ifs
      · exact htask _ _ _ _ _ _ _ _ _ (hI j) hr
      · exact hI i
  all_goals exact hI i

theorem notes_inRoom {s : System} {ok : System → SysAct → Prop}
    (h : Reach System.step ok System.init s) (i : ℕ) : ((s.task .notes).pc i).InRoom :=
  System.pc_invariant (w := .notes) trivial trivial
    (fun _ _ _ _ _ _ _ _ _ => playNotesTask_inRoom) h i

/-- A note that is not stopped hands over its samples in order, in full buffers; one that
may be stopped anywhere hands over the front of them; and no interleaving with the other
tasks makes a note task hand over an empty buffer. -/
theorem note_loop (freq : ℚ) {beatCnt : ℤ} (hb : 0 ≤ beatCnt) (i : ℕ) (args : Option Str) (hw : Hw)
    (str : Str) (pos : ℕ) :
    (∃ n s, run (NoteLoop.step i args) (fun _ _ => true)
        ⟨.fill 0 true str pos, { hw with saw := sawReset freq beatCnt }, []⟩
        (List.replicate n ⟨true, true⟩) = some s ∧
      s.Over ∧ (∀ b ∈ s.written, b.length = BUFF_SIZE) ∧
      s.written.flatten = samplesTo freq beatCnt (9600 * beatCnt.toNat)) ∧
    (∀ es s, run (NoteLoop.step i args) (fun _ _ => true)
        ⟨.fill 0 true str pos, { hw with saw := sawReset freq beatCnt }, []⟩ es = some s →
      s.written.flatten <+: samplesTo freq beatCnt (9600 * beatCnt.toNat)) ∧
    ∀ (s : System) (j n : ℕ) (tick : Bool) (str : Str) (pos : ℕ),
      Reach System.step (fun _ _ => True) System.init s →
      (s.task .notes).pc j = .write n tick str pos → 0 < n ∧ n ≤ BUFF_SIZE := by
  refine ⟨NoteLoop.undisturbed_ends hb hw str pos, fun es s hrun => ?_, ?_⟩
  · have hfresh : NoteLoop.Kept freq beatCnt
        ⟨.fill 0 true str pos, { hw with saw := sawReset freq beatCnt }, []⟩ := .fresh
    have hkept := NoteLoop.Kept.run hb hrun hfresh
    exact hkept.before.trans (samplesTo_mono _ _ hkept.le)
  · intro s j n tick str pos h hpc
    have hroom := notes_inRoom h j
    rw [hpc] at hroom
    exact hroom

theorem note_loop_one : ∃ n s, run (NoteLoop.step 0 none) (fun _ _ => true)
      ⟨.fill 0 true ⟨0, []⟩ 0, { Hw.init with saw := sawReset 440 1 }, []⟩
      (List.replicate n ⟨true, true⟩) = some s ∧
    s.Over ∧ (∀ b ∈ s.written, b.length = BUFF_SIZE) ∧
    s.written.flatten = samplesTo 440 1 9600 :=
  (note_loop 440 (by decide) 0 none Hw.init ⟨0, []⟩ 0).1

end Car
