import CarFirmware.Proofs.Stop

/-! Who holds a pointer into a document, and which documents have been deleted. -/

namespace Car

open Handshake Transition

/-! ### Pointers -/

/-- The string an instance has a pointer into, while it still needs it. -/
def NotesPc.str : NotesPc → Option Str
  | .cmds _ s _ | .delay _ s _ | .reset _ s _ | .enable s _ | .fill _ _ s _ | .tick _ s _
  | .test _ _ s _ | .write _ _ s _ | .disable s _ => some s
  | _ => none

def MotorPc.str : MotorPc → Option Str
  | .cmds _ s _ | .exec _ _ s _ | .delay _ s _ => some s
  | _ => none

def LedPc.str : LedPc → Option Str
  | .cmds _ s _ | .acts _ s _ | .delay _ _ s _ => some s
  | _ => none

def NotesPc.entering : NotesPc → Bool
  | .take | .args => true
  | _ => false

def MotorPc.entering : MotorPc → Bool
  | .entry => true
  | _ => false

def LedPc.entering : LedPc → Bool
  | .entry => true
  | _ => false

theorem playNotesTask_str {ok : Bool} {i : ℕ} {run : Bool} {args : Option Str}
    {pc pc' : NotesPc} {hw hw' : Hw} {eff : Effect}
    (h : playNotesTask ok i run args pc hw = some (pc', eff, hw')) :
    (∀ x, pc'.str = some x → pc.str = some x ∨ (pc.entering = true ∧ args = some x)) ∧
      (pc'.entering = true → pc.entering = true) := by
  unfold playNotesTask at h
  repeat' split at h
  all_goals cases h
  all_goals refine ⟨fun x hx => ?_, by first | exact id | nofun⟩
  all_goals first | exact .inl hx | exact .inr ⟨rfl, hx⟩ | cases hx

theorem motorRunCmdsTask_str {i : ℕ} {run : Bool} {args : Option Str} {pc pc' : MotorPc}
    {hw hw' : Hw} {eff : Effect} (h : motorRunCmdsTask i run args pc hw = some (pc', eff, hw')) :
    (∀ x, pc'.str = some x → pc.str = some x ∨ (pc.entering = true ∧ args = some x)) ∧
      (pc'.entering = true → pc.entering = true) := by
  unfold motorRunCmdsTask at h
  repeat' split at h
  all_goals cases h
  all_goals refine ⟨fun x hx => ?_, by first | exact id | nofun⟩
  all_goals first | exact .inl hx | exact .inr ⟨rfl, hx⟩ | cases hx

theorem ledRunCmdsTask_str {run : Bool} {args : Option Str} {pc pc' : LedPc}
    {hw hw' : Hw} {eff : Effect} (h : ledRunCmdsTask run args pc hw = some (pc', eff, hw')) :
    (∀ x, pc'.str = some x → pc.str = some x ∨ (pc.entering = true ∧ args = some x)) ∧
      (pc'.entering = true → pc.entering = true) := by
  unfold ledRunCmdsTask at h
  repeat' split at h
  all_goals cases h
  all_goals refine ⟨fun x hx => ?_, by first | exact id | nofun⟩
  all_goals first | exact .inl hx | exact .inr ⟨rfl, hx⟩ | cases hx

/-- The statement reads `*cmds` or calls `parse_cmd`. -/
def CmdPc.reads : CmdPc → Bool
  | .loop | .parse => true
  | .test => false

namespace Worker

def str : (w : Worker) → w.Pc → Option Str
  | notes => NotesPc.str
  | motor => MotorPc.str
  | light => LedPc.str
  | mp3 | renderer | audioConvert => fun _ => none

def entering : (w : Worker) → w.Pc → Bool
  | notes => NotesPc.entering
  | motor => MotorPc.entering
  | light => LedPc.entering
  | mp3 | renderer | audioConvert => fun _ => false

def argsStr : (w : Worker) → w.Args → Option Str
  | notes | motor | light => id
  | mp3 | renderer | audioConvert => fun _ => none

/-- The string that the next statement of an instance reads. -/
def reads : (w : Worker) → w.Pc → Option Str
  | notes => fun | .cmds pc s _ => if pc.reads then some s else none | _ => none
  | motor => fun | .cmds pc s _ => if pc.reads then some s else none | _ => none
  | light => fun | .cmds pc s _ => if pc.reads then some s else none | _ => none
  | mp3 | renderer | audioConvert => fun _ => none

def playing (w : Worker) (pc : w.Pc) : Bool := w.entering pc || (w.str pc).isSome

variable {w : Worker} {pc pc' : w.Pc} {x : Str}

theorem str_of_reads (h : w.reads pc = some x) : w.str pc = some x := by
  cases w <;> cases pc <;> simp_all [reads, str, NotesPc.str, MotorPc.str, LedPc.str]

theorem isTrack_of_argsStr {a : w.Args} (h : w.argsStr a = some x) : w.isTrack = true := by
  cases w <;> first | rfl | cases h

theorem isTrack_of_playing (h : w.playing pc = true) : w.isTrack = true := by
  cases w <;> first | rfl | cases h

theorem active_of_playing (h : w.playing pc = true) : w.body.phase pc = .active := by
  cases w <;> cases pc <;> first | rfl | cases h

theorem playing_of_str (h : w.str pc = some x) : w.playing pc = true := by
  simp [playing, h]

theorem playing_of_entering (h : w.entering pc = true) : w.playing pc = true := by
  simp [playing, h]

theorem task_str {e : w.Env} {i : ℕ} {run : Bool} {args : w.Args} {hw hw' : Hw} {eff : Effect}
    (h : w.body.task e i run args pc hw = some (pc', eff, hw')) :
    (∀ x, w.str pc' = some x →
      w.str pc = some x ∨ (w.entering pc = true ∧ w.argsStr args = some x)) ∧
      (w.entering pc' = true → w.entering pc = true) := by
  cases w with
  | notes => exact playNotesTask_str h
  | motor => exact motorRunCmdsTask_str h
  | light => exact ledRunCmdsTask_str h
  | mp3 => exact ⟨fun _ hx => (by cases hx), fun he => (by cases he)⟩
  | renderer => exact ⟨fun _ hx => (by cases hx), fun he => (by cases he)⟩
  | audioConvert => exact ⟨fun _ hx => (by cases hx), fun he => (by cases he)⟩

theorem task_playing {e : w.Env} {i : ℕ} {run : Bool} {args : w.Args} {hw hw' : Hw} {eff : Effect}
    (h : w.body.task e i run args pc hw = some (pc', eff, hw')) (hp : w.playing pc' = true) :
    w.playing pc = true := by
  obtain ⟨hstr, hentering⟩ := task_str h
  simp only [playing, Bool.or_eq_true, Option.isSome_iff_exists] at hp
  rcases hp with he | ⟨x, hx⟩
  · exact playing_of_entering (hentering he)
  · rcases hstr x hx with hx | ⟨he, -⟩
    · exact playing_of_str hx
    · exact playing_of_entering he

end Worker

/-- Some instance has still to read `handle->args`. -/
def Worker.Awaited (w : Worker) (t : State w.Args w.Pc) : Prop :=
  (∃ i, w.entering (t.pc i) = true) ∨ ∃ c, t.call c = .create

/-- Arguments that still have to be read meet `P`. -/
structure Worker.Supplied (w : Worker) (P : w.Args → Prop) (t : State w.Args w.Pc) : Prop where
  args : w.Awaited t → P t.args
  carried : ∀ c a, (t.call c).carries = some a → P a

namespace Worker.Supplied

variable {w : Worker} {P : w.Args → Prop} {t t' : State w.Args w.Pc}

theorem goto {c : ℕ} {k : Option w.Args} (h : w.Supplied P t) (hk : ∀ a, k = some a → P a) :
    w.Supplied P (t.goto c (w.body.proto.entry k)) := by
  refine ⟨fun ha => h.args (ha.imp id ?_), fun c' a ha => ?_⟩
  · rintro ⟨c', hc'⟩
    rw [State.goto_call] at hc'
    split_ifs at hc' with hcc
    · exact absurd hc' (Proto.entry_ne_create _ _)
    · exact ⟨c', hc'⟩
  · rw [State.goto_call] at ha
    split_ifs at ha with hcc
    · rw [Proto.entry_carries] at ha
      exact hk a ha
    · exact h.carried c' a ha

theorem call {c now : ℕ} (hw : w.isTrack = true) (h : w.Supplied P t)
    (hc : State.CallStep w.body.proto w.body.fresh now t c t') : w.Supplied P t' := by
  refine ⟨fun ha => ?_, fun c' a ha => ?_⟩
  · rcases hc.args_eq (guarded_of_isTrack hw) with ⟨hargs, hcreate⟩ | hcarries
    · rw [hargs]
      apply h.args
      rcases ha with ⟨i, hi⟩ | ⟨c', hc'⟩
      · rcases hc.pc with hpc | ⟨hnew, -, -⟩
        · exact .inl ⟨i, hpc ▸ hi⟩
        · exact .inr ⟨c, hnew⟩
      · by_cases hcc : c' = c
        · exact .inr ⟨c, hcreate (hcc ▸ hc')⟩
        · exact .inr ⟨c', (hc.call_of_ne hcc).symm.trans hc'⟩
    · exact h.carried c t'.args hcarries
  · by_cases hcc : c' = c
    · subst hcc
      exact h.carried c' a (hc.carries ha)
    · rw [hc.call_of_ne hcc] at ha
      exact h.carried c' a ha

theorem move {i : ℕ} {pc : w.Pc} {eff : Effect} (h : w.Supplied P t)
    (hentering : w.entering pc = true → w.entering (t.pc i) = true) :
    w.Supplied P (t.move w.body.proto i pc eff) := by
  refine ⟨fun ha => ?_, fun c a ha => ?_⟩
  · rw [State.move_args]
    apply h.args
    rcases ha with ⟨j, hj⟩ | ⟨c, hc⟩
    · rw [State.move_pc] at hj
      split_ifs at hj
      · exact .inl ⟨i, hentering hj⟩
      · exact .inl ⟨j, hj⟩
    · rw [State.move_call] at hc
      exact .inr ⟨c, hc⟩
  · rw [State.move_call] at ha
    exact h.carried c a ha

end Worker.Supplied

/-- No instance needs its string any more, and nobody is in a call. -/
structure Worker.Unused (w : Worker) (t : State w.Args w.Pc) : Prop where
  playing : ∀ i, w.playing (t.pc i) ≠ true
  idle : w.isTrack = true → ∀ c, t.call c = .idle

namespace Worker.Unused

variable {w : Worker} {t : State w.Args w.Pc} {x : Str}

theorem str_ne (h : w.Unused t) (i : ℕ) : w.str (t.pc i) ≠ some x :=
  fun hx => h.playing i (playing_of_str hx)

theorem not_awaited {a : w.Args} (h : w.Unused t) (hx : w.argsStr a = some x) : ¬ w.Awaited t := by
  rintro (⟨i, he⟩ | ⟨c, hcreate⟩)
  · exact h.playing i (playing_of_entering he)
  · rw [h.idle (isTrack_of_argsStr hx) c] at hcreate
    cases hcreate

theorem carries_ne {a : w.Args} (h : w.Unused t) (hx : w.argsStr a = some x) (c : ℕ) :
    (t.call c).carries ≠ some a := by
  rw [h.idle (isTrack_of_argsStr hx) c]
  intro ha
  cases ha

end Worker.Unused

/-- The `r_vx` whose item the next statement reads. -/
def RestartPc.reads : RestartPc → Option Var
  | .print | .isLoop => some .v1
  | .notesRun => some .v2
  | .motorRun => some .v3
  | .ledRun => some .v4
  | _ => none

def MainPc.reads : MainPc → Option Var
  | .notesRun => some .v2
  | .motorRun => some .v3
  | .ledRun => some .v4
  | _ => none

/-- The document whose items the next statement looks up or reads. -/
def MainPc.looksUp : MainPc → Option ℕ
  | .type r | .mRun _ r | .key r | .play _ r | .item _ r => some r.doc
  | _ => none

/-- The next statement of some task reads a string or an item of a document. -/
inductive Firmware.Reads (s : Firmware) : ℕ → Prop
  | player {w : Worker} {i : ℕ} {x : Str} : w.reads ((s.sys.task w).pc i) = some x →
      Reads s x.doc
  | restart {k : ℕ} {x : Var} {r : Ref} : k < s.sys.hw.restarts → (s.restart k).reads = some x →
      s.rV x = some r → Reads s r.doc
  | main {x : Var} {r : Ref} : s.main.reads = some x → s.rV x = some r → Reads s r.doc
  | root {d : ℕ} : s.main.looksUp = some d → Reads s d

/-- A player instance, a call that is to create one, or a `run_cmds_task` that has not
finished with `run_cmds_is_run` has a pointer into a document. -/
inductive Firmware.PointsTo (s : Firmware) : ℕ → Prop
  | player {w : Worker} {i : ℕ} {x : Str} : w.str ((s.sys.task w).pc i) = some x →
      PointsTo s x.doc
  | args {w : Worker} {x : Str} : w.Awaited (s.sys.task w) →
      w.argsStr (s.sys.task w).args = some x → PointsTo s x.doc
  | call {w : Worker} {c : ℕ} {a : w.Args} {x : Str} :
      ((s.sys.task w).call c).carries = some a → w.argsStr a = some x → PointsTo s x.doc
  | restart {k : ℕ} {x : Var} {r : Ref} : k < s.sys.hw.restarts →
      (s.restart k).pending = true → s.rV x = some r → PointsTo s r.doc

/-- The document that the message thread has still to delete. -/
def MainPc.owned : MainPc → Option ℕ
  | .type r | .mRun _ r | .key r | .play _ r | .mStop _ r | .cCmds r | .delete r | .setRoot r
  | .cStop r | .motorStop r | .ledStop r | .notesStop r | .stopped r | .out r => some r.doc
  | _ => none

/-- From the acceptance of a `C_CMDS` to the statement that sets `run_cmds_is_run`. -/
def MainPc.early : MainPc → Bool
  | .delete _ | .setRoot _ | .item _ _ | .nullTest | .flagOn => true
  | _ => false

/-- `r_vx` is still the one of an earlier message. -/
def MainPc.stale : MainPc → Var → Bool
  | .delete _, _ | .setRoot _, _ | .item .v1 _, _ => true
  | .item .v2 _, x => x ≠ .v1
  | .item .v3 _, x => x = .v3 ∨ x = .v4
  | .item .v4 _, x => x = .v4
  | _, _ => false

theorem MainPc.fresh_of_reads {pc : MainPc} {x : Var} (h : pc.reads = some x) :
    (∀ r, pc ≠ .setRoot r) ∧ ∀ y, pc.stale y = false := by
  cases pc <;> first | exact ⟨by simp, fun _ => rfl⟩ | cases h

theorem MainPc.of_looksUp {pc : MainPc} {d : ℕ} (h : pc.looksUp = some d) :
    pc.owned = some d ∨ ∃ x r, pc = .item x r ∧ r.doc = d := by
  cases pc <;> simp_all [looksUp, owned]

theorem RestartPc.pending_of_reads {pc : RestartPc} {x : Var} (h : pc.reads = some x) :
    pc.pending = true := by
  cases pc <;> first | rfl | cases h

theorem MainPc.inRun_of_stale {pc : MainPc} {x : Var} (h : pc.stale x = true) :
    pc.inRun = true := by
  cases pc <;> first | rfl | cases h

namespace Firmware

variable {s s' : Firmware} {a : FwAct} {k : ℕ}

/-! ### What has been deleted -/

structure Store (s : Firmware) : Prop where
  owned : ∀ d, s.main.owned = some d → d < s.parsed ∧ d ∉ s.freed ∧ s.runCmdsRoot ≠ some d
  root : ∀ d, s.runCmdsRoot = some d → d < s.parsed ∧ ((∀ r, s.main ≠ .setRoot r) → d ∉ s.freed)
  freed : ∀ d ∈ s.freed, d < s.parsed
  item : ∀ x r, s.main = .item x r → s.runCmdsRoot = some r.doc

theorem Store.init : Store Firmware.init where
  owned _ h := by cases h
  root _ h := by cases h
  freed _ h := by cases h
  item _ _ h := by cases h

theorem dispatch_owned (r : Root) : (dispatch r).owned = some r.doc := by
  unfold dispatch
  split
  · rfl
  · split_ifs <;> first | rfl | (split <;> rfl)

theorem Skip.owned {pc pc' : MainPc} (h : Skip s pc pc') : pc'.owned = pc.owned := by
  cases h
  case type r => exact dispatch_owned r
  all_goals rfl

theorem dispatch_early (r : Root) : (dispatch r).early = false := by
  unfold dispatch
  split
  · rfl
  · split_ifs <;> first | rfl | (split <;> rfl)

theorem Skip.early {pc pc' : MainPc} (h : Skip s pc pc') (he : pc'.early = true) :
    pc.early = true := by
  cases h
  case type r =>
    rw [dispatch_early] at he
    cases he
  case null => rfl
  case full => rfl
  all_goals cases he

theorem MainStep.early (hm : MainStep s s') (he : s'.main.early = true) :
    (s.main.early = true ∧ s'.sys.hw.runCmdsIsRun = s.sys.hw.runCmdsIsRun) ∨
      s'.sys.hw.runCmdsIsRun = false := by
  cases hm
  case skip hs => exact .inl ⟨hs.early he, rfl⟩
  case accept hmain hflag => exact .inr hflag
  case abort => exact .inl ⟨he, rfl⟩
  case delete hmain => exact .inl ⟨by rw [hmain]; rfl, rfl⟩
  case setRoot hmain => exact .inl ⟨by rw [hmain]; rfl, rfl⟩
  case item hmain => exact .inl ⟨by rw [hmain]; rfl, rfl⟩
  all_goals cases he

theorem MainStep.flag_of_early (hm : MainStep s s')
    (h : s.main.early = true → s.sys.hw.runCmdsIsRun = false) (he : s'.main.early = true) :
    s'.sys.hw.runCmdsIsRun = false := by
  rcases hm.early he with ⟨he, hsame⟩ | hoff
  · rw [hsame, h he]
  · exact hoff

theorem Skip.keeps {pc pc' : MainPc} (h : Skip s pc pc') :
    (∀ r, pc ≠ .setRoot r) ∧ ∀ x r, pc' ≠ .item x r := by
  cases h
  case type r =>
    refine ⟨by simp, fun x r' heq => ?_⟩
    have hearly := dispatch_early r
    rw [heq] at hearly
    cases hearly
  all_goals simp

theorem Store.keep (h : Store s) (howned : ∀ d, s'.main.owned = some d → s.main.owned = some d)
    (hset : ∀ r, s.main ≠ .setRoot r) (hitem : ∀ x r, s'.main ≠ .item x r)
    (hroot : s'.runCmdsRoot = s.runCmdsRoot) (hparsed : s'.parsed = s.parsed)
    (hfreed : s'.freed = s.freed) : Store s' := by
  refine ⟨?_, ?_, ?_, fun x r hmain => absurd hmain (hitem x r)⟩
  · intro d hd
    rw [hroot, hparsed, hfreed]
    exact h.owned d (howned d hd)
  · intro d hd
    rw [hroot] at hd
    rw [hparsed, hfreed]
    exact (h.root d hd).imp id fun hn _ => hn hset
  · rw [hparsed, hfreed]
    exact h.freed

theorem Store.delete {r : Root} (h : Store s) (hmain : s.main = .delete r) :
    Store { s with main := .setRoot r, freed := s.freed ++ s.runCmdsRoot.toList } := by
  obtain ⟨hlt, hfreed, hne⟩ := h.owned r.doc (by rw [hmain]; rfl)
  refine ⟨?_, ?_, ?_, fun x r hitem => by cases hitem⟩
  · intro d hd
    obtain rfl := Option.some.inj hd
    refine ⟨hlt, ?_, hne⟩
    rw [List.mem_append, Option.mem_toList]
    exact not_or.mpr ⟨hfreed, hne⟩
  · intro d hd
    exact ⟨(h.root d hd).1, fun hset => absurd rfl (hset r)⟩
  · intro d hd
    rcases List.mem_append.mp hd with hd | hd
    · exact h.freed d hd
    · exact (h.root d (Option.mem_toList.mp hd)).1

theorem Store.setRoot {r : Root} (h : Store s) (hmain : s.main = .setRoot r) :
    Store { s with main := .item .v1 r, runCmdsRoot := some r.doc } := by
  obtain ⟨hlt, hfreed, -⟩ := h.owned r.doc (by rw [hmain]; rfl)
  refine ⟨fun d hd => (by cases hd), ?_, h.freed, ?_⟩
  · intro d hd
    obtain rfl := Option.some.inj hd
    exact ⟨hlt, fun _ => hfreed⟩
  · intro x r' hitem
    cases hitem
    rfl

theorem Store.items {x : Var} {r : Root} {f : Var → Option Ref} (h : Store s)
    (hmain : s.main = .item x r) : Store { s with main := x.andThen r, rV := f } := by
  have hroot := h.item x r hmain
  refine ⟨?_, ?_, h.freed, ?_⟩
  · intro d hd
    cases x <;> cases hd
  · intro d hd
    exact (h.root d hd).imp id fun hn _ => hn (by simp [hmain])
  · intro y r' hitem
    cases x <;> cases hitem <;> exact hroot

theorem Store.out {r : Root} (h : Store s) (hmain : s.main = .out r) :
    Store { s with main := .idle, freed := s.freed ++ [r.doc] } := by
  obtain ⟨hlt, -, hne⟩ := h.owned r.doc (by rw [hmain]; rfl)
  refine ⟨fun d hd => (by cases hd), ?_, ?_, fun x r hitem => (by cases hitem)⟩
  · intro d hd
    obtain ⟨hd', hn⟩ := h.root d hd
    refine ⟨hd', fun _ hmem => ?_⟩
    rcases List.mem_append.mp hmem with hmem | hmem
    · exact hn (by simp [hmain]) hmem
    · obtain rfl := List.mem_singleton.mp hmem
      exact hne hd
  · intro d hd
    rcases List.mem_append.mp hd with hd | hd
    · exact h.freed d hd
    · obtain rfl := List.mem_singleton.mp hd
      exact hlt

theorem Store.parse {json : Json} (h : Store s) (hidle : s.main = .idle) :
    Store { s with main := .type ⟨s.parsed, json⟩, parsed := s.parsed + 1 } := by
  refine ⟨?_, ?_, ?_, fun x r hitem => by cases hitem⟩
  · intro d hd
    obtain rfl := Option.some.inj hd
    exact ⟨Nat.lt_succ_self _, fun hmem => Nat.lt_irrefl _ (h.freed _ hmem),
      fun hroot => Nat.lt_irrefl _ (h.root _ hroot).1⟩
  · intro d hd
    obtain ⟨hlt, hn⟩ := h.root d hd
    exact ⟨Nat.lt_succ_of_lt hlt, fun _ => hn (by simp [hidle])⟩
  · intro d hd
    exact Nat.lt_succ_of_lt (h.freed d hd)

theorem Store.mainStep (h : Store s) (hm : MainStep s s') : Store s' := by
  cases hm
  case skip pc hs =>
    obtain ⟨hset, hitem⟩ := hs.keeps
    exact h.keep (fun d hd => hs.owned ▸ hd) hset hitem rfl rfl rfl
  case delete r hmain => exact h.delete hmain
  case setRoot r hmain => exact h.setRoot hmain
  case item x r hmain => exact h.items hmain
  case out r hmain => exact h.out hmain
  case abort => exact ⟨h.owned, h.root, h.freed, h.item⟩
  all_goals
    rename_i hmain
    exact h.keep (by simp [*, MainPc.owned, goMain]) (by simp [*]) (by simp [goMain]) rfl rfl rfl

theorem Store.step (h : Store s) (hs : Step s a s') : Store s' := by
  cases hs with
  | ignore => exact h
  | parse hidle => exact h.parse hidle
  | main _ hm => exact h.mainStep hm
  | restart _ _ hr => cases hr <;> exact ⟨h.owned, h.root, h.freed, h.item⟩
  | tick => exact ⟨h.owned, h.root, h.freed, h.item⟩
  | call => exact ⟨h.owned, h.root, h.freed, h.item⟩
  | task => exact ⟨h.owned, h.root, h.freed, h.item⟩

end Firmware

end Car
