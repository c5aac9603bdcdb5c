import CarFirmware.Lib.Request
import CarFirmware.Proofs.I2s
import CarFirmware.Proofs.Players

/-! Whether a play request is heard. `sound_play_mp3_task` gives up at once if
`g_i2s_mutex` is taken, so the instance that a request creates depends on how far the
instance before it has come. -/

namespace Car

open Handshake Transition

/-- The instance has the mutex or has yet to ask for it. -/
def Mp3Pc.mayHold : Mp3Pc → Bool
  | .take => true
  | pc => pc.role != .out

def Mp3Pc.started : Mp3Pc → Bool
  | .absent | .take | .busyClear | .pipeline => false
  | _ => true

theorem Mp3Pc.mayHold_live (pc : Mp3Pc) (h : pc.mayHold = true) : pc.phase.live = true := by
  cases pc <;> first | rfl | cases h

theorem Mp3Pc.mayHold_of_role {pc : Mp3Pc} (h : pc.role ≠ .out) : pc.mayHold = true := by
  cases pc <;> first | rfl | exact absurd rfl h

/-! ### What the statements of the tasks do with the mutex and the pipeline -/

section

variable {i : ℕ} {run : Bool} {hw hw' : Hw} {eff : Effect}

/-- Starts no pipeline, and takes no mutex. -/
structure Hw.Keeps (hw hw' : Hw) : Prop where
  pipelines : hw'.pipelines = hw.pipelines
  mutex : hw'.i2sMutex = hw.i2sMutex ∨ hw'.i2sMutex = none

theorem playNotesTask_keeps {ok : Bool} {args : Option Str} {pc pc' : NotesPc} (hpc : pc ≠ .take)
    (h : playNotesTask ok i run args pc hw = some (pc', eff, hw')) : hw.Keeps hw' := by
  cases pc with
  | take => exact absurd rfl hpc
  | give => cases h; exact ⟨rfl, .inr rfl⟩
  | _ =>
    simp only [playNotesTask] at h
    repeat' split at h
    all_goals first | (cases h; exact ⟨rfl, .inl rfl⟩) | cases h

theorem motorRunCmdsTask_keeps {args : Option Str} {pc pc' : MotorPc}
    (h : motorRunCmdsTask i run args pc hw = some (pc', eff, hw')) : hw.Keeps hw' := by
  rcases motorRunCmdsTask_writes h with rfl | rfl | ⟨op, rfl⟩ <;> exact ⟨rfl, .inl rfl⟩

theorem ledRunCmdsTask_keeps {args : Option Str} {pc pc' : LedPc}
    (h : ledRunCmdsTask run args pc hw = some (pc', eff, hw')) : hw.Keeps hw' := by
  rcases ledRunCmdsTask_writes h with rfl | rfl | ⟨f, rfl⟩ | ⟨-, -, rfl⟩ <;> exact ⟨rfl, .inl rfl⟩

theorem loopTask_keeps {timeout : Option ℕ} {got : Bool} {pc pc' : LoopPc}
    (h : loopTask timeout got run pc hw = some (pc', eff, hw')) : hw.Keeps hw' := by
  rw [loopTask_writes h]
  exact ⟨rfl, .inl rfl⟩

structure Mp3Statement (i : ℕ) (fileid : ℤ) (pc pc' : Mp3Pc) (hw hw' : Hw) : Prop where
  keeps : pc'.mayHold = true → pc.mayHold = true
  mutex : hw'.i2sMutex = hw.i2sMutex ∨ hw'.i2sMutex = none ∨ hw'.i2sMutex = some (.mp3 i)
  busy : pc' = .busyClear → pc = .take ∧ hw.i2sMutex ≠ none
  pipelines : pc ≠ .pipeline → hw'.pipelines = hw.pipelines
  starts : pc = .pipeline → hw'.pipelines = hw.pipelines ++ [fileid]
  started : pc'.started = true → pc.started = true ∨ pc = .pipeline ∨ pc = .busyClear

theorem soundPlayMp3Task_statement {e : Mp3Env} {fileid : ℤ} {pc pc' : Mp3Pc}
    (h : soundPlayMp3Task e i run fileid pc hw = some (pc', eff, hw')) :
    Mp3Statement i fileid pc pc' hw hw' := by
  cases pc with
  | take =>
    simp only [soundPlayMp3Task] at h
    split at h <;> cases h
    · exact ⟨fun _ => rfl, .inr (.inr rfl), by simp, fun _ => rfl, by simp, by simp [Mp3Pc.started]⟩
    · exact ⟨fun _ => rfl, .inl rfl, by simp [*], fun _ => rfl, by simp, by simp [Mp3Pc.started]⟩
  | pipeline => cases h; exact ⟨fun _ => rfl, .inl rfl, by simp, by simp, fun _ => rfl, by simp⟩
  | busyClear =>
    cases h
    exact ⟨by decide, .inl rfl, by simp, fun _ => rfl, by simp, fun _ => .inr (.inr rfl)⟩
  | give =>
    cases h
    exact ⟨fun _ => rfl, .inr (.inl rfl), by simp, fun _ => rfl, by simp, fun _ => .inl rfl⟩
  | loop | read =>
    cases h
    exact ⟨fun _ => rfl, .inl rfl, by split_ifs <;> simp, fun _ => rfl, by simp, fun _ => .inl rfl⟩
  | write =>
    simp only [soundPlayMp3Task] at h
    split at h <;> cases h <;>
      exact ⟨fun _ => rfl, .inl rfl, by simp, fun _ => rfl, by simp, fun _ => .inl rfl⟩
  | enable | listen | clear | disable =>
    cases h
    exact ⟨fun _ => rfl, .inl rfl, by simp, fun _ => rfl, by simp, fun _ => .inl rfl⟩
  | setBits | delete =>
    cases h
    exact ⟨by decide, .inl rfl, by simp, fun _ => rfl, by simp, fun _ => .inl rfl⟩
  | absent | ended => cases h

end

/-! ### A request and the instance before it -/

namespace System

/-- The mp3 callers are in no call or in stop calls, at most one instance has yet to set the
event bit, and no note instance has the mutex. -/
structure Ready (s : System) : Prop where
  calls : ∀ c, ((s.task .mp3).call c).isStop = true
  lone : Lone Mp3Pc.phase (s.task .mp3)
  notes : ∀ i, s.hw.i2sMutex ≠ some (.notes i)

/-- No other play request begins, no note instance asks for the mutex, and the stop of the
request of `c` has not given up. -/
structure Undisturbed (c : ℕ) (f : ℤ) (s : System) (a : SysAct) : Prop where
  alone : ∀ c' f', a ≠ soundPlayMp3Run c' f'
  notes : ∀ i e, a = .task .notes (.task i e) → (s.task .notes).pc i ≠ .take
  answered : (s.task .mp3).call c ≠ .ret (some f) false

/-- If the request reads `task_run` as false, then no instance has the mutex or has yet to
ask for it. -/
def Released (c : ℕ) (f : ℤ) (s : System) (a : SysAct) : Prop :=
  a = .task .mp3 (.call c) → ((s.task .mp3).call c).Tests f → (s.task .mp3).taskRun = false →
    ∀ i, ((s.task .mp3).pc i).mayHold = false

/-- The request creates instance `n`, which finds the mutex free and starts the pipeline
with `f`. -/
structure Granted (c : ℕ) (f : ℤ) (n : ℕ) (s : System) : Prop where
  take : (s.task .mp3).pc n = .take → s.hw.i2sMutex = none
  busy : (s.task .mp3).pc n ≠ .busyClear
  pipeline : (s.task .mp3).pc n = .pipeline → (s.task .mp3).args = f
  started : ((s.task .mp3).pc n).started = true → s.hw.pipelines.getLast? = some f
  returned : (s.task .mp3).call c = .idle → (s.task .mp3).created = n + 1

/-- What a request keeps. -/
structure Serving (c : ℕ) (f : ℤ) (n : ℕ) (s : System) : Prop where
  i2s : s.I2sInv
  notes : ∀ i, s.hw.i2sMutex ≠ some (.notes i)
  requested : Requested Mp3Pc.phase Mp3Pc.mayHold c f n (s.task .mp3)
  busy : (s.task .mp3).pc n ≠ .busyClear
  started : ((s.task .mp3).pc n).started = true → s.hw.pipelines.getLast? = some f

variable {s s' : System} {a : SysAct} {c n : ℕ} {f : ℤ}

theorem Serving.served (h : Serving c f n s) (hpc : (s.task .mp3).pc n ≠ .absent) :
    Served Mp3Pc.mayHold f n (s.task .mp3) := by
  rcases h.requested with hask | hserved
  · exact absurd (h.i2s.numbered .mp3 n hask.created.le) hpc
  · exact hserved

theorem Serving.mutex_free (h : Serving c f n s) (hpc : (s.task .mp3).pc n = .take) :
    s.hw.i2sMutex = none := by
  have hserved := h.served (by simp [hpc])
  rw [Option.eq_none_iff_forall_ne_some]
  rintro o ho
  have hrole := (h.i2s.device.held o).mpr ho
  cases o with
  | notes i => exact h.notes i ho
  | mp3 i =>
    by_cases hi : i = n
    · rw [hi, role, hpc] at hrole
      exact hrole rfl
    · have hfree := hserved.free i hi
      rw [Mp3Pc.mayHold_of_role hrole] at hfree
      cases hfree

theorem unhindered_of_step {b : Act ℤ Mp3Pc} (hu : Undisturbed c f s a) (hr : Released c f s a)
    (hb : act .mp3 s a = some b) : Unhindered Mp3Pc.mayHold c f (s.task .mp3) b := by
  obtain ⟨d, rfl, hd⟩ := act_eq_some hb
  refine ⟨?_, hu.answered, ?_, ?_⟩
  · rintro c' y rfl
    obtain rfl := Body.act_begin hd
    exact hu.alone c' y rfl
  · rintro now rfl htests hrun
    obtain ⟨rfl, -⟩ := Body.act_call hd
    exact hr rfl htests hrun
  · rintro i pc e rfl
    obtain ⟨e', hw', rfl, ht⟩ := Body.act_inst hd
    exact (soundPlayMp3Task_statement ht).keeps

theorem step_effect (hu : Undisturbed c f s a) (hs : System.step s a = some s') :
    (s.hw.Keeps s'.hw ∧ ((s'.task .mp3).pc n = (s.task .mp3).pc n ∨ (s'.task .mp3).pc n = .take)) ∨
    ∃ i pc, (s'.task .mp3).pc = Function.update (s.task .mp3).pc i pc ∧
      Mp3Statement i (s.task .mp3).args ((s.task .mp3).pc i) pc s.hw s'.hw := by
  obtain ⟨m, -, rfl⟩ | ⟨w, b, hw, t, rfl, ht, rfl⟩ | ⟨op, -, rfl⟩ | ⟨b, -, rfl⟩ | ⟨-, rfl⟩ :=
    step_cases hs
  · exact .inl ⟨⟨rfl, .inl rfl⟩, .inl rfl⟩
  · obtain ⟨c', k, rfl, rfl, -, rfl⟩ | ⟨c', rfl, rfl, hc⟩ | ⟨i, e, pc, eff, rfl, hr, -, rfl⟩ :=
      Body.step_cases ht
    · refine .inl ⟨⟨rfl, .inl rfl⟩, .inl ?_⟩
      cases w <;> rfl
    · refine .inl ⟨⟨rfl, .inl rfl⟩, ?_⟩
      by_cases hw : Worker.mp3 = w
      case neg => exact .inl (by rw [put_task_of_ne hw])
      subst hw
      rw [put_task_self]
      rcases hc.pc with hpc | ⟨-, -, hpc⟩
      · exact .inl (by rw [hpc])
      · rw [hpc, Function.update_apply]
        split_ifs
        · exact .inr rfl
        · exact .inl rfl
    · cases w with
      | mp3 =>
        refine .inr ⟨i, pc, ?_, soundPlayMp3Task_statement hr⟩
        funext j
        rw [put_task_self, State.move_pc, Function.update_apply]
      | notes =>
        exact .inl ⟨playNotesTask_keeps (hu.notes i e rfl) hr, .inl rfl⟩
      | motor => exact .inl ⟨motorRunCmdsTask_keeps hr, .inl rfl⟩
      | light => exact .inl ⟨ledRunCmdsTask_keeps hr, .inl rfl⟩
      | renderer => exact .inl ⟨loopTask_keeps hr, .inl rfl⟩
      | audioConvert => exact .inl ⟨loopTask_keeps hr, .inl rfl⟩
  · exact .inl ⟨⟨rfl, .inl rfl⟩, .inl rfl⟩
  · exact .inl ⟨⟨rfl, .inl rfl⟩, .inl rfl⟩
  · exact .inl ⟨⟨rfl, .inl rfl⟩, .inl rfl⟩

theorem Serving.requested_step (h : Serving c f n s) (hu : Undisturbed c f s a)
    (hr : Released c f s a) (hs : System.step s a = some s') :
    Requested Mp3Pc.phase Mp3Pc.mayHold c f n (s'.task .mp3) := by
  rcases step_handshake hs .mp3 with heq | ⟨b, hb, hstep⟩
  · rw [heq]
    exact h.requested
  · exact h.requested.step rfl Mp3Pc.mayHold_live (unhindered_of_step hu hr hb) hstep

theorem Serving.eq_of_pipeline (h : Serving c f n s) (hpc : (s.task .mp3).pc n ≠ .absent) {i : ℕ}
    (hi : (s.task .mp3).pc i = .pipeline) : i = n := by
  by_contra hne
  have hfree := (h.served hpc).free i hne
  rw [hi] at hfree
  cases hfree

theorem Serving.step (h : Serving c f n s) (hu : Undisturbed c f s a) (hr : Released c f s a)
    (hs : System.step s a = some s') : Serving c f n s' := by
  have hi2s := h.i2s.step hs
  have hreq := h.requested_step hu hr hs
  rcases step_effect hu hs with ⟨hkeeps, hpc⟩ | ⟨i, pc, hpc, hst⟩
  · refine ⟨hi2s, fun j hj => ?_, hreq, ?_, ?_⟩
    · rcases hkeeps.mutex with hm | hm
      · exact h.notes j (hm ▸ hj)
      · rw [hm] at hj
        cases hj
    · rcases hpc with hpc | hpc <;> rw [hpc]
      · exact h.busy
      · simp
    · rw [hkeeps.pipelines]
      rcases hpc with hpc | hpc <;> rw [hpc]
      · exact h.started
      · exact fun hstart => by cases hstart
  · refine ⟨hi2s, fun j hj => ?_, hreq, ?_, ?_⟩
    · rcases hst.mutex with hm | hm | hm
      · exact h.notes j (hm ▸ hj)
      · rw [hm] at hj
        cases hj
      · rw [hm] at hj
        cases hj
    · rw [hpc, Function.update_apply]
      split_ifs with hn
      · -- the mutex is free when the new instance asks for it
        rintro rfl
        obtain ⟨htake, hmutex⟩ := hst.busy rfl
        exact hmutex (h.mutex_free (hn ▸ htake))
      · exact h.busy
    · rw [hpc, Function.update_apply]
      split_ifs with hn
      · subst hn
        intro hstart
        rcases hst.started hstart with hs | hs | hs
        · rw [hst.pipelines (by rintro heq; rw [heq] at hs; cases hs)]
          exact h.started hs
        · rw [hst.starts hs, (h.served (by simp [hs])).args, List.getLast?_concat]
        · exact absurd hs h.busy
      · intro hstart
        have hne : (s.task .mp3).pc i ≠ .pipeline := by
          intro hi
          refine hn (h.eq_of_pipeline ?_ hi).symm
          rintro habs
          rw [habs] at hstart
          cases hstart
        rw [hst.pipelines hne]
        exact h.started hstart

theorem begin_eq {w : Worker} {k : Option w.Args}
    (h : System.step s (.task w (.begin c k)) = some s') :
    s' = s.put w s.hw ((s.task w).goto c (w.body.proto.entry k)) := by
  obtain ⟨m, heq, -⟩ | ⟨v, b, hw, t, heq, ht, rfl⟩ | ⟨op, heq, -⟩ | ⟨b, heq, -⟩ | ⟨heq, -⟩ :=
    step_cases h
  case inr.inl =>
    cases heq
    obtain ⟨t, hbegin, heq⟩ := Option.map_eq_some_iff.mp ht
    obtain ⟨rfl, rfl⟩ := Prod.mk.inj heq
    obtain ⟨-, rfl⟩ := State.begin_cases hbegin
    rfl
  all_goals cases heq

theorem Serving.begin (hi : s.I2sInv) (hready : s.Ready)
    (hs : System.step s (soundPlayMp3Run c f) = some s') :
    Serving c f (s.task .mp3).created s' := by
  have hnew := hi.numbered .mp3 _ le_rfl
  have hi' := hi.step hs
  obtain rfl := begin_eq hs
  have hpc : ((s.put .mp3 s.hw ((s.task .mp3).goto c (Worker.mp3.body.proto.entry (some f)))).task
      .mp3).pc (s.task .mp3).created = .absent := by
    rw [put_task_self]
    exact hnew
  refine ⟨hi', hready.notes, ?_, ?_, ?_⟩
  · rw [put_task_self]
    exact .inl (Asking.begin_self rfl hready.calls hready.lone)
  · intro hbusy
    rw [hpc] at hbusy
    cases hbusy
  · intro hstart
    rw [hpc] at hstart
    cases hstart

theorem Serving.granted (h : Serving c f n s) : Granted c f n s where
  take := h.mutex_free
  busy := h.busy
  pipeline hpc := (h.served (by simp [hpc])).args
  started := h.started
  returned hidle := by
    rcases h.requested with hask | hserved
    · have hstop := Call.isStop_of_carries hask.carries
      rw [hidle] at hstop
      cases hstop
    · exact hserved.created

end System

/-- A play request that reads `task_run` as false only when no instance has the mutex or has
yet to ask for it, or whose stop returns `ESP_OK`, is not dropped: in whatever way its
statements are mixed with those of the instance before it and of stop calls, the instance
that it creates gets the mutex and starts the pipeline with the file of the request. -/
theorem play_request_served {s₀ s₁ s : System} {c : ℕ} {f : ℤ}
    (h₀ : Reach System.step (fun _ _ => True) System.init s₀) (hready : s₀.Ready)
    (hrun : System.step s₀ (soundPlayMp3Run c f) = some s₁)
    (h : Reach System.step (fun s a => System.Undisturbed c f s a ∧ System.Released c f s a) s₁ s) :
    System.Granted c f (s₀.task .mp3).created s := by
  have hi : s₀.I2sInv := h₀.invariant .init fun _ _ _ hI _ hs => hI.step hs
  have hserving := h.invariant (I := System.Serving c f (s₀.task .mp3).created)
    (.begin hi hready hrun) fun _ _ _ hI hok hs => hI.step hok.1 hok.2 hs
  exact hserving.granted

def playingFile : List SysAct :=
  soundPlayMp3Run 0 3 :: System.calls .mp3 4 ++ System.tasks .mp3 0 6 ⟨1024, fun _ => 0, true⟩

theorem System.Solo.ready {s : System} (h : s.Solo) (hcall : (s.task .mp3).call 0 = .idle)
    (hcreated : (s.task .mp3).created = 1) (hnotes : ∀ i, s.hw.i2sMutex ≠ some (.notes i)) :
    s.Ready where
  calls c := by
    rcases eq_or_ne c 0 with rfl | hc
    · rw [hcall]
      rfl
    · rw [h.idle .mp3 c hc]
      rfl
  lone i j hi hj := by
    obtain rfl := eq_zero_of_live h.numbered hcreated hi
    exact (eq_zero_of_live h.numbered hcreated hj).symm
  notes := hnotes

def System.undisturbed (f : ℤ) (s : System) (a : SysAct) : Bool :=
  decide ((s.task .mp3).call 0 ≠ .ret (some f) false) &&
  match a with
  | .task .mp3 (.begin _ k) => k.isNone
  | .task .notes (.task _ _) => false
  | _ => true

theorem undisturbed_of_check {f : ℤ} {s : System} {a : SysAct} (h : s.undisturbed f a = true) :
    System.Undisturbed 0 f s a := by
  obtain ⟨hanswered, ha⟩ := Bool.and_eq_true_iff.mp h
  refine ⟨?_, ?_, by simpa using hanswered⟩
  · rintro c' f' rfl
    cases ha
  · rintro i e rfl
    cases ha

def System.seesRunning (f : ℤ) (s : System) : SysAct → Bool
  | .task .mp3 (.call 0) =>
    (s.task .mp3).taskRun || decide ¬ ((s.task .mp3).call 0).Tests f
  | _ => true

theorem released_of_check {f : ℤ} {s : System} {a : SysAct} (h : s.seesRunning f a = true) :
    System.Released 0 f s a := by
  rintro rfl htests hrun
  simp [System.seesRunning, htests, hrun] at h

/-- The request stops instance 0, which plays another file and ends in time. -/
def replacesFile : List SysAct :=
  System.calls .mp3 5 ++ System.tasks .mp3 0 6 ⟨1024, fun _ => 0, true⟩ ++ System.calls .mp3 5 ++
    System.tasks .mp3 1 2 ⟨1024, fun _ => 0, true⟩

theorem play_request_served_replacing : ∃ s : System,
    ((s.task .mp3).pc 1).started = true ∧ System.Granted 0 7 1 s := by
  obtain ⟨s₀, hs₀, hrest⟩ : ∃ s₀,
      run System.step (fun _ a => System.solo a && true) System.init playingFile = some s₀ ∧
        ((s₀.step (soundPlayMp3Run 0 7)).bind fun s₁ =>
          (run System.step (fun s a => s.undisturbed 7 a && s.seesRunning 7 a) s₁
            replacesFile).map fun s => ((s₀.task .mp3).call 0, (s₀.task .mp3).created,
              s₀.hw.i2sMutex, ((s.task .mp3).pc 1).started)) =
          some (.idle, 1, some (.mp3 0), true) :=
    Option.bind_eq_some_iff.mp (by decide +kernel)
  obtain ⟨s₁, hs₁, hrest⟩ := Option.bind_eq_some_iff.mp hrest
  obtain ⟨s, hs, hobs⟩ := Option.map_eq_some_iff.mp hrest
  simp only [Prod.mk.injEq] at hobs
  obtain ⟨hcall, hcreated, hmutex, hstarted⟩ := hobs
  obtain ⟨hreach, hsolo⟩ : Reach System.step (fun _ _ => True) System.init s₀ ∧ s₀.Solo :=
    System.reach_of_solo_run hs₀ fun _ _ _ _ _ _ => trivial
  have hready := hsolo.ready hcall hcreated (by simp [hmutex])
  have hgranted := play_request_served hreach hready hs₁ <| reach_of_run (fun s a ha => by
    obtain ⟨hu, hr⟩ := Bool.and_eq_true_iff.mp ha
    exact ⟨undisturbed_of_check hu, released_of_check hr⟩) hs
  rw [hcreated] at hgranted
  exact ⟨s, hstarted, hgranted⟩

/-- Instance 0 has read `task_run` as true, comes to the end of its file and clears
`task_run`; it has the mutex still. -/
def endsFile : List SysAct :=
  playingFile ++ System.tasks .mp3 0 4 ⟨0, fun _ => 0, true⟩

theorem play_request_dropped : ¬ ∀ s₀ s₁ s c f,
    Reach System.step (fun _ _ => True) System.init s₀ → s₀.Ready →
      System.step s₀ (soundPlayMp3Run c f) = some s₁ →
        Reach System.step (System.Undisturbed c f) s₁ s →
          System.Granted c f (s₀.task .mp3).created s := by
  intro h
  obtain ⟨s₀, hs₀, hrest⟩ : ∃ s₀,
      run System.step (fun _ a => System.solo a && true) System.init endsFile = some s₀ ∧
        ((s₀.step (soundPlayMp3Run 0 7)).bind fun s₁ =>
          (run System.step (System.undisturbed 7) s₁ (System.calls .mp3 4 ++
            System.tasks .mp3 1 1 ⟨1024, fun _ => 0, true⟩)).map fun s =>
              ((s₀.task .mp3).call 0, (s₀.task .mp3).created, s₀.hw.i2sMutex,
                (s.task .mp3).pc 1 matches .busyClear)) =
          some (.idle, 1, some (.mp3 0), true) :=
    Option.bind_eq_some_iff.mp (by decide +kernel)
  obtain ⟨s₁, hs₁, hrest⟩ := Option.bind_eq_some_iff.mp hrest
  obtain ⟨s, hs, hobs⟩ := Option.map_eq_some_iff.mp hrest
  simp only [Prod.mk.injEq] at hobs
  obtain ⟨hcall, hcreated, hmutex, hbusy⟩ := hobs
  obtain ⟨hreach, hsolo⟩ : Reach System.step (fun _ _ => True) System.init s₀ ∧ s₀.Solo :=
    System.reach_of_solo_run hs₀ fun _ _ _ _ _ _ => trivial
  have hgranted := h s₀ s₁ s 0 7 hreach (hsolo.ready hcall hcreated (by simp [hmutex])) hs₁
    (reach_of_run (fun _ _ => undisturbed_of_check) hs)
  rw [hcreated] at hgranted
  refine hgranted.busy ?_
  split at hbusy
  · assumption
  · cases hbusy

end Car
