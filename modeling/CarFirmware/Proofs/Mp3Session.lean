import CarFirmware.Proofs.Score

/-! The mp3 track in the system: an instance that has got `g_i2s_mutex` hands over what it
reads. Between the read of a block and its write nobody else writes the buffer, whatever the
other tasks do and whenever the instance is stopped. -/

namespace Car

open Handshake LockedDevice Transition

/-- What an instance does: the pipeline it starts, the I2S channel, and the listener. -/
inductive Mp3Out where
  | pipeline (fileid : ℤ)
  | enable
  | listen (block : List ℤ)
  | write (block : List ℤ)
  | disable

def Mp3Pc.perform (fileid : ℤ) (pc : Mp3Pc) (hw : Hw) : Option Mp3Out :=
  match pc with
  | .pipeline => some (.pipeline fileid)
  | .enable => some .enable
  | .listen len => some (.listen (hw.buffered len.toNat))
  | .write len => some (.write (hw.buffered len.toNat))
  | .disable => some .disable
  | _ => none

/-- The block that a read stores, if it is not the last one. -/
def Mp3Pc.reads (pc : Mp3Pc) (e : Mp3Env) : Option (List ℤ) :=
  match pc with
  | .read => if e.readLen ≤ 0 then none else some ((List.range e.readLen.toNat).map e.rawBuffer)
  | _ => none

/-- What instance `i` does in a step of the system. -/
def System.mp3Out (i : ℕ) (s : System) : SysAct → Option Mp3Out
  | .task .mp3 (.task j _) =>
    if j = i then ((s.task .mp3).pc i).perform (s.task .mp3).args s.hw else none
  | _ => none

def System.mp3Block (i : ℕ) (s : System) : SysAct → Option (List ℤ)
  | .task .mp3 (.task j e) => if j = i then ((s.task .mp3).pc i).reads e else none
  | _ => none

def mp3Log (i : ℕ) (l : Trace) : List Mp3Out := l.filterMap fun x => x.1.mp3Out i x.2.1

def mp3Reads (i : ℕ) (l : Trace) : List (List ℤ) := l.filterMap fun x => x.1.mp3Block i x.2.1

def opening (fileid : ℤ) : List Mp3Out := [.pipeline fileid, .enable]

def played (blocks : List (List ℤ)) : List Mp3Out := blocks.flatMap fun b => [.listen b, .write b]

theorem played_append (blocks : List (List ℤ)) (b : List ℤ) :
    played (blocks ++ [b]) = played blocks ++ [.listen b, .write b] := by
  simp [played]

namespace System

variable {i : ℕ} {s : System} {a : SysAct}

theorem mp3Out_of_ne (ha : ∀ e, a ≠ .task .mp3 (.task i e)) : s.mp3Out i a = none := by
  unfold mp3Out
  split
  · rename_i j e
    refine if_neg ?_
    rintro rfl
    exact ha e rfl
  · rfl

theorem mp3Block_of_ne (ha : ∀ e, a ≠ .task .mp3 (.task i e)) : s.mp3Block i a = none := by
  unfold mp3Block
  split
  · rename_i j e
    refine if_neg ?_
    rintro rfl
    exact ha e rfl
  · rfl

end System

theorem played_isPrefix {bs bs' : List (List ℤ)} (h : bs <+: bs') : played bs <+: played bs' := by
  obtain ⟨rest, rfl⟩ := h
  rw [played, played, List.flatMap_append]
  exact List.prefix_append _ _

/-- Where an instance is after these blocks and actions. -/
inductive Session (hw : Hw) : Mp3Pc → List (List ℤ) → List Mp3Out → Prop
  | pipeline : Session hw .pipeline [] []
  | enable (f : ℤ) : Session hw .enable [] [.pipeline f]
  | between {pc : Mp3Pc} (f : ℤ) (bs : List (List ℤ)) :
      pc = .loop ∨ pc = .read ∨ pc = .clear ∨ pc = .disable →
      Session hw pc bs (opening f ++ played bs)
  | listen (f : ℤ) (bs : List (List ℤ)) (len : ℤ) :
      Session hw (.listen len) (bs ++ [hw.buffered len.toNat]) (opening f ++ played bs)
  | write (f : ℤ) (bs : List (List ℤ)) (len : ℤ) :
      Session hw (.write len) (bs ++ [hw.buffered len.toNat])
        (opening f ++ played bs ++ [.listen (hw.buffered len.toNat)])
  | closed {pc : Mp3Pc} (f : ℤ) (bs : List (List ℤ)) :
      pc = .give ∨ pc = .setBits ∨ pc = .delete ∨ pc = .ended →
      Session hw pc bs (opening f ++ played bs ++ [.disable])

namespace Session

variable {hw hw' : Hw} {pc pc' : Mp3Pc} {bs : List (List ℤ)} {log : List Mp3Out} {i : ℕ}
  {e : Mp3Env} {run : Bool} {args : ℤ} {eff : Effect}

theorem congr (h : Session hw pc bs log) (hbuf : hw'.i2sDataBuffer = hw.i2sDataBuffer) :
    Session hw' pc bs log := by
  have hbuffered (n : ℕ) : hw.buffered n = hw'.buffered n := by rw [Hw.buffered, ← hbuf, Hw.buffered]
  cases h with
  | pipeline => exact .pipeline
  | enable f => exact .enable f
  | between f bs hpc => exact .between f bs hpc
  | listen f bs len =>
    rw [hbuffered]
    exact .listen f bs len
  | write f bs len =>
    rw [hbuffered]
    exact .write f bs len
  | closed f bs hpc => exact .closed f bs hpc

theorem of_out (h : Session hw pc bs log) (hout : pc.role = .out) : Session hw' pc bs log := by
  cases h with
  | pipeline | enable | listen | write => cases hout
  | between f bs hpc => exact .between f bs hpc
  | closed f bs hpc => exact .closed f bs hpc

theorem task (h : Session hw pc bs log)
    (ht : soundPlayMp3Task e i run args pc hw = some (pc', eff, hw')) :
    Session hw' pc' (bs ++ (pc.reads e).toList) (log ++ (pc.perform args hw).toList) := by
  cases h with
  | pipeline =>
    cases ht
    exact .enable args
  | enable f =>
    cases ht
    exact .between f [] (.inl rfl)
  | between f bs hpc =>
    rcases hpc with rfl | rfl | rfl | rfl
    · cases ht
      simp only [Mp3Pc.reads, Mp3Pc.perform, Option.toList_none, List.append_nil]
      cases run
      · exact .between f bs (by simp)
      · exact .between f bs (by simp)
    · cases ht
      simp only [Mp3Pc.reads, Mp3Pc.perform, Option.toList_none, List.append_nil]
      split_ifs
      · rw [Option.toList_none, List.append_nil]
        exact .between f bs (by simp)
      · exact .listen f bs e.readLen
    · cases ht
      simp only [Mp3Pc.reads, Mp3Pc.perform, Option.toList_none, List.append_nil]
      exact .between f bs (by simp)
    · cases ht
      simp only [Mp3Pc.reads, Mp3Pc.perform, Option.toList_none, List.append_nil]
      exact .closed f bs (by simp)
  | listen f bs len =>
    cases ht
    simp only [Mp3Pc.reads, Mp3Pc.perform, Option.toList_none, List.append_nil]
    exact .write f bs len
  | write f bs len =>
    cases ht
    have hlog : opening f ++ played bs ++ [Mp3Out.listen (hw.buffered len.toNat)] ++
        [.write (hw.buffered len.toNat)] = opening f ++ played (bs ++ [hw.buffered len.toNat]) := by
      rw [played_append]
      simp
    simp only [Mp3Pc.reads, Mp3Pc.perform, Option.toList_none, Option.toList_some, List.append_nil,
      hlog]
    exact .between f _ (.inl rfl)
  | closed f bs hpc =>
    rcases hpc with rfl | rfl | rfl | rfl <;> cases ht
    all_goals
      simp only [Mp3Pc.reads, Mp3Pc.perform, Option.toList_none, List.append_nil]
      exact .closed f bs (by simp)

theorem aside {s s' : System} {a : SysAct} (h : Session s.hw ((s.task .mp3).pc i) bs log)
    (hinv : s.I2sInv) (hs : System.step s a = some s') (ha : ∀ e, a ≠ .task .mp3 (.task i e)) :
    Session s'.hw ((s.task .mp3).pc i) bs log := by
  rcases buffer_step hs with ⟨-, hbuf⟩ | ⟨o, ho, hact⟩
  · exact h.congr hbuf
  · refine h.of_out ?_
    by_contra hout
    have hrole : s.role (.mp3 i) ≠ .out := hout
    have howner := hinv.device.unique hrole ho
    rcases hact with ⟨j, e, rfl, rfl⟩ | ⟨j, e, rfl, rfl⟩
    · cases howner
    · cases howner
      exact ha e rfl

theorem ne_absent (h : Session hw pc bs log) : pc ≠ .absent := by
  rintro rfl
  cases h with
  | between _ _ hpc => simp at hpc
  | closed _ _ hpc => simp at hpc

theorem of_path {s s' : System} {l : Trace} (hl : Path System.step s l s') (hinv : s.I2sInv)
    (h : Session s.hw ((s.task .mp3).pc i) bs log) :
    Session s'.hw ((s'.task .mp3).pc i) (bs ++ mp3Reads i l) (log ++ mp3Log i l) := by
  induction hl generalizing bs log with
  | nil => simpa only [mp3Reads, mp3Log, List.filterMap_nil, List.append_nil] using h
  | @cons s t s' a l hs _ ih =>
    have hreads : mp3Reads i ((s, a, t) :: l) = (s.mp3Block i a).toList ++ mp3Reads i l := by
      rw [mp3Reads, List.filterMap_cons]
      cases s.mp3Block i a <;> rfl
    have hlog : mp3Log i ((s, a, t) :: l) = (s.mp3Out i a).toList ++ mp3Log i l := by
      rw [mp3Log, List.filterMap_cons]
      cases s.mp3Out i a <;> rfl
    rw [hreads, hlog, ← List.append_assoc, ← List.append_assoc]
    apply ih (hinv.step hs)
    obtain ⟨-, hseen⟩ := seen_of_step hinv.numbered h.ne_absent hs
    cases hseen with
    | aside hpc hev =>
      have hne (e : Mp3Env) : a ≠ .task .mp3 (.task i e) := by
        rintro rfl
        have hnone := hev Unit fun _ _ => some ()
        rw [System.performed, if_pos ⟨rfl, rfl⟩] at hnone
        cases hnone
      rw [System.mp3Block_of_ne hne, System.mp3Out_of_ne hne, hpc]
      simpa only [Option.toList_none, List.append_nil] using h.aside hinv hs hne
    | own e hae hr hpc =>
      rw [hae, System.mp3Block, if_pos rfl, System.mp3Out, if_pos rfl, hpc]
      exact h.task hr

/-- What has been done is the opening and what was read, but for the last block at most. -/
theorem log_of_session (h : Session hw pc bs log) :
    ∃ f, log <+: opening f ++ played bs ++ [.disable] ∧
      (bs ≠ [] → opening f ++ played bs.dropLast <+: log) ∧
      (pc.role = .out → log = opening f ++ played bs ++ [.disable]) := by
  cases h with
  | pipeline => exact ⟨0, List.nil_prefix, nofun, nofun⟩
  | enable f => exact ⟨f, ⟨[.enable, .disable], rfl⟩, nofun, nofun⟩
  | between f bs hpc =>
    refine ⟨f, List.prefix_append _ _, fun _ => ?_, fun hout => ?_⟩
    · exact (List.prefix_append_right_inj _).mpr (played_isPrefix (List.dropLast_prefix bs))
    · rcases hpc with rfl | rfl | rfl | rfl <;> cases hout
  | listen f bs len =>
    refine ⟨f, ?_, fun _ => ?_, nofun⟩
    · rw [List.append_assoc]
      refine (List.prefix_append_right_inj _).mpr ?_
      exact (played_isPrefix (List.prefix_append _ _)).trans (List.prefix_append _ _)
    · rw [List.dropLast_concat]
  | write f bs len =>
    refine ⟨f, ?_, fun _ => ?_, nofun⟩
    · rw [played_append]
      exact ⟨[.write (hw.buffered len.toNat), .disable], by simp⟩
    · rw [List.dropLast_concat]
      exact List.prefix_append _ _
  | closed f bs hpc =>
    refine ⟨f, List.prefix_rfl, fun _ => ?_, fun _ => rfl⟩
    rw [List.append_assoc]
    refine (List.prefix_append_right_inj _).mpr ?_
    exact (played_isPrefix (List.dropLast_prefix bs)).trans (List.prefix_append _ _)

end Session

/-- Whatever else plays, starts, stops or restarts: an mp3 instance that has got the lock starts
its pipeline, enables the channel, shows each block that it reads to the listener and writes the
same block, in order and at most one behind, and disables the channel before it is over. -/
theorem mp3_played {s s' : System} {l : Trace} {i : ℕ}
    (hs : Reach System.step (fun _ _ => True) System.init s)
    (hpc : (s.task .mp3).pc i = .pipeline) (hl : Path System.step s l s') :
    ∃ fileid, mp3Log i l <+: opening fileid ++ played (mp3Reads i l) ++ [.disable] ∧
      (mp3Reads i l ≠ [] → opening fileid ++ played (mp3Reads i l).dropLast <+: mp3Log i l) ∧
      (((s'.task .mp3).pc i).role = .out →
        mp3Log i l = opening fileid ++ played (mp3Reads i l) ++ [.disable]) := by
  have hinv : s.I2sInv := hs.invariant .init fun _ _ _ hI _ hs => hI.step hs
  have hstart : Session s.hw ((s.task .mp3).pc i) [] [] := by
    rw [hpc]
    exact .pipeline
  have hsession := hstart.of_path hl hinv
  rw [List.nil_append, List.nil_append] at hsession
  exact hsession.log_of_session

def Mp3Pc.atPipeline : Mp3Pc → Bool
  | .pipeline => true
  | _ => false

theorem Mp3Pc.eq_of_atPipeline {pc : Mp3Pc} (h : pc.atPipeline = true) : pc = .pipeline := by
  unfold atPipeline at h
  split at h
  · rfl
  · cases h

theorem mp3_played_block : ∃ (s s' : System) (l : Trace), Path System.step s l s' ∧
    ((s'.task .mp3).pc 0).role = .out ∧
      ∃ fileid, mp3Log 0 l = opening fileid ++ played (mp3Reads 0 l) ++ [.disable] := by
  let block : Mp3Env := ⟨2, fun n => n, true⟩
  let last : Mp3Env := ⟨0, fun _ => 0, true⟩
  obtain ⟨s, hs, hrest⟩ : ∃ s, run System.step (fun _ a => System.solo a && true) System.init
      (soundPlayMp3Run 0 7 :: System.calls .mp3 4 ++ System.tasks .mp3 0 1 block) = some s ∧
      ((run System.step (fun _ _ => true) s (System.tasks .mp3 0 4 block ++
        (playNotesRun 0 none :: System.calls .notes 4 ++ System.tasks .notes 0 2 true) ++
        System.tasks .mp3 0 3 block ++ System.tasks .mp3 0 4 last)).map fun s' =>
          (((s.task .mp3).pc 0).atPipeline, decide (((s'.task .mp3).pc 0).role = .out))) =
        some (true, true) :=
    Option.bind_eq_some_iff.mp (by decide +kernel)
  obtain ⟨s', hs', hobs⟩ := Option.map_eq_some_iff.mp hrest
  obtain ⟨hpc, hout⟩ := Prod.mk.inj hobs
  obtain ⟨l, hl, -⟩ := path_of_run hs'
  have hplayed := mp3_played (System.reach_of_solo_run hs fun _ _ _ _ _ _ => trivial).1
    (Mp3Pc.eq_of_atPipeline hpc) hl
  obtain ⟨fileid, -, -, hall⟩ := hplayed
  exact ⟨s, s', l, hl, of_decide_eq_true hout, fileid, hall (of_decide_eq_true hout)⟩

end Car
