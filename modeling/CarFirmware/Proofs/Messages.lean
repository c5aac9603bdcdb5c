import CarFirmware.Proofs.Documents

/-! What a call of `handle_message` does to the documents, and what it leaves alone when
the document is no command. -/

namespace Car

open Handshake Transition

namespace Firmware

variable {s s' : Firmware} {a : FwAct} {r : Root}

theorem mainStep_of_step (h : s.step .main = some s') : s.mainStep = some s' := by
  unfold step at h
  split_ifs at h with hhalted hready
  exact h

theorem Step.others (h : Step s a s') (hmain : a ≠ .main) (hrecv : ∀ json, a ≠ .receive json) :
    s'.main = s.main ∧ s'.runCmdsRoot = s.runCmdsRoot ∧ s'.rV = s.rV ∧ s'.freed = s.freed := by
  cases h with
  | ignore => exact absurd rfl (hrecv _)
  | parse => exact absurd rfl (hrecv _)
  | main => exact absurd rfl hmain
  | restart _ _ hr => cases hr <;> exact ⟨rfl, rfl, rfl, rfl⟩
  | tick => exact ⟨rfl, rfl, rfl, rfl⟩
  | call => exact ⟨rfl, rfl, rfl, rfl⟩
  | task => exact ⟨rfl, rfl, rfl, rfl⟩

/-! ### Ownership -/

/-- No document is deleted twice, one that is not deleted has an owner, and the old
`run_cmds_root` has been deleted before it is overwritten. -/
structure Ledger (s : Firmware) : Prop where
  nodup : s.freed.Nodup
  kept : ∀ d < s.parsed, d ∉ s.freed → s.main.owned = some d ∨ s.runCmdsRoot = some d
  dropped : ∀ r, s.main = .setRoot r → ∀ d, s.runCmdsRoot = some d → d ∈ s.freed

theorem Ledger.init : Ledger Firmware.init where
  nodup := List.nodup_nil
  kept d hd := absurd hd (Nat.not_lt_zero d)
  dropped _ h := by cases h

theorem Ledger.keep (h : Ledger s) (howned : s'.main.owned = s.main.owned)
    (hset : ∀ r, s'.main = .setRoot r → s.main = .setRoot r)
    (hroot : s'.runCmdsRoot = s.runCmdsRoot) (hparsed : s'.parsed = s.parsed)
    (hfreed : s'.freed = s.freed) : Ledger s' := by
  refine ⟨?_, ?_, fun r hr => ?_⟩
  · rw [hfreed]
    exact h.nodup
  · rw [howned, hroot, hparsed, hfreed]
    exact h.kept
  · rw [hroot, hfreed]
    exact h.dropped r (hset r hr)

theorem Ledger.parse {json : Json} (h : Ledger s) (hidle : s.main = .idle) :
    Ledger { s with main := .type ⟨s.parsed, json⟩, parsed := s.parsed + 1 } := by
  refine ⟨h.nodup, fun d (hd : d < s.parsed + 1) hn => ?_, fun r hr => (by cases hr)⟩
  by_cases hnew : d = s.parsed
  · subst hnew
    exact .inl rfl
  · have hkept := h.kept d (by omega) hn
    rw [hidle] at hkept
    exact .inr (hkept.resolve_left (by simp [MainPc.owned]))

theorem Ledger.delete (h : Ledger s) (hs : Store s) (hmain : s.main = .delete r) :
    Ledger { s with main := .setRoot r, freed := s.freed ++ s.runCmdsRoot.toList } := by
  refine ⟨?_, ?_, ?_⟩
  · refine List.nodup_append.mpr ⟨h.nodup, by cases s.runCmdsRoot <;> simp, ?_⟩
    rintro d hd d' hd' rfl
    exact (hs.root d (Option.mem_toList.mp hd')).2 (by simp [hmain]) hd
  · intro d hd hn
    obtain ⟨hfreed, hroot⟩ := not_or.mp (mt List.mem_append.mpr hn)
    have hkept := h.kept d hd hfreed
    rw [hmain] at hkept
    exact .inl (hkept.resolve_right fun hd => hroot (Option.mem_toList.mpr hd))
  · intro _ _ d hd
    exact List.mem_append_right _ (Option.mem_toList.mpr hd)

theorem Ledger.setRoot (h : Ledger s) (hmain : s.main = .setRoot r) :
    Ledger { s with main := .item .v1 r, runCmdsRoot := some r.doc } := by
  refine ⟨h.nodup, fun d hd hn => ?_, fun r hr => (by cases hr)⟩
  have hkept := h.kept d hd hn
  rw [hmain] at hkept
  exact .inr (hkept.resolve_right fun hd => hn (h.dropped r hmain d hd))

theorem Ledger.out (h : Ledger s) (hs : Store s) (hmain : s.main = .out r) :
    Ledger { s with main := .idle, freed := s.freed ++ [r.doc] } := by
  obtain ⟨-, hnot, -⟩ := hs.owned r.doc (by rw [hmain]; rfl)
  refine ⟨?_, fun d hd hn => ?_, fun r hr => (by cases hr)⟩
  · refine List.nodup_append.mpr ⟨h.nodup, by simp, ?_⟩
    rintro d hd d' hd' rfl
    exact hnot (List.mem_singleton.mp hd' ▸ hd)
  · obtain ⟨hfreed, hne⟩ := not_or.mp (mt List.mem_append.mpr hn)
    refine .inr ((h.kept d hd hfreed).resolve_left ?_)
    rw [hmain]
    intro howned
    exact hne (List.mem_singleton.mpr (Option.some.inj howned).symm)

theorem Skip.setRoot_ne {pc pc' : MainPc} (h : Skip s pc pc') (r : Root) : pc' ≠ .setRoot r := by
  intro heq
  cases h
  case type r' =>
    have hearly := dispatch_early r'
    rw [heq] at hearly
    cases hearly
  all_goals cases heq

theorem Ledger.mainStep (h : Ledger s) (hs : Store s) (hm : MainStep s s') : Ledger s' := by
  cases hm
  case skip pc hskip =>
    exact h.keep hskip.owned (fun r hr => absurd hr (hskip.setRoot_ne r)) rfl rfl rfl
  case delete r hmain => exact h.delete hs hmain
  case setRoot r hmain => exact h.setRoot hmain
  case out r hmain => exact h.out hs hmain
  case abort => exact ⟨h.nodup, h.kept, h.dropped⟩
  case item x r hmain =>
    exact h.keep (by rw [hmain]; cases x <;> rfl) (fun r hr => (by cases x <;> cases hr))
      rfl rfl rfl
  all_goals
    rename_i hmain
    exact h.keep (by simp [*, MainPc.owned, goMain]) (by simp [goMain]) rfl rfl rfl

theorem Ledger.step (h : Ledger s) (hs : Store s) (hstep : Step s a s') : Ledger s' := by
  cases hstep with
  | ignore => exact h
  | parse hidle => exact h.parse hidle
  | main _ hm => exact h.mainStep hs hm
  | restart _ _ hr => cases hr <;> exact ⟨h.nodup, h.kept, h.dropped⟩
  | tick => exact ⟨h.nodup, h.kept, h.dropped⟩
  | call => exact ⟨h.nodup, h.kept, h.dropped⟩
  | task => exact ⟨h.nodup, h.kept, h.dropped⟩

theorem Ledger.run (h : Reach Firmware.step (fun _ _ => True) Firmware.init s) :
    Store s ∧ Ledger s :=
  h.invariant (I := fun s => Store s ∧ Ledger s) ⟨.init, .init⟩ fun _ _ _ hI _ hs =>
    ⟨hI.1.step (step_cases hs), hI.2.step hI.1 (step_cases hs)⟩

theorem Ledger.retained (h : Ledger s) (hs : Store s) (hidle : s.main = .idle) (d : ℕ) :
    (d < s.parsed ∧ d ∉ s.freed) ↔ s.runCmdsRoot = some d := by
  constructor
  · rintro ⟨hd, hn⟩
    have hkept := h.kept d hd hn
    rw [hidle] at hkept
    exact hkept.resolve_left (by simp [MainPc.owned])
  · intro hroot
    exact (hs.root d hroot).imp id fun hn => hn (by simp [hidle])

end Firmware

open Firmware

/-- Only parsed documents are deleted, none of them twice, and whenever no message is being
handled the only one that is not deleted is `run_cmds_root`. -/
theorem documents_owned {s : Firmware}
    (h : Reach Firmware.step (fun _ _ => True) Firmware.init s) :
    s.freed.Nodup ∧ (∀ d ∈ s.freed, d < s.parsed) ∧
      (s.main = .idle → ∀ d, (d < s.parsed ∧ d ∉ s.freed) ↔ s.runCmdsRoot = some d) := by
  obtain ⟨hstore, hledger⟩ := Ledger.run h
  exact ⟨hledger.nodup, hstore.freed, hledger.retained hstore⟩

def bareMessage : Json
  | .T => some (number C_CMDS)
  | _ => none

def keepBare : List FwAct := .receive (some bareMessage) :: mains 9

def MainPc.isIdle : MainPc → Bool
  | .idle => true
  | _ => false

theorem MainPc.isIdle_iff {pc : MainPc} : pc.isIdle = true ↔ pc = .idle := by
  cases pc <;> simp [isIdle]

theorem documents_owned_replaced : ∃ s : Firmware, s.freed = [0] ∧ 1 < s.parsed ∧ 1 ∉ s.freed := by
  obtain ⟨s, hs, hobs⟩ : ∃ s, run Firmware.step (fun _ _ => true) Firmware.init
      (keepBare ++ keepBare) = some s ∧
        (s.main.isIdle, s.freed, s.runCmdsRoot) = (true, [0], some 1) :=
    Option.map_eq_some_iff.mp (by decide +kernel)
  simp only [Prod.mk.injEq, MainPc.isIdle_iff] at hobs
  obtain ⟨hidle, hfreed, hroot⟩ := hobs
  obtain ⟨-, -, hkept⟩ := documents_owned (reach_of_run (fun _ _ _ => trivial) hs)
  exact ⟨s, hfreed, (hkept hidle 1).mpr hroot⟩

/-! ### Documents that are no command -/

def required (type : ℤ) : Option (List Key) :=
  if type = M_RUN then some [.m1d, .m1s, .m2d, .m2s]
  else if type = M_STOP then some []
  else if type = S_PLAY then some [.fileid]
  else if type = C_CMDS then some [.V .v1, .V .v2, .V .v3, .V .v4]
  else if type = C_STOP then some []
  else none

/-- `T` is the number of a message type, and no field of that type is missing. -/
def IsCommand (json : Json) : Prop :=
  ∃ type keys, json .T = some type ∧ type.isNumber = true ∧ required type.valueint = some keys ∧
    ∀ key ∈ keys, (json key).isSome

/-- All that a rejected message has to leave alone; `sys` are the motors, the players and
`run_cmds_is_run`. -/
structure Firmware.Untouched (s s' : Firmware) : Prop where
  sys : s'.sys = s.sys
  restart : s'.restart = s.restart
  lastKey : s'.lastKey = s.lastKey
  runCmdsRoot : s'.runCmdsRoot = s.runCmdsRoot
  rV : s'.rV = s.rV

namespace Firmware

variable {s s' : Firmware} {a : FwAct} {r : Root}

/-- Only for a `C_CMDS` is the test of the fields not made first. -/
theorem dispatch_of_not_isCommand (h : ¬ IsCommand r.json) :
    dispatch r = .out r ∨ dispatch r = .cCmds r := by
  unfold dispatch
  cases htype : r.json .T with
  | none => exact .inl rfl
  | some type =>
    have hfields (keys : List Key) (hkeys : required type.valueint = some keys)
        (hnum : type.isNumber = true) : ∃ key ∈ keys, r.json key = none := by
      by_contra hall
      exact h ⟨type, keys, htype, hnum, hkeys, fun key hkey =>
        Option.isSome_iff_ne_none.mpr fun hnone => hall ⟨key, hkey, hnone⟩⟩
    simp only
    split_ifs with hnum hrun hstop hplay hcmds hcstop
    · exact .inl rfl
    · obtain ⟨key, hkey, hnone⟩ := hfields _ (if_pos hrun) (by simpa using hnum)
      simp only [List.mem_cons, List.not_mem_nil, or_false] at hkey
      left
      split
      · rcases hkey with rfl | rfl | rfl | rfl <;> simp_all
      · rfl
    · obtain ⟨key, hkey, -⟩ := hfields []
        (by simp [required, hstop, M_RUN, M_STOP]) (by simpa using hnum)
      cases hkey
    · obtain ⟨key, hkey, hnone⟩ := hfields [.fileid]
        (by simp [required, hplay, M_RUN, M_STOP, S_PLAY]) (by simpa using hnum)
      obtain rfl := List.mem_singleton.mp hkey
      rw [hnone]
      exact .inl rfl
    · exact .inr rfl
    · obtain ⟨key, hkey, -⟩ := hfields []
        (by simp [required, hcstop, M_RUN, M_STOP, S_PLAY, C_CMDS, C_STOP]) (by simpa using hnum)
      cases hkey
    · exact .inl rfl

/-- The test of `run_cmds_is_run`, if the step is one, finds it set. -/
def BusyTest (s : Firmware) (a : FwAct) : Prop :=
  a = .main → ∀ r, s.main = .cCmds r → s.sys.hw.runCmdsIsRun = true

/-- The message thread is about to delete the document `r`, or has done so. -/
def Rejecting (r : Root) (s : Firmware) : Prop :=
  s.main = .type r ∨ s.main = .cCmds r ∨ s.main = .out r ∨ (s.main = .idle ∧ r.doc ∈ s.freed)

def Taking (r : Root) (s : Firmware) : Prop :=
  s.main = .delete r ∨ s.main = .setRoot r ∨
    (s.runCmdsRoot = some r.doc ∧ (s.main.inRun = true ∨ s.main = .idle) ∧
      (∀ r, s.main ≠ .delete r) ∧ ∀ r, s.main ≠ .setRoot r)

theorem Rejecting.step (h : Rejecting r s) (hcmd : ¬ IsCommand r.json)
    (hrecv : ∀ json, a ≠ .receive json) (hs : s.step a = some s') :
    (Rejecting r s' ∧ BusyTest s a ∧ (a = .main → Untouched s s')) ∨
      (Taking r s' ∧ ¬ BusyTest s a) := by
  by_cases ha : a = .main
  case neg =>
    obtain ⟨hmain, -, -, hfreed⟩ := (step_cases hs).others ha hrecv
    refine .inl ⟨?_, fun heq => absurd heq ha, fun heq => absurd heq ha⟩
    rw [Rejecting, hmain, hfreed]
    exact h
  subst ha
  have hm := mainStep_of_step hs
  rcases h with hmain | hmain | hmain | ⟨hmain, -⟩
  · obtain rfl : s.goMain (dispatch r) = s' := by simpa [mainStep, hmain] using hm
    refine .inl ⟨?_, fun _ r' hr => ?_, fun _ => ⟨rfl, rfl, rfl, rfl, rfl⟩⟩
    · rcases dispatch_of_not_isCommand hcmd with hout | hcmds
      · exact .inr (.inr (.inl hout))
      · exact .inr (.inl hcmds)
    · rw [hmain] at hr
      cases hr
  · cases hflag : s.sys.hw.runCmdsIsRun with
    | true =>
      obtain rfl : s.goMain (.out r) = s' := by simpa [mainStep, hmain, hflag] using hm
      exact .inl ⟨.inr (.inr (.inl rfl)), fun _ _ _ => hflag, fun _ => ⟨rfl, rfl, rfl, rfl, rfl⟩⟩
    | false =>
      obtain rfl : s.goMain (.delete r) = s' := by simpa [mainStep, hmain, hflag] using hm
      refine .inr ⟨.inl rfl, fun hbusy => ?_⟩
      rw [hbusy rfl r hmain] at hflag
      cases hflag
  · obtain rfl : { s with main := .idle, freed := s.freed ++ [r.doc] } = s' := by
      simpa [mainStep, hmain] using hm
    refine .inl ⟨.inr (.inr (.inr ⟨rfl, by simp⟩)), fun _ r' hr => ?_,
      fun _ => ⟨rfl, rfl, rfl, rfl, rfl⟩⟩
    rw [hmain] at hr
    cases hr
  · simp [mainStep, hmain] at hm

theorem MainStep.keeps_root (hm : MainStep s s') (hrun : s.main.inRun = true)
    (hdelete : ∀ r, s.main ≠ .delete r) (hset : ∀ r, s.main ≠ .setRoot r) :
    s'.runCmdsRoot = s.runCmdsRoot ∧ (s'.main.inRun = true ∨ s'.main = .idle) ∧
      (∀ r, s'.main ≠ .delete r) ∧ ∀ r, s'.main ≠ .setRoot r := by
  cases hm
  case skip pc hs =>
    refine ⟨rfl, ?_⟩
    generalize s.main = m at hs hrun
    cases hs
    case null => simp [goMain]
    case full => simp [goMain, MainPc.inRun]
    all_goals cases hrun
  case abort => exact ⟨rfl, .inl hrun, hdelete, hset⟩
  case item x r hmain => exact ⟨rfl, .inl (by cases x <;> rfl), by cases x <;> simp [Var.andThen],
      by cases x <;> simp [Var.andThen]⟩
  case flagOn => simp [MainPc.inRun]
  case notesRun => simp [MainPc.inRun]
  case motorRun => simp [MainPc.inRun]
  case ledRun => simp
  all_goals simp_all [MainPc.inRun]

theorem Taking.step (h : Taking r s) (hrecv : ∀ json, a ≠ .receive json)
    (hs : s.step a = some s') : Taking r s' := by
  by_cases ha : a = .main
  case neg =>
    obtain ⟨hmain, hroot, -, -⟩ := (step_cases hs).others ha hrecv
    rw [Taking, hmain, hroot]
    exact h
  subst ha
  have hm := mainStep_of_step hs
  rcases h with hmain | hmain | ⟨hroot, hrun | hidle, hdelete, hset⟩
  · obtain rfl : { s with main := .setRoot r, freed := s.freed ++ s.runCmdsRoot.toList } = s' := by
      simpa [mainStep, hmain] using hm
    exact .inr (.inl rfl)
  · obtain rfl : { s with main := .item .v1 r, runCmdsRoot := some r.doc } = s' := by
      simpa [mainStep, hmain] using hm
    exact .inr (.inr ⟨rfl, .inl rfl, by simp, by simp⟩)
  · obtain ⟨heq, hrest⟩ := (mainStep_cases hm).keeps_root hrun hdelete hset
    exact .inr (.inr ⟨heq.trans hroot, hrest⟩)
  · simp [mainStep, hidle] at hm

variable {l : List (Firmware × FwAct × Firmware)}

/-- Once it has been taken over, the document is not deleted before the return. -/
theorem Taking.not_freed (h : Taking r s) (hstore : Store s) (hl : Path Firmware.step s l s')
    (hrecv : ∀ x ∈ l, ∀ json, x.2.1 ≠ .receive json) (hret : s'.main = .idle) :
    r.doc ∉ s'.freed := by
  obtain ⟨⟨htaking, hstore'⟩, -⟩ := hl.invariant (I := fun s => Taking r s ∧ Store s) ⟨h, hstore⟩
    fun s a s' hx hI hs => ⟨hI.1.step (hrecv _ hx) hs, hI.2.step (step_cases hs)⟩
  rcases htaking with hmain | hmain | ⟨hroot, -⟩
  · rw [hret] at hmain
    cases hmain
  · rw [hret] at hmain
    cases hmain
  · exact (hstore'.root r.doc hroot).2 (by simp [hret])

theorem Rejecting.busy (h : Rejecting r s) (hcmd : ¬ IsCommand r.json) (hstore : Store s)
    (hl : Path Firmware.step s l s') (hrecv : ∀ x ∈ l, ∀ json, x.2.1 ≠ .receive json)
    (hret : s'.main = .idle) (hfreed : r.doc ∈ s'.freed) : ∀ x ∈ l, BusyTest x.1 x.2.1 := by
  induction hl with
  | nil => simp
  | @cons s t s' a l ht hl ih =>
    have ha : ∀ json, a ≠ .receive json := hrecv _ (List.mem_cons_self ..)
    have hrecv' : ∀ x ∈ l, ∀ json, x.2.1 ≠ .receive json := fun x hx =>
      hrecv x (List.mem_cons_of_mem _ hx)
    have hstore' : Store t := hstore.step (step_cases ht)
    rcases h.step hcmd ha ht with ⟨hrej, hbusy, -⟩ | ⟨htaking, -⟩
    · intro x hx
      rcases List.mem_cons.mp hx with rfl | hx
      · exact hbusy
      · exact ih hrej hstore' hrecv' hret hfreed x hx
    · exact absurd hfreed (htaking.not_freed hstore' hl hrecv' hret)

theorem Rejecting.untouched (h : Rejecting r s) (hcmd : ¬ IsCommand r.json)
    (hl : Path Firmware.step s l s') (hrecv : ∀ x ∈ l, ∀ json, x.2.1 ≠ .receive json)
    (hret : s'.main = .idle) (hbusy : ∀ x ∈ l, BusyTest x.1 x.2.1) :
    (∀ x ∈ l, x.2.1 = .main → Untouched x.1 x.2.2) ∧ r.doc ∈ s'.freed := by
  have hstep (s : Firmware) (a : FwAct) (s' : Firmware) (hx : (s, a, s') ∈ l) (hI : Rejecting r s)
      (hs : s.step a = some s') : Rejecting r s' ∧ (a = .main → Untouched s s') := by
    rcases hI.step hcmd (hrecv _ hx) hs with ⟨hrej, -, hsame⟩ | ⟨-, hnot⟩
    · exact ⟨hrej, hsame⟩
    · exact absurd (hbusy _ hx) hnot
  obtain ⟨hrej, hall⟩ := hl.invariant h fun s a s' hx hI hs => (hstep s a s' hx hI hs).1
  refine ⟨fun x hx => (hstep _ _ _ hx (hall x hx).1 (hall x hx).2).2, ?_⟩
  rcases hrej with hmain | hmain | hmain | ⟨-, hfreed⟩
  · rw [hret] at hmain
    cases hmain
  · rw [hret] at hmain
    cases hmain
  · rw [hret] at hmain
    cases hmain
  · exact hfreed

theorem receive_cases {json : Json} (h : s.step (.receive (some json)) = some s') :
    s.main = .idle ∧ s' = { s with main := .type ⟨s.parsed, json⟩, parsed := s.parsed + 1 } := by
  unfold step at h
  split_ifs at h with hhalted hready
  simp only [receive] at h
  cases hmain : s.main <;> simp only [hmain] at h
  case idle => exact ⟨rfl, (Option.some.inj h).symm⟩
  all_goals cases h

end Firmware

open Firmware

/-- The call of `handle_message` for a document that is no command changes nothing, whatever
happens in between, and deletes the document, if and only if its test of
`run_cmds_is_run`, where it comes to one, finds it set. -/
theorem rejected_untouched_iff {s s₁ s₂ : Firmware} {json : Json}
    {l : List (Firmware × FwAct × Firmware)}
    (h : Reach Firmware.step (fun _ _ => True) Firmware.init s) (hcmd : ¬ IsCommand json)
    (hcall : s.step (.receive (some json)) = some s₁) (hl : Path Firmware.step s₁ l s₂)
    (hrecv : ∀ x ∈ l, ∀ json, x.2.1 ≠ .receive json) (hret : s₂.main = .idle) :
    (Untouched s s₁ ∧ (∀ x ∈ l, x.2.1 = .main → Untouched x.1 x.2.2) ∧ s.parsed ∈ s₂.freed) ↔
      ∀ x ∈ l, BusyTest x.1 x.2.1 := by
  have hstore : Store s₁ := (Ledger.run h).1.step (step_cases hcall)
  obtain ⟨-, rfl⟩ := receive_cases hcall
  have hrej : Rejecting ⟨s.parsed, json⟩
      { s with main := .type ⟨s.parsed, json⟩, parsed := s.parsed + 1 } := .inl rfl
  constructor
  · rintro ⟨-, -, hfreed⟩
    exact hrej.busy hcmd hstore hl hrecv hret hfreed
  · intro hbusy
    exact ⟨⟨rfl, rfl, rfl, rfl, rfl⟩, hrej.untouched hcmd hl hrecv hret hbusy⟩

def FwAct.isReceive : FwAct → Bool
  | .receive _ => true
  | _ => false

namespace Firmware

def handlesBusy (s : Firmware) (a : FwAct) : Bool :=
  !a.isReceive && match s.main with
    | .cCmds _ => s.sys.hw.runCmdsIsRun
    | _ => true

variable {s : Firmware} {a : FwAct}

theorem ne_receive_of_handlesBusy (h : s.handlesBusy a = true) (json : Option Json) :
    a ≠ .receive json := by
  rintro rfl
  cases h

theorem busyTest_of_handlesBusy (h : s.handlesBusy a = true) : BusyTest s a := by
  rintro rfl r hmain
  simpa [handlesBusy, hmain, FwAct.isReceive] using h

end Firmware

theorem bareMessage_not_isCommand : ¬ IsCommand bareMessage := by
  rintro ⟨type, keys, htype, -, hkeys, hall⟩
  obtain rfl : number C_CMDS = type := Option.some.inj htype
  obtain rfl : [.V .v1, .V .v2, .V .v3, .V .v4] = keys := Option.some.inj hkeys
  exact absurd (hall (.V .v1) (List.mem_cons_self ..)) (by decide)

theorem rejected_untouched_busy : ∃ (s : Firmware) (l : List (Firmware × FwAct × Firmware)),
    l ≠ [] ∧ (∀ x ∈ l, x.2.1 = .main → Untouched x.1 x.2.2) ∧ 1 ∈ s.freed := by
  obtain ⟨s, hs, hrest⟩ : ∃ s, run Firmware.step (fun _ _ => true) Firmware.init
      (startTracks (cmdsMessage 0 [] [] [])) = some s ∧
        ((s.step (.receive (some bareMessage))).bind fun s₁ =>
          (run Firmware.step handlesBusy s₁ (mains 3)).map fun s₂ =>
            (s.parsed, s₁.main.isIdle, s₂.main.isIdle)) = some (1, false, true) :=
    Option.bind_eq_some_iff.mp (by decide +kernel)
  obtain ⟨s₁, hcall, hrest⟩ := Option.bind_eq_some_iff.mp hrest
  obtain ⟨s₂, hs₂, hobs⟩ := Option.map_eq_some_iff.mp hrest
  simp only [Prod.mk.injEq, MainPc.isIdle_iff] at hobs
  obtain ⟨hparsed, hbegun, hret⟩ := hobs
  obtain ⟨l, hl, hgood⟩ := path_of_run hs₂
  have hbusy : ∀ x ∈ l, BusyTest x.1 x.2.1 := fun x hx => busyTest_of_handlesBusy (hgood x hx)
  obtain ⟨-, hsame, hfreed⟩ := (rejected_untouched_iff (reach_of_run (fun _ _ _ => trivial) hs)
    bareMessage_not_isCommand hcall hl
    (fun x hx => ne_receive_of_handlesBusy (hgood x hx)) hret).mpr hbusy
  refine ⟨s₂, l, ?_, hsame, hparsed ▸ hfreed⟩
  rintro rfl
  cases hl
  rw [hret] at hbegun
  cases hbegun

/-- The bare message as the first one: it becomes `run_cmds_root`, and is not deleted. -/
theorem rejected_kept : ¬ ∀ (s s₁ s₂ : Firmware) (json : Json)
    (l : List (Firmware × FwAct × Firmware)),
    Reach Firmware.step (fun _ _ => True) Firmware.init s → ¬ IsCommand json →
      s.step (.receive (some json)) = some s₁ → Path Firmware.step s₁ l s₂ →
        (∀ x ∈ l, ∀ json, x.2.1 ≠ .receive json) → s₂.main = .idle →
          Untouched s s₁ ∧ (∀ x ∈ l, x.2.1 = .main → Untouched x.1 x.2.2) ∧
            s.parsed ∈ s₂.freed := by
  intro h
  obtain ⟨s₁, hcall, hrest⟩ : ∃ s₁, Firmware.init.step (.receive (some bareMessage)) = some s₁ ∧
      ((run Firmware.step (fun _ a => !a.isReceive) s₁ (mains 9)).map fun s₂ =>
        (s₂.main.isIdle, s₂.freed)) = some (true, []) :=
    Option.bind_eq_some_iff.mp (by decide +kernel)
  obtain ⟨s₂, hs₂, hobs⟩ := Option.map_eq_some_iff.mp hrest
  simp only [Prod.mk.injEq, MainPc.isIdle_iff] at hobs
  obtain ⟨hret, hfreed⟩ := hobs
  obtain ⟨l, hl, hgood⟩ := path_of_run hs₂
  have hrecv : ∀ x ∈ l, ∀ json, x.2.1 ≠ .receive json := by
    rintro x hx json heq
    have hnot := hgood x hx
    rw [heq] at hnot
    cases hnot
  obtain ⟨-, -, hmem⟩ := h _ _ _ _ _ .refl bareMessage_not_isCommand hcall hl hrecv hret
  rw [hfreed] at hmem
  cases hmem

end Car
