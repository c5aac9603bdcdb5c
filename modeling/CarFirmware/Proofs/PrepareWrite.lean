import CarFirmware.Spec.PrepareWrite
import CarFirmware.Lib.Transition

/-! The range check of `example_prepare_write_event_env` is on the path of the later fragments
only, and `prepare_len` counts the bytes of every copy, also of those that are copied over. A
run stays inside the buffer if and only if its first fragments are in range and the lengths
of a transaction fit. -/

namespace Car.PrepareWrite

open Transition CArray

variable {env env' : PrepareTypeEnv} {mem : Option PrepareBuf} {rspMem : Bool} {w : Fragment}
  {gattsIf len : ℕ} {status : GattStatus} {buf : PrepareBuf}

def Fragment.InRange (w : Fragment) : Prop := w.offset + w.value.length ≤ PREPARE_BUF_MAX_SIZE

theorem Fragment.InRange.copy (h : w.InRange) (buf : PrepareBuf) :
    ∃ buf', memcpy buf w.offset w.value = some buf' :=
  Option.isSome_iff_exists.mp (memcpy_isSome.mpr h)

def Copies (env : PrepareTypeEnv) (mem : Option PrepareBuf) (w : Fragment) : Prop :=
  (prepareStatus env mem w).2 = .ok

def Refused (env : PrepareTypeEnv) (gattsIf : ℕ) (rspMem : Bool) (w : Fragment)
    (out : PrepareTypeEnv × Option Response) : Prop :=
  out.1 = env ∧ ∃ status ≠ GattStatus.ok, out.2 = prepareResponse gattsIf status rspMem w

/-- The two functions stay inside the buffer and copy what is in range only. -/
def Guarded (env : PrepareTypeEnv) : Event → Prop
  | .prepareWrite gattsIf mem rspMem w =>
    ∃ out, examplePrepareWriteEventEnv gattsIf env mem rspMem w = some out ∧
      (Copies env mem w → w.InRange) ∧ (¬ w.InRange → Refused env gattsIf rspMem w out) ∧
      out.1.prepareLen ≤ PREPARE_BUF_MAX_SIZE
  | .execWrite flag =>
    ∃ out, exampleExecWriteEventEnv env flag = some out ∧
      out.1.prepareLen ≤ PREPARE_BUF_MAX_SIZE

/-- A first fragment is in range, and a later one that is in range does not take the sum of
the lengths beyond the buffer. -/
def Fits (env : PrepareTypeEnv) : Event → Prop
  | .prepareWrite _ mem _ w =>
    match env.prepareBuf with
    | none => mem.isSome = true → w.InRange
    | some _ => w.InRange → env.prepareLen + w.value.length ≤ PREPARE_BUF_MAX_SIZE
  | .execWrite _ => True

structure Inv (env : PrepareTypeEnv) : Prop where
  null : env.prepareBuf = none → env.prepareLen = 0
  bound : env.prepareLen ≤ PREPARE_BUF_MAX_SIZE

theorem Inv.init : Inv .init := ⟨fun _ => rfl, Nat.zero_le _⟩

theorem prepare_refused (hst : prepareStatus env mem w = (env', status)) (hne : status ≠ .ok) :
    examplePrepareWriteEventEnv gattsIf env mem rspMem w =
      some (env', prepareResponse gattsIf status rspMem w) := by
  simp only [examplePrepareWriteEventEnv, hst]
  rw [if_pos hne]

theorem prepare_copy (hst : prepareStatus env mem w = (⟨some buf, len⟩, .ok)) :
    examplePrepareWriteEventEnv gattsIf env mem rspMem w =
      (memcpy buf w.offset w.value).map fun buf' =>
        (⟨some buf', len + w.value.length⟩, prepareResponse gattsIf .ok rspMem w) := by
  simp only [examplePrepareWriteEventEnv, hst, copyFragment]
  rw [if_neg (by simp)]
  cases hcopy : memcpy buf w.offset w.value with
  | none => simp [hcopy]
  | some buf' => simp [hcopy]

theorem step_copy {buf' : PrepareBuf} (hst : prepareStatus env mem w = (⟨some buf, len⟩, .ok))
    (hcopy : memcpy buf w.offset w.value = some buf') :
    env.step (.prepareWrite gattsIf mem rspMem w) =
      some ⟨some buf', len + w.value.length⟩ := by
  rw [PrepareTypeEnv.step, prepare_copy hst, hcopy]
  rfl

theorem guarded_of_error (hst : prepareStatus env mem w = (env, status)) (hne : status ≠ .ok)
    (hlen : env.prepareLen ≤ PREPARE_BUF_MAX_SIZE) :
    Guarded env (.prepareWrite gattsIf mem rspMem w) := by
  refine ⟨_, prepare_refused hst hne, fun hcopies => ?_, fun _ => ⟨rfl, status, hne, rfl⟩, hlen⟩
  rw [Copies, hst] at hcopies
  exact absurd hcopies hne

theorem guarded_copy_iff (hst : prepareStatus env mem w = (⟨some buf, len⟩, .ok)) :
    Guarded env (.prepareWrite gattsIf mem rspMem w) ↔
      w.InRange ∧ len + w.value.length ≤ PREPARE_BUF_MAX_SIZE := by
  have hcopies : Copies env mem w := by rw [Copies, hst]
  constructor
  · rintro ⟨out, hout, hrange, -, hlen⟩
    rw [prepare_copy hst] at hout
    obtain ⟨buf', -, rfl⟩ := Option.map_eq_some_iff.mp hout
    exact ⟨hrange hcopies, hlen⟩
  · rintro ⟨hrange, hlen⟩
    obtain ⟨buf', hcopy⟩ := hrange.copy buf
    have hout : examplePrepareWriteEventEnv gattsIf env mem rspMem w =
        some (⟨some buf', len + w.value.length⟩, prepareResponse gattsIf .ok rspMem w) := by
      rw [prepare_copy hst, hcopy]
      rfl
    exact ⟨_, hout, fun _ => hrange, fun hnot => absurd hrange hnot, hlen⟩

theorem prepareStatus_inRange (hrange : w.InRange) :
    prepareStatus ⟨some buf, len⟩ mem w = (⟨some buf, len⟩, .ok) := by
  unfold Fragment.InRange at hrange
  simp only [prepareStatus]
  rw [if_neg (by omega), if_neg (by omega)]

theorem prepareStatus_out (mem : Option PrepareBuf) (hrange : ¬ w.InRange) :
    ∃ status ≠ GattStatus.ok, prepareStatus ⟨some buf, len⟩ mem w = (⟨some buf, len⟩, status) := by
  unfold Fragment.InRange at hrange
  simp only [prepareStatus]
  by_cases hoffset : w.offset > PREPARE_BUF_MAX_SIZE
  · exact ⟨.invalidOffset, by simp, by rw [if_pos hoffset]⟩
  · exact ⟨.invalidAttrLen, by simp, by rw [if_neg hoffset, if_pos (by omega)]⟩

theorem exec_init {flag : ExecWriteFlag} {out : PrepareTypeEnv × Option (List UInt8)}
    (h : exampleExecWriteEventEnv env flag = some out) : out.1 = .init := by
  unfold exampleExecWriteEventEnv at h
  split at h
  · obtain ⟨bytes, -, rfl⟩ := Option.map_eq_some_iff.mp h
    rfl
  · exact Option.some.inj h ▸ rfl

theorem exec_isSome (flag : ExecWriteFlag) (hlen : env.prepareLen ≤ PREPARE_BUF_MAX_SIZE) :
    (exampleExecWriteEventEnv env flag).isSome = true := by
  unfold exampleExecWriteEventEnv
  split
  · rw [Option.isSome_map, read_isSome]
    exact hlen
  · rfl

theorem guarded_execWrite {flag : ExecWriteFlag} (hlen : env.prepareLen ≤ PREPARE_BUF_MAX_SIZE) :
    Guarded env (.execWrite flag) := by
  obtain ⟨out, hout⟩ := Option.isSome_iff_exists.mp (exec_isSome flag hlen)
  exact ⟨out, hout, by rw [exec_init hout]; exact Nat.zero_le _⟩

theorem Inv.guarded_iff {e : Event} (h : Inv env) : Guarded env e ↔ Fits env e := by
  cases e with
  | execWrite flag => exact iff_of_true (guarded_execWrite h.bound) trivial
  | prepareWrite gattsIf mem rspMem w =>
    obtain ⟨prepareBuf, len⟩ := env
    cases prepareBuf with
    | none =>
      obtain rfl : len = 0 := h.null rfl
      cases mem with
      | none => exact iff_of_true (guarded_of_error rfl (by simp) h.bound) (by simp [Fits])
      | some buf =>
        rw [guarded_copy_iff rfl]
        constructor
        · exact fun hg _ => hg.1
        · intro hf
          have hrange : w.InRange := hf rfl
          exact ⟨hrange, by unfold Fragment.InRange at hrange; omega⟩
    | some buf =>
      by_cases hrange : w.InRange
      · rw [guarded_copy_iff (prepareStatus_inRange hrange)]
        exact ⟨fun hg _ => hg.2, fun hf => ⟨hrange, hf hrange⟩⟩
      · obtain ⟨status, hne, hst⟩ := prepareStatus_out mem hrange
        exact iff_of_true (guarded_of_error hst hne h.bound) fun hin => absurd hin hrange

theorem prepareStatus_null (h : Inv env) :
    (prepareStatus env mem w).1.prepareBuf = none → (prepareStatus env mem w).1.prepareLen = 0 := by
  unfold prepareStatus
  split
  · split <;> simp
  · split_ifs <;> exact h.null

theorem step_null {e : Event} (h : Inv env) (hs : env.step e = some env') :
    env'.prepareBuf = none → env'.prepareLen = 0 := by
  cases e with
  | execWrite flag =>
    obtain ⟨out, hout, rfl⟩ := Option.map_eq_some_iff.mp hs
    rw [exec_init hout]
    exact fun _ => rfl
  | prepareWrite gattsIf mem rspMem w =>
    obtain ⟨out, hout, rfl⟩ := Option.map_eq_some_iff.mp hs
    simp only [examplePrepareWriteEventEnv] at hout
    split_ifs at hout
    · obtain rfl := Option.some.inj hout
      exact prepareStatus_null h
    · obtain ⟨next, hcopy, rfl⟩ := Option.map_eq_some_iff.mp hout
      obtain ⟨buf, -, hcopy⟩ := Option.bind_eq_some_iff.mp hcopy
      obtain ⟨buf', -, hnext⟩ := Option.bind_eq_some_iff.mp hcopy
      exact Option.some.inj hnext ▸ fun hnull => nomatch hnull

theorem Guarded.bound {e : Event} (h : Guarded env e) (hs : env.step e = some env') :
    env'.prepareLen ≤ PREPARE_BUF_MAX_SIZE := by
  cases e with
  | prepareWrite gattsIf mem rspMem w =>
    obtain ⟨out, hout, -, -, hlen⟩ := h
    rw [PrepareTypeEnv.step, hout] at hs
    exact Option.some.inj hs ▸ hlen
  | execWrite flag =>
    obtain ⟨out, hout, hlen⟩ := h
    rw [PrepareTypeEnv.step, hout] at hs
    exact Option.some.inj hs ▸ hlen

theorem Inv.step {e : Event} (h : Inv env) (hfits : Fits env e) (hs : env.step e = some env') :
    Inv env' :=
  ⟨step_null h hs, (h.guarded_iff.mpr hfits).bound hs⟩

/-- In every run, the two functions keep to the buffer if and only if the first fragment of
each transaction is in range and the lengths of a transaction fit. -/
theorem prepareWrite_guarded_iff (es : List Event) :
    Always PrepareTypeEnv.step Guarded .init es ↔ Always PrepareTypeEnv.step Fits .init es :=
  always_congr Inv.init (fun _ _ h => h.guarded_iff) fun _ _ _ h => h.step

/-- The last byte of this fragment would be behind the buffer. -/
def lateFragment : Fragment where
  connId := 0
  transId := 1
  handle := 42
  offset := 1020
  needRsp := true
  value := List.replicate 5 0

/-- In range, but three of them make 1536 bytes. -/
def frontFragment : Fragment where
  connId := 0
  transId := 1
  handle := 42
  offset := 0
  needRsp := true
  value := List.replicate 512 0

/-- As a first fragment the one is copied beyond the buffer; the other, sent three times,
takes `prepare_len` beyond it. -/
theorem not_always_guarded :
    ¬ Always PrepareTypeEnv.step Guarded .init [.prepareWrite 3 (some 0) true lateFragment] ∧
    ¬ Always PrepareTypeEnv.step Guarded .init
      (List.replicate 3 (.prepareWrite 3 (some 0) true frontFragment)) := by
  constructor
  · intro h
    have hfits : Fits .init (.prepareWrite 3 (some 0) true lateFragment) :=
      Inv.init.guarded_iff.mp h.1
    exact absurd (hfits rfl) (by unfold Fragment.InRange; decide)
  · intro h
    have hlength : frontFragment.value.length = 512 := List.length_replicate
    have hrange : frontFragment.InRange := by
      rw [Fragment.InRange, hlength]
      decide
    obtain ⟨buf₁, h₁⟩ := hrange.copy 0
    obtain ⟨buf₂, h₂⟩ := hrange.copy buf₁
    have hthird := ((h.2 _ (step_copy rfl h₁)).2 _
      (step_copy (prepareStatus_inRange hrange) h₂)).1
    have hlen := ((guarded_copy_iff (prepareStatus_inRange hrange)).mp hthird).2
    rw [hlength] at hlen
    exact absurd hlen (by decide)

end Car.PrepareWrite
