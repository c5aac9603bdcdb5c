import CarFirmware.Lib.CArray
import Mathlib.Data.UInt

/-! `bt_gatts.c`: values that a client writes in fragments. The first fragment allocates the
buffer and each one is copied to its offset; an execute or a cancel frees the buffer. -/

namespace Car.PrepareWrite

def PREPARE_BUF_MAX_SIZE : ℕ := 1024

abbrev PrepareBuf := Fin PREPARE_BUF_MAX_SIZE → UInt8

/-- `prepare_type_env_t`; `none` is `NULL`. -/
structure PrepareTypeEnv where
  prepareBuf : Option PrepareBuf
  prepareLen : ℕ

def PrepareTypeEnv.init : PrepareTypeEnv := ⟨none, 0⟩

inductive GattStatus where
  | ok
  | noResources
  | invalidOffset
  | invalidAttrLen
deriving DecidableEq

/-- `param->write` of a prepare write; `value` are the `len` bytes. -/
structure Fragment where
  connId : ℕ
  transId : ℕ
  handle : ℕ
  offset : ℕ
  needRsp : Bool
  value : List UInt8

/-- What `esp_ble_gatts_send_response` is called with. -/
structure Response where
  gattsIf : ℕ
  connId : ℕ
  transId : ℕ
  status : GattStatus
  len : ℕ
  handle : ℕ
  offset : ℕ
  value : List UInt8

/-- The part of `example_prepare_write_event_env` that settles `status`. `mem` is what the
`malloc` of the buffer returns. -/
def prepareStatus (env : PrepareTypeEnv) (mem : Option PrepareBuf) (w : Fragment) :
    PrepareTypeEnv × GattStatus :=
  match env.prepareBuf with
  | none =>
    match mem with
    | none => (⟨none, 0⟩, .noResources)
    | some buf => (⟨some buf, 0⟩, .ok)
  | some _ =>
    if w.offset > PREPARE_BUF_MAX_SIZE then (env, .invalidOffset)
    else if w.offset + w.value.length > PREPARE_BUF_MAX_SIZE then (env, .invalidAttrLen)
    else (env, .ok)

/-- The response it sends; `rspMem` is false when there is no memory for it. -/
def prepareResponse (gattsIf : ℕ) (status : GattStatus) (rspMem : Bool) (w : Fragment) :
    Option Response :=
  if w.needRsp && rspMem then
    some {
      gattsIf := gattsIf
      connId := w.connId
      transId := w.transId
      status := status
      len := w.value.length
      handle := w.handle
      offset := w.offset
      value := w.value }
  else none

/-- The copy behind the response. -/
def copyFragment (env : PrepareTypeEnv) (w : Fragment) : Option PrepareTypeEnv := do
  let buf ← env.prepareBuf
  let buf ← CArray.memcpy buf w.offset w.value
  some ⟨some buf, env.prepareLen + w.value.length⟩

/-- `example_prepare_write_event_env`; `none` when it writes outside the buffer. -/
def examplePrepareWriteEventEnv (gattsIf : ℕ) (env : PrepareTypeEnv) (mem : Option PrepareBuf)
    (rspMem : Bool) (w : Fragment) : Option (PrepareTypeEnv × Option Response) :=
  let (env, status) := prepareStatus env mem w
  let rsp := prepareResponse gattsIf status rspMem w
  if status ≠ .ok then some (env, rsp)
  else (copyFragment env w).map fun env => (env, rsp)

inductive ExecWriteFlag where
  | cancel
  | exec

/-- `example_exec_write_event_env` with the bytes it logs; `none` when it reads outside the
buffer. -/
def exampleExecWriteEventEnv (env : PrepareTypeEnv) (flag : ExecWriteFlag) :
    Option (PrepareTypeEnv × Option (List UInt8)) :=
  match flag, env.prepareBuf with
  | .exec, some buf => (CArray.read buf env.prepareLen).map fun bytes => (⟨none, 0⟩, some bytes)
  | _, _ => some (⟨none, 0⟩, none)

/-- The events of `gatts_profile_event_handler` that use the buffer. -/
inductive Event where
  | prepareWrite (gattsIf : ℕ) (mem : Option PrepareBuf) (rspMem : Bool) (w : Fragment)
  | execWrite (flag : ExecWriteFlag)

def PrepareTypeEnv.step (env : PrepareTypeEnv) : Event → Option PrepareTypeEnv
  | .prepareWrite gattsIf mem rspMem w =>
    (examplePrepareWriteEventEnv gattsIf env mem rspMem w).map Prod.fst
  | .execWrite flag => (exampleExecWriteEventEnv env flag).map Prod.fst

end Car.PrepareWrite
