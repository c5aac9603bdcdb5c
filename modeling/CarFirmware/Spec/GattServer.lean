import CarFirmware.Spec.BtGatts
import CarFirmware.Spec.PrepareWrite

/-! `bt_gatts.c`: the event handlers of the GATT server. A handler puts out the calls that it
makes; the source only logs what they return. -/

namespace Car.GattServer

open PrepareWrite

abbrev HRS_IDX_NB : ℕ := 8

def IDX_SVC : Fin HRS_IDX_NB := 0

def IDX_CHAR_VAL_C : Fin HRS_IDX_NB := 7

def SVC_INST_ID : ℕ := 0

def ESP_GATT_IF_NONE : ℕ := 0xff

def ESP_GATT_OK : ℕ := 0

def ADV_CONFIG_FLAG : UInt8 := 1

def SCAN_RSP_CONFIG_FLAG : UInt8 := 2

def rawAdvData : List UInt8 :=
  [0x02, 0x01, 0x06, 0x02, 0x0a, 0xeb, 0x03, 0x03, 0xFF, 0xC3,
    0x0a, 0x09, 77, 85, 83, 73, 67, 95, 67, 65, 82]

def rawScanRspData : List UInt8 := [0x02, 0x01, 0x06, 0x02, 0x0a, 0xeb, 0x03, 0x03, 0xFF, 0xC3]

structure ConnParams where
  bda : List UInt8
  minInt : ℕ
  maxInt : ℕ
  latency : ℕ
  timeout : ℕ

/-- The calls into the Bluetooth stack, `wifi_set_config_and_start`, and the bytes that an
execute write logs. -/
inductive Call where
  | gapSetDeviceName (name : String)
  | gapConfigAdvDataRaw (data : List UInt8)
  | gapConfigScanRspDataRaw (data : List UInt8)
  | gapStartAdvertising
  | gapUpdateConnParams (params : ConnParams)
  | gattsCreateAttrTab (gattsIf num instId : ℕ)
  | gattsStartService (handle : ℕ)
  | gattsSendResponse (rsp : Response)
  | gattsSendResponseNull (gattsIf connId transId : ℕ)
  | wifiSetConfigAndStart (config : WifiConfig)
  | logBufferHex (bytes : List UInt8)

/-- `esp_gap_ble_cb_event_t` under `CONFIG_SET_RAW_ADV_DATA`; the events that are only logged
are one. -/
inductive GapEvent where
  | advDataRawSetComplete
  | scanRspDataRawSetComplete
  | logged

/-- `esp_gatts_cb_event_t` with the parameters that are read. `mem` and `rspMem` are what
`malloc` returns to a prepare write; the events that are only logged are one. -/
inductive GattsEvent where
  | reg (status : ℕ)
  | write (isPrep : Bool) (mem : Option PrepareBuf) (rspMem : Bool) (w : Fragment)
  | execWrite (flag : ExecWriteFlag)
  | connect (remoteBda : List UInt8)
  | disconnect
  | creatAttrTab (status : ℕ) (handles : List ℕ)
  | logged

/-- The statics of the file; `gattsIf` is `heart_rate_profile_tab[PROFILE_APP_IDX].gatts_if`. -/
structure State where
  advConfigDone : UInt8
  handleTable : Fin HRS_IDX_NB → ℕ
  prepareWriteEnv : PrepareTypeEnv
  gattsIf : ℕ

def State.init : State := ⟨0, fun _ => 0, .init, ESP_GATT_IF_NONE⟩

def configComplete (s : State) (flag : UInt8) : State × List Call :=
  let done := s.advConfigDone &&& ~~~flag
  ({ s with advConfigDone := done }, if done = 0 then [.gapStartAdvertising] else [])

def gapEventHandler (s : State) : GapEvent → State × List Call
  | .advDataRawSetComplete => configComplete s ADV_CONFIG_FLAG
  | .scanRspDataRawSetComplete => configComplete s SCAN_RSP_CONFIG_FLAG
  | .logged => (s, [])

/-- `ESP_GATTS_REG_EVT`. -/
def onReg (s : State) (gattsIf : ℕ) : State × List Call :=
  ({ s with advConfigDone := s.advConfigDone ||| ADV_CONFIG_FLAG ||| SCAN_RSP_CONFIG_FLAG },
    [.gapSetDeviceName "ESP_GATTS_DEMO", .gapConfigAdvDataRaw rawAdvData,
      .gapConfigScanRspDataRaw rawScanRspData, .gattsCreateAttrTab gattsIf HRS_IDX_NB SVC_INST_ID])

/-- The call of `wifi_set_config_and_start`, if the write makes it. -/
def startCalls : GattsOut → List Call
  | .started config => [.wifiSetConfigAndStart config]
  | _ => []

/-- `ESP_GATTS_WRITE_EVT` with `is_prep` false; `none` when the write leaves an array. -/
def onWrite (s : State) (gattsIf : ℕ) (w : Fragment) : Option (State × List Call) :=
  (gattsWriteEvt (s.handleTable IDX_CHAR_VAL_C) ⟨false, w.handle, w.value⟩).map fun out =>
    let rsp := if w.needRsp then [.gattsSendResponseNull gattsIf w.connId w.transId] else []
    (s, startCalls out ++ rsp)

/-- `ESP_GATTS_WRITE_EVT` with `is_prep` true. -/
def onPrepareWrite (s : State) (gattsIf : ℕ) (mem : Option PrepareBuf) (rspMem : Bool)
    (w : Fragment) : Option (State × List Call) :=
  (examplePrepareWriteEventEnv gattsIf s.prepareWriteEnv mem rspMem w).map fun out =>
    ({ s with prepareWriteEnv := out.1 }, out.2.toList.map .gattsSendResponse)

/-- `ESP_GATTS_EXEC_WRITE_EVT`. -/
def onExecWrite (s : State) (flag : ExecWriteFlag) : Option (State × List Call) :=
  (exampleExecWriteEventEnv s.prepareWriteEnv flag).map fun out =>
    ({ s with prepareWriteEnv := out.1 }, out.2.toList.map .logBufferHex)

/-- `ESP_GATTS_CREAT_ATTR_TAB_EVT`; `num_handle` is the number of the handles. -/
def onCreatAttrTab (s : State) (status : ℕ) (handles : List ℕ) : State × List Call :=
  if status ≠ ESP_GATT_OK then (s, [])
  else if h : handles.length ≠ HRS_IDX_NB then (s, [])
  else
    let table i := handles.get (Fin.cast (not_not.mp h).symm i)
    ({ s with handleTable := table }, [.gattsStartService (table IDX_SVC)])

def gattsProfileEventHandler (s : State) (gattsIf : ℕ) : GattsEvent → Option (State × List Call)
  | .reg _ => some (onReg s gattsIf)
  | .write false _ _ w => onWrite s gattsIf w
  | .write true mem rspMem w => onPrepareWrite s gattsIf mem rspMem w
  | .execWrite flag => onExecWrite s flag
  | .connect remoteBda =>
    some (s, [.gapUpdateConnParams ⟨remoteBda, 0x10, 0x20, 0, 400⟩])
  | .disconnect => some (s, [.gapStartAdvertising])
  | .creatAttrTab status handles => some (onCreatAttrTab s status handles)
  | .logged => some (s, [])

/-- The part of `gatts_event_handler` that stores the interface; `none` when it returns. -/
def storeGattsIf (s : State) (gattsIf : ℕ) : GattsEvent → Option State
  | .reg status => if status = ESP_GATT_OK then some { s with gattsIf := gattsIf } else none
  | _ => some s

/-- The profile is called for its own interface, and for all when none is named. -/
def Listens (own gattsIf : ℕ) : Prop := gattsIf = ESP_GATT_IF_NONE ∨ gattsIf = own

instance (own gattsIf : ℕ) : Decidable (Listens own gattsIf) := inferInstanceAs (Decidable (_ ∨ _))

def gattsEventHandler (s : State) (gattsIf : ℕ) (event : GattsEvent) :
    Option (State × List Call) :=
  match storeGattsIf s gattsIf event with
  | none => some (s, [])
  | some s =>
    if Listens s.gattsIf gattsIf then gattsProfileEventHandler s gattsIf event else some (s, [])

/-- The callbacks that `bt_gatts_init_and_run` registers. -/
inductive Event where
  | gap (event : GapEvent)
  | gatts (gattsIf : ℕ) (event : GattsEvent)

def State.step (s : State) : Event → Option (State × List Call)
  | .gap event => some (gapEventHandler s event)
  | .gatts gattsIf event => gattsEventHandler s gattsIf event

end Car.GattServer
