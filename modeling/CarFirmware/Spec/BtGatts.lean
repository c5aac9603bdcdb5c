import CarFirmware.Lib.CArray
import Mathlib.Data.UInt

/-! `bt_gatts.c`: writes to characteristic C, which carry the WiFi credentials, and
`wifi_set_config_and_start` of `my_wifi.c`. -/

namespace Car

def GATTS_DEMO_CHAR_VAL_LEN_MAX : ℕ := 500

/-- `wifi_config.sta`, as far as it is not zero. -/
structure WifiConfig where
  ssid : Fin 32 → UInt8
  password : Fin 64 → UInt8

/-- `wifi_set_config_and_start`: the configuration it stores. -/
def wifiSetConfigAndStart (ssid : Fin 33 → UInt8) (passwd : Fin 65 → UInt8) :
    Option WifiConfig := do
  let stored ← CArray.memcpy 0 0 ((List.ofFn ssid).take 32)
  let password ← CArray.memcpy 0 0 ((List.ofFn passwd).take 64)
  some ⟨stored, password⟩

def newline : UInt8 := 10

/-- The search loop of `gatts_handle_CHAR_VAL_C_write`. -/
def splitIdx : List UInt8 → ℕ
  | [] => 0
  | x :: xs => if x = newline then 0 else splitIdx xs + 1

/-- The bytes that the two `memcpy` of `gatts_handle_CHAR_VAL_C_write` copy to `ssid` and
to `passwd`; `none` in the branch that warns about a wrong format. -/
def gattsCopies (value : List UInt8) : Option (List UInt8 × List UInt8) :=
  let len := value.length
  let split := splitIdx value
  if split = 0 ∨ len ≤ split ∨ 32 < split then none
  else some (value.take split, (value.drop (split + 1)).take (len - split - 1))

inductive GattsOut where
  | ignored
  | wrongFormat
  | started (config : WifiConfig)

/-- `ssid` and `passwd` after the two `memcpy`; `none` when one leaves its array. -/
def gattsLocals (copies : List UInt8 × List UInt8) :
    Option ((Fin 33 → UInt8) × (Fin 65 → UInt8)) := do
  let ssid ← CArray.memcpy 0 0 copies.1
  let passwd ← CArray.memcpy 0 0 copies.2
  some (ssid, passwd)

/-- `gatts_handle_CHAR_VAL_C_write`; `none` when it leaves one of its arrays. -/
def gattsHandleCharValCWrite (value : List UInt8) : Option GattsOut :=
  match gattsCopies value with
  | none => some .wrongFormat
  | some copies => do
    let (ssid, passwd) ← gattsLocals copies
    let config ← wifiSetConfigAndStart ssid passwd
    some (.started config)

/-- `param->write`, as far as it is read. -/
structure WriteParam where
  isPrep : Bool
  handle : ℕ
  value : List UInt8

/-- `ESP_GATTS_WRITE_EVT`; `charValC` is `heart_rate_handle_table[IDX_CHAR_VAL_C]`. -/
def gattsWriteEvt (charValC : ℕ) (param : WriteParam) : Option GattsOut :=
  if param.isPrep = false ∧ charValC = param.handle then gattsHandleCharValCWrite param.value
  else some .ignored

end Car
