import CarFirmware.Lib.Encoder
import Mathlib.Data.UInt

/-! `led_strip_encoder.c`: the bytes of a frame as RMT symbols. The encoder is put together
from the two encoders of the RMT driver, which are parameters here: `β` and `γ` are their
session states. -/

namespace Car.LedStripEncoder

structure Symbol where
  level0 : Bool
  duration0 : ℕ
  level1 : Bool
  duration1 : ℕ
deriving DecidableEq

/-- What a duration field of 15 bits keeps. -/
def durationField (ticks : ℕ) : ℕ := ticks % 2 ^ 15

structure BytesEncoderConfig where
  bit0 : Symbol
  bit1 : Symbol
  msbFirst : Bool

/-- `0.1 * tenths * resolution / 1000000`, with the float product taken exactly. -/
def tenthsOfUs (tenths resolution : ℕ) : ℕ := durationField (tenths * resolution / 10000000)

def bytesEncoderConfig (resolution : ℕ) : BytesEncoderConfig where
  bit0 := ⟨true, tenthsOfUs 3 resolution, false, tenthsOfUs 9 resolution⟩
  bit1 := ⟨true, tenthsOfUs 9 resolution, false, tenthsOfUs 3 resolution⟩
  msbFirst := true

def resetCode (resolution : ℕ) : Symbol :=
  let resetTicks := resolution / 1000000 * 50 / 2
  ⟨false, durationField resetTicks, false, durationField resetTicks⟩

structure LedEncoder (β γ : Type*) where
  bytesEncoder : β
  copyEncoder : γ
  state : ℤ
  resetCode : Symbol

variable {β γ : Type*}

/-- `case 1` of the switch, after `out`. -/
def sendResetCode (copyEncode : List Symbol → Encoder γ Symbol) (e : LedEncoder β γ) (room : ℕ)
    (out : List Symbol) : Chunk (LedEncoder β γ) Symbol :=
  let c := copyEncode [e.resetCode] e.copyEncoder (room - out.length)
  { out := out ++ c.out
    complete := c.complete
    full := c.full
    next := { e with copyEncoder := c.next, state := if c.complete then 0 else e.state } }

/-- `rmt_encode_led_strip`. The two flags of the chunk are those of `ret_state`. -/
def rmtEncodeLedStrip (bytesEncode : List UInt8 → Encoder β Symbol)
    (copyEncode : List Symbol → Encoder γ Symbol) (data : List UInt8) :
    Encoder (LedEncoder β γ) Symbol := fun e room =>
  if e.state = 0 then
    let b := bytesEncode data e.bytesEncoder room
    let e := { e with bytesEncoder := b.next, state := if b.complete then 1 else e.state }
    if b.full then { out := b.out, complete := false, full := true, next := e }
    else sendResetCode copyEncode e room b.out
  else if e.state = 1 then sendResetCode copyEncode e room []
  else { out := [], complete := false, full := false, next := e }

def rmtLedStripEncoderReset (bytesReset : β → β) (copyReset : γ → γ) (e : LedEncoder β γ) :
    LedEncoder β γ :=
  { e with
    bytesEncoder := bytesReset e.bytesEncoder, copyEncoder := copyReset e.copyEncoder, state := 0 }

/-! ### Creation and deletion -/

inductive EspErr where
  | invalidArg
  | noMem
  | driver (code : ℤ)

/-- What lives on the heap. -/
inductive Obj where
  | ledEncoder
  | bytesEncoder
  | copyEncoder
deriving DecidableEq

/-- The label `err`: `calloc` has cleared the two handles. -/
def freeOnError (bytesEncoder : Option β) (copyEncoder : Option γ) (heap : List Obj) : List Obj :=
  let heap := if bytesEncoder.isSome then heap.erase .bytesEncoder else heap
  let heap := if copyEncoder.isSome then heap.erase .copyEncoder else heap
  heap.erase .ledEncoder

/-- `rmt_new_led_strip_encoder`. A missing `config` or `ret_encoder` is `none`; the outcomes of
`calloc` and of the two functions of the driver are parameters. -/
def rmtNewLedStripEncoder (config : Option ℕ) (retEncoder : Option Unit) (calloc : Bool)
    (rmtNewBytesEncoder : BytesEncoderConfig → Except EspErr β)
    (rmtNewCopyEncoder : Except EspErr γ) (heap : List Obj) :
    Except EspErr (LedEncoder β γ) × List Obj :=
  match config, retEncoder with
  | some resolution, some () =>
    if calloc then
      let heap := .ledEncoder :: heap
      match rmtNewBytesEncoder (bytesEncoderConfig resolution) with
      | .error ret => (.error ret, freeOnError (none : Option β) (none : Option γ) heap)
      | .ok b =>
        let heap := .bytesEncoder :: heap
        match rmtNewCopyEncoder with
        | .error ret => (.error ret, freeOnError (some b) (none : Option γ) heap)
        | .ok c =>
          (.ok { bytesEncoder := b, copyEncoder := c, state := 0
                 resetCode := resetCode resolution }, .copyEncoder :: heap)
    else (.error .noMem, heap)
  | _, _ => (.error .invalidArg, heap)

def rmtDelLedStripEncoder (heap : List Obj) : List Obj :=
  ((heap.erase .bytesEncoder).erase .copyEncoder).erase .ledEncoder

def RMT_LED_STRIP_RESOLUTION_HZ : ℕ := 10000000

end Car.LedStripEncoder
