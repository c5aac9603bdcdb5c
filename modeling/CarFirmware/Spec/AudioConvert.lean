import Mathlib.Data.Int.Notation
import Mathlib.Data.Nat.Notation
import Mathlib.Logic.Function.Basic

/-! `audio_convert.c`: the samples on their way from the music player to the lights. The
player's task calls `audio_convert_mp3_data_cb` with each block it has decoded; the
callback stores the samples in its static buffer and sends a pointer and a length to
`audio_convert_task`. One statement that touches the buffer or the queue is one step. -/

namespace Car.AudioConvert

/-- A block of PCM data, four bytes a sample, and its `size` in bytes. -/
structure Block where
  data : ℕ → UInt8
  size : ℤ

/-- `size` as the callback limits it. -/
def Block.limited (b : Block) : ℤ := if b.size > 1024 then 1024 else b.size

/-- The turns of the callback's loop, `i < size/4`. -/
def Block.count (b : Block) : ℕ := (b.limited.tdiv 4).toNat

/-- `raw`: the upper two bytes of sample `i`. -/
def Block.sample (b : Block) (i : ℕ) : Int16 :=
  let mid := b.data (i * 4 + 2)
  let msb := b.data (i * 4 + 3)
  ((msb.toUInt32 <<< 8) + mid.toUInt32).toUInt16.toInt16

def Block.samples (b : Block) : List Int16 := (List.range b.count).map b.sample

/-- `audio_sample_data_t`. Every entry points to the one buffer; `block` is the block it was
sent for, which the program does not keep. -/
structure Entry where
  len : ℕ
  block : Block

/-- `audio_convert_mp3_data_cb`: before the test of its loop, or about to send. -/
inductive Callback where
  | idle
  | store (b : Block) (i : ℕ)
  | send (b : Block) (i : ℕ)

/-- `audio_convert_task`. While it processes an entry, `got` are the samples read so far. -/
inductive Task where
  | test
  | receive
  | process (e : Entry) (got : List Int16)
  | ended

structure State where
  buffer : ℕ → Int16
  queue : List Entry
  callback : Callback
  task : Task
  taskRun : Bool
  /-- The entries processed, each with the samples read for it. -/
  processed : List (Entry × List Int16)

def queueLength : ℕ := 3

inductive Act where
  | call (b : Block)
  | callback
  | timeout
  | task
  | stop

def State.stepCallback (s : State) : Option State :=
  match s.callback with
  | .idle => none
  | .store b i =>
    if i < b.count then
      some { s with
        buffer := Function.update s.buffer i (b.sample i), callback := .store b (i + 1) }
    else some { s with callback := .send b i }
  | .send b i =>
    if s.queue.length < queueLength then
      some { s with queue := s.queue ++ [⟨i, b⟩], callback := .idle }
    else none

/-- The wait of `xQueueSend` ends: the entry is discarded. -/
def State.stepTimeout (s : State) : Option State :=
  match s.callback with
  | .send _ _ => if s.queue.length < queueLength then none else some { s with callback := .idle }
  | _ => none

def State.stepTask (s : State) : Option State :=
  match s.task with
  | .test => some { s with task := if s.taskRun then .receive else .ended }
  | .receive =>
    match s.queue with
    | [] => none
    | e :: q => some { s with queue := q, task := .process e [] }
  | .process e got =>
    if got.length < e.len then
      some { s with task := .process e (got ++ [s.buffer got.length]) }
    else some { s with task := .test, processed := s.processed ++ [(e, got)] }
  | .ended => none

def State.step (s : State) : Act → Option State
  | .call b =>
    match s.callback with
    | .idle => some { s with callback := .store b 0 }
    | _ => none
  | .callback => s.stepCallback
  | .timeout => s.stepTimeout
  | .task => s.stepTask
  | .stop => some { s with taskRun := false }

def State.init : State where
  buffer := fun _ => 0
  queue := []
  callback := .idle
  task := .test
  taskRun := true
  processed := []

end Car.AudioConvert
