import CarFirmware.Spec.LedStrip

/-! `led_strip.c`: the frames on their way to the strip. `led_strip_fill_data` sends a copy
of a frame to `led_strip_renderer_task`, which receives it into `led_strip_pixels` and hands
this one buffer to the RMT transmitter. The transmitter works through its transactions in
the background and reads the bytes of a transaction from the buffer when it sends them. -/

namespace Car.LedRenderer

/-- `sizeof(led_renderer_data_t)`. -/
abbrev frameSize : ℕ := EXAMPLE_LED_NUMBERS * 3

def bytes (f : Frame) : List UInt8 := List.ofFn f

/-- `led_strip_renderer_task`. The copy that `xQueueReceive` makes is one byte a step: the
transmitter does not wait for it. -/
inductive Renderer where
  | test
  | receive
  | copy (f : Frame) (n : ℕ)
  | transmit (f : Frame)
  | ended

structure State where
  queue : List Frame
  pixels : Frame
  renderer : Renderer
  taskRun : Bool
  /-- The transactions of the transmitter, oldest first. Each is a pointer to `pixels`; the
  frame is the one it was queued for, which the program does not keep. -/
  pending : List Frame
  /-- What the transmitter has read for the oldest transaction. -/
  out : List UInt8
  enqueued : List Frame
  sent : List (List UInt8)

/-- `xQueueCreate(3, ..)`. -/
def queueLength : ℕ := 3

def transQueueDepth : ℕ := 4

inductive Act where
  | fill (f : Frame)
  | discard (f : Frame)
  | renderer
  | timeout
  | wire
  | stop

/-- `xQueueSend` of `led_strip_fill_data`, by any caller. -/
def State.stepFill (s : State) (f : Frame) : Option State :=
  if s.queue.length < queueLength then
    some { s with queue := s.queue ++ [f], enqueued := s.enqueued ++ [f] }
  else none

def State.stepRenderer (s : State) : Option State :=
  match s.renderer with
  | .test => some { s with renderer := if s.taskRun then .receive else .ended }
  | .receive =>
    match s.queue with
    | [] => none
    | f :: q => some { s with queue := q, renderer := .copy f 0 }
  | .copy f n =>
    if h : n < frameSize then
      some { s with
        pixels := Function.update s.pixels ⟨n, h⟩ (f ⟨n, h⟩), renderer := .copy f (n + 1) }
    else some { s with renderer := .transmit f }
  | .transmit f =>
    if s.pending.length < transQueueDepth then
      some { s with pending := s.pending ++ [f], renderer := .test }
    else none
  | .ended => none

/-- `xQueueReceive` gives up after ten seconds. -/
def State.stepTimeout (s : State) : Option State :=
  match s.renderer, s.queue with
  | .receive, [] => some { s with renderer := .test }
  | _, _ => none

def State.stepWire (s : State) : Option State :=
  match s.pending with
  | [] => none
  | _ :: rest =>
    if h : s.out.length < frameSize then
      some { s with out := s.out ++ [s.pixels ⟨s.out.length, h⟩] }
    else some { s with pending := rest, out := [], sent := s.sent ++ [s.out] }

def State.step (s : State) : Act → Option State
  | .fill f => s.stepFill f
  | .discard _ => if s.queue.length < queueLength then none else some s
  | .renderer => s.stepRenderer
  | .timeout => s.stepTimeout
  | .wire => s.stepWire
  | .stop => some { s with taskRun := false }

def State.init : State where
  queue := []
  pixels := 0
  renderer := .test
  taskRun := true
  pending := []
  out := []
  enqueued := []
  sent := []

end Car.LedRenderer
