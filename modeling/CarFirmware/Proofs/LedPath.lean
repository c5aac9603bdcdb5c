import CarFirmware.Proofs.LedRenderer
import CarFirmware.Proofs.LedStripEncoder

/-! From `led_strip_fill_data` to the strip. If the renderer receives a frame only when the
transmitter is idle, its one buffer does no harm, and the frames, the transactions and the
symbols compose: the strip shows the frames that the queue took. -/

namespace Car.LedPath

open Transition LedRenderer LedStripEncoder Encoder

/-- The callers leave the transmitter the time to finish before the next frame is received. -/
def Paced (s : State) (a : Act) : Prop := a = .renderer → s.renderer = .receive → s.pending = []

def Idle (s : State) : Prop := ∀ f n, s.renderer = .copy f n → s.pending = []

variable {s s' : State} {a : Act}

theorem Idle.step (h : Idle s) (hpaced : Paced s a) (hs : s.step a = some s') : Idle s' := by
  intro f' n' heq
  cases step_cases hs with
  | fill | discard | stop => exact h f' n' heq
  | test htask =>
    simp only at heq
    split_ifs at heq
  | timeout => cases heq
  | receive htask => exact hpaced rfl htask
  | @copy f n hn htask => exact h f n htask
  | copied => cases heq
  | transmit => cases heq
  | read => exact h f' n' heq
  | done hp => exact absurd (hp.symm.trans (h f' n' heq)) (List.cons_ne_nil _ _)

theorem Idle.storeOk (h : Idle s) : StoreOk s a := by
  rintro - f n hn htask g hg
  rw [State.unread, h f n htask] at hg
  cases hg

/-- What is sent, on its way or still in the queue are the frames that the queue took. -/
theorem order_of_paced (h : Reach State.step Paced State.init s) : s.enqueued.map bytes =
    s.sent ++ (s.pending ++ s.renderer.held ++ s.queue).map bytes := by
  have hidle : Idle State.init := by simp [Idle, State.init]
  have hreach : Reach State.step StoreOk State.init s :=
    h.strengthen hidle (fun _ _ _ hI hp hs => hI.step hp hs) fun _ _ _ hI _ _ => hI.storeOk
  have hinv : LedRenderer.Inv s :=
    hreach.invariant .init fun _ _ _ hI hok hs => hI.step (step_cases hs) hok
  exact hinv.order

/-- If the renderer receives only while the transmitter is idle, then at every moment the strip
has shown frames that the queue took, whole, in order and without a gap, and when nothing is
on its way and the transactions are complete it has shown them all. -/
theorem strip_shows_enqueued {β γ : Type} {m : ℕ} (hm : 4 ≤ m) (hm' : m ≤ 1310)
    {rmtNewBytesEncoder : BytesEncoderConfig → Except EspErr β}
    {rmtNewCopyEncoder : Except EspErr γ} {bytesEncode : List UInt8 → Encoder β Symbol}
    {copyEncode : List Symbol → Encoder γ Symbol} {bytesReset : β → β} {copyReset : γ → γ}
    (hd : Driver rmtNewBytesEncoder rmtNewCopyEncoder bytesEncode copyEncode bytesReset copyReset)
    {retEncoder : Option Unit} {calloc : Bool} {heap heap' : List Obj} {e : LedEncoder β γ}
    (hnew : rmtNewLedStripEncoder (some (m * 1000000)) retEncoder calloc rmtNewBytesEncoder
      rmtNewCopyEncoder heap = (.ok e, heap'))
    (h : Reach State.step Paced State.init s) (rooms : List ℕ) :
    let symbols := sessions (rmtEncodeLedStrip bytesEncode copyEncode) e s.sent rooms
    let strip := (⟨[], []⟩ : Strip).receiveAll (m * 1000000) symbols.1
    strip.shown <+: s.enqueued.map bytes ∧
      (s.queue = [] → s.renderer.held = [] → s.pending = [] → symbols.2.isSome →
        strip = ⟨[], s.enqueued.map bytes⟩) := by
  intro symbols strip
  obtain ⟨_, b, c, hres, hb, hc, rfl, -⟩ := rmtNewLedStripEncoder_ok hnew
  obtain rfl := Option.some.inj hres
  have hwrites := rmtEncodeLedStrip_writes (hd.bytes _ _ hb) (hd.copy _ hc)
  obtain ⟨hpre, hall⟩ := shown_sessions hm hm' hwrites s.sent rooms
  have horder := order_of_paced h
  refine ⟨?_, fun hqueue hheld hpending hdone => ?_⟩
  · rw [horder]
    exact hpre.trans (List.prefix_append _ _)
  · rw [hqueue, hheld, hpending, List.append_nil, List.append_nil, List.map_nil,
      List.append_nil] at horder
    rw [horder]
    exact hall hdone

def paced (s : State) : Act → Bool
  | .renderer =>
    match s.renderer with
    | .receive => s.pending.isEmpty
    | _ => true
  | _ => true

theorem paced_of_check (h : paced s a = true) : Paced s a := by
  rintro rfl htask
  simpa [paced, htask] using h

theorem strip_shows_enqueued_two : ∃ s : State, Reach State.step Paced State.init s ∧
    (⟨[], []⟩ : Strip).receiveAll (10 * 1000000)
      (sessions (rmtEncodeLedStrip bytesEncoderEncode ofList) (newEncoder (10 * 1000000)
        (bytesEncoderConfig (10 * 1000000), 0) 0) s.sent [64, 64, 64, 64]).1 =
      ⟨[], [.replicate 12 5, .replicate 12 0]⟩ := by
  obtain ⟨s, hs, hobs⟩ : ∃ s, run State.step paced State.init
      (Act.fill (colorFrame 5 5 5) :: Act.fill (colorFrame 0 0 0) :: renders ++
        List.replicate (frameSize + 1) Act.wire ++ renders ++
        List.replicate (frameSize + 1) Act.wire) = some s ∧
      (s.queue.length + s.renderer.held.length + s.pending.length, s.enqueued.map bytes, s.sent) =
        (0, [.replicate 12 5, .replicate 12 0], [.replicate 12 5, .replicate 12 0]) :=
    Option.map_eq_some_iff.mp (by decide +kernel)
  simp only [Prod.mk.injEq, Nat.add_eq_zero_iff, List.length_eq_zero_iff] at hobs
  obtain ⟨⟨⟨hqueue, hheld⟩, hpending⟩, henqueued, hsent⟩ := hobs
  have hreach := reach_of_run (fun _ _ => paced_of_check) hs
  have hshown := (strip_shows_enqueued (m := 10) (by decide) (by decide) driver
    rmtNewLedStripEncoder_resolution hreach [64, 64, 64, 64]).2 hqueue hheld hpending
    (by rw [hsent]; decide +kernel)
  exact ⟨s, hreach, henqueued ▸ hshown⟩

end Car.LedPath
