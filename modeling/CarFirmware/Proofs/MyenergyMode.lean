import CarFirmware.Proofs.AudioConvert
import CarFirmware.Spec.MyenergyMode
import Mathlib.Data.Fintype.Pi

/-! From the blocks that the music player hands over to the bars on the strip. Blocks may be
discarded, but those that are shown are shown in their order, each as the bar of its own
volume, and no assignment leaves the frame. -/

namespace Car.MyenergyMode

open AudioConvert EnergyMode Transition

/-- The colour of pixel `x`: its bytes in the order of `leddata.pixels`. -/
def shade (x i : ℕ) : UInt8 :=
  if i = 0 then UInt8.ofNat ((90 - 30 * x) / 8)
  else if i = 1 then UInt8.ofNat ((10 + 30 * x) / 8)
  else UInt8.ofNat ((250 - 40 * x) / 8)

def bar (volume : Volume) : Frame := fun k =>
  if 25 * (k.val / 3 + 1) ≤ volume.value.toNat then shade (k.val / 3) (k.val % 3) else 0

theorem stores_paint : ∀ n ≤ 4, CArray.stores (0 : Frame) ((List.range n).flatMap paint) =
    some fun k => if k.val / 3 < n then shade (k.val / 3) (k.val % 3) else 0 := by
  decide +kernel

theorem level_toNat (v : Volume) : (level v).toNat = v.value.toNat / 25 := by
  have hle := v.value_le
  rw [level, EXAMPLE_LED_NUMBERS, UInt16.toNat_ofNat', Nat.mod_eq_of_lt (by omega)]
  omega

variable {α : Type} (lib : CnvAudio α)

/-- No assignment of a call is outside of the frame, whatever the volume is. -/
theorem cnvPatternMyenergyMode_eq (audio : α) (samples : List Int16) :
    cnvPatternMyenergyMode lib audio samples = some (lib.calculateVolume audio samples,
      bar (lib.getVolume (lib.calculateVolume audio samples))) := by
  have hle := (lib.getVolume (lib.calculateVolume audio samples)).value_le
  simp only [cnvPatternMyenergyMode, cnvAudioProcess, level_toNat]
  rw [stores_paint _ (by omega), Option.map_some]
  congr 2
  funext k
  refine if_congr ?_ rfl rfl
  omega

def volumes : α → List (List Int16) → List Volume
  | _, [] => []
  | audio, samples :: rest =>
    lib.getVolume (lib.calculateVolume audio samples) ::
      volumes (lib.calculateVolume audio samples) rest

theorem frames_eq (audio : α) (blocks : List (List Int16)) :
    frames lib audio blocks = some ((volumes lib audio blocks).map bar) := by
  induction blocks generalizing audio with
  | nil => rfl
  | cons samples rest ih =>
    rw [frames, cnvPatternMyenergyMode_eq, Option.bind_some, ih]
    rfl

/-! ### The blocks on their way -/

def called (l : List (AudioConvert.State × Act × AudioConvert.State)) : List Block :=
  l.filterMap fun x => match x.2.1 with
    | .call b => some b
    | _ => none

def inHand : Callback → List Block
  | .idle => []
  | .store b _ | .send b _ => [b]

/-- The blocks that have been processed, are being processed, wait, or are being stored. -/
def blocks (s : AudioConvert.State) : List Block :=
  s.processed.map (·.1.block) ++ s.outstanding.map (·.block) ++ inHand s.callback

/-- A step passes the blocks on in their order, and may discard the last one. -/
theorem blocks_step {s s' : AudioConvert.State} {a : Act} (h : Step s a s') :
    (blocks s').Sublist (blocks s ++ called [(s, a, s')]) := by
  cases h with
  | call b hcb => simp [blocks, State.outstanding, inHand, hcb, called]
  | store hcb | stored hcb => simp [blocks, State.outstanding, inHand, hcb, called]
  | send hcb => simp [blocks, State.outstanding, inHand, hcb, called]
  | discard hcb => simp [blocks, State.outstanding, inHand, hcb, called]
  | test htask =>
    cases s.taskRun <;> simp [blocks, State.outstanding, called, htask, Task.entry]
  | receive htask hq => simp [blocks, State.outstanding, called, htask, hq, Task.entry]
  | read htask => simp [blocks, State.outstanding, called, htask, Task.entry]
  | finish htask => simp [blocks, State.outstanding, called, htask, Task.entry]
  | stop => simp [blocks, State.outstanding, called]

theorem blocks_path {s s' : AudioConvert.State}
    {l : List (AudioConvert.State × Act × AudioConvert.State)}
    (h : Path AudioConvert.State.step s l s') :
    (blocks s').Sublist (blocks s ++ called l) := by
  induction h with
  | nil => rw [called, List.filterMap_nil, List.append_nil]
  | @cons s t s' a l hs _ ih =>
    have hsplit : called ((s, a, t) :: l) = called [(s, a, t)] ++ called l := by
      rw [called, called, called, ← List.filterMap_append, List.singleton_append]
    rw [hsplit, ← List.append_assoc]
    exact ih.trans ((blocks_step (step_cases hs)).append_right _)

/-- In every run the blocks that are shown were called with, in this order, and each is shown
as the bar of the volume of the samples read for it, without an assignment outside of the
frame; these are the samples of the block if the callback never stores another sample over one
that is still to be read. -/
theorem bars_shown (audio : α) {s : AudioConvert.State}
    {l : List (AudioConvert.State × Act × AudioConvert.State)}
    (h : Path AudioConvert.State.step AudioConvert.State.init l s) :
    (s.processed.map (·.1.block)).Sublist (called l) ∧
      frames lib audio (s.processed.map (·.2)) =
        some ((volumes lib audio (s.processed.map (·.2))).map bar) ∧
      ((∀ x ∈ l, StoreOk x.1 x.2.1) →
        s.processed.map (·.2) = s.processed.map (·.1.block.samples)) := by
  refine ⟨?_, frames_eq lib audio _, fun hok => ?_⟩
  · have hall := blocks_path h
    have hinit : blocks AudioConvert.State.init = [] := rfl
    rw [hinit, List.nil_append] at hall
    refine List.Sublist.trans ?_ hall
    rw [blocks, List.append_assoc]
    exact List.sublist_append_left _ _
  · have hinv : AudioConvert.Inv s :=
      (h.invariant (I := AudioConvert.Inv) .init fun u a u' hu hI hs =>
        hI.step (step_cases hs) (hok _ hu)).1
    exact List.map_congr_left fun x hx => (hinv.exact.processed x hx).2

def loudness : CnvAudio Bool where
  calculateVolume _ samples := samples.any (16384 ≤ ·)
  getVolume loud := if loud then ⟨100, by decide⟩ else ⟨0, by decide⟩

theorem bars_shown_two : ∃ (l : List (AudioConvert.State × Act × AudioConvert.State))
    (s : AudioConvert.State), Path AudioConvert.State.step AudioConvert.State.init l s ∧
      (s.processed.map (·.1.block)).Sublist (called l) ∧
      s.processed.map (·.1.block.samples) = [[32639], [0]] ∧
      frames loudness false (s.processed.map (·.2)) =
        some ([⟨100, by decide⟩, ⟨0, by decide⟩].map bar) := by
  obtain ⟨s, hs, hprocessed⟩ : ∃ s, run AudioConvert.State.step AudioConvert.State.storeOk
      AudioConvert.State.init
      (Act.call (constant 127 4) :: List.replicate 3 Act.callback ++ List.replicate 4 Act.task ++
        Act.call (constant 0 4) :: List.replicate 3 Act.callback ++ List.replicate 4 Act.task) =
        some s ∧ s.processed.map (·.2) = [[32639], [0]] :=
    Option.map_eq_some_iff.mp (by decide +kernel)
  obtain ⟨l, hl, hgood⟩ := path_of_run hs
  obtain ⟨hsub, hframes, hsamples⟩ := bars_shown loudness false hl
  refine ⟨l, s, hl, hsub, ?_, ?_⟩
  · rw [← hsamples fun x hx => storeOk_of_check (hgood x hx), hprocessed]
  · rw [hframes, hprocessed]
    rfl

end Car.MyenergyMode
