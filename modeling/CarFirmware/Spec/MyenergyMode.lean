import CarFirmware.Spec.EnergyMode
import CarFirmware.Spec.LedStrip

/-! `audio_convert.c`: `cnv_pattern_myenergy_mode`, the pattern that `audio_convert_task` calls
for each entry, a bar that starts at the first pixel. -/

namespace Car.MyenergyMode

open EnergyMode

/-- The volume functions of the audio library, with the state that they keep in `cnv_audio_t`. -/
structure CnvAudio (α : Type) where
  calculateVolume : α → List Int16 → α
  getVolume : α → Volume

variable {α : Type}

/-- `cnv_audio_process` for `CNV_AUDIO_VOLUME`, without the filter. -/
def cnvAudioProcess (lib : CnvAudio α) (audio : α) (samples : List Int16) : α :=
  lib.calculateVolume audio samples

def level (volume : Volume) : UInt16 :=
  UInt16.ofNat (volume.value.toNat * EXAMPLE_LED_NUMBERS / 100)

def paint (x : ℕ) : List (ℕ × UInt8) :=
  let red := UInt8.ofInt ((CNV_PATTERN_RED_BASE_VALUE - CNV_PATTERN_COLOR_SPAN * x) >>> (3 : ℕ))
  let green :=
    UInt8.ofInt ((CNV_PATTERN_GREEN_BASE_VALUE + CNV_PATTERN_COLOR_SPAN * x) >>> (3 : ℕ))
  let blue := UInt8.ofInt ((250 - 40 * x) >>> (3 : ℕ))
  [(x * 3, red), (x * 3 + 1, green), (x * 3 + 2, blue)]

/-- `cnv_pattern_myenergy_mode`, with the pixels for `led_strip_fill_data`; `none` when an
assignment is outside of them. -/
def cnvPatternMyenergyMode (lib : CnvAudio α) (audio : α) (samples : List Int16) :
    Option (α × Frame) :=
  let audio := cnvAudioProcess lib audio samples
  let level := level (lib.getVolume audio)
  (CArray.stores 0 ((List.range level.toNat).flatMap paint)).map fun pixels => (audio, pixels)

def frames (lib : CnvAudio α) : α → List (List Int16) → Option (List Frame)
  | _, [] => some []
  | audio, samples :: rest =>
    (cnvPatternMyenergyMode lib audio samples).bind fun r =>
      (frames lib r.1 rest).map (r.2 :: ·)

end Car.MyenergyMode
