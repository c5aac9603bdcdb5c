import Mathlib.Data.Int.Notation
import Mathlib.Data.List.Range
import Mathlib.Data.UInt

/-! `my_play_mp3.c`: the selection of a music file and the read callback of the decoder. -/

namespace Car

/-- The music files in flash: `mp3_start` and `mp3_end` as addresses, and the bytes. -/
structure Flash where
  byte : ℕ → UInt8
  mp3Start : Fin 7 → ℕ
  mp3End : Fin 7 → ℕ
  ordered : ∀ i, mp3Start i ≤ mp3End i

/-- `file_marker`; `stop` is `end`. -/
structure FileMarker where
  pos : ℤ
  start : ℕ
  stop : ℕ

/-- `file_marker`, and the local `next_music_file` of `set_next_file_marker`. -/
structure MyPlayMp3 where
  fileMarker : FileMarker
  nextMusicFile : ℤ

def MyPlayMp3.init : MyPlayMp3 := ⟨⟨0, 0, 0⟩, 1⟩

/-- `table[i]`, which is defined only inside the table. -/
def entry (table : Fin 7 → ℕ) (i : ℤ) : Option ℕ :=
  if h : 0 ≤ i ∧ i < 7 then some (table ⟨i.toNat, by omega⟩) else none

/-- The entry of the tables for a requested file. -/
def fileIndex (fileid : ℤ) : Fin 7 :=
  if h : 0 ≤ fileid ∧ fileid < 7 then ⟨fileid.toNat, by omega⟩ else 0

/-- The branch of `set_next_file_marker` for `0xF`: the new `next_music_file`. -/
def nextMusic (nextMusicFile : ℤ) : ℤ :=
  if 6 < nextMusicFile + 1 then 2 else nextMusicFile + 1

/-- `if (fileid < 0 || fileid >= 7)`. -/
def clampFile (fileid : ℤ) : ℤ := if fileid < 0 ∨ 7 ≤ fileid then 0 else fileid

def setNextFileMarker (flash : Flash) (s : MyPlayMp3) (fileid : ℤ) : Option MyPlayMp3 := do
  let nextMusicFile := if fileid = 0xF then nextMusic s.nextMusicFile else s.nextMusicFile
  let file := clampFile (if fileid = 0xF then nextMusicFile else fileid)
  let start ← entry flash.mp3Start file
  let stop ← entry flash.mp3End file
  some ⟨⟨0, start, stop⟩, nextMusicFile⟩

/-- The return value of `mp3_music_read_cb`: `AEL_IO_DONE`, or the size of the block that
was copied from address `src`. -/
inductive ReadResult where
  | ioDone
  | block (src size : ℤ)

def mp3MusicReadCb (s : MyPlayMp3) (len : ℤ) : ReadResult × MyPlayMp3 :=
  let m := s.fileMarker
  let readSize : ℤ := m.stop - m.start - m.pos
  if readSize = 0 then (.ioDone, s)
  else
    let readSize := if len < readSize then len else readSize
    (.block (m.start + m.pos) readSize,
      { s with fileMarker := { m with pos := m.pos + readSize } })

inductive Mp3Act where
  | setNextFileMarker (fileid : ℤ)
  | read (len : ℤ)

def MyPlayMp3.step (flash : Flash) (s : MyPlayMp3) : Mp3Act → Option MyPlayMp3
  | .setNextFileMarker fileid => setNextFileMarker flash s fileid
  | .read len => some (mp3MusicReadCb s len).2

def Flash.bytes (flash : Flash) (src size : ℕ) : List UInt8 :=
  (List.range' src size).map flash.byte

end Car
