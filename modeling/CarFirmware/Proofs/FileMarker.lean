import CarFirmware.Lib.SeqReader
import CarFirmware.Lib.Transition
import CarFirmware.Spec.MyPlayMp3

/-! The music reader is a sequential reader of the selected file, and the selection runs
through the five pieces of music in turn, whatever else is selected in between. -/

namespace Car

open Transition

def Flash.marker (flash : Flash) (i : Fin 7) : FileMarker := ⟨0, flash.mp3Start i, flash.mp3End i⟩

theorem entry_clampFile (table : Fin 7 → ℕ) (fileid : ℤ) :
    entry table (clampFile fileid) = some (table (fileIndex fileid)) := by
  unfold clampFile
  split_ifs with h
  · have hidx : fileIndex fileid = 0 := dif_neg (by omega)
    rw [hidx]
    rfl
  · have hin : 0 ≤ fileid ∧ fileid < 7 := by omega
    simp [entry, fileIndex, hin]

/-- Every call selects one entry of the tables, for the start as for the end. -/
theorem setNextFileMarker_eq (flash : Flash) (s : MyPlayMp3) (fileid : ℤ) :
    setNextFileMarker flash s fileid = some
      ⟨flash.marker (fileIndex (if fileid = 0xF then nextMusic s.nextMusicFile else fileid)),
        if fileid = 0xF then nextMusic s.nextMusicFile else s.nextMusicFile⟩ := by
  unfold setNextFileMarker
  split_ifs <;> simp [entry_clampFile, Flash.marker]

/-! ### The reader -/

def Flash.file (flash : Flash) (m : FileMarker) : List UInt8 :=
  flash.bytes m.start (m.stop - m.start)

def ReadResult.bytes (flash : Flash) : ReadResult → List UInt8
  | .ioDone => []
  | .block src size => flash.bytes src.toNat size.toNat

/-- The state shows the reader `r` of the selected file. -/
structure Views (flash : Flash) (s : MyPlayMp3) (r : SeqReader UInt8) : Prop where
  file : r.file = flash.file s.fileMarker
  pos : (r.pos : ℤ) = s.fileMarker.pos
  ordered : s.fileMarker.start ≤ s.fileMarker.stop

section

variable {flash : Flash} {s s' : MyPlayMp3} {r : SeqReader UInt8}

theorem Flash.length_bytes (src size : ℕ) : (flash.bytes src size).length = size := by
  simp [Flash.bytes]

theorem Flash.drop_bytes (src size k : ℕ) :
    (flash.bytes src size).drop k = flash.bytes (src + k) (size - k) := by
  simp [Flash.bytes, ← List.map_drop, List.drop_range']

theorem Flash.take_bytes (src size k : ℕ) :
    (flash.bytes src size).take k = flash.bytes src (min k size) := by
  rw [Flash.bytes, Flash.bytes, ← List.map_take]
  rcases le_total k size with h | h
  · rw [List.take_range'_of_length_ge h, Nat.min_eq_left h]
  · rw [List.take_range'_of_length_le h, Nat.min_eq_right h]

theorem Views.init : Views flash MyPlayMp3.init (.opened []) := ⟨rfl, rfl, le_rfl⟩

theorem Views.select {fileid : ℤ} (h : setNextFileMarker flash s fileid = some s') :
    Views flash s' (.opened (flash.file s'.fileMarker)) := by
  rw [setNextFileMarker_eq] at h
  cases h
  exact ⟨rfl, rfl, flash.ordered _⟩

theorem Views.left (h : Views flash s r) :
    (r.left : ℤ) = s.fileMarker.stop - s.fileMarker.start - s.fileMarker.pos := by
  have hlen : r.file.length = s.fileMarker.stop - s.fileMarker.start := by
    rw [h.file, Flash.file, Flash.length_bytes]
  have hle := r.pos_le
  have hpos := h.pos
  have hord := h.ordered
  unfold SeqReader.left
  omega

theorem Views.ioDone_iff (h : Views flash s r) (len : ℤ) :
    (mp3MusicReadCb s len).1 = .ioDone ↔ r.left = 0 := by
  have hleft := h.left
  simp only [mp3MusicReadCb]
  split_ifs with hzero
  · simp only [true_iff]
    omega
  · simp only [false_iff]
    omega

theorem Views.done (h : Views flash s r) (hr : r.left = 0) (len : ℤ) :
    mp3MusicReadCb s len = (.ioDone, s) := by
  have hleft := h.left
  exact if_pos (by omega)

theorem Views.block (h : Views flash s r) (hr : r.left ≠ 0) {len : ℤ} (hlen : 1 ≤ len) :
    mp3MusicReadCb s len =
      (.block (s.fileMarker.start + r.pos) (min len.toNat r.left : ℕ),
        { s with fileMarker :=
          { s.fileMarker with pos := s.fileMarker.pos + (min len.toNat r.left : ℕ) } }) := by
  have hleft := h.left
  have hpos := h.pos
  have hsize : (if len < s.fileMarker.stop - s.fileMarker.start - s.fileMarker.pos then len
      else s.fileMarker.stop - s.fileMarker.start - s.fileMarker.pos) =
      ((min len.toNat r.left : ℕ) : ℤ) := by
    rw [← hleft]
    split_ifs <;> omega
  unfold mp3MusicReadCb
  simp only [hsize]
  rw [if_neg (by omega), ← hpos]

theorem Views.read (h : Views flash s r) {len : ℤ} (hlen : 1 ≤ len) :
    Views flash (mp3MusicReadCb s len).2 (r.read len.toNat) ∧
      (mp3MusicReadCb s len).1.bytes flash = r.block len.toNat := by
  by_cases hr : r.left = 0
  · rw [h.done hr, SeqReader.read_of_left_eq_zero hr]
    refine ⟨h, ?_⟩
    rw [SeqReader.block_eq_take_left, hr, Nat.min_zero, List.take_zero]
    rfl
  · have hlen' : r.file.length = s.fileMarker.stop - s.fileMarker.start := by
      rw [h.file, Flash.file, Flash.length_bytes]
    rw [h.block hr hlen]
    refine ⟨⟨h.file, ?_, h.ordered⟩, ?_⟩
    · have hpos := h.pos
      simp only [SeqReader.read, Nat.cast_add]
      omega
    · have hsrc : ((s.fileMarker.start : ℤ) + r.pos).toNat = s.fileMarker.start + r.pos := by omega
      rw [SeqReader.block_eq_take_left, h.file, Flash.file, Flash.drop_bytes, Flash.take_bytes,
        ReadResult.bytes, hsrc, Int.toNat_natCast, ← hlen', Nat.min_assoc, SeqReader.left,
        Nat.min_self]

end

def deliver (flash : Flash) (acc : List UInt8) (x : MyPlayMp3 × Mp3Act × MyPlayMp3) : List UInt8 :=
  match x.2.1 with
  | .setNextFileMarker _ => []
  | .read len => acc ++ (mp3MusicReadCb x.1 len).1.bytes flash

def delivered (flash : Flash) (l : List (MyPlayMp3 × Mp3Act × MyPlayMp3)) : List UInt8 :=
  l.foldl (deliver flash) []

/-- The requests of a run ask for at least one byte. -/
def Requests (l : List (MyPlayMp3 × Mp3Act × MyPlayMp3)) : Prop :=
  ∀ x ∈ l, ∀ len, x.2.1 = .read len → 1 ≤ len

/-- Along a run the state shows a reader that has given what was delivered. -/
theorem Views.run {flash : Flash} {s s' : MyPlayMp3} {r : SeqReader UInt8}
    {l : List (MyPlayMp3 × Mp3Act × MyPlayMp3)} (h : Path (MyPlayMp3.step flash) s l s')
    (hl : Requests l) (hr : Views flash s r) :
    ∃ r', Views flash s' r' ∧ r'.given = l.foldl (deliver flash) r.given := by
  induction h generalizing r with
  | nil => exact ⟨r, hr, rfl⟩
  | @cons s t s' a l hs _ ih =>
    have hrest : Requests l := fun x hx => hl x (List.mem_cons_of_mem _ hx)
    cases a with
    | setNextFileMarker fileid => exact ih hrest (Views.select hs)
    | read len =>
      cases hs
      obtain ⟨hview, hbytes⟩ := hr.read (hl _ (List.mem_cons_self ..) len rfl)
      obtain ⟨r', hr', hgiven⟩ := ih hrest hview
      refine ⟨r', hr', ?_⟩
      rw [hgiven, SeqReader.given_read, ← hbytes]
      rfl

/-- What holds of a state in which `read` has been read since the last selection. -/
structure Lossless (flash : Flash) (s : MyPlayMp3) (read : List UInt8) : Prop where
  pos_nonneg : 0 ≤ s.fileMarker.pos
  pos_le : s.fileMarker.pos ≤ s.fileMarker.stop - s.fileMarker.start
  read_prefix : read <+: flash.file s.fileMarker
  block_inside : ∀ len src size, 1 ≤ len → (mp3MusicReadCb s len).1 = .block src size →
    s.fileMarker.start ≤ src ∧ 1 ≤ size ∧ size ≤ len ∧ src + size ≤ s.fileMarker.stop
  done_iff : ∀ len, (mp3MusicReadCb s len).1 = .ioDone ↔ read = flash.file s.fileMarker
  done_stays : read = flash.file s.fileMarker → ∀ l s', Path (MyPlayMp3.step flash) s l s' →
    (∀ x ∈ l, ∃ len, x.2.1 = .read len) → ∀ len, (mp3MusicReadCb s' len).1 = .ioDone

theorem Views.stays {flash : Flash} {s s' : MyPlayMp3} {r : SeqReader UInt8}
    {l : List (MyPlayMp3 × Mp3Act × MyPlayMp3)} (h : Views flash s r) (hr : r.left = 0)
    (hpath : Path (MyPlayMp3.step flash) s l s') (hl : ∀ x ∈ l, ∃ len, x.2.1 = .read len) :
    s' = s := by
  induction hpath with
  | nil => rfl
  | @cons s t s' a l hs _ ih =>
    obtain ⟨len, rfl⟩ := hl _ (List.mem_cons_self ..)
    cases hs
    rw [h.done hr] at ih
    exact ih h fun x hx => hl x (List.mem_cons_of_mem _ hx)

theorem Views.lossless {flash : Flash} {s : MyPlayMp3} {r : SeqReader UInt8}
    (h : Views flash s r) : Lossless flash s r.given := by
  have hleft := h.left
  have hpos := h.pos
  have hgiven : r.left = 0 ↔ r.given = flash.file s.fileMarker := by
    rw [← h.file]
    exact r.left_eq_zero_iff
  exact {
    pos_nonneg := by omega
    pos_le := by omega
    read_prefix := h.file ▸ r.given_isPrefix
    block_inside := fun len src size hlen hblock => by
      have hne : r.left ≠ 0 := fun hr => by
        rw [h.done hr] at hblock
        cases hblock
      rw [h.block hne hlen] at hblock
      cases hblock
      omega
    done_iff := fun len => (h.ioDone_iff len).trans hgiven
    done_stays := fun hread l s' hpath hl len => by
      rw [h.stays (hgiven.mpr hread) hpath hl, h.done (hgiven.mpr hread)] }

/-- In every run of selections and reads the blocks read since the last selection are the
front of the selected file, and `AEL_IO_DONE` says that they are all of it. -/
theorem reads_lossless (flash : Flash) (s : MyPlayMp3)
    (l : List (MyPlayMp3 × Mp3Act × MyPlayMp3)) (hl : Requests l)
    (h : Path (MyPlayMp3.step flash) MyPlayMp3.init l s) :
    Lossless flash s (delivered flash l) := by
  obtain ⟨r, hr, hgiven⟩ := Views.run h hl Views.init
  have hdelivered : delivered flash l = r.given := hgiven.symm
  rw [hdelivered]
  exact hr.lossless

def smallFlash : Flash where
  byte a := UInt8.ofNat a
  mp3Start i := 10 * i.val
  mp3End i := 10 * i.val + i.val
  ordered _ := Nat.le_add_right _ _

theorem reads_lossless_small : ∃ s l,
    Path (MyPlayMp3.step smallFlash) MyPlayMp3.init l s ∧
      l.map (·.2.1) = [.setNextFileMarker 3, .read 2, .read 2, .read 2] ∧
      delivered smallFlash l = [30, 31, 32] ∧ Lossless smallFlash s (delivered smallFlash l) := by
  have hpath : Path (MyPlayMp3.step smallFlash) MyPlayMp3.init
      [(⟨⟨0, 0, 0⟩, 1⟩, .setNextFileMarker 3, ⟨⟨0, 30, 33⟩, 1⟩),
        (⟨⟨0, 30, 33⟩, 1⟩, .read 2, ⟨⟨2, 30, 33⟩, 1⟩),
        (⟨⟨2, 30, 33⟩, 1⟩, .read 2, ⟨⟨3, 30, 33⟩, 1⟩),
        (⟨⟨3, 30, 33⟩, 1⟩, .read 2, ⟨⟨3, 30, 33⟩, 1⟩)] ⟨⟨3, 30, 33⟩, 1⟩ :=
    .cons rfl (.cons rfl (.cons rfl (.cons rfl .nil)))
  refine ⟨_, _, hpath, rfl, rfl, reads_lossless smallFlash _ _ ?_ hpath⟩
  simp [Requests]

/-! ### The selection -/

/-- The file that a call selects after the calls `earlier`. -/
def chosen (earlier : List ℤ) (fileid : ℤ) : Fin 7 :=
  if fileid = 0xF then ⟨2 + earlier.count 0xF % 5, by omega⟩ else fileIndex fileid

def musicCursor (k : ℕ) : ℤ := if k = 0 then 1 else 2 + ((k - 1) % 5 : ℕ)

theorem nextMusic_musicCursor (k : ℕ) : nextMusic (musicCursor k) = 2 + (k % 5 : ℕ) := by
  unfold nextMusic musicCursor
  split_ifs <;> omega

theorem fileIndex_music (k : ℕ) : fileIndex (2 + (k % 5 : ℕ)) = ⟨2 + k % 5, by omega⟩ := by
  have hin : (0 : ℤ) ≤ 2 + (k % 5 : ℕ) ∧ (2 : ℤ) + (k % 5 : ℕ) < 7 := by omega
  rw [fileIndex, dif_pos hin, Fin.mk.injEq]
  omega

theorem musicCursor_succ (k : ℕ) : musicCursor (k + 1) = nextMusic (musicCursor k) := by
  rw [nextMusic_musicCursor]
  rfl

def fileids (acts : List Mp3Act) : List ℤ :=
  acts.filterMap fun
    | .setNextFileMarker fileid => some fileid
    | .read _ => none

theorem run_musicCursor (flash : Flash) (acts : List Mp3Act) {s : MyPlayMp3} {k : ℕ}
    (hs : s.nextMusicFile = musicCursor k) :
    ∃ s', run (MyPlayMp3.step flash) (fun _ _ => true) s acts = some s' ∧
      s'.nextMusicFile = musicCursor (k + (fileids acts).count 0xF) := by
  induction acts generalizing s k with
  | nil => exact ⟨s, rfl, hs⟩
  | cons a acts ih =>
    cases a with
    | read len =>
      have hnext : (mp3MusicReadCb s len).2.nextMusicFile = musicCursor k := by
        rw [← hs]
        unfold mp3MusicReadCb
        dsimp only
        split_ifs <;> rfl
      exact ih hnext
    | setNextFileMarker fileid =>
      have hids : fileids (.setNextFileMarker fileid :: acts) = fileid :: fileids acts := rfl
      by_cases hf : fileid = 0xF
      · obtain ⟨s', hrun, hcur⟩ := ih
          (s := ⟨flash.marker (fileIndex (nextMusic s.nextMusicFile)), nextMusic s.nextMusicFile⟩)
          (k := k + 1) (by rw [musicCursor_succ, hs])
        refine ⟨s', ?_, ?_⟩
        · rw [← hrun, run, if_pos rfl, MyPlayMp3.step, setNextFileMarker_eq, if_pos hf, if_pos hf]
          rfl
        · rw [hcur, hids, hf, List.count_cons_self]
          congr 1
          omega
      · obtain ⟨s', hrun, hcur⟩ := ih
          (s := ⟨flash.marker (fileIndex fileid), s.nextMusicFile⟩) (k := k) hs
        refine ⟨s', ?_, ?_⟩
        · rw [← hrun, run, if_pos rfl, MyPlayMp3.step, setNextFileMarker_eq, if_neg hf, if_neg hf]
          rfl
        · rw [hcur, hids, List.count_cons_of_ne hf]

/-- After any calls, with reads in between, a call selects the chosen entry of the tables. -/
theorem file_selected (flash : Flash) (acts : List Mp3Act) (fileid : ℤ) :
    ∃ s s', run (MyPlayMp3.step flash) (fun _ _ => true) MyPlayMp3.init acts = some s ∧
      setNextFileMarker flash s fileid = some s' ∧
      s'.fileMarker = flash.marker (chosen (fileids acts) fileid) := by
  obtain ⟨s, hrun, hcur⟩ := run_musicCursor flash acts (s := MyPlayMp3.init) (k := 0) rfl
  rw [Nat.zero_add] at hcur
  refine ⟨s, _, hrun, setNextFileMarker_eq flash s fileid, ?_⟩
  unfold chosen
  split_ifs with hf
  · rw [hcur, nextMusic_musicCursor, fileIndex_music]
  · rfl

end Car
