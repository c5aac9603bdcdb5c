import CarFirmware.Proofs.ParseCmd
import Mathlib.Data.List.TakeWhile

/-! The text format of the three tracks. Writing a list of commands down as a string and
playing the string gives the commands back, for exactly the lists that the format can hold. -/

namespace Car

open Segments

/-- The decimal digits of a beat count, as a sender writes them. -/
def decimal (n : ℤ) : CStr :=
  if n < 0 then '-' :: Nat.toDigits 10 n.natAbs else Nat.toDigits 10 n.toNat

/-- `code,beat`. -/
def Cmd.text (c : Cmd) : CStr := c.code ++ ',' :: decimal c.beat

def encodeCmds (cs : List Cmd) : CStr := cs.flatMap fun c => c.text ++ [';']

/-- A command that the format can hold. -/
structure Cmd.Encodable (c : Cmd) : Prop where
  code_ne : c.code ≠ []
  comma : ',' ∉ c.code
  semicolon : ';' ∉ c.code
  le_beat : -2 ^ 31 ≤ c.beat
  beat_lt : c.beat < 2 ^ 31

/-! ### Decimal numbers -/

theorem isdigit_of_mem_toDigits {c : Char} {n : ℕ} (h : c ∈ Nat.toDigits 10 n) :
    isdigit c = true := Nat.isDigit_of_mem_toDigits (by decide) (by decide) h

theorem ne_of_isdigit {c d : Char} (h : isdigit c = true) (hd : isdigit d = false) : c ≠ d := by
  rintro rfl
  rw [h] at hd
  cases hd

theorem foldl_toDigits (n : ℕ) :
    (Nat.toDigits 10 n).foldl (fun a c => 10 * a + (c.toNat - 48)) 0 = n := by
  induction n using Nat.strongRecOn with
  | ind n ih =>
    rcases Nat.lt_or_ge n 10 with hn | hn
    · rw [Nat.toDigits_of_lt_base hn]
      simp [Nat.toNat_digitChar_sub_48_of_lt_ten hn]
    · have hmod : n % 10 < 10 := Nat.mod_lt _ (by decide)
      have hsplit : Nat.toDigits 10 n = Nat.toDigits 10 (n / 10) ++ [(n % 10).digitChar] := by
        rw [← Nat.toDigits_of_lt_base hmod,
          Nat.toDigits_append_toDigits (by decide) (by omega) hmod]
        congr 1
        omega
      rw [hsplit, List.foldl_append, ih (n / 10) (by omega), List.foldl_cons, List.foldl_nil,
        Nat.toNat_digitChar_sub_48_of_lt_ten hmod]
      omega

theorem digits_toDigits (n : ℕ) : digits (Nat.toDigits 10 n) = n := by
  have hall : (Nat.toDigits 10 n).takeWhile isdigit = Nat.toDigits 10 n :=
    List.takeWhile_eq_self_iff.mpr fun c hc => isdigit_of_mem_toDigits hc
  rw [digits, hall, foldl_toDigits]

/-- The digits of a number are neither a sign nor a blank. -/
theorem toDigits_head (n : ℕ) : ∃ c t, Nat.toDigits 10 n = c :: t ∧ isdigit c = true := by
  obtain ⟨c, t, h⟩ := List.exists_cons_of_ne_nil (Nat.toDigits_ne_nil (n := n) (b := 10))
  exact ⟨c, t, h, isdigit_of_mem_toDigits (h ▸ List.mem_cons_self)⟩

theorem not_isspace_of_isdigit {c : Char} (h : isdigit c = true) : isspace c = false := by
  simp only [isdigit, isspace, Bool.and_eq_true, decide_eq_true_eq] at h ⊢
  have hne : c ≠ ' ' := by
    rintro rfl
    exact absurd h.1 (by decide)
  simp only [hne, decide_false, Bool.false_or, Bool.and_eq_false_iff, decide_eq_false_iff_not]
  omega

theorem atoi_toDigits (n : ℕ) : atoi (Nat.toDigits 10 n) = clamp32 n := by
  obtain ⟨c, t, hcons, hc⟩ := toDigits_head n
  have hminus : c ≠ '-' := ne_of_isdigit hc (by decide)
  have hplus : c ≠ '+' := ne_of_isdigit hc (by decide)
  have hdigits := digits_toDigits n
  rw [hcons] at hdigits ⊢
  rw [atoi, List.dropWhile_cons_of_neg (by simp [not_isspace_of_isdigit hc]), signed,
    if_neg hminus, if_neg hplus, hdigits]

theorem atoi_decimal {n : ℤ} (hlow : -2 ^ 31 ≤ n) (hhigh : n < 2 ^ 31) : atoi (decimal n) = n := by
  rw [decimal]
  split_ifs with hn
  · have hatoi : atoi ('-' :: Nat.toDigits 10 n.natAbs) =
        clamp32 (-(digits (Nat.toDigits 10 n.natAbs) : ℤ)) := rfl
    rw [hatoi, digits_toDigits, clamp32]
    omega
  · rw [atoi_toDigits, clamp32]
    omega

theorem clamp32_mem (n : ℤ) : -2 ^ 31 ≤ clamp32 n ∧ clamp32 n < 2 ^ 31 := by
  unfold clamp32
  omega

theorem atoi_mem (s : CStr) : -2 ^ 31 ≤ atoi s ∧ atoi s < 2 ^ 31 := by
  rw [atoi]
  cases s.dropWhile isspace with
  | nil => decide
  | cons c t =>
    rw [signed]
    split_ifs <;> exact clamp32_mem _

/-! ### Segments -/

theorem notMem_decimal {d : Char} (n : ℤ) (hd : isdigit d = false) (hminus : d ≠ '-') :
    d ∉ decimal n := by
  have hnot (m : ℕ) : d ∉ Nat.toDigits 10 m := fun h =>
    ne_of_isdigit (isdigit_of_mem_toDigits h) hd rfl
  rw [decimal]
  split_ifs
  · simp [hnot, hminus]
  · exact hnot _

theorem idxOf_text {c : Cmd} (h : c.Encodable) : c.text.idxOf ',' = c.code.length := by
  rw [Cmd.text, List.idxOf_append_of_notMem h.comma]
  simp

theorem decode_text {c : Cmd} (h : c.Encodable) :
    ';' ∉ c.text ∧ WellFormed c.text ∧ decode c.text = c := by
  have hidx := idxOf_text h
  refine ⟨?_, ⟨?_, ?_⟩, ?_⟩
  · have hdec : ';' ∉ decimal c.beat := notMem_decimal c.beat (by decide) (by decide)
    simp [Cmd.text, h.semicolon, hdec]
  · rw [hidx]
    exact List.length_pos_of_ne_nil h.code_ne
  · rw [hidx]
    simp [Cmd.text]
  · rw [decode, hidx, Cmd.text]
    simp [atoi_decimal h.le_beat h.beat_lt]

theorem goodSegments_encodeCmds {cs : List Cmd} (h : ∀ c ∈ cs, c.Encodable) :
    goodSegments (encodeCmds cs) = cs.map Cmd.text := by
  induction cs with
  | nil => rfl
  | cons c cs ih =>
    have hcons : encodeCmds (c :: cs) = c.text ++ ';' :: encodeCmds cs := by simp [encodeCmds]
    obtain ⟨hsemi, hwf, -⟩ := decode_text (h c List.mem_cons_self)
    rw [hcons, goodSegments_append hsemi, if_pos hwf,
      ih fun d hd => h d (List.mem_cons_of_mem _ hd), List.map_cons]

theorem commandList_encodeCmds {cs : List Cmd} (h : ∀ c ∈ cs, c.Encodable) :
    commandList (encodeCmds cs) = cs := by
  rw [commandList, goodSegments_encodeCmds h, List.map_map]
  calc cs.map (decode ∘ Cmd.text) = cs.map id :=
        List.map_congr_left fun c hc => (decode_text (h c hc)).2.2
    _ = cs := List.map_id cs

theorem encodable_of_mem {s : CStr} {c : Cmd} (h : c ∈ commandList s) : c.Encodable := by
  obtain ⟨w, hw, rfl⟩ := List.mem_map.mp h
  rw [goodSegments] at hw
  have hwf : WellFormed w := by simpa using List.mem_takeWhile_imp hw
  have hsemi : ';' ∉ w := notMem_of_mem_closed ((List.takeWhile_prefix _).subset hw)
  exact {
    code_ne := fun hnil => by
      have hlen := congrArg List.length hnil
      have := hwf.1
      have := hwf.2
      simp only [decode, List.length_take, List.length_nil] at hlen
      omega
    comma := fun hmem => by
      have hlt := (List.mem_take_iff_idxOf_lt (List.mem_of_mem_take hmem)).mp hmem
      exact lt_irrefl _ hlt
    semicolon := fun hmem => hsemi (List.mem_of_mem_take hmem)
    le_beat := (atoi_mem _).1
    beat_lt := (atoi_mem _).2 }

/-- An undisturbed player of the string that is written for a list of commands executes this
list, and writes at most `cap` bytes into its code array, for exactly the lists that the format
can hold and whose codes leave room for the NUL. -/
theorem play_encodeCmds_iff (cap : ℕ) (cs : List Cmd) :
    ((∃ fuel₀, ∀ fuel ≥ fuel₀, play (encodeCmds cs) fuel .loop 0 = some cs) ∧
      CodeFits cap (encodeCmds cs)) ↔ ∀ c ∈ cs, c.Encodable ∧ c.code.length < cap := by
  have hplay (fuel : ℕ) (hfuel : 3 * (encodeCmds cs).length + 3 ≤ fuel) :
      play (encodeCmds cs) fuel .loop 0 = some (commandList (encodeCmds cs)) :=
    play_eq (encodeCmds cs) [] fuel hfuel
  have hfits (h : ∀ c ∈ cs, c.Encodable) :
      CodeFits cap (encodeCmds cs) ↔ ∀ c ∈ cs, c.code.length < cap := by
    rw [codeFits_iff, goodSegments_encodeCmds h, List.forall_mem_map]
    exact forall₂_congr fun c hc => by rw [idxOf_text (h c hc)]
  constructor
  · rintro ⟨⟨fuel₀, h⟩, hcode⟩
    have heq := (h _ (le_max_left fuel₀ _)).symm.trans (hplay _ (le_max_right fuel₀ _))
    have henc (c : Cmd) (hc : c ∈ cs) : c.Encodable := by
      rw [Option.some.inj heq] at hc
      exact encodable_of_mem hc
    exact fun c hc => ⟨henc c hc, (hfits henc).mp hcode c hc⟩
  · intro h
    have henc (c : Cmd) (hc : c ∈ cs) : c.Encodable := (h c hc).1
    refine ⟨⟨3 * (encodeCmds cs).length + 3, fun fuel hfuel => ?_⟩, ?_⟩
    · rw [hplay fuel hfuel, commandList_encodeCmds henc]
    · exact (hfits henc).mpr fun c hc => (h c hc).2

end Car
