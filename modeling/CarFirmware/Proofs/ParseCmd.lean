import CarFirmware.Lib.Segments
import CarFirmware.Lib.Transition
import CarFirmware.Spec.Drv8833
import CarFirmware.Spec.LedStrip
import CarFirmware.Spec.Sound

/-! The command loop against its specification: which commands a string stands
for, that the loop executes exactly these, and how much `parse_cmd` writes. -/

namespace Car

open Segments Transition

def WellFormed (w : CStr) : Prop := 0 < w.idxOf ',' ∧ w.idxOf ',' < w.length

instance : DecidablePred WellFormed := fun _ => inferInstanceAs (Decidable (_ ∧ _))

/-- The command of a segment: the text before its first `,`, and `atoi` of the rest. -/
def decode (w : CStr) : Cmd where
  code := w.take (w.idxOf ',')
  beat := atoi (w.drop (w.idxOf ',' + 1))

/-- The longest prefix of well formed segments among those that a `;` closes. -/
def goodSegments (s : CStr) : List CStr := (closed ';' s).takeWhile (WellFormed ·)

/-- The commands a string stands for. -/
def commandList (s : CStr) : List Cmd := (goodSegments s).map decode

theorem goodSegments_of_notMem {s : CStr} (h : ';' ∉ s) : goodSegments s = [] := by
  rw [goodSegments, closed_of_notMem h]
  rfl

theorem goodSegments_append {w : CStr} (h : ';' ∉ w) (t : CStr) :
    goodSegments (w ++ ';' :: t) = if WellFormed w then w :: goodSegments t else [] := by
  rw [goodSegments, closed_append_cons h, List.takeWhile_cons]
  simp only [decide_eq_true_eq]
  rfl

theorem search_eq (c : Char) (s : CStr) : search c s = (s.idxOf c, decide (c ∈ s)) := by
  induction s with
  | nil => rfl
  | cons x xs ih =>
    by_cases h : x = c
    · simp [search, h]
    · simp [search, h, ih, Ne.symm h]

theorem search_semicolon {w : CStr} (h : ';' ∉ w) (t : CStr) :
    search ';' (w ++ ';' :: t) = (w.length, true) := by
  rw [search_eq, List.idxOf_append_of_notMem h]
  simp

theorem digits_append_semicolon (a t : CStr) : digits (a ++ ';' :: t) = digits a := by
  have h : (a ++ ';' :: t).takeWhile isdigit = a.takeWhile isdigit := by
    rw [List.takeWhile_append]
    split_ifs with ha
    · rw [List.takeWhile_cons_of_neg (by decide), List.append_nil]
      exact (List.takeWhile_prefix isdigit).eq_of_length ha |>.symm
    · rfl
  rw [digits, h, digits]

theorem signed_append_semicolon (a t : CStr) : signed (a ++ ';' :: t) = signed a := by
  cases a with
  | nil =>
    have h : digits (';' :: t) = digits [] := digits_append_semicolon [] t
    have hs : signed (';' :: t) = clamp32 (digits (';' :: t)) := by simp [signed]
    rw [List.nil_append, hs, h]
    decide
  | cons c b =>
    have h : digits (c :: (b ++ ';' :: t)) = digits (c :: b) := digits_append_semicolon (c :: b) t
    simp only [List.cons_append, signed, h, digits_append_semicolon]

theorem atoi_append_semicolon (a t : CStr) : atoi (a ++ ';' :: t) = atoi a := by
  have h : (a ++ ';' :: t).dropWhile isspace = a.dropWhile isspace ++ ';' :: t := by
    rw [List.dropWhile_append]
    split_ifs with ha
    · rw [List.isEmpty_iff.mp ha, List.dropWhile_cons_of_neg (by decide), List.nil_append]
    · rfl
  rw [atoi, h, signed_append_semicolon, atoi]

theorem parseCmd_of_notMem {s : CStr} (h : ';' ∉ s) : parseCmd s = none := by
  simp [parseCmd, search_eq, h]

/-- Acceptance and result depend on the first segment only, although the comma is
searched in the whole rest of the string. -/
theorem parseCmd_append {w : CStr} (h : ';' ∉ w) (t : CStr) :
    parseCmd (w ++ ';' :: t) =
      if WellFormed w then some { decode w with pos := w.length } else none := by
  unfold parseCmd
  rw [search_semicolon h, search_eq]
  by_cases hc : ',' ∈ w
  · have hlt : w.idxOf ',' < w.length := List.idxOf_lt_length_of_mem hc
    have hmem : ',' ∈ w ++ ';' :: t := List.mem_append_left _ hc
    rw [List.idxOf_append_of_mem hc]
    by_cases h0 : 0 < w.idxOf ','
    · have hw : WellFormed w := ⟨h0, hlt⟩
      have hdrop : (w ++ ';' :: t).drop (w.idxOf ',' + 1) = w.drop (w.idxOf ',' + 1) ++ ';' :: t :=
        List.drop_append_of_le_length hlt
      have htake : (w ++ ';' :: t).take (w.idxOf ',') = w.take (w.idxOf ',') :=
        List.take_append_of_le_length hlt.le
      have hne : w.length ≠ 0 := by omega
      simp only [hmem, hw, hdrop, htake, atoi_append_semicolon, decode, decide_true,
        Bool.true_eq_false, h0.ne', hne, or_self, if_false, if_true, not_le.mpr hlt]
    · have hw : ¬ WellFormed w := fun hw => h0 hw.1
      simp [hw, Nat.eq_zero_of_not_pos h0]
  · -- the comma found, if any, belongs to a later command
    have hw : ¬ WellFormed w := fun hw => by
      rw [WellFormed, List.idxOf_of_notMem hc] at hw
      exact lt_irrefl _ hw.2
    have hge : w.length ≤ (w ++ ';' :: t).idxOf ',' := by
      rw [List.idxOf_append_of_notMem hc]
      omega
    simp [hw, hge]

theorem parseCmd_eq_some {s : CStr} {r : Parsed} (h : parseCmd s = some r) :
    ∃ w t, s = w ++ ';' :: t ∧ ';' ∉ w ∧ WellFormed w ∧ r = { decode w with pos := w.length } := by
  by_cases hs : ';' ∈ s
  · obtain ⟨w, t, rfl, hw⟩ := List.eq_append_cons_of_mem hs
    rw [parseCmd_append hw] at h
    split_ifs at h with hwf
    exact ⟨w, t, rfl, hw, hwf, (Option.some.inj h).symm⟩
  · rw [parseCmd_of_notMem hs] at h
    cases h

def Walked (s : CStr) (pos : ℕ) : Prop :=
  pos ≤ s.length ∧ ∃ ws, (∀ w ∈ ws, WellFormed w) ∧
    closed ';' s = ws ++ closed ';' (s.drop pos)

theorem walked_zero (s : CStr) : Walked s 0 := ⟨Nat.zero_le _, [], by simp, by simp⟩

theorem walked_parse {s : CStr} {pos : ℕ} {r : Parsed} (hw : Walked s pos)
    (hr : parseCmd (s.drop pos) = some r) : Walked s (pos + r.pos + 1) := by
  obtain ⟨hle, ws, hws, hclosed⟩ := hw
  obtain ⟨w, t, hdrop, hsemi, hwf, rfl⟩ := parseCmd_eq_some hr
  have hlen : s.length - pos = w.length + (t.length + 1) := by
    simpa using congrArg List.length hdrop
  have hrest : s.drop (pos + w.length + 1) = t := by
    rw [Nat.add_assoc, ← List.drop_drop, hdrop]
    simp
  refine ⟨by simp only; omega, ws ++ [w], ?_, ?_⟩
  · intro v hv
    rcases List.mem_append.mp hv with hv | hv
    · exact hws v hv
    · rwa [List.mem_singleton.mp hv]
  · rw [hclosed, hdrop, closed_append_cons hsemi, hrest]
    simp

theorem loopStep_cases {s : CStr} {st st' : CmdPc × ℕ} {run : Bool}
    (h : loopStep s st run = some st') :
    (st.1 = .loop ∧ st.2 < s.length ∧ st' = (.test, st.2)) ∨
    (st.1 = .test ∧ run = true ∧ st' = (.parse, st.2)) ∨
    (∃ r, st.1 = .parse ∧ parseCmd (s.drop st.2) = some r ∧ st' = (.loop, st.2 + r.pos + 1)) := by
  obtain ⟨pc, pos⟩ := st
  cases pc with
  | loop =>
    by_cases hlt : pos < s.length
    · simp only [loopStep, cmdStep, hlt, if_true, Option.some.injEq] at h
      exact .inl ⟨rfl, hlt, h.symm⟩
    · simp [loopStep, cmdStep, hlt] at h
  | test =>
    cases run with
    | false => simp [loopStep, cmdStep] at h
    | true => exact .inr (.inl ⟨rfl, rfl, (Option.some.inj h).symm⟩)
  | parse =>
    cases hr : parseCmd (s.drop pos) with
    | none => simp [loopStep, cmdStep, hr] at h
    | some r =>
      simp only [loopStep, cmdStep, hr, Option.some.injEq] at h
      exact .inr (.inr ⟨r, rfl, rfl, h.symm⟩)

theorem walked_step {s : CStr} {st st' : CmdPc × ℕ} {run : Bool} (hw : Walked s st.2)
    (h : loopStep s st run = some st') : Walked s st'.2 := by
  rcases loopStep_cases h with ⟨-, -, rfl⟩ | ⟨-, -, rfl⟩ | ⟨r, -, hr, rfl⟩
  · exact hw
  · exact hw
  · exact walked_parse hw hr

theorem walked_reach {s : CStr} {ok : CmdPc × ℕ → Bool → Prop} {st : CmdPc × ℕ}
    (h : Reach (loopStep s) ok (.loop, 0) st) : Walked s st.2 :=
  h.invariant (I := fun st => Walked s st.2) (walked_zero s) fun _ _ _ hw _ hs => walked_step hw hs

theorem play_nil (s : CStr) (n : ℕ) : play s (n + 1) .loop s.length = some [] := by
  simp [play, cmdStep]

theorem play_parse {s : CStr} {pos : ℕ} (h : pos < s.length) (n : ℕ) :
    play s (n + 3) .loop pos =
      match parseCmd (s.drop pos) with
      | none => some []
      | some r => (play s n .loop (pos + r.pos + 1)).map (r.toCmd :: ·) := by
  simp only [play, cmdStep, h, if_true]
  cases parseCmd (s.drop pos) <;> rfl

/-- With three statements for each remaining character the loop ends, and it has
executed the commands of the rest of the string. -/
theorem play_eq (u before : CStr) (n : ℕ) (hn : 3 * u.length + 3 ≤ n) :
    play (before ++ u) n .loop before.length = some (commandList u) := by
  induction u using closed_induction ';' generalizing before n with
  | last l hl =>
    obtain ⟨m, rfl⟩ : ∃ m, n = m + 3 := ⟨n - 3, by omega⟩
    rw [commandList, goodSegments_of_notMem hl]
    cases l with
    | nil => simpa using play_nil before (m + 2)
    | cons c l =>
      rw [play_parse (by simp), List.drop_left, parseCmd_of_notMem hl]
      rfl
  | piece w t hw ih =>
    simp only [List.length_append, List.length_cons] at hn
    obtain ⟨m, rfl⟩ : ∃ m, n = m + 3 := ⟨n - 3, by omega⟩
    rw [play_parse (by simp), List.drop_left, parseCmd_append hw, commandList,
      goodSegments_append hw]
    split_ifs with hwf
    · have hrest := ih (before ++ w ++ [';']) m (by omega)
      simp only [List.append_assoc, List.singleton_append, List.length_append,
        List.length_singleton, ← Nat.add_assoc] at hrest
      simp only [hrest, Option.map_some, List.map_cons]
      rfl
    · rfl

/-- An undisturbed player ends, stays inside the string, and executes exactly the
commands of the well formed prefix of segments. -/
theorem play_commandList (s : CStr) :
    (∃ fuel₀, ∀ fuel ≥ fuel₀, play s fuel .loop 0 = some (commandList s)) ∧
    (∀ st, Reach (loopStep s) (fun _ run => run = true) (.loop, 0) st → st.2 ≤ s.length) :=
  ⟨⟨3 * s.length + 3, play_eq s []⟩, fun _ h => (walked_reach h).1⟩

/-- Every call of `parse_cmd` that a walk over `s` makes, whatever values of
`task_run` the walk reads, writes at most `cap` bytes or returns -1. -/
def CodeFits (cap : ℕ) (s : CStr) : Prop :=
  ∀ pos, Reach (loopStep s) (fun _ _ => True) (.loop, 0) (.parse, pos) →
    ∀ r, parseCmd (s.drop pos) = some r → r.written ≤ cap

theorem written_decode {w : CStr} (h : WellFormed w) (n : ℕ) :
    Parsed.written { decode w with pos := n } = w.idxOf ',' + 1 := by
  simp [Parsed.written, decode, h.2.le]

theorem parses_goodSegments (u before : CStr)
    (hreach : Reach (loopStep (before ++ u)) (fun _ _ => True) (.loop, 0) (.loop, before.length)) :
    ∀ w ∈ goodSegments u, ∃ pos r,
      Reach (loopStep (before ++ u)) (fun _ _ => True) (.loop, 0) (.parse, pos) ∧
      parseCmd ((before ++ u).drop pos) = some r ∧ r.written = w.idxOf ',' + 1 := by
  induction u using closed_induction ';' generalizing before with
  | last l hl =>
    intro w hw
    rw [goodSegments_of_notMem hl] at hw
    cases hw
  | piece v t hv ih =>
    intro w hw
    rw [goodSegments_append hv] at hw
    split_ifs at hw with hwf
    · have htest : Reach (loopStep (before ++ (v ++ ';' :: t))) (fun _ _ => True) (.loop, 0)
          (.test, before.length) :=
        .tail true hreach trivial (by simp [loopStep, cmdStep])
      have hparse : Reach (loopStep (before ++ (v ++ ';' :: t))) (fun _ _ => True) (.loop, 0)
          (.parse, before.length) :=
        .tail true htest trivial rfl
      have hr : parseCmd ((before ++ (v ++ ';' :: t)).drop before.length) =
          some { decode v with pos := v.length } := by
        rw [List.drop_left, parseCmd_append hv, if_pos hwf]
      rcases List.mem_cons.mp hw with rfl | hw
      · exact ⟨before.length, _, hparse, hr, written_decode hwf _⟩
      · have hnext := Reach.tail true hparse trivial
          (show loopStep (before ++ (v ++ ';' :: t)) (.parse, before.length) true =
            some (.loop, before.length + v.length + 1) by simp only [loopStep, cmdStep, hr])
        have hstr : before ++ (v ++ ';' :: t) = before ++ v ++ [';'] ++ t := by simp
        have hlen : before.length + v.length + 1 = (before ++ v ++ [';']).length := by
          simp [Nat.add_assoc]
        rw [hstr, hlen] at hnext
        rw [hstr]
        exact ih _ hnext w hw
    · cases hw

theorem codeFits_iff (cap : ℕ) (s : CStr) :
    CodeFits cap s ↔ ∀ w ∈ goodSegments s, w.idxOf ',' < cap := by
  constructor
  · intro h w hw
    obtain ⟨pos, r, hpos, hr, hwr⟩ := parses_goodSegments s [] .refl w hw
    have := h pos hpos r hr
    omega
  · intro h pos hpos r hr
    obtain ⟨-, ws, hws, hclosed⟩ := walked_reach hpos
    obtain ⟨w, t, hdrop, hsemi, hwf, rfl⟩ := parseCmd_eq_some hr
    rw [written_decode hwf]
    apply h w
    -- all segments before `w` are well formed, so the good prefix contains `w`
    rw [goodSegments, hclosed, hdrop, closed_append_cons hsemi,
      List.takeWhile_append_of_pos (by simpa using hws)]
    simp [hwf]

/-- The three players' arrays hold every code they are given exactly when the good
segments of each string have their comma early enough. -/
theorem players_codeFits_iff (v2 v3 v4 : CStr) :
    (CodeFits noteLabelSize v2 ∧ CodeFits motorCodeSize v3 ∧ CodeFits ledCodeSize v4) ↔
      (∀ w ∈ goodSegments v2, w.idxOf ',' < noteLabelSize) ∧
      (∀ w ∈ goodSegments v3, w.idxOf ',' < motorCodeSize) ∧
      (∀ w ∈ goodSegments v4, w.idxOf ',' < ledCodeSize) := by
  rw [codeFits_iff, codeFits_iff, codeFits_iff]

theorem label_overrun : ¬ ∀ v2 v3 v4 : CStr,
    CodeFits noteLabelSize v2 ∧ CodeFits motorCodeSize v3 ∧ CodeFits ledCodeSize v4 := by
  intro h
  have hlt := (codeFits_iff _ _).mp (h ['A', 'B', 'C', 'D', ',', '1', ';'] [] []).1
    ['A', 'B', 'C', 'D', ',', '1'] (by decide)
  exact absurd hlt (by decide)

end Car
