import CarFirmware.Lib.Loans
import CarFirmware.Lib.Transition
import CarFirmware.Spec.LedRenderer
import CarFirmware.Spec.Tasks

/-! What goes out on the wire of the LED strip. A transaction is a loan of the bytes of
`led_strip_pixels` that the transmitter has not read yet; as long as the renderer stores no
different byte over one of them, the frames are sent whole and in order. -/

namespace Car.LedRenderer

open Transition Loans

/-! ### The steps -/

inductive Step : State → Act → State → Prop
  | fill {s : State} (f : Frame) : s.queue.length < queueLength →
      Step s (.fill f) { s with queue := s.queue ++ [f], enqueued := s.enqueued ++ [f] }
  | discard {s : State} (f : Frame) : Step s (.discard f) s
  | test {s : State} : s.renderer = .test →
      Step s .renderer { s with renderer := if s.taskRun then .receive else .ended }
  | receive {s : State} {f : Frame} {q : List Frame} : s.renderer = .receive → s.queue = f :: q →
      Step s .renderer { s with queue := q, renderer := .copy f 0 }
  | copy {s : State} {f : Frame} {n : ℕ} (h : n < frameSize) : s.renderer = .copy f n →
      Step s .renderer { s with
        pixels := Function.update s.pixels ⟨n, h⟩ (f ⟨n, h⟩), renderer := .copy f (n + 1) }
  | copied {s : State} {f : Frame} {n : ℕ} : s.renderer = .copy f n → ¬ n < frameSize →
      Step s .renderer { s with renderer := .transmit f }
  | transmit {s : State} {f : Frame} : s.renderer = .transmit f →
      Step s .renderer { s with pending := s.pending ++ [f], renderer := .test }
  | timeout {s : State} : s.renderer = .receive → Step s .timeout { s with renderer := .test }
  | read {s : State} {g : Frame} {rest : List Frame} (h : s.out.length < frameSize) :
      s.pending = g :: rest → Step s .wire { s with out := s.out ++ [s.pixels ⟨s.out.length, h⟩] }
  | done {s : State} {g : Frame} {rest : List Frame} : s.pending = g :: rest →
      ¬ s.out.length < frameSize →
      Step s .wire { s with pending := rest, out := [], sent := s.sent ++ [s.out] }
  | stop {s : State} : Step s .stop { s with taskRun := false }

variable {s s' : State} {a : Act}

theorem step_cases (h : s.step a = some s') : Step s a s' := by
  cases a with
  | fill f =>
    simp only [State.step, State.stepFill] at h
    split_ifs at h with hroom
    cases h
    exact .fill f hroom
  | discard f =>
    simp only [State.step] at h
    split_ifs at h
    cases h
    exact .discard f
  | renderer =>
    simp only [State.step, State.stepRenderer] at h
    split at h
    · cases h
      exact .test ‹_›
    · split at h <;> cases h
      exact .receive ‹_› ‹_›
    · split_ifs at h with hn <;> cases h
      · exact .copy hn ‹_›
      · exact .copied ‹_› hn
    · split_ifs at h
      cases h
      exact .transmit ‹_›
    · cases h
  | timeout =>
    simp only [State.step, State.stepTimeout] at h
    split at h <;> cases h
    exact .timeout ‹_›
  | wire =>
    simp only [State.step, State.stepWire] at h
    split at h
    · cases h
    · split_ifs at h with hout <;> cases h
      · exact .read hout ‹_›
      · exact .done ‹_› hout
  | stop =>
    cases h
    exact .stop

inductive Renderer.At : Renderer → LoopPc → Prop
  | test : At .test .loop
  | receive (deadline : Option ℕ) : At .receive (.receive deadline)
  | copy (f : Frame) (n : ℕ) : At (.copy f n) .process
  | transmit (f : Frame) : At (.transmit f) .process
  | ended : At .ended .setBits

/-- The renderer that is started and stopped through its handle is this one: a statement is a
statement of the loop, or a part of its body. -/
theorem stepRenderer_loop {p : LoopPc} (hat : s.renderer.At p) (h : s.stepRenderer = some s')
    (hw : Hw) : s'.renderer.At p ∨
      ∃ p', loopTask ledStripRendererTimeout (!s.queue.isEmpty) s.taskRun p hw =
        some (p', .none, hw) ∧ s'.renderer.At p' := by
  generalize hr : s.renderer = r at hat
  cases step_cases (a := .renderer) h with
  | test htask =>
    obtain rfl := htask.symm.trans hr
    cases hat
    right
    cases hrun : s.taskRun
    · exact ⟨.setBits, rfl, .ended⟩
    · exact ⟨_, rfl, .receive _⟩
  | @receive f q htask hq =>
    obtain rfl := htask.symm.trans hr
    cases hat
    exact .inr ⟨.process, by rw [hq]; rfl, .copy f 0⟩
  | @copy f n _ htask =>
    obtain rfl := htask.symm.trans hr
    cases hat
    exact .inl (.copy f (n + 1))
  | @copied f n htask =>
    obtain rfl := htask.symm.trans hr
    cases hat
    exact .inl (.transmit f)
  | transmit htask =>
    obtain rfl := htask.symm.trans hr
    cases hat
    exact .inr ⟨.loop, rfl, .test⟩

theorem stepTimeout_loop {p : LoopPc} (hat : s.renderer.At p) (h : s.stepTimeout = some s')
    {hw : Hw} (hlate : ∀ d, p = .receive d → expired hw.now d = true) :
    ∃ p', loopTask ledStripRendererTimeout (!s.queue.isEmpty) s.taskRun p hw =
      some (p', .none, hw) ∧ s'.renderer.At p' := by
  unfold State.stepTimeout at h
  split at h
  case h_1 hr hq =>
    cases h
    rw [hr] at hat
    cases hat with
    | receive d => exact ⟨.loop, by simp [loopTask, hq, hlate d rfl], .test⟩
  case h_2 => cases h

/-! ### Transactions as loans of the buffer -/

def loan (g : Frame) (n : ℕ) : Loan (Fin frameSize) UInt8 := ⟨fun k => n ≤ k.val, g⟩

def loans : List Frame → ℕ → List (Loan (Fin frameSize) UInt8)
  | [], _ => []
  | g :: rest, n => loan g n :: rest.map fun g' => loan g' 0

/-- The frames of which the transmitter has still to read byte `k`. -/
def State.unread (s : State) (k : Fin frameSize) : List Frame :=
  match s.pending with
  | [] => []
  | g :: rest => if s.out.length ≤ k.val then g :: rest else rest

/-- If the renderer stores a byte, it is the byte that each transaction has in this place
which has still to read it. -/
def StoreOk (s : State) (a : Act) : Prop :=
  a = .renderer → ∀ f n, ∀ h : n < frameSize, s.renderer = .copy f n →
    ∀ g ∈ s.unread ⟨n, h⟩, f ⟨n, h⟩ = g ⟨n, h⟩

theorem permits_iff {k : Fin frameSize} {x : UInt8} :
    Permits (loans s.pending s.out.length) k x ↔ ∀ g ∈ s.unread k, x = g k := by
  unfold State.unread
  cases s.pending with
  | nil => simp [Permits, loans]
  | cons g rest =>
    simp only [Permits, loans, List.forall_mem_cons, List.forall_mem_map, loan]
    split_ifs with hk
    · simp [hk]
    · simp [hk]

def Renderer.held : Renderer → List Frame
  | .copy f _ => [f]
  | .transmit f => [f]
  | _ => []

def received (f : Frame) (n : ℕ) : Loan (Fin frameSize) UInt8 := ⟨fun k => k.val < n, f⟩

/-- The buffer has what the transactions have still to read, the frames sent are whole, and
no frame is lost, repeated or out of order. -/
structure Inv (s : State) : Prop where
  honoured : Honoured (loans s.pending s.out.length) s.pixels
  copy : ∀ f n, s.renderer = .copy f n → (received f n).Intact s.pixels
  transmit : ∀ f, s.renderer = .transmit f → s.pixels = f
  out : ∀ g rest, s.pending = g :: rest → s.out = (bytes g).take s.out.length
  idle : s.pending = [] → s.out = []
  order : s.enqueued.map bytes =
    s.sent ++ (s.pending ++ s.renderer.held ++ s.queue).map bytes

theorem Inv.init : Inv State.init where
  honoured := honoured_nil
  copy := by simp [State.init]
  transmit := by simp [State.init]
  out := by simp [State.init]
  idle _ := rfl
  order := rfl

theorem loans_append {p : List Frame} {n : ℕ} {f : Frame} (h : p = [] → n = 0) :
    loans (p ++ [f]) n = loans p n ++ [loan f 0] := by
  cases p with
  | nil => simp [loans, h rfl]
  | cons g rest => simp [loans]

theorem loans_tail_subset {g : Frame} {rest : List Frame} {n : ℕ} :
    loans rest 0 ⊆ loans (g :: rest) n := by
  cases rest with
  | nil => exact List.nil_subset _
  | cons g' rest => exact List.subset_cons_of_subset _ (List.Subset.refl _)

theorem loans_advance {p : List Frame} {n : ℕ} {cell : Frame} (h : Honoured (loans p n) cell) :
    Honoured (loans p (n + 1)) cell := by
  cases p with
  | nil => exact honoured_nil
  | cons g rest =>
    obtain ⟨hhead, hrest⟩ := honoured_cons.mp h
    exact honoured_cons.mpr ⟨hhead.narrow (fun k hk => Nat.le_of_succ_le hk) rfl, hrest⟩

theorem bytes_length (f : Frame) : (bytes f).length = frameSize := List.length_ofFn

theorem Inv.read (h : Inv s) {g : Frame} {rest : List Frame} (hp : s.pending = g :: rest)
    (hout : s.out.length < frameSize) :
    s.out ++ [s.pixels ⟨s.out.length, hout⟩] = (bytes g).take (s.out.length + 1) := by
  have hhon := h.honoured
  rw [hp] at hhon
  have hnext : s.pixels ⟨s.out.length, hout⟩ = g ⟨s.out.length, hout⟩ :=
    (honoured_cons.mp hhon).1 _ le_rfl
  rw [List.take_succ_eq_append_getElem (by rw [bytes_length]; exact hout), ← h.out g rest hp, hnext]
  simp [bytes]

theorem Inv.done (h : Inv s) {g : Frame} {rest : List Frame} (hp : s.pending = g :: rest)
    (hout : ¬ s.out.length < frameSize) : s.out = bytes g := by
  rw [h.out g rest hp]
  exact List.take_of_length_le (by rw [bytes_length]; omega)

theorem Inv.step (h : Inv s) (hs : Step s a s') (hok : StoreOk s a) : Inv s' := by
  cases hs with
  | fill f => exact { h with order := by simp [h.order] }
  | discard f => exact h
  | stop => exact { h with }
  | test htask =>
    have hheld : s.renderer.held = [] := by rw [htask]; rfl
    refine ⟨h.honoured, ?_, ?_, h.out, h.idle, ?_⟩
    · intro f n heq
      simp only at heq
      split_ifs at heq
    · intro f heq
      simp only at heq
      split_ifs at heq
    · rw [h.order, hheld]
      split_ifs <;> rfl
  | timeout htask =>
    refine ⟨h.honoured, by simp, by simp, h.out, h.idle, ?_⟩
    rw [h.order, htask]
    rfl
  | @receive f q htask hq =>
    refine ⟨h.honoured, ?_, by simp, h.out, h.idle, ?_⟩
    · rintro f' n heq k hk
      cases heq
      exact absurd hk (Nat.not_lt_zero _)
    · rw [h.order, htask, hq]
      simp [Renderer.held]
  | @copy f n hn htask =>
    refine ⟨h.honoured.update_iff.mpr (permits_iff.mpr (hok rfl f n hn htask)), ?_, by simp,
      h.out, h.idle, ?_⟩
    · rintro f' n' heq
      cases heq
      have hcov (k : Fin frameSize) (hk : k.val < n + 1) : k = ⟨n, hn⟩ ∨ k.val < n :=
        (Nat.lt_succ_iff_lt_or_eq.mp hk).symm.imp_left Fin.ext
      exact (h.copy f n htask).store hcov rfl
    · rw [h.order, htask]
      rfl
  | @copied f n htask hn =>
    refine ⟨h.honoured, by simp, ?_, h.out, h.idle, ?_⟩
    · rintro f' heq
      cases heq
      exact funext fun k => h.copy f n htask k (k.isLt.trans_le (Nat.not_lt.mp hn))
    · rw [h.order, htask]
      rfl
  | @transmit f htask =>
    refine ⟨?_, by simp, by simp, ?_, by simp, ?_⟩
    · rw [loans_append fun hnil => by rw [h.idle hnil]; rfl, honoured_append, honoured_cons,
        h.transmit f htask]
      exact ⟨h.transmit f htask ▸ h.honoured, fun k _ => rfl, honoured_nil⟩
    · intro g rest heq
      cases hp : s.pending with
      | nil => simp [h.idle hp]
      | cons g' rest' =>
        rw [hp] at heq
        cases heq
        exact h.out g rest' hp
    · rw [h.order, htask]
      simp [Renderer.held]
  | @read g rest hout hp =>
    refine ⟨?_, h.copy, h.transmit, ?_, ?_, h.order⟩
    · rw [List.length_append, List.length_singleton]
      exact loans_advance h.honoured
    · intro g' rest' heq
      rw [hp] at heq
      cases heq
      rw [List.length_append, List.length_singleton]
      exact h.read hp hout
    · intro hnil
      rw [hp] at hnil
      cases hnil
  | @done g rest hp hout =>
    have hhon := h.honoured
    rw [hp] at hhon
    refine ⟨hhon.mono loans_tail_subset, h.copy, h.transmit, by simp, fun _ => rfl, ?_⟩
    rw [h.order, hp, h.done hp hout]
    simp

/-- The condition is the right one: a step keeps what the transactions have still to read if
and only if it meets it. -/
theorem Inv.honoured_iff (h : Inv s) (hs : Step s a s') :
    Honoured (loans s'.pending s'.out.length) s'.pixels ↔ StoreOk s a := by
  refine ⟨?_, fun hok => (h.step hs hok).honoured⟩
  rintro hhon rfl f n hn htask
  cases hs with
  | @copy f' n' hn' htask' =>
    rw [htask'] at htask
    cases htask
    exact permits_iff.mp (h.honoured.update_iff.mp hhon)
  | copied htask' hn' =>
    rw [htask'] at htask
    cases htask
    exact absurd hn hn'
  | _ => simp [*] at htask

/-- In a run in which the renderer stores no different byte over one that a transaction has
still to read, every frame sent is a frame enqueued, and the frames sent are frames enqueued
in their order, each at most once. -/
theorem frames_untorn (h : Reach State.step StoreOk State.init s) :
    (∀ x ∈ s.sent, ∃ f ∈ s.enqueued, x = bytes f) ∧ s.sent.Sublist (s.enqueued.map bytes) := by
  have hinv : Inv s := h.invariant .init fun _ _ _ hI hok hs => hI.step (step_cases hs) hok
  have hsub : s.sent.Sublist (s.enqueued.map bytes) := by
    rw [hinv.order]
    exact List.sublist_append_left ..
  refine ⟨fun x hx => ?_, hsub⟩
  obtain ⟨f, hf, rfl⟩ := List.mem_map.mp (hsub.subset hx)
  exact ⟨f, hf, rfl⟩

def State.storeOk (s : State) (_ : Act) : Bool :=
  match s.renderer with
  | .copy f n =>
    if h : n < frameSize then (s.unread ⟨n, h⟩).all fun g => decide (f ⟨n, h⟩ = g ⟨n, h⟩) else true
  | _ => true

theorem storeOk_of_check (h : s.storeOk a = true) : StoreOk s a := by
  rintro - f n hn htask g hg
  simp only [State.storeOk, htask, dif_pos hn, List.all_eq_true, decide_eq_true_eq] at h
  exact h g hg

def renders : List Act := .replicate (frameSize + 4) .renderer

theorem frames_untorn_two : ∃ s : State, s.sent.length = 2 ∧
    (∀ x ∈ s.sent, ∃ f ∈ s.enqueued, x = bytes f) ∧
      s.sent.Sublist (s.enqueued.map bytes) := by
  obtain ⟨s, hs, hsent⟩ : ∃ s, run State.step State.storeOk State.init
      (Act.fill (colorFrame 5 5 5) :: Act.fill (colorFrame 0 0 0) :: renders ++
        List.replicate (frameSize + 1) Act.wire ++ renders ++
        List.replicate (frameSize + 1) Act.wire) = some s ∧
      s.sent.length = 2 :=
    Option.map_eq_some_iff.mp (by decide +kernel)
  exact ⟨s, hsent, frames_untorn (reach_of_run (fun _ _ => storeOk_of_check) hs)⟩

/-- The second frame is received when one byte of the first has been sent. -/
theorem frame_torn : ¬ ∀ s, Reach State.step (fun _ _ => True) State.init s →
    (∀ x ∈ s.sent, ∃ f ∈ s.enqueued, x = bytes f) ∧
      s.sent.Sublist (s.enqueued.map bytes) := by
  intro h
  obtain ⟨s, hs, hend⟩ : ∃ s, run State.step (fun _ _ => true) State.init
      (Act.fill (colorFrame 5 5 5) :: Act.fill (colorFrame 0 0 0) :: renders ++ [Act.wire] ++
        renders ++ List.replicate frameSize Act.wire) = some s ∧
      (s.enqueued.map bytes, s.sent) =
        ([.replicate 12 5, .replicate 12 0], [5 :: .replicate 11 0]) :=
    Option.map_eq_some_iff.mp (by decide +kernel)
  obtain ⟨henq, hsent⟩ := Prod.mk.inj hend
  have hsub := (h s (reach_of_run (fun _ _ _ => trivial) hs)).2
  rw [henq, hsent] at hsub
  exact absurd hsub (by decide)

end Car.LedRenderer
