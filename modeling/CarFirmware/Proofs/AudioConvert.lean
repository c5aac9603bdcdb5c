import CarFirmware.Lib.Loans
import CarFirmware.Lib.Transition
import CarFirmware.Spec.AudioConvert
import CarFirmware.Spec.Tasks

/-! What `audio_convert_task` finds in the entries it receives. An entry is a loan of the
callback's buffer: its samples are those of its block until the callback stores a
different sample over one of them. -/

namespace Car.AudioConvert

open Transition Loans

/-! ### The steps -/

inductive Step : State → Act → State → Prop
  | call {s : State} (b : Block) : s.callback = .idle →
      Step s (.call b) { s with callback := .store b 0 }
  | store {s : State} {b : Block} {i : ℕ} : s.callback = .store b i → i < b.count →
      Step s .callback
        { s with buffer := Function.update s.buffer i (b.sample i), callback := .store b (i + 1) }
  | stored {s : State} {b : Block} {i : ℕ} : s.callback = .store b i → ¬ i < b.count →
      Step s .callback { s with callback := .send b i }
  | send {s : State} {b : Block} {i : ℕ} : s.callback = .send b i →
      s.queue.length < queueLength →
      Step s .callback { s with queue := s.queue ++ [⟨i, b⟩], callback := .idle }
  | discard {s : State} {b : Block} {i : ℕ} : s.callback = .send b i →
      ¬ s.queue.length < queueLength → Step s .timeout { s with callback := .idle }
  | test {s : State} : s.task = .test →
      Step s .task { s with task := if s.taskRun then .receive else .ended }
  | receive {s : State} {e : Entry} {q : List Entry} : s.task = .receive → s.queue = e :: q →
      Step s .task { s with queue := q, task := .process e [] }
  | read {s : State} {e : Entry} {got : List Int16} : s.task = .process e got →
      got.length < e.len →
      Step s .task { s with task := .process e (got ++ [s.buffer got.length]) }
  | finish {s : State} {e : Entry} {got : List Int16} : s.task = .process e got →
      ¬ got.length < e.len →
      Step s .task { s with task := .test, processed := s.processed ++ [(e, got)] }
  | stop {s : State} : Step s .stop { s with taskRun := false }

variable {s s' : State} {a : Act}

theorem step_cases (h : s.step a = some s') : Step s a s' := by
  cases a with
  | call b =>
    simp only [State.step] at h
    split at h <;> cases h
    exact .call b ‹_›
  | callback =>
    simp only [State.step, State.stepCallback] at h
    split at h
    · cases h
    · split_ifs at h <;> cases h
      · exact .store ‹_› ‹_›
      · exact .stored ‹_› ‹_›
    · split_ifs at h
      cases h
      exact .send ‹_› ‹_›
  | timeout =>
    simp only [State.step, State.stepTimeout] at h
    split at h
    · split_ifs at h
      cases h
      exact .discard ‹_› ‹_›
    · cases h
  | task =>
    simp only [State.step, State.stepTask] at h
    split at h
    · cases h
      exact .test ‹_›
    · split at h <;> cases h
      exact .receive ‹_› ‹_›
    · split_ifs at h <;> cases h
      · exact .read ‹_› ‹_›
      · exact .finish ‹_› ‹_›
    · cases h
  | stop =>
    cases h
    exact .stop

def Task.pc : Task → LoopPc
  | .test => .loop
  | .receive => .receive none
  | .process .. => .process
  | .ended => .setBits

/-- The task that is started and stopped through its handle is this one: a statement is a
statement of the loop, or one more sample read. -/
theorem stepTask_loop (h : s.stepTask = some s') (hw : Hw) : s'.task.pc = s.task.pc ∨
    loopTask audioConvertTimeout (!s.queue.isEmpty) s.taskRun s.task.pc hw =
      some (s'.task.pc, .none, hw) := by
  cases step_cases (a := .task) h with
  | test htask =>
    right
    rw [htask]
    cases hrun : s.taskRun <;> simp [Task.pc, loopTask, audioConvertTimeout]
  | receive htask hq => exact .inr (by rw [htask, hq]; rfl)
  | read htask => exact .inl (by rw [htask]; rfl)
  | finish htask => exact .inr (by rw [htask]; rfl)

/-! ### Entries as loans of the buffer -/

def Task.entry : Task → List Entry
  | .process e _ => [e]
  | _ => []

/-- The entry being processed and those that wait. -/
def State.outstanding (s : State) : List Entry := s.task.entry ++ s.queue

def Entry.loan (e : Entry) : Loan ℕ Int16 := ⟨(· < e.len), e.block.sample⟩

/-- An entry has the length of its block and, in the buffer, the samples of its block. -/
structure Entry.Exact (e : Entry) (buffer : ℕ → Int16) : Prop where
  len : e.len = e.block.count
  samples : ∀ i < e.len, buffer i = e.block.sample i

structure Exact (s : State) : Prop where
  outstanding : ∀ e ∈ s.outstanding, e.Exact s.buffer
  processed : ∀ x ∈ s.processed, x.1.len = x.1.block.count ∧ x.2 = x.1.block.samples

/-- If the callback stores a sample, no outstanding entry has a different one in its place. -/
def StoreOk (s : State) (a : Act) : Prop :=
  a = .callback → ∀ b i, s.callback = .store b i → i < b.count →
    ∀ e ∈ s.outstanding, i < e.len → b.sample i = e.block.sample i

/-- The samples stored by the callback and those read by the task, as far as they have come. -/
structure Inv (s : State) : Prop where
  exact : Exact s
  store : ∀ b i, s.callback = .store b i → i ≤ b.count ∧ (Entry.mk i b).loan.Intact s.buffer
  send : ∀ b i, s.callback = .send b i → (Entry.mk i b).Exact s.buffer
  got : ∀ e got, s.task = .process e got →
    got.length ≤ e.len ∧ got = (List.range got.length).map e.block.sample

theorem exact_iff_honoured : (∀ e ∈ s.outstanding, e.Exact s.buffer) ↔
    (∀ e ∈ s.outstanding, e.len = e.block.count) ∧
      Honoured (s.outstanding.map Entry.loan) s.buffer := by
  simp only [Honoured, List.forall_mem_map]
  exact ⟨fun h => ⟨fun e he => (h e he).len, fun e he => (h e he).samples⟩,
    fun h e he => ⟨h.1 e he, h.2 e he⟩⟩

theorem permits_iff {i : ℕ} {x : Int16} : Permits (s.outstanding.map Entry.loan) i x ↔
    ∀ e ∈ s.outstanding, i < e.len → x = e.block.sample i := by
  simp only [Permits, List.forall_mem_map]
  rfl

theorem Inv.init : Inv State.init where
  exact := ⟨by simp [State.init, State.outstanding, Task.entry], by simp [State.init]⟩
  store := by simp [State.init]
  send := by simp [State.init]
  got := by simp [State.init]

/-- A store leaves the entries as they are exactly when no entry has another sample there. -/
theorem Exact.store_iff (h : Exact s) {b : Block} {i : ℕ} (c : Callback) :
    Exact { s with buffer := Function.update s.buffer i (b.sample i), callback := c } ↔
      ∀ e ∈ s.outstanding, i < e.len → b.sample i = e.block.sample i := by
  obtain ⟨hlen, hhon⟩ := exact_iff_honoured.mp h.outstanding
  rw [← permits_iff, ← hhon.update_iff]
  constructor
  · intro he
    exact (exact_iff_honoured.mp he.outstanding).2
  · intro hu
    exact ⟨exact_iff_honoured.mpr ⟨hlen, hu⟩, h.processed⟩

theorem Exact.of_step (h : Inv s) (hs : Step s a s') (hok : StoreOk s a) : Exact s' := by
  have hex := h.exact
  cases hs with
  | store hcb hi => exact (hex.store_iff _).mpr (hok rfl _ _ hcb hi)
  | @send b i hcb =>
    refine ⟨fun e he => ?_, hex.processed⟩
    rw [State.outstanding, ← List.append_assoc, List.mem_append, List.mem_singleton] at he
    rcases he with he | rfl
    · exact hex.outstanding e he
    · exact h.send _ _ hcb
  | receive htask hq =>
    refine ⟨fun e he => hex.outstanding e ?_, hex.processed⟩
    rw [State.outstanding, htask, hq]
    exact he
  | read htask =>
    refine ⟨fun e he => hex.outstanding e ?_, hex.processed⟩
    rw [State.outstanding, htask]
    exact he
  | @finish e got htask hend =>
    have hmem : e ∈ s.outstanding := by simp [State.outstanding, htask, Task.entry]
    refine ⟨fun e he => hex.outstanding e (List.mem_append_right _ he), fun x hx => ?_⟩
    rcases List.mem_append.mp hx with hx | hx
    · exact hex.processed x hx
    · obtain rfl := List.mem_singleton.mp hx
      obtain ⟨hle, hgot⟩ := h.got e got htask
      have hlen := (hex.outstanding e hmem).len
      have hall : got.length = e.block.count := by omega
      exact ⟨hlen, by rw [hall] at hgot; exact hgot⟩
  | test htask =>
    refine ⟨fun e he => hex.outstanding e (List.mem_append_right _ ?_), hex.processed⟩
    rcases List.mem_append.mp he with he | he
    · simp only at he
      split_ifs at he <;> cases he
    · exact he
  | _ => exact ⟨hex.outstanding, hex.processed⟩

theorem StoreOk.of_exact (h : Inv s) (hs : Step s a s') (he : Exact s') : StoreOk s a := by
  rintro rfl b i hcb hi
  cases hs with
  | store hcb' hi' =>
    rw [hcb'] at hcb
    cases hcb
    exact (h.exact.store_iff _).mp he
  | stored hcb' hi' =>
    rw [hcb'] at hcb
    cases hcb
    exact absurd hi hi'
  | send hcb' => simp [hcb'] at hcb

theorem Inv.step (h : Inv s) (hs : Step s a s') (hok : StoreOk s a) : Inv s' := by
  have hex := Exact.of_step h hs hok
  cases hs with
  | call b =>
    refine ⟨hex, ?_, by simp, h.got⟩
    rintro b' i heq
    cases heq
    exact ⟨Nat.zero_le _, fun j hj => absurd hj (Nat.not_lt_zero j)⟩
  | @store b i hcb hi =>
    refine ⟨hex, ?_, by simp, h.got⟩
    rintro b' i' heq
    cases heq
    exact ⟨hi, (h.store b i hcb).2.store (l := (Entry.mk i b).loan)
      (fun j hj => (Nat.lt_succ_iff_lt_or_eq.mp hj).symm) rfl⟩
  | @stored b i hcb hi =>
    obtain ⟨hle, hint⟩ := h.store b i hcb
    refine ⟨hex, by simp, ?_, h.got⟩
    rintro b' i' heq
    cases heq
    exact ⟨Nat.le_antisymm hle (Nat.not_lt.mp hi), hint⟩
  | send => exact ⟨hex, by simp, by simp, h.got⟩
  | discard => exact ⟨hex, by simp, by simp, h.got⟩
  | test =>
    refine ⟨hex, h.store, h.send, fun e got heq => ?_⟩
    simp only at heq
    split_ifs at heq
  | receive =>
    refine ⟨hex, h.store, h.send, fun e got heq => ?_⟩
    cases heq
    exact ⟨Nat.zero_le _, rfl⟩
  | @read e got htask hlt =>
    refine ⟨hex, h.store, h.send, fun e' got' heq => ?_⟩
    cases heq
    have hmem : e ∈ s.outstanding := by simp [State.outstanding, htask, Task.entry]
    have hnext := (h.exact.outstanding e hmem).samples _ hlt
    refine ⟨by rw [List.length_append]; exact hlt, ?_⟩
    rw [List.length_append, List.length_singleton, List.range_succ, List.map_append,
      ← (h.got e got htask).2, hnext]
    rfl
  | finish => exact ⟨hex, h.store, h.send, by simp⟩
  | stop => exact ⟨hex, h.store, h.send, h.got⟩

/-- In a run every entry that waits or is processed has the samples and the length of its
block, if and only if the callback never stores a different sample in a place that an
outstanding entry covers. -/
theorem samples_exact_iff {l : List (State × Act × State)} (h : Path State.step State.init l s) :
    (∀ x ∈ l, Exact x.2.2) ↔ ∀ x ∈ l, StoreOk x.1 x.2.1 :=
  h.forall_iff (I := Inv) .init
    (fun _ _ _ hI hs => ⟨.of_exact hI (step_cases hs), .of_step hI (step_cases hs)⟩)
    fun _ _ _ hI hok hs => hI.step (step_cases hs) hok

def State.storeOk (s : State) (_ : Act) : Bool :=
  match s.callback with
  | .store b i => s.outstanding.all fun e =>
      decide (i < b.count → i < e.len → b.sample i = e.block.sample i)
  | _ => true

theorem storeOk_of_check (h : s.storeOk a = true) : StoreOk s a := by
  rintro - b i hcb hi e he hie
  simp only [State.storeOk, hcb, List.all_eq_true, decide_eq_true_eq] at h
  exact h e he hi hie

def constant (x : UInt8) (size : ℤ) : Block := ⟨fun _ => x, size⟩

theorem samples_exact_processed : ∃ (l : List (State × Act × State)) (s : State),
    Path State.step State.init l s ∧ s.processed.map (fun x => x.2) = [[257, 257]] ∧
      s.queue.map Entry.len = [1] ∧ ∀ x ∈ l, Exact x.2.2 := by
  obtain ⟨s, hs, hend⟩ : ∃ s, run State.step State.storeOk State.init
      (Act.call (constant 1 8) :: List.replicate 4 Act.callback ++ List.replicate 5 Act.task ++
        Act.call (constant 2 4) :: List.replicate 3 Act.callback) = some s ∧
      (s.processed.map (fun x => x.2), s.queue.map Entry.len) = ([[257, 257]], [1]) :=
    Option.map_eq_some_iff.mp (by decide +kernel)
  obtain ⟨hproc, hqueue⟩ := Prod.mk.inj hend
  obtain ⟨l, hl, hgood⟩ := path_of_run hs
  exact ⟨l, s, hl, hproc, hqueue,
    (samples_exact_iff hl).mpr fun x hx => storeOk_of_check (hgood x hx)⟩

theorem samples_overwritten : ¬ ∀ (l : List (State × Act × State)) (s : State),
    Path State.step State.init l s → ∀ x ∈ l, Exact x.2.2 := by
  intro h
  obtain ⟨s, hs, hrest⟩ : ∃ s, run State.step (fun _ _ => true) State.init
      (Act.call (constant 1 4) :: List.replicate 3 Act.callback ++ [Act.call (constant 2 4)]) =
        some s ∧
      ((s.step .callback).map fun t => (t.queue.map fun e => (e.len, e.block.sample 0),
        t.buffer 0)) = some ([(1, 257)], 514) :=
    Option.bind_eq_some_iff.mp (by decide +kernel)
  obtain ⟨t, ht, hend⟩ := Option.map_eq_some_iff.mp hrest
  obtain ⟨hqueue, hbuffer⟩ := Prod.mk.inj hend
  obtain ⟨e, q, heq, he, -⟩ := List.map_eq_cons_iff.mp hqueue
  obtain ⟨hlen, hsample⟩ := Prod.mk.inj he
  obtain ⟨l, hl, -⟩ := path_of_run hs
  have hexact := (h _ t (hl.snoc ht) (s, .callback, t) (by simp)).outstanding e
    (List.mem_append_right _ (by rw [heq]; exact List.mem_cons_self ..))
  have hsame := hexact.samples 0 (by omega)
  rw [hbuffer, hsample] at hsame
  exact absurd hsame (by decide)

end Car.AudioConvert
