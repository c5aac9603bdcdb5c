import CarFirmware.Spec.MyUcp

/-! What the receiving thread hands to `handle_message`. The terminator goes to index
`ret`, so the largest datagram that `ucp_recv` admits is one byte too long. -/

namespace Car

def Datagram.text (d : Datagram) : List UInt8 := d.bytes.takeWhile (· ≠ 0)

/-- A turn whose terminator still has room hands over the datagram it received, whatever
the buffer held before. -/
theorem ucpServerRcvTurn_eq (buf : UcpRcvBuf) {d : Datagram}
    (h : d.bytes.length < ucpRcvBufSize) :
    ∃ buf', ucpServerRcvTurn buf d = some (buf', some d.text) := by
  obtain ⟨buf₁, hcopy⟩ : ∃ b, CArray.memcpy buf 0 d.bytes = some b :=
    Option.isSome_iff_exists.mp (CArray.memcpy_isSome.mpr (by have := d.fits; omega))
  obtain ⟨buf₂, hstore⟩ : ∃ b, CArray.store buf₁ d.bytes.length 0 = some b :=
    Option.isSome_iff_exists.mp (CArray.store_isSome.mpr h)
  have hstr : CArray.str buf₂ = some d.text := CArray.str_terminated hcopy hstore
  refine ⟨buf₂, ?_⟩
  simp [ucpServerRcvTurn, hcopy, hstore, hstr, d.nonempty]

/-- A datagram that fills the buffer leaves no room for the terminator. -/
theorem ucpServerRcvTurn_full (buf : UcpRcvBuf) {d : Datagram}
    (h : ¬ d.bytes.length < ucpRcvBufSize) : ucpServerRcvTurn buf d = none := by
  have hstore (b : UcpRcvBuf) : CArray.store b d.bytes.length 0 = none := by
    rw [← Option.not_isSome_iff_eq_none, CArray.store_isSome]
    exact h
  unfold ucpServerRcvTurn
  cases CArray.memcpy buf 0 d.bytes with
  | none => rfl
  | some b => simp [hstore, d.nonempty]

/-- The thread stays inside its buffer and hands over each datagram as it was received
if and only if every datagram is shorter than the buffer. -/
theorem ucpServerRcvThread_iff (buf : UcpRcvBuf) (ds : List Datagram) :
    ucpServerRcvThread buf ds = some (ds.map Datagram.text) ↔
      ∀ d ∈ ds, d.bytes.length < ucpRcvBufSize := by
  induction ds generalizing buf with
  | nil => simp [ucpServerRcvThread]
  | cons d ds ih =>
    rw [List.forall_mem_cons]
    by_cases hd : d.bytes.length < ucpRcvBufSize
    · obtain ⟨buf', hturn⟩ := ucpServerRcvTurn_eq buf hd
      rw [ucpServerRcvThread, hturn, ← ih buf']
      simp only [Option.toList_some, List.singleton_append, List.map_cons, hd, true_and]
      constructor
      · intro h
        obtain ⟨strs, hs, heq⟩ := Option.map_eq_some_iff.mp h
        rw [hs, List.tail_eq_of_cons_eq heq]
      · intro h
        rw [h, Option.map_some]
    · rw [ucpServerRcvThread, ucpServerRcvTurn_full buf hd]
      simp [hd]

def fullDatagram : Datagram where
  bytes := List.replicate ucpRcvBufSize 123
  nonempty := by
    rw [List.length_replicate]
    decide
  fits := by rw [List.length_replicate]

theorem terminator_outside :
    ¬ ∀ buf ds, ucpServerRcvThread buf ds = some (ds.map Datagram.text) := by
  intro h
  have hfull : ¬ fullDatagram.bytes.length < ucpRcvBufSize := by
    rw [fullDatagram, List.length_replicate]
    exact lt_irrefl _
  have hrun := h 0 [fullDatagram]
  rw [ucpServerRcvThread, ucpServerRcvTurn_full 0 hfull] at hrun
  cases hrun

end Car
