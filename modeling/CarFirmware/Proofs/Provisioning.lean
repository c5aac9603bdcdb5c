import CarFirmware.Spec.BtGatts

/-! WiFi credentials through characteristic C: an SSID, a newline and a password. The
first newline ends the SSID, whatever the password holds. -/

namespace Car

variable {value ssid passwd : List UInt8}

theorem splitIdx_of_notMem (h : newline ∉ value) : splitIdx value = value.length := by
  induction value with
  | nil => rfl
  | cons x xs ih =>
    have hx : x ≠ newline := fun hx => h (hx ▸ List.mem_cons_self ..)
    have hxs : newline ∉ xs := fun hxs => h (List.mem_cons_of_mem _ hxs)
    rw [splitIdx, if_neg hx, ih hxs, List.length_cons]

theorem splitIdx_append (h : newline ∉ ssid) (passwd : List UInt8) :
    splitIdx (ssid ++ newline :: passwd) = ssid.length := by
  induction ssid with
  | nil => simp [splitIdx]
  | cons x xs ih =>
    have hx : x ≠ newline := fun hx => h (hx ▸ List.mem_cons_self ..)
    have hxs : newline ∉ xs := fun hxs => h (List.mem_cons_of_mem _ hxs)
    rw [List.cons_append, splitIdx, if_neg hx, ih hxs, List.length_cons]

theorem gattsCopies_of_notMem (h : newline ∉ value) : gattsCopies value = none := by
  simp [gattsCopies, splitIdx_of_notMem h]

theorem gattsCopies_append (h : newline ∉ ssid) (passwd : List UInt8) :
    gattsCopies (ssid ++ newline :: passwd) =
      if ssid.length = 0 ∨ 32 < ssid.length then none else some (ssid, passwd) := by
  have hlen : ¬ (ssid ++ newline :: passwd).length ≤ ssid.length := by simp
  have hpw : (ssid ++ newline :: passwd).length - ssid.length - 1 = passwd.length := by
    simp only [List.length_append, List.length_cons]
    omega
  have hdrop : (ssid ++ newline :: passwd).drop (ssid.length + 1) = passwd := by
    rw [← List.singleton_append, ← List.append_assoc]
    exact List.drop_left' (by simp)
  simp only [gattsCopies, splitIdx_append h, hlen, hpw, hdrop, false_or, List.take_left,
    List.take_length]

theorem gattsCopies_eq_some : gattsCopies value = some (ssid, passwd) ↔
    value = ssid ++ newline :: passwd ∧ newline ∉ ssid ∧ 1 ≤ ssid.length ∧ ssid.length ≤ 32 := by
  constructor
  · intro h
    have hmem : newline ∈ value := by
      by_contra hmem
      rw [gattsCopies_of_notMem hmem] at h
      cases h
    obtain ⟨s, p, rfl, hs⟩ := List.eq_append_cons_of_mem hmem
    rw [gattsCopies_append hs] at h
    split_ifs at h with hlen
    cases h
    exact ⟨rfl, hs, by omega, by omega⟩
  · rintro ⟨rfl, hs, hpos, hle⟩
    rw [gattsCopies_append hs, if_neg (by omega)]

/-- Credentials that fit: the SSID is not empty and has no newline. -/
structure Credentials where
  ssid : List UInt8
  password : List UInt8
  noNewline : newline ∉ ssid
  ssid_pos : 1 ≤ ssid.length
  ssid_le : ssid.length ≤ 32
  password_le : password.length ≤ 64

def Credentials.encode (c : Credentials) : List UInt8 := c.ssid ++ newline :: c.password

/-- The stored configuration holds the credentials, padded with zeros. -/
structure WifiConfig.Holds (config : WifiConfig) (c : Credentials) : Prop where
  ssid : List.ofFn config.ssid = c.ssid ++ List.replicate (32 - c.ssid.length) 0
  password : List.ofFn config.password = c.password ++ List.replicate (64 - c.password.length) 0

theorem copy_padded {n m : ℕ} {src : List UInt8} {a : Fin m → UInt8} (hn : n ≤ m)
    (hsrc : src.length ≤ n) (h : CArray.memcpy (0 : Fin m → UInt8) 0 src = some a) :
    ∃ b : Fin n → UInt8, CArray.memcpy 0 0 ((List.ofFn a).take n) = some b ∧
      List.ofFn b = src ++ List.replicate (n - src.length) 0 := by
  have hpad := CArray.ofFn_memcpy_zero h
  have htake : (List.ofFn a).take n = src ++ List.replicate (n - src.length) 0 := by
    rw [hpad, List.take_append, List.take_of_length_le hsrc, List.take_replicate,
      Nat.min_eq_left (by omega)]
  have hlen : ((List.ofFn a).take n).length = n := by simp [hn]
  obtain ⟨b, hb⟩ : ∃ b, CArray.memcpy (0 : Fin n → UInt8) 0 ((List.ofFn a).take n) = some b :=
    Option.isSome_iff_exists.mp (CArray.memcpy_isSome.mpr (by omega))
  refine ⟨b, hb, ?_⟩
  rw [CArray.ofFn_memcpy_zero hb, hlen, Nat.sub_self, List.replicate_zero, List.append_nil, htake]

theorem gattsLocals_isSome (h₁ : ssid.length ≤ 33) (h₂ : passwd.length ≤ 65) :
    ∃ a b, CArray.memcpy 0 0 ssid = some a ∧ CArray.memcpy 0 0 passwd = some b ∧
      gattsLocals (ssid, passwd) = some (a, b) := by
  obtain ⟨a, ha⟩ : ∃ a, CArray.memcpy (0 : Fin 33 → UInt8) 0 ssid = some a :=
    Option.isSome_iff_exists.mp (CArray.memcpy_isSome.mpr (by omega))
  obtain ⟨b, hb⟩ : ∃ b, CArray.memcpy (0 : Fin 65 → UInt8) 0 passwd = some b :=
    Option.isSome_iff_exists.mp (CArray.memcpy_isSome.mpr (by omega))
  exact ⟨a, b, ha, hb, by simp [gattsLocals, ha, hb]⟩

theorem gattsHandleCharValCWrite_encode (c : Credentials) :
    ∃ config, gattsHandleCharValCWrite c.encode = some (.started config) ∧ config.Holds c := by
  have hcopies : gattsCopies c.encode = some (c.ssid, c.password) :=
    gattsCopies_eq_some.mpr ⟨rfl, c.noNewline, c.ssid_pos, c.ssid_le⟩
  have hssid : c.ssid.length ≤ 33 := c.ssid_le.trans (by decide)
  have hpassword : c.password.length ≤ 65 := c.password_le.trans (by decide)
  obtain ⟨a, b, ha, hb, hlocals⟩ := gattsLocals_isSome hssid hpassword
  obtain ⟨s, hs, hssid⟩ := copy_padded (n := 32) (by omega) c.ssid_le ha
  obtain ⟨p, hp, hpassword⟩ := copy_padded (n := 64) (by omega) c.password_le hb
  have hconfig : wifiSetConfigAndStart a b = some ⟨s, p⟩ := by
    unfold wifiSetConfigAndStart
    rw [hs, hp]
    rfl
  refine ⟨⟨s, p⟩, ?_, hssid, hpassword⟩
  simp [gattsHandleCharValCWrite, hcopies, hlocals, hconfig]

/-- A value with no newline, or with an SSID that is empty or too long. -/
def Malformed (value : List UInt8) : Prop :=
  newline ∉ value ∨ ∃ ssid passwd, value = ssid ++ newline :: passwd ∧ newline ∉ ssid ∧
    (ssid = [] ∨ 32 < ssid.length)

theorem gattsCopies_malformed (h : Malformed value) : gattsCopies value = none := by
  rcases h with h | ⟨s, p, rfl, hs, hlen⟩
  · exact gattsCopies_of_notMem h
  · rw [gattsCopies_append hs, if_pos]
    rcases hlen with rfl | hlen
    · exact .inl rfl
    · exact .inr hlen

/-- Every pair of credentials that fits is stored as it was written, and a malformed value
configures nothing. -/
theorem provisioning (charValC : ℕ) :
    (∀ c : Credentials, ∃ config,
      gattsWriteEvt charValC ⟨false, charValC, c.encode⟩ = some (.started config) ∧
        config.Holds c) ∧
    ∀ value, Malformed value →
      gattsWriteEvt charValC ⟨false, charValC, value⟩ = some .wrongFormat := by
  refine ⟨fun c => ?_, fun value h => ?_⟩
  · obtain ⟨config, hw, hholds⟩ := gattsHandleCharValCWrite_encode c
    exact ⟨config, by simp [gattsWriteEvt, hw], hholds⟩
  · simp [gattsWriteEvt, gattsHandleCharValCWrite, gattsCopies_malformed h]

theorem provisioning_longest :
    (∃ config, gattsWriteEvt 42 ⟨false, 42, 97 :: newline :: List.replicate 64 newline⟩ =
        some (.started config) ∧
      List.ofFn config.ssid = 97 :: List.replicate 31 0 ∧
      List.ofFn config.password = List.replicate 64 newline) ∧
    gattsWriteEvt 42 ⟨false, 42, [97]⟩ = some .wrongFormat := by
  obtain ⟨hstored, hrejected⟩ := provisioning 42
  obtain ⟨config, hw, hssid, hpassword⟩ := hstored
    ⟨[97], List.replicate 64 newline, by decide, by decide, by decide, by simp⟩
  refine ⟨⟨config, hw, hssid, ?_⟩, hrejected [97] (.inl (by decide))⟩
  simpa using hpassword

/-- The write stays inside `ssid` and `passwd`, leaves both terminated, and does not accept
a password that is too long. -/
structure StaysInside (value : List UInt8) : Prop where
  ssid : ∀ copies, gattsCopies value = some copies → copies.1.length ≤ 32
  passwd : ∀ copies, gattsCopies value = some copies → copies.2.length ≤ 64
  terminated : ∀ copies ssid passwd, gattsCopies value = some copies →
    gattsLocals copies = some (ssid, passwd) → ssid 32 = 0 ∧ passwd 64 = 0
  inside : ∃ out, gattsHandleCharValCWrite value = some out
  rejected : ∀ ssid passwd, value = ssid ++ newline :: passwd → newline ∉ ssid →
    64 < passwd.length → gattsHandleCharValCWrite value = some .wrongFormat

def PasswordFits (value : List UInt8) : Prop :=
  ∀ ssid passwd, value = ssid ++ newline :: passwd → newline ∉ ssid → 1 ≤ ssid.length →
    ssid.length ≤ 32 → passwd.length ≤ 64

theorem gattsLocals_terminated {copies : List UInt8 × List UInt8} {ssid : Fin 33 → UInt8}
    {passwd : Fin 65 → UInt8} (h : gattsLocals copies = some (ssid, passwd))
    (h₁ : copies.1.length ≤ 32) (h₂ : copies.2.length ≤ 64) : ssid 32 = 0 ∧ passwd 64 = 0 := by
  obtain ⟨a, ha, h⟩ := Option.bind_eq_some_iff.mp h
  obtain ⟨b, hb, h⟩ := Option.bind_eq_some_iff.mp h
  cases h
  exact ⟨CArray.memcpy_apply_of_le ha (by simpa using h₁), CArray.memcpy_apply_of_le hb
    (by simpa using h₂)⟩

theorem staysInside_iff (value : List UInt8) : StaysInside value ↔ PasswordFits value := by
  constructor
  · intro h s p hvalue hs hpos hle
    exact h.passwd (s, p) (gattsCopies_eq_some.mpr ⟨hvalue, hs, hpos, hle⟩)
  · intro h
    have hbounds (copies : List UInt8 × List UInt8) (hc : gattsCopies value = some copies) :
        copies.1.length ≤ 32 ∧ copies.2.length ≤ 64 := by
      obtain ⟨hvalue, hs, hpos, hle⟩ := gattsCopies_eq_some.mp hc
      exact ⟨hle, h _ _ hvalue hs hpos hle⟩
    refine {
      ssid := fun copies hc => (hbounds copies hc).1
      passwd := fun copies hc => (hbounds copies hc).2
      terminated := fun copies s p hc hl =>
        gattsLocals_terminated hl (hbounds copies hc).1 (hbounds copies hc).2
      inside := ?_
      rejected := fun s p hvalue hs hlong => ?_ }
    · cases hc : gattsCopies value with
      | none => exact ⟨.wrongFormat, by simp [gattsHandleCharValCWrite, hc]⟩
      | some copies =>
        obtain ⟨hvalue, hs, hpos, hle⟩ := gattsCopies_eq_some.mp hc
        obtain ⟨config, hw, -⟩ := gattsHandleCharValCWrite_encode
          ⟨copies.1, copies.2, hs, hpos, hle, (hbounds copies hc).2⟩
        exact ⟨.started config, by rw [hvalue]; exact hw⟩
    · have hlen : ¬ (1 ≤ s.length ∧ s.length ≤ 32) := fun hlen =>
        absurd (h s p hvalue hs hlen.1 hlen.2) (by omega)
      have hc : gattsCopies value = none := by
        rw [hvalue, gattsCopies_append hs, if_pos (by omega)]
      simp [gattsHandleCharValCWrite, hc]

def longPassword : List UInt8 := 97 :: newline :: List.replicate 66 98

theorem password_overflows : longPassword.length ≤ GATTS_DEMO_CHAR_VAL_LEN_MAX ∧
    gattsHandleCharValCWrite longPassword = none ∧ ¬ StaysInside longPassword := by
  have hnone : gattsHandleCharValCWrite longPassword = none := by
    have hcopies : gattsCopies longPassword = some ([97], List.replicate 66 98) :=
      gattsCopies_eq_some.mpr ⟨rfl, by decide, by decide, by decide⟩
    have hpasswd : CArray.memcpy (0 : Fin 65 → UInt8) 0 (List.replicate 66 98) = none :=
      CArray.memcpy_eq_none.mpr (by simp)
    have hlocals : gattsLocals ([97], List.replicate 66 98) = none := by
      unfold gattsLocals
      rw [hpasswd]
      cases CArray.memcpy (0 : Fin 33 → UInt8) 0 [97] <;> rfl
    rw [gattsHandleCharValCWrite, hcopies]
    simp only [hlocals]
    rfl
  refine ⟨by decide, hnone, fun h => ?_⟩
  obtain ⟨out, hout⟩ := h.inside
  rw [hnone] at hout
  cases hout

end Car
