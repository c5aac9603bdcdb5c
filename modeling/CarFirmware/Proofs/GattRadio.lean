import CarFirmware.Proofs.GattServer

/-! The GATT server together with the Bluetooth stack: configurations that are not complete yet,
advertising, and the clients that are connected. -/

namespace Car.GattServer

open Reactive Transition

/-- What the stack has in hand. -/
structure Radio where
  registering : Bool
  gattsIf : Option ℕ
  advPending : ℕ
  scanRspPending : ℕ
  advertising : Bool
  connected : ℕ

def Radio.init : Radio := ⟨true, none, 0, 0, false, 0⟩

def Radio.deliverPeer (r : Radio) : GattsEvent → Option Radio
  | .connect _ =>
    if r.advertising then some { r with advertising := false, connected := r.connected + 1 }
    else none
  | .disconnect =>
    if 0 < r.connected then some { r with connected := r.connected - 1 } else none
  | _ => some r

/-- The events that can come: the registration once, a completion for each configuration, and
the others with the interface of the registration. -/
def Radio.deliver (r : Radio) : Event → Option Radio
  | .gap .advDataRawSetComplete =>
    if 0 < r.advPending then some { r with advPending := r.advPending - 1 } else none
  | .gap .scanRspDataRawSetComplete =>
    if 0 < r.scanRspPending then some { r with scanRspPending := r.scanRspPending - 1 } else none
  | .gap .logged => some r
  | .gatts i (.reg status) =>
    if r.registering then
      some { r with
        registering := false
        gattsIf := if status = ESP_GATT_OK then some i else none }
    else none
  | .gatts i e => if r.gattsIf = some i then r.deliverPeer e else none

def Radio.accept (r : Radio) : Call → Radio
  | .gapConfigAdvDataRaw _ => { r with advPending := r.advPending + 1 }
  | .gapConfigScanRspDataRaw _ => { r with scanRspPending := r.scanRspPending + 1 }
  | .gapStartAdvertising => { r with advertising := true }
  | _ => r

def Radio.absorb (succeeds : Call → Bool) (r : Radio) (c : Call) : Radio :=
  if succeeds c then r.accept c else r

def stack : Env Radio Event (Call → Bool) Call := ⟨Radio.deliver, Radio.absorb⟩

/-- The server in the stack; a label is an event and the calls that succeed there. -/
def boot : State × Radio := (.init, .init)

def System.step : State × Radio → Event × (Call → Bool) → Option (State × Radio) :=
  stack.closed State.step

def Call.toRadio : Call → Bool
  | .gapConfigAdvDataRaw _ | .gapConfigScanRspDataRaw _ | .gapStartAdvertising => true
  | _ => false

def flags (adv scanRsp : Bool) : UInt8 :=
  (if adv then ADV_CONFIG_FLAG else 0) ||| (if scanRsp then SCAN_RSP_CONFIG_FLAG else 0)

/-- `adv` and `scanRsp` say which flags of `adv_config_done` are set. -/
structure Inv (adv scanRsp : Bool) (s : State) (r : Radio) : Prop where
  done : s.advConfigDone = flags adv scanRsp
  advPending : r.advPending ≤ adv.toNat
  scanRspPending : r.scanRspPending ≤ scanRsp.toNat
  onAir : r.advertising.toNat + r.connected ≤ 1
  quiet : adv = true ∨ scanRsp = true ∨ r.registering = true →
    r.advertising = false ∧ r.connected = 0
  fresh : r.registering = true → adv = false ∧ scanRsp = false ∧ r.gattsIf = none
  own : ∀ i, r.gattsIf = some i → s.gattsIf = i

/-- What holds when every call succeeds. -/
structure Live (adv scanRsp : Bool) (r : Radio) : Prop where
  advPending : r.advPending = adv.toNat
  scanRspPending : r.scanRspPending = scanRsp.toNat
  onAir : r.gattsIf ≠ none → adv = false → scanRsp = false →
    r.advertising.toNat + r.connected = 1

variable {s s' : State} {r r' : Radio} {adv scanRsp : Bool} {ok : Call → Bool} {out : List Call}
  {gattsIf : ℕ} {e : GattsEvent}

theorem absorb_of_not_toRadio {c : Call} (h : c.toRadio = false) (ok : Call → Bool) (r : Radio) :
    r.absorb ok c = r := by
  have haccept : r.accept c = r := by
    cases c with
    | gapConfigAdvDataRaw | gapConfigScanRspDataRaw | gapStartAdvertising => cases h
    | _ => rfl
  rw [Radio.absorb, haccept, ite_self]

theorem foldl_absorb (h : ∀ c ∈ out, c.toRadio = false) (ok : Call → Bool) (r : Radio) :
    out.foldl (Radio.absorb ok) r = r := by
  induction out with
  | nil => rfl
  | cons c out ih =>
    rw [List.foldl_cons, absorb_of_not_toRadio (h c List.mem_cons_self)]
    exact ih fun d hd => h d (List.mem_cons_of_mem _ hd)

/-- An event with the interface of the profile goes to the profile. -/
theorem step_own (he : ∀ status, e ≠ .reg status) (hi : s.gattsIf = gattsIf) :
    s.step (.gatts gattsIf e) = gattsProfileEventHandler s gattsIf e := by
  have hlistens : Listens s.gattsIf gattsIf := .inr hi.symm
  cases e with
  | reg status => exact absurd rfl (he status)
  | write | execWrite | connect | disconnect | creatAttrTab | logged => exact if_pos hlistens

/-- Registrations and disconnections apart, the profile leaves the radio alone. -/
theorem profile_toRadio (he : ∀ status, e ≠ .reg status) (hne : e ≠ .disconnect)
    (h : gattsProfileEventHandler s gattsIf e = some (s', out)) :
    s'.advConfigDone = s.advConfigDone ∧ ∀ c ∈ out, c.toRadio = false := by
  cases handled h with
  | reg => exact absurd rfl (he _)
  | disconnect => exact absurd rfl hne
  | connect | noTable | table | logged => exact ⟨rfl, by simp [Call.toRadio]⟩
  | @exec flag env bytes => cases bytes <;> exact ⟨rfl, by simp [Call.toRadio]⟩
  | @prepare mem rspMem w env rsp => cases rsp <;> exact ⟨rfl, by simp [Call.toRadio]⟩
  | @write mem rspMem w o rsp ho hrsp =>
    refine ⟨rfl, List.forall_mem_append.mpr ⟨?_, ?_⟩⟩
    · cases o <;> simp [startCalls, Call.toRadio]
    · rw [hrsp]
      split_ifs <;> simp [Call.toRadio]

theorem flags_clear_adv (scanRsp : Bool) :
    flags true scanRsp &&& ~~~ADV_CONFIG_FLAG = flags false scanRsp := by
  cases scanRsp <;> rfl

theorem flags_clear_scanRsp (adv : Bool) :
    flags adv true &&& ~~~SCAN_RSP_CONFIG_FLAG = flags adv false := by
  cases adv <;> rfl

theorem flags_set (adv scanRsp : Bool) :
    flags adv scanRsp ||| ADV_CONFIG_FLAG ||| SCAN_RSP_CONFIG_FLAG = flags true true := by
  cases adv <;> cases scanRsp <;> rfl

theorem flags_eq_zero (adv scanRsp : Bool) :
    flags adv scanRsp = 0 ↔ adv = false ∧ scanRsp = false := by
  cases adv <;> cases scanRsp <;> decide

theorem absorb_start (ok : Call → Bool) (r : Radio) :
    r.absorb ok .gapStartAdvertising =
      { r with advertising := r.advertising || ok .gapStartAdvertising } := by
  unfold Radio.absorb
  split_ifs with h <;> simp [Radio.accept, h]

/-- The completion of a configuration, whose flag leaves `adv` and `scanRsp` set: advertising
starts with the last one. -/
theorem foldl_completed {flag : UInt8} (ok : Call → Bool) (r : Radio)
    (hdone : s.advConfigDone &&& ~~~flag = flags adv scanRsp) :
    (configComplete s flag).2.foldl (Radio.absorb ok) r =
      { r with advertising := r.advertising || (!adv && !scanRsp && ok .gapStartAdvertising) } := by
  simp only [configComplete, hdone, flags_eq_zero]
  cases adv <;> cases scanRsp <;> simp [absorb_start]

theorem Inv.completed {adv' scanRsp' : Bool} {advPending scanRspPending : ℕ} {flag : UInt8}
    (h : Inv adv scanRsp s r) (hset : adv = true ∨ scanRsp = true)
    (hdone : s.advConfigDone &&& ~~~flag = flags adv' scanRsp')
    (hadv : advPending ≤ adv'.toNat) (hscan : scanRspPending ≤ scanRsp'.toNat) :
    Inv adv' scanRsp' (configComplete s flag).1
      ((configComplete s flag).2.foldl (Radio.absorb ok)
        { r with advPending := advPending, scanRspPending := scanRspPending }) := by
  have hquiet := h.quiet (by tauto)
  have hreg : r.registering = false := by
    cases hr : r.registering with
    | false => rfl
    | true => have := h.fresh hr; simp_all
  rw [foldl_completed ok _ hdone, hquiet.1, Bool.false_or]
  exact {
    done := hdone
    advPending := hadv
    scanRspPending := hscan
    onAir := by
      rw [hquiet.2]
      exact Bool.toNat_le _
    quiet := by
      rintro (rfl | rfl | hr)
      · simp [hquiet.2]
      · simp [hquiet.2]
      · simp_all
    fresh := fun hr => by simp_all
    own := h.own }

theorem Live.completed {adv' scanRsp' : Bool} {flag : UInt8}
    (hdone : s.advConfigDone &&& ~~~flag = flags adv' scanRsp')
    (hok : ∀ c, ok c = true) (hquiet : r.connected = 0) :
    Live adv' scanRsp' ((configComplete s flag).2.foldl (Radio.absorb ok)
      { r with advPending := adv'.toNat, scanRspPending := scanRsp'.toNat }) := by
  rw [foldl_completed ok _ hdone]
  refine ⟨rfl, rfl, ?_⟩
  rintro - rfl rfl
  simp [hok, hquiet]

theorem Inv.init : Inv false false .init .init where
  done := rfl
  advPending := Nat.le_refl _
  scanRspPending := Nat.le_refl _
  onAir := by decide
  quiet := fun _ => ⟨rfl, rfl⟩
  fresh := fun _ => ⟨rfl, rfl, rfl⟩
  own := by simp [Radio.init]

theorem Live.init : Live false false .init := ⟨rfl, rfl, fun h => absurd rfl h⟩

def Next (adv scanRsp : Bool) (r : Radio) (ok : Call → Bool) (s' : State) (r' : Radio) : Prop :=
  ∃ adv' scanRsp', Inv adv' scanRsp' s' r' ∧
    ((∀ c, ok c = true) → Live adv scanRsp r → Live adv' scanRsp' r')

theorem next_gap {g : GapEvent} (h : Inv adv scanRsp s r) {u : Radio}
    (hdel : r.deliver (.gap g) = some u) :
    Next adv scanRsp r ok (gapEventHandler s g).1
      ((gapEventHandler s g).2.foldl (Radio.absorb ok) u) := by
  cases g with
  | logged =>
    obtain rfl := Option.some.inj hdel
    exact ⟨adv, scanRsp, h, fun _ hlive => hlive⟩
  | advDataRawSetComplete =>
    simp only [Radio.deliver] at hdel
    split_ifs at hdel with hpos
    obtain rfl := Option.some.inj hdel
    have hle := h.advPending
    obtain rfl : adv = true := by
      cases adv with
      | true => rfl
      | false => exact absurd hle (by rw [Bool.toNat_false]; omega)
    rw [Bool.toNat_true] at hle
    have hdone : s.advConfigDone &&& ~~~ADV_CONFIG_FLAG = flags false scanRsp := by
      rw [h.done, flags_clear_adv]
    have hzero : r.advPending - 1 = 0 := by omega
    refine ⟨false, scanRsp, h.completed (.inl rfl) hdone (by rw [hzero]; decide) h.scanRspPending,
      fun hok hlive => ?_⟩
    rw [hzero, hlive.scanRspPending]
    exact Live.completed hdone hok (h.quiet (.inl rfl)).2
  | scanRspDataRawSetComplete =>
    simp only [Radio.deliver] at hdel
    split_ifs at hdel with hpos
    obtain rfl := Option.some.inj hdel
    have hle := h.scanRspPending
    obtain rfl : scanRsp = true := by
      cases scanRsp with
      | true => rfl
      | false => exact absurd hle (by rw [Bool.toNat_false]; omega)
    rw [Bool.toNat_true] at hle
    have hdone : s.advConfigDone &&& ~~~SCAN_RSP_CONFIG_FLAG = flags adv false := by
      rw [h.done, flags_clear_scanRsp]
    have hzero : r.scanRspPending - 1 = 0 := by omega
    refine ⟨adv, false, h.completed (.inr rfl) hdone h.advPending (by rw [hzero]; decide),
      fun hok hlive => ?_⟩
    rw [hzero, hlive.advPending]
    exact Live.completed hdone hok (h.quiet (.inr (.inl rfl))).2

theorem foldl_onReg (ok : Call → Bool) (i : ℕ) (r : Radio) :
    (onReg s i).2.foldl (Radio.absorb ok) r =
      { r with
        advPending := r.advPending + (ok (.gapConfigAdvDataRaw rawAdvData)).toNat
        scanRspPending := r.scanRspPending + (ok (.gapConfigScanRspDataRaw rawScanRspData)).toNat } := by
  have hname : ∀ r, Radio.absorb ok r (.gapSetDeviceName "ESP_GATTS_DEMO") = r :=
    absorb_of_not_toRadio rfl ok
  have htab : ∀ r, Radio.absorb ok r (.gattsCreateAttrTab i HRS_IDX_NB SVC_INST_ID) = r :=
    absorb_of_not_toRadio rfl ok
  simp only [onReg, List.foldl_cons, List.foldl_nil, hname, htab]
  unfold Radio.absorb
  cases ok (.gapConfigAdvDataRaw rawAdvData) <;>
    cases ok (.gapConfigScanRspDataRaw rawScanRspData) <;> rfl

theorem next_reg {i status : ℕ} (h : Inv adv scanRsp s r) {u : Radio}
    (hdel : r.deliver (.gatts i (.reg status)) = some u)
    (hs : s.step (.gatts i (.reg status)) = some (s', out)) :
    Next adv scanRsp r ok s' (out.foldl (Radio.absorb ok) u) := by
  have hreg : r.registering = true := by
    by_contra hno
    simp [Radio.deliver, hno] at hdel
  rw [Radio.deliver, if_pos hreg] at hdel
  obtain rfl := Option.some.inj hdel
  obtain ⟨rfl, rfl, -⟩ := h.fresh hreg
  have hadv : r.advPending = 0 := Nat.le_zero.mp h.advPending
  have hscan : r.scanRspPending = 0 := Nat.le_zero.mp h.scanRspPending
  obtain ⟨hair, hconn⟩ := h.quiet (.inr (.inr hreg))
  by_cases hstatus : status = ESP_GATT_OK
  · have hstep : s.step (.gatts i (.reg status)) = some (onReg { s with gattsIf := i } i) := by
      simp [State.step, gattsEventHandler, storeGattsIf, hstatus, Listens, gattsProfileEventHandler]
    rw [hstep] at hs
    obtain ⟨hs', rfl⟩ := Prod.ext_iff.mp (Option.some.inj hs)
    obtain rfl : _ = s' := hs'
    refine ⟨true, true, ?_, ?_⟩
    · rw [foldl_onReg, hadv, hscan]
      exact {
        done := by
          change s.advConfigDone ||| ADV_CONFIG_FLAG ||| SCAN_RSP_CONFIG_FLAG = _
          rw [h.done, flags_set]
        advPending := by
          simp only [Nat.zero_add]
          exact Bool.toNat_le _
        scanRspPending := by
          simp only [Nat.zero_add]
          exact Bool.toNat_le _
        onAir := h.onAir
        quiet := fun _ => ⟨hair, hconn⟩
        fresh := fun h => absurd h Bool.false_ne_true
        own := fun j hj => by
          rw [if_pos hstatus] at hj
          exact Option.some.inj hj }
    · intro hok _
      rw [foldl_onReg, hadv, hscan]
      exact ⟨by simp [hok], by simp [hok], by simp [hstatus]⟩
  · have hstep : s.step (.gatts i (.reg status)) = some (s, []) := by
      simp [State.step, gattsEventHandler, storeGattsIf, hstatus]
    rw [hstep] at hs
    obtain ⟨rfl, rfl⟩ := Prod.mk.inj (Option.some.inj hs)
    refine ⟨false, false, ?_, fun _ _ => ⟨hadv, hscan, by simp [hstatus]⟩⟩
    exact {
      done := h.done
      advPending := h.advPending
      scanRspPending := h.scanRspPending
      onAir := h.onAir
      quiet := fun _ => ⟨hair, hconn⟩
      fresh := fun h => absurd h Bool.false_ne_true
      own := by simp [hstatus] }

theorem Inv.configured (h : Inv adv scanRsp s r) (hair : r.advertising = true ∨ 0 < r.connected) :
    ¬ (adv = true ∨ scanRsp = true ∨ r.registering = true) := by
  intro hc
  obtain ⟨ha, hconn⟩ := h.quiet hc
  rcases hair with hair | hair
  · rw [ha] at hair
    cases hair
  · omega

/-- The server and the radio go on, with as many clients and advertising as before or fewer. -/
theorem Inv.change {advertising : Bool} {connected : ℕ} (h : Inv adv scanRsp s r)
    (hdone : s'.advConfigDone = s.advConfigDone) (hif : s'.gattsIf = s.gattsIf)
    (hair : r.advertising = true ∨ 0 < r.connected)
    (honAir : advertising.toNat + connected ≤ 1) :
    Inv adv scanRsp s' { r with advertising := advertising, connected := connected } where
  done := hdone.trans h.done
  advPending := h.advPending
  scanRspPending := h.scanRspPending
  onAir := honAir
  quiet := fun hc => absurd hc (h.configured hair)
  fresh := h.fresh
  own := fun i hi => hif.trans (h.own i hi)

theorem next_peer {i : ℕ} (he : ∀ status, e ≠ .reg status) (h : Inv adv scanRsp s r) {u : Radio}
    (hdel : r.deliver (.gatts i e) = some u) (hs : s.step (.gatts i e) = some (s', out)) :
    Next adv scanRsp r ok s' (out.foldl (Radio.absorb ok) u) := by
  have hdel' : r.gattsIf = some i ∧ r.deliverPeer e = some u := by
    cases e with
    | reg status => exact absurd rfl (he status)
    | write | execWrite | connect | disconnect | creatAttrTab | logged =>
      simp only [Radio.deliver] at hdel
      split_ifs at hdel with hi
      exact ⟨hi, hdel⟩
  obtain ⟨hi, hpeer⟩ := hdel'
  have hreg : r.registering ≠ true := fun hreg => by
    rw [(h.fresh hreg).2.2] at hi
    cases hi
  rw [step_own he (h.own i hi)] at hs
  have hif := gattsIf_profile hs
  by_cases hdis : e = .disconnect
  · subst hdis
    obtain ⟨rfl, rfl⟩ := Prod.mk.inj (Option.some.inj hs)
    simp only [Radio.deliverPeer] at hpeer
    split_ifs at hpeer with hconn
    obtain rfl := Option.some.inj hpeer
    have honAir := h.onAir
    have hair : r.advertising = false := by
      cases ha : r.advertising with
      | false => rfl
      | true => rw [ha, Bool.toNat_true] at honAir; omega
    have hone : r.connected - 1 = 0 := by omega
    rw [List.foldl_cons, List.foldl_nil, absorb_start, hone]
    refine ⟨adv, scanRsp, h.change rfl rfl (.inr hconn) (Bool.toNat_le _), fun hok hlive =>
      ⟨hlive.advPending, hlive.scanRspPending, fun _ _ _ => ?_⟩⟩
    simp [hok]
  · obtain ⟨hdone, hcalls⟩ := profile_toRadio he hdis hs
    rw [foldl_absorb hcalls]
    by_cases hconnect : ∃ bda, e = .connect bda
    · obtain ⟨bda, rfl⟩ := hconnect
      simp only [Radio.deliverPeer] at hpeer
      split_ifs at hpeer with hair
      obtain rfl := Option.some.inj hpeer
      have honAir := h.onAir
      rw [hair, Bool.toNat_true] at honAir
      have hone : r.connected + 1 = 1 := by omega
      rw [hone]
      exact ⟨adv, scanRsp, h.change hdone hif (.inl hair) (by decide), fun _ hlive =>
        ⟨hlive.advPending, hlive.scanRspPending, fun _ _ _ => rfl⟩⟩
    · have hu : r = u := by
        cases e with
        | reg status => exact absurd rfl (he status)
        | disconnect => exact absurd rfl hdis
        | connect bda => exact absurd ⟨bda, rfl⟩ hconnect
        | write | execWrite | creatAttrTab | logged => exact Option.some.inj hpeer
      subst hu
      refine ⟨adv, scanRsp, ?_, fun _ hlive => hlive⟩
      exact { h with
        done := hdone.trans h.done
        own := fun j hj => hif.trans (h.own j hj) }

theorem next_step {a : Event × (Call → Bool)} (h : Inv adv scanRsp s r)
    (hs : System.step (s, r) a = some (s', r')) : Next adv scanRsp r a.2 s' r' := by
  obtain ⟨u, out, hdel, hstep, rfl⟩ := Env.closed_eq_some hs
  obtain ⟨ev, ok⟩ := a
  cases ev with
  | gap g =>
    obtain ⟨rfl, rfl⟩ := Prod.ext_iff.mp (Option.some.inj hstep)
    exact next_gap h hdel
  | gatts i e =>
    by_cases he : ∃ status, e = .reg status
    · obtain ⟨status, rfl⟩ := he
      exact next_reg h hdel hstep
    · exact next_peer (fun status heq => he ⟨status, heq⟩) h hdel hstep

structure OneClient (r : Radio) : Prop where
  pending : 0 < r.advPending + r.scanRspPending → r.advertising = false ∧ r.connected = 0
  client : r.connected ≤ 1
  alone : r.advertising = true → r.connected = 0

/-- In every order of events the server is not on the air before both configurations are
complete, and it never has two clients, nor advertises while it has one. If its calls succeed,
then a registered server that is configured always advertises or has a client. -/
theorem radio_served (x : State × Radio) :
    (Reach System.step (fun _ _ => True) boot x → OneClient x.2) ∧
    (Reach System.step (fun _ a => ∀ c, a.2 c = true) boot x →
      x.2.gattsIf ≠ none → x.2.advPending + x.2.scanRspPending = 0 →
      x.2.advertising = true ∨ x.2.connected = 1) := by
  constructor
  · intro h
    obtain ⟨adv, scanRsp, hinv⟩ : ∃ adv scanRsp, Inv adv scanRsp x.1 x.2 := by
      refine h.invariant (I := fun x => ∃ adv scanRsp, Inv adv scanRsp x.1 x.2)
        ⟨false, false, Inv.init⟩ ?_
      rintro ⟨s, r⟩ a ⟨s', r'⟩ ⟨adv, scanRsp, hinv⟩ - hs
      obtain ⟨adv', scanRsp', hinv', -⟩ := next_step hinv hs
      exact ⟨adv', scanRsp', hinv'⟩
    have honAir := hinv.onAir
    refine ⟨fun hpos => hinv.quiet ?_, by omega, fun hair => ?_⟩
    · have h₁ := hinv.advPending
      have h₂ := hinv.scanRspPending
      cases adv with
      | true => exact .inl rfl
      | false =>
        cases scanRsp with
        | true => exact .inr (.inl rfl)
        | false => rw [Bool.toNat_false] at h₁ h₂; omega
    · rw [hair, Bool.toNat_true] at honAir
      omega
  · intro h hreg hdone
    obtain ⟨adv, scanRsp, -, hlive⟩ : ∃ adv scanRsp, Inv adv scanRsp x.1 x.2 ∧
        Live adv scanRsp x.2 := by
      refine h.invariant
        (I := fun x => ∃ adv scanRsp, Inv adv scanRsp x.1 x.2 ∧ Live adv scanRsp x.2)
        ⟨false, false, Inv.init, Live.init⟩ ?_
      rintro ⟨s, r⟩ a ⟨s', r'⟩ ⟨adv, scanRsp, hinv, hlive⟩ hok hs
      obtain ⟨adv', scanRsp', hinv', hnext⟩ := next_step hinv hs
      exact ⟨adv', scanRsp', hinv', hnext hok hlive⟩
    have h₁ := hlive.advPending
    have h₂ := hlive.scanRspPending
    have hadv : adv = false := by
      cases adv with
      | false => rfl
      | true => rw [Bool.toNat_true] at h₁; omega
    have hscan : scanRsp = false := by
      cases scanRsp with
      | false => rfl
      | true => rw [Bool.toNat_true] at h₂; omega
    have honAir := hlive.onAir hreg hadv hscan
    cases hair : x.2.advertising with
    | true => exact .inl rfl
    | false =>
      rw [hair, Bool.toNat_false] at honAir
      exact .inr (by omega)

theorem radio_served_client : ∃ x, Reach System.step (fun _ a => ∀ c, a.2 c = true) boot x ∧
    x.2.connected = 1 ∧ OneClient x.2 ∧ (x.2.advertising = true ∨ x.2.connected = 1) := by
  let all : Call → Bool := fun _ => true
  let server (done : UInt8) : State := ⟨done, fun _ => 0, .init, 3⟩
  have h₁ : Reach System.step (fun _ a => ∀ c, a.2 c = true) boot
      (server 3, ⟨false, some 3, 1, 1, false, 0⟩) :=
    .tail (.gatts 3 (.reg ESP_GATT_OK), all) .refl (fun _ => rfl) rfl
  have h₂ : Reach System.step (fun _ a => ∀ c, a.2 c = true) boot
      (server 2, ⟨false, some 3, 0, 1, false, 0⟩) :=
    h₁.tail (.gap .advDataRawSetComplete, all) (fun _ => rfl) (by with_unfolding_all rfl)
  have h₃ : Reach System.step (fun _ a => ∀ c, a.2 c = true) boot
      (server 0, ⟨false, some 3, 0, 0, true, 0⟩) :=
    h₂.tail (.gap .scanRspDataRawSetComplete, all) (fun _ => rfl) (by with_unfolding_all rfl)
  have h₄ : Reach System.step (fun _ a => ∀ c, a.2 c = true) boot
      (server 0, ⟨false, some 3, 0, 0, false, 1⟩) :=
    h₃.tail (.gatts 3 (.connect []), all) (fun _ => rfl) rfl
  obtain ⟨hone, hair⟩ := radio_served _
  exact ⟨_, h₄, rfl, hone (h₄.mono fun _ _ _ => trivial), hair h₄ (by simp) rfl⟩

end Car.GattServer
