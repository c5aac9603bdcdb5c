import CarFirmware.Lib.Reactive
import CarFirmware.Spec.GattServer
import CarFirmware.Proofs.PrepareWrite
import CarFirmware.Proofs.Provisioning

/-! Whole runs of the GATT server, over any order of GAP and GATT events: which writes
configure the station, how requests are answered, and what an execute write finds. -/

namespace Car.GattServer

open Reactive PrepareWrite

variable {s s' : State} {gattsIf : ℕ} {e : GattsEvent} {es : List Event} {out : List Call}

/-! ### The profile -/

inductive Handled (s : State) (i : ℕ) : GattsEvent → State → List Call → Prop
  | reg {status : ℕ} : Handled s i (.reg status) (onReg s i).1 (onReg s i).2
  | write {mem : Option PrepareBuf} {rspMem : Bool} {w : Fragment} {o : GattsOut}
      {rsp : List Call} :
      gattsWriteEvt (s.handleTable IDX_CHAR_VAL_C) ⟨false, w.handle, w.value⟩ = some o →
      rsp = (if w.needRsp then [.gattsSendResponseNull i w.connId w.transId] else []) →
      Handled s i (.write false mem rspMem w) s (startCalls o ++ rsp)
  | prepare {mem : Option PrepareBuf} {rspMem : Bool} {w : Fragment} {env : PrepareTypeEnv}
      {rsp : Option Response} :
      examplePrepareWriteEventEnv i s.prepareWriteEnv mem rspMem w = some (env, rsp) →
      Handled s i (.write true mem rspMem w) { s with prepareWriteEnv := env }
        (rsp.toList.map .gattsSendResponse)
  | exec {flag : ExecWriteFlag} {env : PrepareTypeEnv} {bytes : Option (List UInt8)} :
      exampleExecWriteEventEnv s.prepareWriteEnv flag = some (env, bytes) →
      Handled s i (.execWrite flag) { s with prepareWriteEnv := env }
        (bytes.toList.map .logBufferHex)
  | connect {bda : List UInt8} :
      Handled s i (.connect bda) s [.gapUpdateConnParams ⟨bda, 0x10, 0x20, 0, 400⟩]
  | disconnect : Handled s i .disconnect s [.gapStartAdvertising]
  | noTable {status : ℕ} {handles : List ℕ} :
      ¬ (status = ESP_GATT_OK ∧ handles.length = HRS_IDX_NB) →
      Handled s i (.creatAttrTab status handles) s []
  | table {status : ℕ} {handles : List ℕ} (hok : status = ESP_GATT_OK)
      (hlen : handles.length = HRS_IDX_NB) {table : Fin HRS_IDX_NB → ℕ} :
      (table = fun i => handles.get (Fin.cast hlen.symm i)) →
      Handled s i (.creatAttrTab status handles) { s with handleTable := table }
        [.gattsStartService (table IDX_SVC)]
  | logged : Handled s i .logged s []

theorem handled (h : gattsProfileEventHandler s gattsIf e = some (s', out)) :
    Handled s gattsIf e s' out := by
  cases e with
  | reg status | connect bda | disconnect | logged =>
    obtain ⟨rfl, rfl⟩ := Prod.mk.inj (Option.some.inj h)
    constructor
  | creatAttrTab status handles =>
    replace h : onCreatAttrTab s status handles = (s', out) := Option.some.inj h
    unfold onCreatAttrTab at h
    split_ifs at h with hok hlen
    · obtain ⟨rfl, rfl⟩ := Prod.mk.inj h
      exact .noTable fun hc => hok hc.1
    · obtain ⟨rfl, rfl⟩ := Prod.mk.inj h
      exact .noTable fun hc => hlen hc.2
    · obtain ⟨rfl, rfl⟩ := Prod.mk.inj h
      exact .table (not_not.mp hok) (not_not.mp hlen) rfl
  | execWrite flag =>
    obtain ⟨⟨env, bytes⟩, ho, heq⟩ := Option.map_eq_some_iff.mp h
    obtain ⟨rfl, rfl⟩ := Prod.mk.inj heq
    exact .exec ho
  | write isPrep mem rspMem w =>
    cases isPrep with
    | false =>
      obtain ⟨o, ho, heq⟩ := Option.map_eq_some_iff.mp h
      obtain ⟨rfl, rfl⟩ := Prod.mk.inj heq
      exact .write ho rfl
    | true =>
      obtain ⟨⟨env, rsp⟩, ho, heq⟩ := Option.map_eq_some_iff.mp h
      obtain ⟨rfl, rfl⟩ := Prod.mk.inj heq
      exact .prepare ho

/-! ### The dispatch -/

def profileStep (s : State) (d : ℕ × GattsEvent) : Option (State × List Call) :=
  gattsProfileEventHandler s d.1 d.2

def delivered (own : ℕ) : Event → Option (ℕ × GattsEvent)
  | .gap _ => none
  | .gatts i (.reg status) => if status = ESP_GATT_OK then some (i, .reg status) else none
  | .gatts i e => if Listens own i then some (i, e) else none

def registered (own : ℕ) : Event → ℕ
  | .gatts i (.reg status) => if status = ESP_GATT_OK then i else own
  | _ => own

def deliveries : ℕ → List Event → List (ℕ × GattsEvent)
  | _, [] => []
  | own, ev :: es => (delivered own ev).toList ++ deliveries (registered own ev) es

/-- A ledger of the profile, over all events. -/
def dispatched {τ β : Type*} (L : Ledger τ (ℕ × GattsEvent) β) : Ledger (ℕ × τ) Event β where
  next t ev := (registered t.1 ev, L.follow t.2 (delivered t.1 ev).toList)
  due t ev := L.dues t.2 (delivered t.1 ev).toList

/-- What a step does: the profile handles the event that is delivered to it, with the
interface stored, and otherwise only advertising is started. -/
theorem step_delivered {ev : Event} (h : s.step ev = some (s', out)) :
    (∃ d, delivered s.gattsIf ev = some d ∧
      profileStep { s with gattsIf := registered s.gattsIf ev } d = some (s', out)) ∨
    (delivered s.gattsIf ev = none ∧ registered s.gattsIf ev = s.gattsIf ∧
      s'.gattsIf = s.gattsIf ∧ s'.handleTable = s.handleTable ∧
      s'.prepareWriteEnv = s.prepareWriteEnv ∧ ∀ c ∈ out, c = .gapStartAdvertising) := by
  cases ev with
  | gap g =>
    right
    cases g with
    | logged =>
      obtain ⟨rfl, rfl⟩ := Prod.mk.inj (Option.some.inj h)
      exact ⟨rfl, rfl, rfl, rfl, rfl, by simp⟩
    | advDataRawSetComplete | scanRspDataRawSetComplete =>
      obtain ⟨rfl, rfl⟩ := Prod.mk.inj (Option.some.inj h)
      refine ⟨rfl, rfl, rfl, rfl, rfl, fun c hc => ?_⟩
      split_ifs at hc
      · exact List.mem_singleton.mp hc
      · exact absurd hc List.not_mem_nil
  | gatts i e =>
    simp only [State.step, gattsEventHandler] at h
    cases e with
    | reg status =>
      simp only [storeGattsIf] at h
      by_cases hok : status = ESP_GATT_OK
      · left
        simp only [if_pos hok, Listens, or_true, if_true] at h
        simp only [delivered, registered, if_pos hok]
        exact ⟨_, rfl, h⟩
      · right
        simp only [if_neg hok] at h
        obtain ⟨rfl, rfl⟩ := Prod.mk.inj (Option.some.inj h)
        simp only [delivered, registered, if_neg hok]
        exact ⟨trivial, trivial, trivial, trivial, trivial, by simp⟩
    | write | execWrite | connect | disconnect | creatAttrTab | logged =>
      simp only [storeGattsIf] at h
      by_cases hi : Listens s.gattsIf i
      · left
        rw [if_pos hi] at h
        exact ⟨_, if_pos hi, h⟩
      · right
        rw [if_neg hi] at h
        obtain ⟨rfl, rfl⟩ := Prod.mk.inj (Option.some.inj h)
        exact ⟨if_neg hi, rfl, rfl, rfl, rfl, by simp⟩

theorem dues_dispatched {τ β : Type*} (L : Ledger τ (ℕ × GattsEvent) β) (own : ℕ) (t : τ)
    (es : List Event) : (dispatched L).dues (own, t) es = L.dues t (deliveries own es) := by
  induction es generalizing own t with
  | nil => rfl
  | cons ev es ih => rw [deliveries, Ledger.dues_append, ← ih]; rfl

theorem gattsIf_profile (h : gattsProfileEventHandler s gattsIf e = some (s', out)) :
    s'.gattsIf = s.gattsIf := by
  cases handled h <;> rfl

/-- A relation that looks at the handles and the prepared value only. -/
def Framed {τ : Type*} (R : State → τ → Prop) : Prop :=
  ∀ s s' t, s'.handleTable = s.handleTable → s'.prepareWriteEnv = s.prepareWriteEnv → R s t → R s' t

/-- A ledger that the profile keeps is kept by the server, which passes on what is for the
profile; starting to advertise is not in it. -/
theorem keeps_dispatched {τ β : Type*} {L : Ledger τ (ℕ × GattsEvent) β} {R : State → τ → Prop}
    {ok : τ → ℕ × GattsEvent → Prop} {view : Call → Option β} (hR : Framed R)
    (hview : view .gapStartAdvertising = none) (h : Keeps profileStep L R ok view) :
    Keeps State.step (dispatched L) (fun s t => s.gattsIf = t.1 ∧ R s t.2)
      (fun t ev => ∀ d ∈ delivered t.1 ev, ok t.2 d) view := by
  rintro s ⟨own, t⟩ ev s' out ⟨rfl, hs⟩ hok hstep
  rcases step_delivered hstep with ⟨d, hd, hprofile⟩ | ⟨hd, hreg, hif, htable, henv, hout⟩
  · have hframe : R { s with gattsIf := registered s.gattsIf ev } t := hR s _ t rfl rfl hs
    obtain ⟨hs', hdue⟩ := h _ _ _ _ _ hframe (hok d hd) hprofile
    simp only [dispatched, hd, Option.toList_some, Ledger.dues, List.append_nil]
    exact ⟨⟨gattsIf_profile hprofile, hs'⟩, hdue⟩
  · simp only [dispatched, hd, hreg, Option.toList_none]
    refine ⟨⟨hif, hR s _ t htable henv hs⟩, List.filterMap_eq_nil_iff.mpr fun c hc => ?_⟩
    rw [hout c hc, hview]

theorem orderly_dispatched {τ β : Type*} {L : Ledger τ (ℕ × GattsEvent) β}
    {ok : τ → ℕ × GattsEvent → Prop} {own : ℕ} {t : τ} (h : L.Orderly ok t (deliveries own es)) :
    (dispatched L).Orderly (fun t ev => ∀ d ∈ delivered t.1 ev, ok t.2 d) (own, t) es := by
  induction es generalizing own t with
  | nil => trivial
  | cons ev es ih =>
    rw [deliveries] at h
    cases hd : delivered own ev with
    | none =>
      rw [hd] at h
      refine Ledger.orderly_cons.mpr ⟨fun d hmem => ?_, ?_⟩
      · rw [hd] at hmem
        exact absurd hmem (Option.not_mem_none d)
      · simp only [dispatched, hd]
        exact ih h
    | some d =>
      rw [hd] at h
      obtain ⟨hd', hrest⟩ := Ledger.orderly_cons.mp h
      refine Ledger.orderly_cons.mpr ⟨fun d' hmem => ?_, ?_⟩
      · rw [hd] at hmem
        exact Option.mem_some_iff.mp hmem ▸ hd'
      · simp only [dispatched, hd]
        exact ih hrest

theorem run_dispatched {τ β : Type*} {L : Ledger τ (ℕ × GattsEvent) β} {R : State → τ → Prop}
    {ok : τ → ℕ × GattsEvent → Prop} {view : Call → Option β} {t : τ} (hR : Framed R)
    (hview : view .gapStartAdvertising = none) (h : Keeps profileStep L R ok view)
    (h0 : R .init t) (hok : L.Orderly ok t (deliveries ESP_GATT_IF_NONE es))
    (hrun : run State.step .init es = some (s, out)) :
    out.filterMap view = L.dues t (deliveries ESP_GATT_IF_NONE es) := by
  have hkeeps := keeps_dispatched hR hview h
  obtain ⟨-, hout⟩ := hkeeps.run ⟨rfl, h0⟩ (orderly_dispatched hok) hrun
  rw [hout, dues_dispatched]

/-! ### Provisioning -/

def ssidOf (value : List UInt8) : List UInt8 := value.takeWhile (· ≠ newline)

def passwordOf (value : List UInt8) : List UInt8 := (value.dropWhile (· ≠ newline)).tail

def padded (n : ℕ) (bytes : List UInt8) : Fin n → UInt8 := fun k => bytes.getD k.val 0

def credentials (value : List UInt8) : Option WifiConfig :=
  if newline ∈ value ∧ 1 ≤ (ssidOf value).length ∧ (ssidOf value).length ≤ 32 then
    some ⟨padded 32 (ssidOf value), padded 64 (passwordOf value)⟩
  else none

/-- The values of the plain writes to characteristic C, whose handle comes with a complete
attribute table. -/
def charCWrites : Ledger ℕ (ℕ × GattsEvent) (List UInt8) where
  next charValC d :=
    match d.2 with
    | .creatAttrTab status handles =>
      if status = ESP_GATT_OK ∧ handles.length = HRS_IDX_NB then handles.getD IDX_CHAR_VAL_C 0
      else charValC
    | _ => charValC
  due charValC d :=
    match d.2 with
    | .write false _ _ w => if charValC = w.handle then [w.value] else []
    | _ => []

def Call.config? : Call → Option WifiConfig
  | .wifiSetConfigAndStart config => some config
  | _ => none

theorem ssidOf_append {ssid : List UInt8} (h : newline ∉ ssid) (passwd : List UInt8) :
    ssidOf (ssid ++ newline :: passwd) = ssid := by
  have hall : ∀ x ∈ ssid, decide (x ≠ newline) = true := fun x hx =>
    decide_eq_true fun heq => h (heq ▸ hx)
  rw [ssidOf, List.takeWhile_append_of_pos hall]
  simp

theorem passwordOf_append {ssid : List UInt8} (h : newline ∉ ssid) (passwd : List UInt8) :
    passwordOf (ssid ++ newline :: passwd) = passwd := by
  have hall : ∀ x ∈ ssid, decide (x ≠ newline) = true := fun x hx =>
    decide_eq_true fun heq => h (heq ▸ hx)
  rw [passwordOf, List.dropWhile_append_of_pos hall]
  simp

theorem padded_take {n m : ℕ} (hn : n ≤ m) (bytes : List UInt8) :
    CArray.memcpy 0 0 ((List.ofFn (padded m bytes)).take n) = some (padded n bytes) := by
  have hlen : ((List.ofFn (padded m bytes)).take n).length = n := by simp [hn]
  rw [CArray.memcpy_zero (Nat.le_of_eq hlen)]
  congr 1
  funext k
  have hk : k.val < ((List.ofFn (padded m bytes)).take n).length := by omega
  rw [List.getD_eq_getElem _ _ hk, List.getElem_take, List.getElem_ofFn]
  rfl

theorem wifiSetConfigAndStart_padded (ssid passwd : List UInt8) :
    wifiSetConfigAndStart (padded 33 ssid) (padded 65 passwd) =
      some ⟨padded 32 ssid, padded 64 passwd⟩ := by
  rw [wifiSetConfigAndStart, padded_take (by omega), padded_take (by omega)]
  rfl

theorem gattsLocals_eq_some {copies : List UInt8 × List UInt8} {ssid : Fin 33 → UInt8}
    {passwd : Fin 65 → UInt8} (h : gattsLocals copies = some (ssid, passwd)) :
    ssid = padded 33 copies.1 ∧ passwd = padded 65 copies.2 := by
  obtain ⟨a, ha, h⟩ := Option.bind_eq_some_iff.mp h
  obtain ⟨b, hb, h⟩ := Option.bind_eq_some_iff.mp h
  obtain ⟨rfl, rfl⟩ := Prod.mk.inj (Option.some.inj h)
  have hssid := CArray.memcpy_isSome.mp (Option.isSome_of_eq_some ha)
  have hpasswd := CArray.memcpy_isSome.mp (Option.isSome_of_eq_some hb)
  rw [CArray.memcpy_zero (by omega)] at ha hb
  exact ⟨(Option.some.inj ha).symm, (Option.some.inj hb).symm⟩

/-- The configuration that a write starts the station with. -/
def started : GattsOut → Option WifiConfig
  | .started config => some config
  | _ => none

theorem started_of_write {value : List UInt8} {o : GattsOut}
    (h : gattsHandleCharValCWrite value = some o) : started o = credentials value := by
  by_cases hmem : newline ∈ value
  · obtain ⟨ssid, passwd, rfl, hs⟩ := List.eq_append_cons_of_mem hmem
    rw [credentials, ssidOf_append hs, passwordOf_append hs]
    rw [gattsHandleCharValCWrite, gattsCopies_append hs] at h
    by_cases hlen : ssid.length = 0 ∨ 32 < ssid.length
    · rw [if_pos hlen] at h
      obtain rfl := Option.some.inj h
      rw [if_neg (by omega)]
      rfl
    · rw [if_neg hlen] at h
      obtain ⟨⟨a, b⟩, hlocals, h⟩ := Option.bind_eq_some_iff.mp h
      obtain ⟨rfl, rfl⟩ := gattsLocals_eq_some hlocals
      simp only [wifiSetConfigAndStart_padded] at h
      obtain rfl := Option.some.inj h
      rw [if_pos ⟨hmem, by omega, by omega⟩]
      rfl
  · rw [gattsHandleCharValCWrite, gattsCopies_of_notMem hmem] at h
    obtain rfl := Option.some.inj h
    rw [credentials, if_neg fun hc => hmem hc.1]
    rfl

theorem charCWrites_table {status : ℕ} {handles : List ℕ} {charValC : ℕ}
    (gattsIf : ℕ) (hok : status = ESP_GATT_OK) (hlen : handles.length = HRS_IDX_NB) :
    charCWrites.next charValC (gattsIf, .creatAttrTab status handles) =
      handles.get (Fin.cast hlen.symm IDX_CHAR_VAL_C) := by
  have hlt : (IDX_CHAR_VAL_C : ℕ) < handles.length := by rw [hlen]; decide
  simp only [charCWrites]
  rw [if_pos ⟨hok, hlen⟩, List.getD_eq_getElem _ _ hlt]
  rfl

theorem config?_write {w : Fragment} {o : GattsOut} {charValC : ℕ} {rsp : List Call}
    (h : gattsWriteEvt charValC ⟨false, w.handle, w.value⟩ = some o)
    (hrsp : rsp = if w.needRsp then [.gattsSendResponseNull gattsIf w.connId w.transId] else []) :
    (startCalls o ++ rsp).filterMap Call.config? =
      if charValC = w.handle then (credentials w.value).toList else [] := by
  have hnone : rsp.filterMap Call.config? = [] := by
    rw [hrsp]
    split_ifs <;> rfl
  rw [List.filterMap_append, hnone, List.append_nil]
  by_cases hhandle : charValC = w.handle
  · rw [gattsWriteEvt, if_pos ⟨rfl, hhandle⟩] at h
    rw [if_pos hhandle, ← started_of_write h]
    cases o <;> rfl
  · rw [gattsWriteEvt, if_neg fun hc => hhandle hc.2] at h
    obtain rfl := Option.some.inj h
    rw [if_neg hhandle]
    rfl

theorem keeps_configs :
    Keeps profileStep (charCWrites.through credentials)
      (fun s charValC => s.handleTable IDX_CHAR_VAL_C = charValC) (fun _ _ => True)
      Call.config? := by
  rintro s charValC ⟨i, e⟩ s' out rfl - hstep
  cases handled hstep with
  | reg | connect | disconnect | logged => exact ⟨rfl, rfl⟩
  | noTable hno => exact ⟨(if_neg hno).symm, rfl⟩
  | table hok hlen htable =>
    rw [htable]
    exact ⟨(charCWrites_table i hok hlen).symm, rfl⟩
  | @exec flag env bytes =>
    refine ⟨rfl, ?_⟩
    cases bytes <;> rfl
  | @prepare mem rspMem w env rsp =>
    refine ⟨rfl, ?_⟩
    cases rsp <;> rfl
  | @write mem rspMem w o rsp ho hrsp =>
    refine ⟨rfl, ?_⟩
    rw [config?_write ho hrsp]
    simp only [Ledger.through, charCWrites]
    split_ifs
    · cases hc : credentials w.value <;> simp [hc]
    · rfl

theorem framed_charValC :
    Framed fun s charValC => s.handleTable IDX_CHAR_VAL_C = charValC :=
  fun _ _ _ htable _ h => (congrFun htable _).trans h

/-- In every run that leaves no array the station is configured by the plain writes to
characteristic C that carry credentials, in their order, and by nothing else. -/
theorem provisioned_in_order (h : run State.step .init es = some (s, out)) :
    out.filterMap Call.config? =
      (charCWrites.dues 0 (deliveries ESP_GATT_IF_NONE es)).filterMap credentials := by
  rw [run_dispatched framed_charValC rfl keeps_configs rfl (Ledger.orderly_true _ _ _) h,
    Ledger.dues_through]
  rfl

def provisioningEvents : List Event :=
  let w : Fragment := ⟨0, 0, 47, 0, false, [97, newline, 98]⟩
  [.gatts 3 (.reg ESP_GATT_OK), .gatts 3 (.creatAttrTab ESP_GATT_OK (List.range' 40 8)),
    .gatts 3 (.write true (some 0) false w), .gatts 3 (.execWrite .exec),
    .gatts 3 (.write false none false w)]

theorem provisioned_in_order_once : ∃ s out,
    run State.step .init provisioningEvents = some (s, out) ∧
      out.filterMap Call.config? = [⟨padded 32 [97], padded 64 [98]⟩] := by
  obtain ⟨⟨s, out⟩, h⟩ : ∃ r, run State.step .init provisioningEvents = some r :=
    ⟨_, rfl⟩
  exact ⟨s, out, h, provisioned_in_order h⟩

/-! ### Queued writes -/

instance (w : Fragment) : Decidable w.InRange := inferInstanceAs (Decidable (_ ≤ _))

/-- What a client and the log see: the answer to a request, with what it repeats of a prepared
write, and the value that an execute finds. -/
inductive Report where
  | answer (gattsIf connId transId : ℕ) (echo : Option (ℕ × ℕ × List UInt8)) (ok : Bool)
  | dump (bytes : List UInt8)
deriving DecidableEq

/-- A fragment is taken when it is in range and there is, or was, memory for the value. -/
def Taken (staged : Option (List UInt8)) (mem : Option PrepareBuf) (w : Fragment) : Prop :=
  w.InRange ∧ (staged.isSome ∨ mem.isSome)

instance (staged : Option (List UInt8)) (mem : Option PrepareBuf) (w : Fragment) :
    Decidable (Taken staged mem w) := inferInstanceAs (Decidable (_ ∧ _))

def found : ExecWriteFlag → Option (List UInt8) → Option (List UInt8)
  | .exec, staged => staged
  | .cancel, _ => none

/-- The value that is being prepared, and what is due while it is. -/
def queue : Ledger (Option (List UInt8)) (ℕ × GattsEvent) Report where
  next staged d :=
    match d.2 with
    | .write true mem _ w =>
      if Taken staged mem w then some (staged.getD [] ++ w.value) else staged
    | .execWrite _ => none
    | _ => staged
  due staged d :=
    match d.2 with
    | .write false _ _ w =>
      if w.needRsp then [.answer d.1 w.connId w.transId none true] else []
    | .write true mem rspMem w =>
      if w.needRsp && rspMem then
        [.answer d.1 w.connId w.transId (some (w.handle, w.offset, w.value))
          (decide (Taken staged mem w))]
      else []
    | .execWrite flag => (found flag staged).toList.map .dump
    | _ => []

def Holds (env : PrepareTypeEnv) : Option (List UInt8) → Prop
  | none => env = .init
  | some bytes => ∃ buf, env = ⟨some buf, bytes.length⟩ ∧
    (List.ofFn buf).take bytes.length = bytes

end Car.GattServer
