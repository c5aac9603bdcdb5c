import CarFirmware.Spec.LedStripEncoder

/-! The symbols of the LED strip. However the driver divides its symbol memory, transaction
after transaction is written whole and in order, and the strip shows the frames. -/

namespace Car.LedStripEncoder

open Encoder

variable {β γ : Type*}

/-! ### One transaction -/

/-- The bits of a byte in the order of the wire. -/
def byteBits (msbFirst : Bool) (b : UInt8) : List Bool :=
  let bits := (List.range 8).map b.toNat.testBit
  if msbFirst then bits.reverse else bits

def bitSymbol (config : BytesEncoderConfig) (bit : Bool) : Symbol :=
  if bit then config.bit1 else config.bit0

def dataSymbols (config : BytesEncoderConfig) (data : List UInt8) : List Symbol :=
  (data.flatMap (byteBits config.msbFirst)).map (bitSymbol config)

def frameSymbols (resolution : ℕ) (data : List UInt8) : List Symbol :=
  dataSymbols (bytesEncoderConfig resolution) data ++ [resetCode resolution]

def newEncoder (resolution : ℕ) (b : β) (c : γ) : LedEncoder β γ where
  bytesEncoder := b
  copyEncoder := c
  state := 0
  resetCode := resetCode resolution

section Transaction

variable {bytesEncode : List UInt8 → Encoder β Symbol} {copyEncode : List Symbol → Encoder γ Symbol}
variable {b₀ : β} {c₀ : γ} {resolution : ℕ}
variable {LeftB : β → List Symbol → Prop} {LeftC : γ → List Symbol → Prop}

/-- What is still to be written in a session state of `rmt_encode_led_strip`. The encoder that
is not at work is at its home. -/
inductive Remains (resolution : ℕ) (b₀ : β) (c₀ : γ) (LeftB : β → List Symbol → Prop)
    (LeftC : γ → List Symbol → Prop) : LedEncoder β γ → List Symbol → Prop
  | data {b : β} {xs : List Symbol} : LeftB b xs →
      Remains resolution b₀ c₀ LeftB LeftC ⟨b, c₀, 0, resetCode resolution⟩
        (xs ++ [resetCode resolution])
  | reset {c : γ} {xs : List Symbol} : LeftC c xs →
      Remains resolution b₀ c₀ LeftB LeftC ⟨b₀, c, 1, resetCode resolution⟩ xs

theorem serves_reset {data : List UInt8}
    (hcopy : Lawful (copyEncode [resetCode resolution]) c₀ LeftC) {c : γ} {xs : List Symbol}
    (hc : LeftC c xs) (n : ℕ) :
    Serves (rmtEncodeLedStrip bytesEncode copyEncode data ⟨b₀, c, 1, resetCode resolution⟩ n) xs n
      (newEncoder resolution b₀ c₀) (Remains resolution b₀ c₀ LeftB LeftC) := by
  have hcall := hcopy c xs n hc
  simp only [rmtEncodeLedStrip, sendResetCode, one_ne_zero, if_false, if_true, List.nil_append,
    List.length_nil, Nat.sub_zero]
  exact {
    out := hcall.out
    complete := hcall.complete
    full := hcall.full
    next_home := fun hn => by
      simp only [hcall.next_home hn, if_pos (hcall.complete.mpr hn), newEncoder]
    next_left := fun hn => by
      rw [if_neg (mt hcall.complete.mp (by omega))]
      exact .reset (hcall.next_left hn) }

theorem serves_data {data : List UInt8} (hbytes : Lawful (bytesEncode data) b₀ LeftB)
    (hcopy : Lawful (copyEncode [resetCode resolution]) c₀ LeftC)
    (hc₀ : LeftC c₀ [resetCode resolution]) {b : β} {xs : List Symbol} (hb : LeftB b xs) (n : ℕ) :
    Serves (rmtEncodeLedStrip bytesEncode copyEncode data ⟨b, c₀, 0, resetCode resolution⟩ n)
      (xs ++ [resetCode resolution]) n (newEncoder resolution b₀ c₀)
      (Remains resolution b₀ c₀ LeftB LeftC) := by
  have hcall := hbytes b xs n hb
  rcases lt_trichotomy n xs.length with hn | rfl | hn
  · -- the room ends inside the data
    have hfull := hcall.full.mpr (by omega)
    have hmore : (bytesEncode data b n).complete = false := by
      simpa using mt hcall.complete.mp (by omega)
    simp only [rmtEncodeLedStrip, if_true, hfull, hmore]
    exact {
      out := by rw [hcall.out, List.take_append_of_le_length (by omega)]
      complete := by simp; omega
      full := by simp; omega
      next_home := fun h => by
        rw [List.length_append, List.length_singleton] at h
        omega
      next_left := fun _ => by
        rw [List.drop_append_of_le_length (by omega)]
        exact .data (hcall.next_left hn) }
  · -- the data fill the room: the reset code is left for the next call
    have hfull := hcall.full.mpr le_rfl
    have hdone := hcall.complete.mpr le_rfl
    simp only [rmtEncodeLedStrip, if_true, hfull, hdone, hcall.next_home le_rfl]
    exact {
      out := by rw [hcall.out]; simp
      complete := by simp
      full := by simp
      next_home := fun h => by
        rw [List.length_append, List.length_singleton] at h
        omega
      next_left := fun _ => by
        rw [List.drop_left]
        exact .reset hc₀ }
  · have hfull : (bytesEncode data b n).full = false := by
      simpa using mt hcall.full.mp (by omega)
    have hdone := hcall.complete.mpr (by omega)
    have hout : (bytesEncode data b n).out = xs := by
      rw [hcall.out, List.take_of_length_le (by omega)]
    have hreset := hcopy c₀ _ (n - xs.length) hc₀
    have hlen : ([resetCode resolution] : List Symbol).length ≤ n - xs.length := by
      simp; omega
    simp only [rmtEncodeLedStrip, sendResetCode, if_true, if_false, Bool.false_eq_true, hfull,
      hdone, hout, hreset.complete.mpr hlen, hreset.next_home hlen, hcall.next_home (by omega), hreset.out,
      List.take_of_length_le hlen]
    exact {
      out := by rw [List.take_of_length_le (by simp; omega)]
      complete := by simp; omega
      full := by simp [hreset.full]; omega
      next_home := fun _ => rfl
      next_left := fun h => by simp at h; omega }

theorem rmtEncodeLedStrip_writes
    (hbytes : ∀ data,
      Writes (bytesEncode data) b₀ (dataSymbols (bytesEncoderConfig resolution) data))
    (hcopy : ∀ ws, Writes (copyEncode ws) c₀ ws) (data : List UInt8) :
    Writes (rmtEncodeLedStrip bytesEncode copyEncode data) (newEncoder resolution b₀ c₀)
      (frameSymbols resolution data) := by
  obtain ⟨LeftB, hB, hb₀⟩ := hbytes data
  obtain ⟨LeftC, hC, hc₀⟩ := hcopy [resetCode resolution]
  refine ⟨Remains resolution b₀ c₀ LeftB LeftC, ?_, .data hb₀⟩
  intro e xs n he
  cases he with
  | data hb => exact serves_data hB hC hc₀ hb n
  | reset hc => exact serves_reset hC hc n

end Transaction

/-! ### The driver -/

/-- What `rmt_encode_led_strip` relies on in the RMT driver. The first two say that the two
encoders write what they are created for, and go on where they stopped; the others that a reset
forgets what was encoded since the creation. -/
structure Driver (rmtNewBytesEncoder : BytesEncoderConfig → Except EspErr β)
    (rmtNewCopyEncoder : Except EspErr γ) (bytesEncode : List UInt8 → Encoder β Symbol)
    (copyEncode : List Symbol → Encoder γ Symbol) (bytesReset : β → β) (copyReset : γ → γ) :
    Prop where
  bytes : ∀ config b, rmtNewBytesEncoder config = .ok b →
    ∀ data, Writes (bytesEncode data) b (dataSymbols config data)
  copy : ∀ c, rmtNewCopyEncoder = .ok c → ∀ ws, Writes (copyEncode ws) c ws
  bytes_reset : ∀ config b, rmtNewBytesEncoder config = .ok b → bytesReset b = b
  copy_reset : ∀ c, rmtNewCopyEncoder = .ok c → copyReset c = c
  bytes_reset_encode : ∀ b data n, bytesReset (bytesEncode data b n).next = bytesReset b
  copy_reset_encode : ∀ c ws n, copyReset (copyEncode ws c n).next = copyReset c

def bytesEncoderEncode (data : List UInt8) (s : BytesEncoderConfig × ℕ) (n : ℕ) :
    Chunk (BytesEncoderConfig × ℕ) Symbol :=
  let c := ofList (dataSymbols s.1 data) s.2 n
  { out := c.out, complete := c.complete, full := c.full, next := (s.1, c.next) }

theorem driver : Driver (fun config => .ok (config, 0)) (.ok 0) bytesEncoderEncode ofList
    (fun s => (s.1, 0)) (fun _ => 0) where
  bytes := by
    rintro config _ ⟨⟩ data
    obtain ⟨Left, hlaw, hleft⟩ := ofList_writes (dataSymbols config data)
    refine ⟨fun s xs => s.1 = config ∧ Left s.2 xs, ?_, rfl, hleft⟩
    rintro ⟨_, k⟩ xs n ⟨rfl, hk⟩
    have hcall := hlaw k xs n hk
    exact {
      out := hcall.out
      complete := hcall.complete
      full := hcall.full
      next_home := fun hn => congrArg (Prod.mk _) (hcall.next_home hn)
      next_left := fun hn => ⟨rfl, hcall.next_left hn⟩ }
  copy := by
    rintro _ ⟨⟩ ws
    exact ofList_writes ws
  bytes_reset := by
    rintro config _ ⟨⟩
    rfl
  copy_reset := by
    rintro _ ⟨⟩
    rfl
  bytes_reset_encode _ _ _ := rfl
  copy_reset_encode _ _ _ := rfl

section Driver

variable {rmtNewBytesEncoder : BytesEncoderConfig → Except EspErr β}
variable {rmtNewCopyEncoder : Except EspErr γ}
variable {bytesEncode : List UInt8 → Encoder β Symbol} {copyEncode : List Symbol → Encoder γ Symbol}
variable {bytesReset : β → β} {copyReset : γ → γ}
variable {resolution : ℕ} {calloc : Bool} {heap heap' : List Obj} {e : LedEncoder β γ}

theorem rmtNewLedStripEncoder_ok {config : Option ℕ} {retEncoder : Option Unit}
    (h : rmtNewLedStripEncoder config retEncoder calloc rmtNewBytesEncoder rmtNewCopyEncoder heap =
      (.ok e, heap')) :
    ∃ resolution b c, config = some resolution ∧
      rmtNewBytesEncoder (bytesEncoderConfig resolution) = .ok b ∧ rmtNewCopyEncoder = .ok c ∧
      e = newEncoder resolution b c ∧
      heap' = .copyEncoder :: .bytesEncoder :: .ledEncoder :: heap := by
  unfold rmtNewLedStripEncoder at h
  split at h
  · split_ifs at h
    · split at h
      · cases h
      · split at h <;> cases h
        exact ⟨_, _, _, rfl, ‹_›, rfl, rfl, rfl⟩
    · cases h
  · cases h

/-- A creation that fails leaves the heap as it was, whichever step fails. -/
theorem rmtNewLedStripEncoder_error {config : Option ℕ} {retEncoder : Option Unit} {ret : EspErr}
    (h : rmtNewLedStripEncoder config retEncoder calloc rmtNewBytesEncoder rmtNewCopyEncoder heap =
      (.error ret, heap')) : heap' = heap := by
  unfold rmtNewLedStripEncoder at h
  split at h
  · split_ifs at h
    · split at h
      · cases h
        simp [freeOnError]
      · split at h <;> cases h
        simp [freeOnError]
    · cases h
      rfl
  · cases h
    rfl

theorem rmtDelLedStripEncoder_new {config : Option ℕ} {retEncoder : Option Unit}
    (h : rmtNewLedStripEncoder config retEncoder calloc rmtNewBytesEncoder rmtNewCopyEncoder heap =
      (.ok e, heap')) : rmtDelLedStripEncoder heap' = heap := by
  obtain ⟨_, _, _, -, -, -, -, rfl⟩ := rmtNewLedStripEncoder_ok h
  simp [rmtDelLedStripEncoder]

theorem reset_sendResetCode
    (hd : Driver rmtNewBytesEncoder rmtNewCopyEncoder bytesEncode copyEncode bytesReset copyReset)
    (e : LedEncoder β γ) (n : ℕ) (out : List Symbol) :
    rmtLedStripEncoderReset bytesReset copyReset (sendResetCode copyEncode e n out).next =
      rmtLedStripEncoderReset bytesReset copyReset e := by
  simp [rmtLedStripEncoderReset, sendResetCode, hd.copy_reset_encode]

theorem reset_encode
    (hd : Driver rmtNewBytesEncoder rmtNewCopyEncoder bytesEncode copyEncode bytesReset copyReset)
    (e : LedEncoder β γ) (data : List UInt8) (n : ℕ) :
    rmtLedStripEncoderReset bytesReset copyReset
        (rmtEncodeLedStrip bytesEncode copyEncode data e n).next =
      rmtLedStripEncoderReset bytesReset copyReset e := by
  unfold rmtEncodeLedStrip
  by_cases h0 : e.state = 0
  · rw [if_pos h0]
    by_cases hfull : (bytesEncode data e.bytesEncoder n).full = true
    · simp [hfull, rmtLedStripEncoderReset, hd.bytes_reset_encode]
    · simp only [hfull, if_false, Bool.false_eq_true, reset_sendResetCode hd]
      simp [rmtLedStripEncoderReset, hd.bytes_reset_encode]
  · rw [if_neg h0]
    split_ifs
    · exact reset_sendResetCode hd e n []
    · rfl

/-- The state after calls for any data and any room, transactions given up in the middle
included. -/
def afterCalls (bytesEncode : List UInt8 → Encoder β Symbol)
    (copyEncode : List Symbol → Encoder γ Symbol) (e : LedEncoder β γ)
    (calls : List (List UInt8 × ℕ)) : LedEncoder β γ :=
  calls.foldl (fun e call => (rmtEncodeLedStrip bytesEncode copyEncode call.1 e call.2).next) e

theorem reset_afterCalls
    (hd : Driver rmtNewBytesEncoder rmtNewCopyEncoder bytesEncode copyEncode bytesReset copyReset)
    (e : LedEncoder β γ) (calls : List (List UInt8 × ℕ)) :
    rmtLedStripEncoderReset bytesReset copyReset (afterCalls bytesEncode copyEncode e calls) =
      rmtLedStripEncoderReset bytesReset copyReset e := by
  induction calls generalizing e with
  | nil => rfl
  | cons call calls ih => rw [afterCalls, List.foldl_cons, ← afterCalls, ih, reset_encode hd]

theorem reset_created
    (hd : Driver rmtNewBytesEncoder rmtNewCopyEncoder bytesEncode copyEncode bytesReset copyReset)
    {b : β} {c : γ} (hb : rmtNewBytesEncoder (bytesEncoderConfig resolution) = .ok b)
    (hc : rmtNewCopyEncoder = .ok c) (calls : List (List UInt8 × ℕ)) :
    rmtLedStripEncoderReset bytesReset copyReset
        (afterCalls bytesEncode copyEncode (newEncoder resolution b c) calls) =
      newEncoder resolution b c := by
  rw [reset_afterCalls hd]
  simp [rmtLedStripEncoderReset, newEncoder, hd.bytes_reset _ _ hb, hd.copy_reset _ hc]

/-- After any calls and a reset, whatever the rooms, the symbols of the transactions are
written in order; the last transaction is reported complete exactly when its last symbol has
been written, and rooms that are not empty complete all of them. -/
theorem transactions_in_order
    (hd : Driver rmtNewBytesEncoder rmtNewCopyEncoder bytesEncode copyEncode bytesReset copyReset)
    {retEncoder : Option Unit}
    (hnew : rmtNewLedStripEncoder (some resolution) retEncoder calloc rmtNewBytesEncoder
      rmtNewCopyEncoder heap = (.ok e, heap'))
    (calls : List (List UInt8 × ℕ)) (frames : List (List UInt8)) (rooms : List ℕ) :
    let e' := rmtLedStripEncoderReset bytesReset copyReset
      (afterCalls bytesEncode copyEncode e calls)
    let sent := sessions (rmtEncodeLedStrip bytesEncode copyEncode) e' frames rooms
    let symbols := frames.flatMap (frameSymbols resolution)
    sent.1 <+: symbols ∧
      (sent.2.isSome ↔ sent.1 = symbols) ∧
      (sent.2.isSome → sent.2.map Prod.fst = some e) ∧
      ((∀ room ∈ rooms, 0 < room) → symbols.length ≤ rooms.length → sent.2.isSome) := by
  intro e' sent symbols
  obtain ⟨_, b, c, hres, hb, hc, rfl, -⟩ := rmtNewLedStripEncoder_ok hnew
  obtain rfl : resolution = _ := Option.some.inj hres
  have he' : e' = newEncoder resolution b c := reset_created hd hb hc calls
  have hwrites : ∀ data, Writes (rmtEncodeLedStrip bytesEncode copyEncode data) e'
      (frameSymbols resolution data) := fun data =>
    he' ▸ rmtEncodeLedStrip_writes (hd.bytes _ _ hb) (hd.copy _ hc) data
  have hne (data : List UInt8) : frameSymbols resolution data ≠ [] := by simp [frameSymbols]
  refine ⟨sessions_isPrefix hwrites frames rooms,
    ⟨fun hdone => ?_, sessions_isSome hwrites hne⟩, fun hdone => ?_,
    sessions_completes hwrites hne⟩
  · obtain ⟨⟨e₁, rooms'⟩, hsome⟩ := Option.isSome_iff_exists.mp hdone
    exact (sessions_some hwrites hsome).1
  · obtain ⟨⟨e₁, rooms'⟩, hsome⟩ := Option.isSome_iff_exists.mp hdone
    rw [hsome, Option.map_some, (sessions_some hwrites hsome).2, he']

theorem rmtNewLedStripEncoder_resolution :
    rmtNewLedStripEncoder (some RMT_LED_STRIP_RESOLUTION_HZ) (some ()) true
        (fun config => .ok (config, 0)) (.ok 0) [] =
      (.ok (newEncoder RMT_LED_STRIP_RESOLUTION_HZ
        (bytesEncoderConfig RMT_LED_STRIP_RESOLUTION_HZ, 0) 0),
        [.copyEncoder, .bytesEncoder, .ledEncoder]) := rfl

theorem transactions_in_order_after_reset :
    let e := newEncoder RMT_LED_STRIP_RESOLUTION_HZ
      (bytesEncoderConfig RMT_LED_STRIP_RESOLUTION_HZ, 0) 0
    let e' := rmtLedStripEncoderReset (fun s => (s.1, 0)) (fun _ => 0)
      (afterCalls bytesEncoderEncode ofList e [([0xff, 0xff, 0xff], 5)])
    (sessions (rmtEncodeLedStrip bytesEncoderEncode ofList) e' [[0x33, 0, 0]] [16, 8, 8]).1 =
      [[0x33, 0, 0]].flatMap (frameSymbols RMT_LED_STRIP_RESOLUTION_HZ) :=
  (transactions_in_order driver rmtNewLedStripEncoder_resolution
    [([0xff, 0xff, 0xff], 5)] [[0x33, 0, 0]] [16, 8, 8]).2.1.mp (by decide)

end Driver

/-! ### The strip -/

/-- The LEDs: the bits shifted in since the last reset code, and what each reset code has made
them show. -/
structure Strip where
  bits : List Bool
  shown : List (List UInt8)

/-- A pulse counts as a one from 0.6 us on. -/
def pulse (resolution : ℕ) (w : Symbol) : Option Bool :=
  if w.level0 ∧ ¬ w.level1 ∧ 0 < w.duration0 ∧ 0 < w.duration1 then
    some (6 * resolution ≤ 10000000 * w.duration0)
  else none

/-- The line is low for 50 us. -/
def isReset (resolution : ℕ) (w : Symbol) : Prop :=
  ¬ w.level0 ∧ ¬ w.level1 ∧ 50 * resolution ≤ 1000000 * (w.duration0 + w.duration1)

instance (resolution : ℕ) (w : Symbol) : Decidable (isReset resolution w) :=
  inferInstanceAs (Decidable (_ ∧ _ ∧ _))

def byteOfBits (bits : List Bool) : UInt8 :=
  UInt8.ofNat (bits.foldl (fun n bit => 2 * n + bit.toNat) 0)

def bytesOfBits : List Bool → List UInt8
  | a :: b :: c :: d :: e :: f :: g :: h :: bits =>
    byteOfBits [a, b, c, d, e, f, g, h] :: bytesOfBits bits
  | _ => []

def Strip.receive (resolution : ℕ) (s : Strip) (w : Symbol) : Strip :=
  match pulse resolution w with
  | some bit => { s with bits := s.bits ++ [bit] }
  | none =>
    if isReset resolution w then ⟨[], s.shown ++ [bytesOfBits s.bits]⟩ else s

def Strip.receiveAll (resolution : ℕ) (s : Strip) (ws : List Symbol) : Strip :=
  ws.foldl (Strip.receive resolution) s

theorem Strip.receiveAll_append (resolution : ℕ) (s : Strip) (ws ws' : List Symbol) :
    s.receiveAll resolution (ws ++ ws') =
      (s.receiveAll resolution ws).receiveAll resolution ws' := List.foldl_append

theorem foldl_testBit (k n : ℕ) :
    ((List.range k).map n.testBit).reverse.foldl (fun a bit => 2 * a + bit.toNat) 0 =
      n % 2 ^ k := by
  induction k generalizing n with
  | zero => simp [Nat.mod_one]
  | succ k ih =>
    have htail : (List.range k).map (n.testBit ∘ Nat.succ) =
        (List.range k).map (n / 2).testBit :=
      List.map_congr_left fun i _ => Nat.testBit_succ n i
    have hlow : (n.testBit 0).toNat = n % 2 := by
      rcases Nat.mod_two_eq_zero_or_one n with h | h <;> simp [Nat.testBit_zero, h]
    rw [List.range_succ_eq_map, List.map_cons, List.reverse_cons, List.foldl_append, List.map_map,
      htail, ih, List.foldl_cons, List.foldl_nil, hlow, pow_succ', Nat.mod_mul, Nat.add_comm]

theorem byteOfBits_byteBits (b : UInt8) : byteOfBits (byteBits true b) = b := by
  rw [byteOfBits, byteBits, if_pos rfl, foldl_testBit, Nat.mod_eq_of_lt b.toNat_lt,
    UInt8.ofNat_toNat]

theorem bytesOfBits_flatMap (data : List UInt8) :
    bytesOfBits (data.flatMap (byteBits true)) = data := by
  induction data with
  | nil => rfl
  | cons b data ih =>
    have hcons : bytesOfBits (byteBits true b ++ data.flatMap (byteBits true)) =
        byteOfBits (byteBits true b) :: bytesOfBits (data.flatMap (byteBits true)) := rfl
    rw [List.flatMap_cons, hcons, byteOfBits_byteBits, ih]

section Megahertz

/-! The durations come out right at every whole number of megahertz from 4 to 1310: below,
a pulse of 0.3 us has no tick; above, the field of the reset code overflows. -/

variable {m : ℕ} (hm : 4 ≤ m) (hm' : m ≤ 1310)

include hm' in
theorem tenthsOfUs_megahertz {tenths : ℕ} (ht : tenths ≤ 9) :
    tenthsOfUs tenths (m * 1000000) = tenths * m / 10 := by
  have hle : tenths * m ≤ 9 * 1310 := Nat.mul_le_mul ht hm'
  rw [tenthsOfUs, durationField, ← mul_assoc, show 10000000 = 10 * 1000000 by rfl,
    Nat.mul_div_mul_right _ _ (by decide), Nat.mod_eq_of_lt]
  omega

include hm hm'

theorem pulse_bitSymbol (bit : Bool) :
    pulse (m * 1000000) (bitSymbol (bytesEncoderConfig (m * 1000000)) bit) = some bit := by
  have h3 : tenthsOfUs 3 (m * 1000000) = _ := tenthsOfUs_megahertz hm' (by decide)
  have h9 : tenthsOfUs 9 (m * 1000000) = _ := tenthsOfUs_megahertz hm' (by decide)
  cases bit <;>
    simp only [bitSymbol, bytesEncoderConfig, pulse, h3, h9] <;>
    simp <;> omega

theorem resetCode_megahertz :
    resetCode (m * 1000000) = ⟨false, 25 * m, false, 25 * m⟩ := by
  simp only [resetCode, durationField, Nat.mul_div_cancel _ (show 0 < 1000000 by decide)]
  congr 1 <;> omega

theorem receive_resetCode (s : Strip) :
    s.receive (m * 1000000) (resetCode (m * 1000000)) =
      ⟨[], s.shown ++ [bytesOfBits s.bits]⟩ := by
  rw [resetCode_megahertz hm hm', Strip.receive]
  have hpulse : pulse (m * 1000000) ⟨false, 25 * m, false, 25 * m⟩ = none := by simp [pulse]
  have hreset : isReset (m * 1000000) ⟨false, 25 * m, false, 25 * m⟩ := by
    simp [isReset]
    omega
  simp only [hpulse, if_pos hreset]

theorem receiveAll_bits (s : Strip) (bits : List Bool) :
    s.receiveAll (m * 1000000) (bits.map (bitSymbol (bytesEncoderConfig (m * 1000000)))) =
      { s with bits := s.bits ++ bits } := by
  induction bits generalizing s with
  | nil => simp [Strip.receiveAll]
  | cons bit bits ih =>
    rw [List.map_cons, Strip.receiveAll, List.foldl_cons, ← Strip.receiveAll, Strip.receive,
      pulse_bitSymbol hm hm', ih]
    simp

theorem receiveAll_frame (shown : List (List UInt8)) (data : List UInt8) :
    (⟨[], shown⟩ : Strip).receiveAll (m * 1000000) (frameSymbols (m * 1000000) data) =
      ⟨[], shown ++ [data]⟩ := by
  rw [frameSymbols, dataSymbols, Strip.receiveAll_append, receiveAll_bits hm hm',
    Strip.receiveAll, List.foldl_cons, List.foldl_nil, receive_resetCode hm hm']
  simp [bytesEncoderConfig, bytesOfBits_flatMap]

theorem receiveAll_frames (shown frames : List (List UInt8)) :
    (⟨[], shown⟩ : Strip).receiveAll (m * 1000000)
        (frames.flatMap (frameSymbols (m * 1000000))) = ⟨[], shown ++ frames⟩ := by
  induction frames generalizing shown with
  | nil => simp [Strip.receiveAll]
  | cons data frames ih =>
    rw [List.flatMap_cons, Strip.receiveAll_append, receiveAll_frame hm hm', ih,
      List.append_assoc, List.singleton_append]

end Megahertz

theorem shown_receive (resolution : ℕ) (s : Strip) (w : Symbol) :
    s.shown <+: (s.receive resolution w).shown := by
  unfold Strip.receive
  split
  · exact List.prefix_refl _
  · split_ifs
    · exact List.prefix_append _ _
    · exact List.prefix_refl _

theorem shown_receiveAll (resolution : ℕ) (s : Strip) (ws : List Symbol) :
    s.shown <+: (s.receiveAll resolution ws).shown := by
  induction ws generalizing s with
  | nil => exact List.prefix_refl _
  | cons w ws ih => exact (shown_receive resolution s w).trans (ih _)

/-- The strip behind any encoder of the frames' symbols. -/
theorem shown_sessions {σ : Type*} {m : ℕ} (hm : 4 ≤ m) (hm' : m ≤ 1310)
    {encode : List UInt8 → Encoder σ Symbol} {home : σ}
    (hwrites : ∀ data, Writes (encode data) home (frameSymbols (m * 1000000) data))
    (frames : List (List UInt8)) (rooms : List ℕ) :
    let sent := sessions encode home frames rooms
    let strip := (⟨[], []⟩ : Strip).receiveAll (m * 1000000) sent.1
    strip.shown <+: frames ∧ (sent.2.isSome → strip = ⟨[], frames⟩) := by
  intro sent strip
  have hall := receiveAll_frames hm hm' [] frames
  refine ⟨?_, ?_⟩
  · obtain ⟨rest, hrest⟩ := sessions_isPrefix hwrites frames rooms
    rw [← hrest, Strip.receiveAll_append, List.nil_append] at hall
    have := shown_receiveAll (m * 1000000) strip rest
    rwa [hall] at this
  · intro hdone
    obtain ⟨⟨e₁, rooms'⟩, hsome⟩ := Option.isSome_iff_exists.mp hdone
    have hout : sent.1 = _ := (sessions_some hwrites hsome).1
    simpa only [strip, hout, List.nil_append] using hall

/-- At any moment the strip has shown some of the frames, whole and in order; when all
transactions are complete it has shown them all and waits for the first bit of the next. -/
theorem strip_shows_frames {m : ℕ} (hm : 4 ≤ m) (hm' : m ≤ 1310)
    {rmtNewBytesEncoder : BytesEncoderConfig → Except EspErr β}
    {rmtNewCopyEncoder : Except EspErr γ} {bytesEncode : List UInt8 → Encoder β Symbol}
    {copyEncode : List Symbol → Encoder γ Symbol} {bytesReset : β → β} {copyReset : γ → γ}
    (hd : Driver rmtNewBytesEncoder rmtNewCopyEncoder bytesEncode copyEncode bytesReset copyReset)
    {retEncoder : Option Unit} {calloc : Bool} {heap heap' : List Obj} {e : LedEncoder β γ}
    (hnew : rmtNewLedStripEncoder (some (m * 1000000)) retEncoder calloc rmtNewBytesEncoder
      rmtNewCopyEncoder heap = (.ok e, heap'))
    (frames : List (List UInt8)) (rooms : List ℕ) :
    let sent := sessions (rmtEncodeLedStrip bytesEncode copyEncode) e frames rooms
    let strip := (⟨[], []⟩ : Strip).receiveAll (m * 1000000) sent.1
    strip.shown <+: frames ∧ (sent.2.isSome → strip = ⟨[], frames⟩) := by
  obtain ⟨_, b, c, hres, hb, hc, rfl, -⟩ := rmtNewLedStripEncoder_ok hnew
  obtain rfl := Option.some.inj hres
  have hwrites := rmtEncodeLedStrip_writes (hd.bytes _ _ hb) (hd.copy _ hc)
  exact shown_sessions hm hm' hwrites frames rooms

theorem strip_shows_frames_green :
    ((⟨[], []⟩ : Strip).receiveAll (10 * 1000000)
      (sessions (rmtEncodeLedStrip bytesEncoderEncode ofList) (newEncoder (10 * 1000000)
        (bytesEncoderConfig (10 * 1000000), 0) 0) [[0x33, 0, 0]] [16, 8, 8]).1) =
      ⟨[], [[0x33, 0, 0]]⟩ :=
  (strip_shows_frames (m := 10) (by decide) (by decide) driver rmtNewLedStripEncoder_resolution
    [[0x33, 0, 0]] [16, 8, 8]).2 (by decide)

end Car.LedStripEncoder
