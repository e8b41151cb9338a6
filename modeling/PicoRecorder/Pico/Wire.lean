import Mathlib.Algebra.Group.Int.Defs
import Mathlib.Algebra.Group.Nat.Defs
import Mathlib.Data.List.Basic
/-!
# Wire — the UART vocabulary (`uart_protocol.h`, `uart_protocol.c`)

Message types, modes and reasons with the bytes they travel as, the frame, its CRC and its two codecs, and the messages
the firmware sends with the payload bytes `main.c` writes for each.
-/
namespace PicoRecorder
namespace Pico

/-- A Boot Keyboard report: modifier, reserved byte, six key usages. -/
abbrev Report := Vector UInt8 8

/-- The all-keys-release report of `pico_hid_boot_keyboard_release_all`. -/
def Report.releaseAll : Report := Vector.replicate 8 0

/-- `memcpy` of eight bytes into a report. -/
def Report.ofBytes (bytes : List UInt8) : Report := Vector.ofFn (fun i => bytes.getD i.val 0)

def protocolMagic : UInt8 := 0xA5
def protocolVersion : UInt8 := 2
def protocolMaxPayload : Nat := 64
def protocolHeaderLen : Nat := 5
def protocolCrcLen : Nat := 2

inductive MsgType where
  | recordEvent | picoStatus | bufferStatus | playReady | playStarted | playFinished | playAborted | playUnderrun
  | error | pong | modeChanged | playMetrics
  | queueClear | queueEvent | queueEnd | playStart | playAbort | statusRequest | ping | modeSet
  deriving DecidableEq, Repr

def MsgType.byte : MsgType → UInt8
  | .recordEvent => 0x01 | .picoStatus => 0x02 | .bufferStatus => 0x03 | .playReady => 0x04 | .playStarted => 0x05
  | .playFinished => 0x06 | .playAborted => 0x07 | .playUnderrun => 0x08 | .error => 0x09 | .pong => 0x0A
  | .modeChanged => 0x0B | .playMetrics => 0x0C
  | .queueClear => 0x80 | .queueEvent => 0x81 | .queueEnd => 0x82 | .playStart => 0x83 | .playAbort => 0x84
  | .statusRequest => 0x85 | .ping => 0x86 | .modeSet => 0x87

def MsgType.all : List MsgType :=
  [.recordEvent, .picoStatus, .bufferStatus, .playReady, .playStarted, .playFinished, .playAborted, .playUnderrun,
   .error, .pong, .modeChanged, .playMetrics, .queueClear, .queueEvent, .queueEnd, .playStart, .playAbort,
   .statusRequest, .ping, .modeSet]

def MsgType.ofByte? (b : UInt8) : Option MsgType := MsgType.all.find? (fun t => t.byte == b)

theorem MsgType.ofByte?_byte (t : MsgType) : MsgType.ofByte? t.byte = some t := by cases t <;> rfl

theorem MsgType.ofByte?_eq_some {b : UInt8} {t : MsgType} : MsgType.ofByte? b = some t ↔ b = t.byte := by
  constructor
  · intro h
    have := List.find?_some h
    simpa using (beq_iff_eq.1 this).symm
  · rintro rfl; exact t.ofByte?_byte

inductive Mode where
  | pass | record | armed | playing | error
  deriving DecidableEq, Repr

def Mode.byte : Mode → UInt8
  | .pass => 0 | .record => 1 | .armed => 2 | .playing => 3 | .error => 4

theorem Mode.byte_injective {m k : Mode} (h : m.byte = k.byte) : m = k := by
  cases m <;> cases k <;> first | rfl | exact absurd h (by decide)

inductive Reason where
  | ok | invalidTransition | invalidTarget | protocolError | uartFault | aborted | underrun | finished
  deriving DecidableEq, Repr

def Reason.byte : Reason → UInt8
  | .ok => 0 | .invalidTransition => 1 | .invalidTarget => 2 | .protocolError => 3 | .uartFault => 4
  | .aborted => 5 | .underrun => 6 | .finished => 7

/-- The reasons `enter_error` is called with. -/
def Reason.isFault : Reason → Bool
  | .protocolError | .uartFault | .underrun => true
  | _ => false

/-- A decoded frame.  The version byte is 2 in every frame that decodes, so it is not carried. -/
structure Frame where
  type : UInt8
  payload : List UInt8
  deriving DecidableEq, Repr

/-! ## CRC-16/CCITT-FALSE -/

def crcBit (crc : UInt16) : UInt16 :=
  if crc &&& 0x8000 ≠ 0 then (crc <<< 1) ^^^ 0x1021 else crc <<< 1

def crcByte (crc : UInt16) (b : UInt8) : UInt16 :=
  Nat.repeat crcBit 8 (crc ^^^ (b.toUInt16 <<< 8))

/-- `pico_uart_crc16`. -/
def crc16 (data : List UInt8) : UInt16 := data.foldl crcByte 0xFFFF

/-! ## Frames as bytes -/

/-- The low `n` bytes of a value, least significant first: `write_u32_le`, `write_u64_le` and the length and CRC
fields. -/
def leBytes : Nat → Nat → List UInt8
  | 0, _ => []
  | n + 1, v => UInt8.ofNat (v % 256) :: leBytes n (v / 256)

/-- The value of little-endian bytes: `read_u64_le` and the two-byte fields. -/
def leNat : List UInt8 → Nat
  | [] => 0
  | b :: bs => b.toNat + 256 * leNat bs

/-- `pico_uart_type_known`. -/
def typeKnown (type : UInt8) : Bool := (MsgType.ofByte? type).isSome

/-- `pico_uart_type_is_command`. -/
def typeIsCommand (type : UInt8) : Bool := MsgType.queueClear.byte ≤ type && type ≤ MsgType.modeSet.byte

/-- The bytes the CRC covers: version, type, length and payload. -/
def covered (type : UInt8) (payload : List UInt8) : List UInt8 :=
  protocolVersion :: type :: leBytes 2 payload.length ++ payload

/-- The bytes of a frame: magic, the covered bytes and their CRC. -/
def frameBytes (type : UInt8) (payload : List UInt8) : List UInt8 :=
  protocolMagic :: covered type payload ++ leBytes 2 (crc16 (covered type payload)).toNat

/-- `pico_uart_encode_frame`; `none` where the source returns zero. -/
def encodeFrame (type : UInt8) (payload : List UInt8) (outSize : Nat) : Option (List UInt8) :=
  if payload.length > protocolMaxPayload || outSize < protocolHeaderLen + payload.length + protocolCrcLen ||
      !typeKnown type then none
  else some (frameBytes type payload)

inductive DecodeError where
  | tooShort | badMagic | badVersion | badLength | badCrc
  deriving DecidableEq, Repr

/-- `pico_uart_decode_frame`. -/
def decodeFrame (data : List UInt8) : Except DecodeError Frame :=
  if data.length < 7 then .error .tooShort
  else if data.getD 0 0 ≠ protocolMagic then .error .badMagic
  else if data.getD 1 0 ≠ protocolVersion then .error .badVersion
  else
    let payloadLen := leNat [data.getD 3 0, data.getD 4 0]
    if payloadLen > protocolMaxPayload || data.length ≠ 7 + payloadLen then .error .badLength
    else
      let expected := crc16 ((data.drop 1).take (4 + payloadLen))
      let actual := leNat [data.getD (5 + payloadLen) 0, data.getD (6 + payloadLen) 0]
      if expected.toNat ≠ actual then .error .badCrc
      else .ok ⟨data.getD 2 0, (data.drop 5).take payloadLen⟩

/-- `pico_uart_frame_payload_valid`. -/
def framePayloadValid (frame : Frame) : Bool :=
  match MsgType.ofByte? frame.type with
  | none => false
  | some .modeSet => frame.payload.length == 1
  | some .queueEvent => frame.payload.length == 17 && frame.payload.getD 8 0 == 8
  | some .playStarted => frame.payload.length == 8
  | some .recordEvent => frame.payload.length == 17 && frame.payload.getD 8 0 == 8
  | some .modeChanged => frame.payload.length == 2
  | some .picoStatus => frame.payload.length == 5
  | some .bufferStatus => frame.payload.length == 5
  | some .playUnderrun => frame.payload.length == 10
  | some .playMetrics => frame.payload.length == 33
  | some _ => frame.payload.length == 0

/-- `pico_uart_queue_command_allowed`. -/
def queueCommandAllowed (type : UInt8) (state : Mode) : Bool :=
  if type = MsgType.queueClear.byte then state = .armed
  else if type = MsgType.queueEvent.byte ∨ type = MsgType.queueEnd.byte then state = .armed ∨ state = .playing
  else false

/-! ## What the firmware sends -/

/-- `pico_playback_scheduler_metrics_t`.  The signed fields are integers; the clamp of the scheduler keeps the four
lateness fields inside 32 bits, and the payload writer reduces each to its width. -/
structure Metrics where
  dispatchedCount : UInt32
  underrunCount : UInt32
  minLatenessUs : Int
  maxLatenessUs : Int
  sumLatenessUs : Int
  p95LatenessUs : Int
  p99LatenessUs : Int
  samplesTruncated : Bool
  deriving DecidableEq, Repr

/-- The frames `main.c` queues, by their fields. -/
inductive PicoMsg where
  | recordEvent (timestampUs : UInt64) (report : Report)
  | picoStatus (state : Mode) (rxOverflow hardwareErrors invalidFrames txDropped : Bool)
  | bufferStatus (state : Mode) (queuedCount freeCapacity : UInt16)
  | playReady
  | playStarted (playbackStartUs : UInt64)
  | playFinished
  | playAborted
  | playUnderrun (elapsedOffsetUs : UInt64) (freeCapacity : UInt16)
  | pong (payload : List UInt8)
  | modeChanged (state : Mode) (reason : Reason)
  | playMetrics (metrics : Metrics)
  deriving DecidableEq

/-- A signed field as the unsigned value of its width. -/
def twosComplement (bytes : Nat) (v : Int) : Nat := (v % (2 ^ (8 * bytes) : Int)).toNat

def Metrics.payload (m : Metrics) : List UInt8 :=
  leBytes 4 m.dispatchedCount.toNat ++ leBytes 4 m.underrunCount.toNat ++
    leBytes 4 (twosComplement 4 m.minLatenessUs) ++ leBytes 4 (twosComplement 4 m.maxLatenessUs) ++
    leBytes 8 (twosComplement 8 m.sumLatenessUs) ++ leBytes 4 (twosComplement 4 m.p95LatenessUs) ++
    leBytes 4 (twosComplement 4 m.p99LatenessUs) ++ [m.samplesTruncated.toNat.toUInt8]

def PicoMsg.msgType : PicoMsg → MsgType
  | .recordEvent .. => .recordEvent | .picoStatus .. => .picoStatus | .bufferStatus .. => .bufferStatus
  | .playReady => .playReady | .playStarted _ => .playStarted | .playFinished => .playFinished
  | .playAborted => .playAborted | .playUnderrun .. => .playUnderrun | .pong _ => .pong
  | .modeChanged .. => .modeChanged | .playMetrics _ => .playMetrics

def PicoMsg.payload : PicoMsg → List UInt8
  | .recordEvent t r => leBytes 8 t.toNat ++ [8] ++ r.toList
  | .picoStatus s rx hw inv tx => s.byte :: [rx, hw, inv, tx].map (fun flag => flag.toNat.toUInt8)
  | .bufferStatus s q f => s.byte :: (leBytes 2 q.toNat ++ leBytes 2 f.toNat)
  | .playStarted t => leBytes 8 t.toNat
  | .playUnderrun e f => leBytes 8 e.toNat ++ leBytes 2 f.toNat
  | .pong p => p
  | .modeChanged s r => [s.byte, r.byte]
  | .playMetrics m => m.payload
  | .playReady | .playFinished | .playAborted => []

/-- The frame `pico_uart_transport_queue_frame` is called with. -/
def PicoMsg.toFrame (m : PicoMsg) : Frame := ⟨m.msgType.byte, m.payload⟩

/-! ## Little-endian fields -/

@[simp] theorem length_leBytes : ∀ (n v : Nat), (leBytes n v).length = n
  | 0, _ => rfl
  | n + 1, v => by rw [leBytes, List.length_cons, length_leBytes n]

/-- **Reading back what was written** is exact for a value that fits. -/
theorem leNat_leBytes : ∀ (n v : Nat), v < 256 ^ n → leNat (leBytes n v) = v
  | 0, v, h => by simp at h; simp [leBytes, leNat, h]
  | n + 1, v, h => by
    have hdiv : v / 256 < 256 ^ n := by
      rw [Nat.div_lt_iff_lt_mul (by decide)]
      simpa [Nat.pow_succ, Nat.mul_comm] using h
    have hmod : (UInt8.ofNat (v % 256)).toNat = v % 256 := by simp
    rw [leBytes, leNat, leNat_leBytes n _ hdiv, hmod]
    omega

theorem leNat_lt : ∀ (bs : List UInt8), leNat bs < 256 ^ bs.length
  | [] => by simp [leNat]
  | b :: bs => by
    have hb : b.toNat < 256 := b.toNat_lt
    have ih := leNat_lt bs
    rw [leNat, List.length_cons, Nat.pow_succ]
    omega

/-- **Writing back what was read** gives the same bytes. -/
theorem leBytes_leNat : ∀ (bs : List UInt8), leBytes bs.length (leNat bs) = bs
  | [] => rfl
  | b :: bs => by
    have hb : b.toNat < 256 := b.toNat_lt
    have hmod : (b.toNat + 256 * leNat bs) % 256 = b.toNat := by omega
    have hdiv : (b.toNat + 256 * leNat bs) / 256 = leNat bs := by omega
    rw [leNat, List.length_cons, leBytes, hmod, hdiv, leBytes_leNat bs, UInt8.ofNat_toNat]

/-! ## Decoding -/

/-- A frame's bytes, one by one around the payload. -/
theorem frameBytes_eq (type : UInt8) (payload : List UInt8) : ∃ c₀ c₁,
    leBytes 2 (crc16 (covered type payload)).toNat = [c₀, c₁] ∧
    frameBytes type payload = protocolMagic :: protocolVersion :: type ::
      UInt8.ofNat (payload.length % 256) :: UInt8.ofNat (payload.length / 256 % 256) :: (payload ++ [c₀, c₁]) :=
  ⟨_, _, rfl, by simp [frameBytes, covered, leBytes]⟩

theorem length_frameBytes (type : UInt8) (payload : List UInt8) :
    (frameBytes type payload).length = 7 + payload.length := by
  obtain ⟨c₀, c₁, -, he⟩ := frameBytes_eq type payload
  rw [he]
  simp only [List.length_cons, List.length_append, List.length_nil]
  omega

theorem getD_append_two (l : List UInt8) (a b : UInt8) :
    (l ++ [a, b]).getD l.length 0 = a ∧ (l ++ [a, b]).getD (l.length + 1) 0 = b := by
  constructor <;> simp [List.getD_eq_getElem?_getD]

/-- **An encoded frame decodes to its own type and payload.** -/
theorem decodeFrame_frameBytes (type : UInt8) (payload : List UInt8) (h : payload.length ≤ protocolMaxPayload) :
    decodeFrame (frameBytes type payload) = .ok ⟨type, payload⟩ := by
  have hlen := length_frameBytes type payload
  obtain ⟨c₀, c₁, hcrc, he⟩ := frameBytes_eq type payload
  have hread : leNat [UInt8.ofNat (payload.length % 256), UInt8.ofNat (payload.length / 256 % 256)] = payload.length :=
    leNat_leBytes 2 payload.length (by unfold protocolMaxPayload at h; omega)
  have hcovered : ((frameBytes type payload).drop 1).take (4 + payload.length) = covered type payload := by
    have hc : (covered type payload).length = 4 + payload.length := by simp [covered]; omega
    unfold frameBytes
    rw [List.cons_append, List.drop_one, List.tail_cons, ← hc, List.take_left]
  have hactual : leNat [c₀, c₁] = (crc16 (covered type payload)).toNat := by
    rw [← hcrc]
    exact leNat_leBytes 2 _ (UInt16.toNat_lt _)
  unfold decodeFrame
  rw [if_neg (by rw [hlen]; omega)]
  rw [he] at hlen hcovered ⊢
  have h₃ : (5 + payload.length) = payload.length + 5 := Nat.add_comm _ _
  have h₄ : (6 + payload.length) = (payload.length + 1) + 5 := by omega
  simp only [List.getD_cons_zero, List.getD_cons_succ, ne_eq, not_true_eq_false, if_false, hread, hcovered, h₃, h₄,
    (getD_append_two payload c₀ c₁).1, (getD_append_two payload c₀ c₁).2, hactual, hlen]
  rw [if_neg (by simp; omega)]
  simp

theorem eq_five_cons {l : List UInt8} (h : 5 ≤ l.length) :
    l = l.getD 0 0 :: l.getD 1 0 :: l.getD 2 0 :: l.getD 3 0 :: l.getD 4 0 :: l.drop 5 := by
  match l, h with
  | _ :: _ :: _ :: _ :: _ :: _, _ => rfl

theorem eq_append_two {l : List UInt8} {n : Nat} (h : l.length = n + 2) :
    l = l.take n ++ [l.getD n 0, l.getD (n + 1) 0] := by
  refine List.ext_getElem (by simp [h]) (fun i h₁ h₂ => ?_)
  rw [List.getElem_append]
  split
  · simp
  · rename_i hi
    rw [List.length_take, Nat.min_eq_left (by omega)] at hi
    have hcases : i = n ∨ i = n + 1 := by omega
    rcases hcases with rfl | rfl
    · simp [Nat.min_eq_left (show i ≤ l.length by omega), List.getD_eq_getElem?_getD, List.getElem?_eq_getElem h₁]
    · simp [Nat.min_eq_left (show n ≤ l.length by omega), List.getD_eq_getElem?_getD, List.getElem?_eq_getElem h₁]

/-- **What decodes was encoded**: the decoder accepts nothing but the bytes of the frame it returns. -/
theorem decodeFrame_sound {data : List UInt8} {frame : Frame} (h : decodeFrame data = .ok frame) :
    data = frameBytes frame.type frame.payload ∧ frame.payload.length ≤ protocolMaxPayload := by
  unfold decodeFrame at h
  split at h
  · cases h
  rename_i hshort
  split at h
  · cases h
  rename_i hmagic
  split at h
  · cases h
  rename_i hversion
  dsimp only at h
  split at h
  · cases h
  rename_i hlen
  split at h
  · cases h
  rename_i hcrc
  simp only [Bool.or_eq_true, decide_eq_true_eq, not_or, Decidable.not_not, Nat.not_lt] at hlen hmagic hversion hcrc
  obtain ⟨hmax, hlen⟩ := hlen
  have hframe := Except.ok.inj h
  generalize hn : leNat [data.getD 3 0, data.getD 4 0] = n at *
  have hrest : (data.drop 5).length = n + 2 := by rw [List.length_drop, hlen]; omega
  have hpayload : ((data.drop 5).take n).length = n := by rw [List.length_take, hrest]; omega
  have hfields : leBytes 2 n = [data.getD 3 0, data.getD 4 0] := by
    rw [← hn]; exact leBytes_leNat [data.getD 3 0, data.getD 4 0]
  have hcovered : covered (data.getD 2 0) ((data.drop 5).take n) = (data.drop 1).take (4 + n) := by
    have htake : 4 + n = n + 1 + 1 + 1 + 1 := by omega
    conv => rhs; rw [eq_five_cons (l := data) (by omega)]
    rw [covered, hpayload, hfields, htake, hversion]
    rfl
  have htail : data.drop 5 = (data.drop 5).take n ++ [data.getD (5 + n) 0, data.getD (6 + n) 0] := by
    have hget : ∀ i, (data.drop 5).getD i 0 = data.getD (5 + i) 0 := fun i => by
      simp [List.getD_eq_getElem?_getD, List.getElem?_drop]
    have h₆ : 6 + n = 5 + (n + 1) := by omega
    rw [h₆, ← hget, ← hget]
    exact eq_append_two hrest
  have hcrcBytes : leBytes 2 (crc16 (covered (data.getD 2 0) ((data.drop 5).take n))).toNat =
      [data.getD (5 + n) 0, data.getD (6 + n) 0] := by
    rw [hcovered, hcrc]
    exact leBytes_leNat [data.getD (5 + n) 0, data.getD (6 + n) 0]
  rw [← hframe]
  refine ⟨?_, by rw [hpayload]; exact hmax⟩
  rw [frameBytes, hcrcBytes, covered, hpayload, hfields]
  conv => lhs; rw [eq_five_cons (l := data) (by omega), htail, hmagic, hversion]
  simp

end Pico
end PicoRecorder
