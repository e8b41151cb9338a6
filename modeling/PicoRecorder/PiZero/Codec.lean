import PicoRecorder.Pico.Grammar
/-!
# Codec — the Zero's side of the UART vocabulary (`uart_protocol.py`, `errors.py`)

Python's integers are unbounded, so the CRC is computed on them under a mask; `crc16_ccitt_false_eq` says it is the
Pico's.  The encoders raise as the source does, and what they return is a frame of the Pico's grammar.
-/
namespace PicoRecorder
namespace PiZero

open Pico (Frame MsgType Mode Reason leBytes leNat)

/-- The classes of `errors.py`; `foreign` is any exception from outside them. -/
inductive ErrorKind where
  | recorder | protocol | transportTimeout | modeRejected | pico | recordingValidation | storage | foreign
  deriving DecidableEq, Repr

/-- How a call ends without a value.  A `suspended` call has not returned yet; no handler sees it. -/
inductive Exn where
  | raised (kind : ErrorKind) (message : String)
  | suspended
  deriving DecidableEq, Repr

/-- A plain function of `uart_protocol.py`: a value or an exception. -/
abbrev Checked (α : Type) := Except Exn α

def protocolError {α : Type} (message : String) : Checked α := .error (.raised .protocol message)

/-- `0x{value:02x}`. -/
def hex02 (value : Nat) : String :=
  let digits := String.ofList (Nat.toDigits 16 value)
  "0x" ++ if digits.length < 2 then "0" ++ digits else digits

/-! ## Encoding -/

def crcZeroBit (crc : Nat) : Nat :=
  if crc &&& 0x8000 ≠ 0 then ((crc <<< 1) ^^^ 0x1021) &&& 0xFFFF else (crc <<< 1) &&& 0xFFFF

def crcZeroByte (crc : Nat) (byte : UInt8) : Nat := Nat.repeat crcZeroBit 8 (crc ^^^ (byte.toNat <<< 8))

def crc16_ccitt_false (data : List UInt8) : Nat := data.foldl crcZeroByte 0xFFFF

/-- `ZERO_TO_PICO_TYPES`. -/
def zeroToPico (messageType : Nat) : Bool :=
  MsgType.queueClear.byte.toNat ≤ messageType && messageType ≤ MsgType.modeSet.byte.toNat

def encodeFrame (messageType : Nat) (payload : List UInt8) : Checked (List UInt8) :=
  if !zeroToPico messageType then protocolError s!"{hex02 messageType} is not a Zero-to-Pico message type"
  else if payload.length > Pico.protocolMaxPayload then
    protocolError s!"frame payload exceeds {Pico.protocolMaxPayload} bytes"
  else
    let covered := [Pico.protocolVersion, UInt8.ofNat messageType] ++ leBytes 2 payload.length ++ payload
    .ok (Pico.protocolMagic :: covered ++ leBytes 2 (crc16_ccitt_false covered))

def encodeQueueClear : Checked (List UInt8) := encodeFrame MsgType.queueClear.byte.toNat []

def encodeQueueEvent (offsetUs : Int) (report : List UInt8) : Checked (List UInt8) :=
  if ¬(0 ≤ offsetUs ∧ offsetUs ≤ 0xFFFFFFFFFFFFFFFF) then
    protocolError "QUEUE_EVENT offset_us must be an integer in 0..2**64-1"
  else if report.length ≠ 8 then protocolError "QUEUE_EVENT report must be exactly 8 bytes"
  else encodeFrame MsgType.queueEvent.byte.toNat (leBytes 8 offsetUs.toNat ++ [8] ++ report)

def encodeQueueEnd : Checked (List UInt8) := encodeFrame MsgType.queueEnd.byte.toNat []

def encodePlayStart : Checked (List UInt8) := encodeFrame MsgType.playStart.byte.toNat []

def encodePlayAbort : Checked (List UInt8) := encodeFrame MsgType.playAbort.byte.toNat []

/-! ### The two CRCs agree -/

theorem crcZeroBit_eq (crc : UInt16) : crcZeroBit crc.toNat = (Pico.crcBit crc).toNat := by
  have hmask : ∀ n : Nat, n &&& 0xFFFF = n % 2 ^ 16 := fun n => Nat.and_two_pow_sub_one_eq_mod n 16
  have htest : (crc &&& 0x8000 ≠ 0) ↔ (crc.toNat &&& 0x8000 ≠ 0) := by
    rw [← UInt16.toNat_inj.ne, UInt16.toNat_and]
    rfl
  unfold crcZeroBit Pico.crcBit
  by_cases h : crc &&& 0x8000 ≠ 0
  · rw [if_pos h, if_pos (htest.1 h), hmask, UInt16.toNat_xor, UInt16.toNat_shiftLeft, Nat.xor_mod_two_pow]
    rfl
  · rw [if_neg h, if_neg (fun hc => h (htest.2 hc)), hmask, UInt16.toNat_shiftLeft]
    rfl

theorem repeat_crcZeroBit (n : Nat) (crc : UInt16) :
    Nat.repeat crcZeroBit n crc.toNat = (Nat.repeat Pico.crcBit n crc).toNat := by
  induction n with
  | zero => rfl
  | succ n ih =>
    rw [Nat.repeat, Nat.repeat, ih, crcZeroBit_eq]

theorem crcZeroByte_eq (crc : UInt16) (byte : UInt8) : crcZeroByte crc.toNat byte = (Pico.crcByte crc byte).toNat := by
  have hbyte : byte.toNat <<< 8 = (byte.toUInt16 <<< 8).toNat := by
    have := byte.toNat_lt
    rw [UInt16.toNat_shiftLeft, UInt8.toNat_toUInt16]
    show _ = (byte.toNat <<< 8) % 2 ^ 16
    rw [Nat.shiftLeft_eq, Nat.mod_eq_of_lt (by omega)]
  unfold crcZeroByte Pico.crcByte
  rw [hbyte, ← UInt16.toNat_xor]
  exact repeat_crcZeroBit 8 _

theorem foldl_crcZeroByte : ∀ (data : List UInt8) (crc : UInt16),
    data.foldl crcZeroByte crc.toNat = (data.foldl Pico.crcByte crc).toNat
  | [], _ => rfl
  | byte :: data, crc => by
    rw [List.foldl_cons, List.foldl_cons, crcZeroByte_eq]
    exact foldl_crcZeroByte data _

/-- **Both sides compute one CRC.** -/
theorem crc16_ccitt_false_eq (data : List UInt8) : crc16_ccitt_false data = (Pico.crc16 data).toNat :=
  foldl_crcZeroByte data 0xFFFF

/-- What `encode_frame` returns is the Pico's own encoding. -/
theorem encodeFrame_ok {messageType : Nat} {payload bytes : List UInt8}
    (h : encodeFrame messageType payload = .ok bytes) :
    bytes = Pico.encode ⟨UInt8.ofNat messageType, payload⟩ ∧ zeroToPico messageType = true ∧
      payload.length ≤ Pico.protocolMaxPayload := by
  unfold encodeFrame at h
  split at h
  · cases h
  rename_i ht
  split at h
  · cases h
  rename_i hp
  dsimp only at h
  rw [crc16_ccitt_false_eq] at h
  exact ⟨(Except.ok.inj h).symm, by simpa using ht, by omega⟩

/-! ### The frames the Zero builds -/

/-- A call of one of the encoders. -/
inductive Request where
  | queueClear
  | queueEvent (offsetUs : Int) (report : List UInt8)
  | queueEnd
  | playStart
  | playAbort
  | modeSet (target : UInt8)
  deriving DecidableEq, Repr

def Request.build : Request → Checked (List UInt8)
  | .queueClear => encodeQueueClear
  | .queueEvent offsetUs report => encodeQueueEvent offsetUs report
  | .queueEnd => encodeQueueEnd
  | .playStart => encodePlayStart
  | .playAbort => encodePlayAbort
  | .modeSet target => encodeFrame MsgType.modeSet.byte.toNat [target]

/-- The type and the payload a request means. -/
def Request.frame : Request → Frame
  | .queueClear => ⟨MsgType.queueClear.byte, []⟩
  | .queueEvent offsetUs report => ⟨MsgType.queueEvent.byte, leBytes 8 offsetUs.toNat ++ [8] ++ report⟩
  | .queueEnd => ⟨MsgType.queueEnd.byte, []⟩
  | .playStart => ⟨MsgType.playStart.byte, []⟩
  | .playAbort => ⟨MsgType.playAbort.byte, []⟩
  | .modeSet target => ⟨MsgType.modeSet.byte, [target]⟩

def Request.Valid : Request → Prop
  | .queueEvent offsetUs report => 0 ≤ offsetUs ∧ offsetUs ≤ 0xFFFFFFFFFFFFFFFF ∧ report.length = 8
  | _ => True

theorem encodeFrame_of (type : MsgType) (payload : List UInt8) (ht : zeroToPico type.byte.toNat = true)
    (hp : payload.length ≤ Pico.protocolMaxPayload) :
    encodeFrame type.byte.toNat payload = .ok (Pico.encode ⟨type.byte, payload⟩) := by
  cases h : encodeFrame type.byte.toNat payload with
  | error e =>
    unfold encodeFrame at h
    rw [if_neg (by simp [ht]), if_neg (by omega)] at h
    cases h
  | ok bytes =>
    rw [(encodeFrame_ok h).1, UInt8.ofNat_toNat]

theorem Request.build_of_valid : ∀ {r : Request}, r.Valid → r.build = .ok (Pico.encode r.frame)
  | .queueClear, _ => encodeFrame_of .queueClear [] (by decide) (by decide)
  | .queueEvent offsetUs report, ⟨h₀, h₁, hr⟩ => by
    show encodeQueueEvent offsetUs report = _
    unfold encodeQueueEvent
    rw [if_neg (by simp [h₀, h₁]), if_neg (by simp [hr])]
    exact encodeFrame_of .queueEvent _ (by decide) (by simp [Pico.length_leBytes, hr, Pico.protocolMaxPayload])
  | .queueEnd, _ => encodeFrame_of .queueEnd [] (by decide) (by decide)
  | .playStart, _ => encodeFrame_of .playStart [] (by decide) (by decide)
  | .playAbort, _ => encodeFrame_of .playAbort [] (by decide) (by decide)
  | .modeSet target, _ => encodeFrame_of .modeSet [target] (by decide) (by simp [Pico.protocolMaxPayload])

theorem Request.valid_of_build {r : Request} {bytes : List UInt8} (h : r.build = .ok bytes) : r.Valid := by
  cases r with
  | queueEvent offsetUs report =>
    replace h : encodeQueueEvent offsetUs report = .ok bytes := h
    unfold encodeQueueEvent at h
    split at h
    · cases h
    rename_i ho
    split at h
    · cases h
    rename_i hr
    rw [not_not] at ho
    exact ⟨ho.1, ho.2, not_not.1 hr⟩
  | _ => trivial

/-- A request's frame is one the Pico takes as a command. -/
theorem Request.frame_wellFormed : ∀ {r : Request}, r.Valid → Pico.WellFormed r.frame
  | .queueClear, _ | .queueEnd, _ | .playStart, _ | .playAbort, _ => by decide
  | .queueEvent offsetUs report, ⟨_, _, hr⟩ => by
    have hlen : (leBytes 8 offsetUs.toNat).length = 8 := Pico.length_leBytes _ _
    have hget : (leBytes 8 offsetUs.toNat ++ [8] ++ report).getD 8 0 = 8 := by
      rw [List.append_assoc, List.getD_eq_getElem?_getD, List.getElem?_append_right (by omega), hlen]
      rfl
    refine ⟨rfl, ?_⟩
    show ((leBytes 8 offsetUs.toNat ++ [8] ++ report).length == 17 &&
      (leBytes 8 offsetUs.toNat ++ [8] ++ report).getD 8 0 == 8) = true
    rw [hget]
    simp [hlen, hr]
  | .modeSet target, _ => ⟨rfl, rfl⟩

/-! ## Decoded frames -/

def MODE_PASS : UInt8 := 0
def MODE_RECORD : UInt8 := 1
def MODE_ARMED : UInt8 := 2
def MODE_PLAYING : UInt8 := 3
def MODE_ERROR : UInt8 := 4
def REASON_OK : UInt8 := 0
def REASON_ABORTED : UInt8 := 5
def REASON_FINISHED : UInt8 := 7

def validMode (state : UInt8) : Bool := state ≤ MODE_ERROR
def validReason (reason : UInt8) : Bool := reason ≤ REASON_FINISHED

/-- What the `validate_*` functions check first: the type and the length of the payload. -/
def expectPayload (type : MsgType) (name : String) (length : Nat) (frame : Frame) : Checked Unit :=
  if frame.type ≠ type.byte then protocolError s!"expected {name}"
  else if frame.payload.length ≠ length then
    protocolError s!"{name} payload must be {length} bytes, got {frame.payload.length}"
  else .ok ()

def validateModeChanged (frame : Frame) : Checked (UInt8 × UInt8) := do
  expectPayload .modeChanged "MODE_CHANGED" 2 frame
  let state := frame.payload.getD 0 0
  let reason := frame.payload.getD 1 0
  if !validMode state then protocolError s!"MODE_CHANGED has invalid state {state}"
  else if !validReason reason then protocolError s!"MODE_CHANGED has invalid reason {reason}"
  else .ok (state, reason)

/-- `validate_pico_status`: the state and the four fault flags. -/
def validatePicoStatus (frame : Frame) : Checked (UInt8 × List Bool) := do
  expectPayload .picoStatus "PICO_STATUS" 5 frame
  let state := frame.payload.getD 0 0
  let flags := frame.payload.drop 1
  if !validMode state then protocolError s!"PICO_STATUS has invalid state {state}"
  else if flags.any (fun flag => flag ≠ 0 && flag ≠ 1) then protocolError "PICO_STATUS flags must be zero or one"
  else .ok (state, flags.map (· ≠ 0))

/-- `validate_buffer_status`: state, queued count, free capacity. -/
def validateBufferStatus (frame : Frame) : Checked (UInt8 × Nat × Nat) := do
  expectPayload .bufferStatus "BUFFER_STATUS" 5 frame
  let state := frame.payload.getD 0 0
  if !validMode state then protocolError s!"BUFFER_STATUS has invalid state {state}"
  else .ok (state, leNat ((frame.payload.drop 1).take 2), leNat ((frame.payload.drop 3).take 2))

def validatePlayStarted (frame : Frame) : Checked Nat := do
  expectPayload .playStarted "PLAY_STARTED" 8 frame
  .ok (leNat frame.payload)

/-- `validate_play_underrun`: elapsed offset and free capacity. -/
def validatePlayUnderrun (frame : Frame) : Checked (Nat × Nat) := do
  expectPayload .playUnderrun "PLAY_UNDERRUN" 10 frame
  .ok (leNat (frame.payload.take 8), leNat (frame.payload.drop 8))

/-- `struct` reads a field as a signed integer of `n` bytes. -/
def leInt (n : Nat) (bytes : List UInt8) : Int :=
  let value := leNat (bytes.take n)
  if value < 2 ^ (8 * n - 1) then value else (value : Int) - 2 ^ (8 * n)

structure PlayMetrics where
  dispatchedCount : Nat
  underrunCount : Nat
  minLatenessUs : Int
  maxLatenessUs : Int
  sumLatenessUs : Int
  p95LatenessUs : Int
  p99LatenessUs : Int
  samplesTruncated : Bool
  deriving DecidableEq, Repr

def validatePlayMetrics (frame : Frame) : Checked PlayMetrics := do
  expectPayload .playMetrics "PLAY_METRICS" 33 frame
  let p := frame.payload
  let truncated := p.getD 32 0
  if truncated ≠ 0 && truncated ≠ 1 then protocolError "PLAY_METRICS samples_truncated must be zero or one"
  else
    .ok
      { dispatchedCount := leNat (p.take 4), underrunCount := leNat ((p.drop 4).take 4)
        minLatenessUs := leInt 4 (p.drop 8), maxLatenessUs := leInt 4 (p.drop 12)
        sumLatenessUs := leInt 8 (p.drop 16), p95LatenessUs := leInt 4 (p.drop 24)
        p99LatenessUs := leInt 4 (p.drop 28), samplesTruncated := truncated == 1 }

/-- `validate_record_event`: timestamp and report.  A byte of the payload is always a byte, so `validate_boot_report`
has only the length to check, and the payload's length fixes it. -/
def validateRecordEvent (frame : Frame) : Checked (Nat × List UInt8) := do
  expectPayload .recordEvent "RECORD_EVENT" 17 frame
  let reportLen := frame.payload.getD 8 0
  if reportLen ≠ 8 then protocolError s!"RECORD_EVENT report_len must be 8, got {reportLen}"
  else .ok (leNat (frame.payload.take 8), frame.payload.drop 9)

end PiZero
end PicoRecorder
