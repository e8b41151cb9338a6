import PicoRecorder.Lib.Scanner
import PicoRecorder.PiZero.Codec
/-!
# Decoder — `IncrementalDecoder` (`uart_protocol.py`)

`feed` works on whatever is buffered: it drops what cannot begin a frame, waits, rejects one byte or delivers a frame.
Its checks on a buffer that begins with MAGIC are `examine`.  The same checks make a `Scanner`, and `feed` is that
scanner's run; what is said here about chunks, lost frames and places in the stream comes from there.
-/
namespace PicoRecorder
namespace PiZero

open Lib (Scanner)
open Pico (Frame MsgType leBytes leNat)

/-- `PICO_TO_ZERO_TYPES`. -/
def picoToZero (messageType : UInt8) : Bool :=
  MsgType.recordEvent.byte ≤ messageType && messageType ≤ MsgType.playMetrics.byte

/-- `pico_payload_is_valid`. -/
def picoPayloadIsValid (messageType : UInt8) (payload : List UInt8) : Bool :=
  if messageType = MsgType.recordEvent.byte then payload.length == 17 && payload.getD 8 0 == 8
  else if messageType = MsgType.picoStatus.byte ∨ messageType = MsgType.bufferStatus.byte then payload.length == 5
  else if messageType = MsgType.playStarted.byte then payload.length == 8
  else if messageType = MsgType.playUnderrun.byte then payload.length == 10
  else if messageType = MsgType.modeChanged.byte then payload.length == 2
  else if messageType = MsgType.playMetrics.byte then payload.length == 33
  else payload.length == 0

/-- What the checks of `feed` make of a buffer that begins with MAGIC. -/
inductive Verdict where
  | wait
  | reject (detail : String)
  | deliver (frame : Frame) (frameLen : Nat)
  deriving DecidableEq, Repr

structure IncrementalDecoder where
  maxPayload : Nat
  acceptedTypes : UInt8 → Bool
  buffer : List UInt8
  errors : List String

namespace IncrementalDecoder

/-- `IncrementalDecoder()` with its defaults. -/
def create : IncrementalDecoder where
  maxPayload := Pico.protocolMaxPayload
  acceptedTypes := picoToZero
  buffer := []
  errors := []

def examine (maxPayload : Nat) (acceptedTypes : UInt8 → Bool) (buffer : List UInt8) : Verdict :=
  if buffer.length < 5 then .wait
  else
    let version := buffer.getD 1 0
    let messageType := buffer.getD 2 0
    let payloadLen := leNat [buffer.getD 3 0, buffer.getD 4 0]
    if version ≠ Pico.protocolVersion then .reject s!"unsupported UART version {version}"
    else if !acceptedTypes messageType then
      .reject s!"unexpected Pico-to-Zero message type {hex02 messageType.toNat}"
    else if payloadLen > maxPayload then .reject s!"payload length {payloadLen} exceeds {maxPayload}"
    else
      let frameLen := 7 + payloadLen
      if buffer.length < frameLen then .wait
      else
        let covered := (buffer.drop 1).take (4 + payloadLen)
        let receivedCrc := leNat [buffer.getD (5 + payloadLen) 0, buffer.getD (6 + payloadLen) 0]
        if receivedCrc ≠ crc16_ccitt_false covered then .reject "CRC16-CCITT-FALSE mismatch"
        else
          let payload := (buffer.drop 5).take payloadLen
          if !picoPayloadIsValid messageType payload then
            .reject s!"invalid payload for Pico-to-Zero message type {hex02 messageType.toNat}"
          else .deliver ⟨messageType, payload⟩ frameLen

/-- `_reject`. -/
def reject (detail : String) (d : IncrementalDecoder) : IncrementalDecoder :=
  { d with errors := d.errors ++ [detail], buffer := d.buffer.drop 1 }

/-- How a turn of the loop of `feed` ends. -/
inductive Turn where
  | leave (d : IncrementalDecoder)
  | again (d : IncrementalDecoder)
  | append (frame : Frame) (d : IncrementalDecoder)

def turn (d : IncrementalDecoder) : Turn :=
  match d.buffer.findIdx? (· == Pico.protocolMagic) with
  | none => .leave { d with buffer := [] }
  | some magicAt =>
    let d := { d with buffer := d.buffer.drop magicAt }
    match examine d.maxPayload d.acceptedTypes d.buffer with
    | .wait => .leave d
    | .reject detail => .again (d.reject detail)
    | .deliver frame frameLen => .append frame { d with buffer := d.buffer.drop frameLen }

/-! ## What the checks decide -/

section Examine

variable {maxPayload : Nat} {acceptedTypes : UInt8 → Bool} {buffer : List UInt8}

/-- The checks wait only while a frame of the greatest length would not be complete. -/
theorem examine_wait (h : examine maxPayload acceptedTypes buffer = .wait) : buffer.length < 7 + maxPayload := by
  unfold examine at h
  dsimp only at h
  by_contra hlen
  rw [if_neg (by omega)] at h
  split at h
  · cases h
  split at h
  · cases h
  split at h
  · cases h
  rename_i hmax
  rw [if_neg (by omega)] at h
  split at h
  · cases h
  split at h <;> cases h

/-- What arrives later does not change a decision. -/
theorem examine_append (more : List UInt8) (h : examine maxPayload acceptedTypes buffer ≠ .wait) :
    examine maxPayload acceptedTypes (buffer ++ more) = examine maxPayload acceptedTypes buffer := by
  unfold examine at h ⊢
  dsimp only at h ⊢
  have hlong : ¬buffer.length < 5 := by
    intro hs
    rw [if_pos hs] at h
    exact h rfl
  have hget : ∀ i, i < buffer.length → (buffer ++ more).getD i 0 = buffer.getD i 0 := fun i hi =>
    Pico.getD_append_left hi
  rw [if_neg hlong] at h ⊢
  rw [if_neg (by rw [List.length_append]; omega), hget 1 (by omega), hget 2 (by omega), hget 3 (by omega),
    hget 4 (by omega)]
  split
  · rfl
  rename_i hversion
  rw [if_neg hversion] at h
  split
  · rfl
  rename_i htype
  rw [if_neg htype] at h
  split
  · rfl
  rename_i hmax
  rw [if_neg hmax] at h
  generalize leNat [buffer.getD 3 0, buffer.getD 4 0] = n at h ⊢
  have hfull : ¬buffer.length < 7 + n := by
    intro hs
    rw [if_pos hs] at h
    exact h rfl
  have hcovered : ((buffer ++ more).drop 1).take (4 + n) = (buffer.drop 1).take (4 + n) := by
    rw [List.drop_append_of_le_length (by omega), List.take_append_of_le_length (by rw [List.length_drop]; omega)]
  have hpayload : ((buffer ++ more).drop 5).take n = (buffer.drop 5).take n := by
    rw [List.drop_append_of_le_length (by omega), List.take_append_of_le_length (by rw [List.length_drop]; omega)]
  rw [if_neg hfull, if_neg (by rw [List.length_append]; omega), hcovered, hpayload, hget (5 + n) (by omega),
    hget (6 + n) (by omega)]

/-- What is delivered passed every check. -/
theorem examine_deliver {frame : Frame} {frameLen : Nat}
    (h : examine maxPayload acceptedTypes buffer = .deliver frame frameLen) :
    frameLen = 7 + frame.payload.length ∧ frameLen ≤ buffer.length ∧ frame.payload.length ≤ maxPayload ∧
      acceptedTypes frame.type = true ∧ picoPayloadIsValid frame.type frame.payload = true := by
  unfold examine at h
  dsimp only at h
  split at h
  · cases h
  split at h
  · cases h
  split at h
  · cases h
  rename_i htype
  split at h
  · cases h
  rename_i hmax
  split at h
  · cases h
  rename_i hfull
  split at h
  · cases h
  split at h
  · cases h
  rename_i hvalid
  injection h with hframe hlen
  subst hframe hlen
  have hpayload : ((buffer.drop 5).take (leNat [buffer.getD 3 0, buffer.getD 4 0])).length =
      leNat [buffer.getD 3 0, buffer.getD 4 0] := by
    rw [List.length_take, List.length_drop]
    omega
  dsimp only
  rw [hpayload]
  exact ⟨rfl, by omega, by omega, by simpa using htype, by simpa using hvalid⟩

/-- With the protocol's bound on the payload, the bytes of a delivered frame are its encoding. -/
theorem encode_of_deliver {frame : Frame} {frameLen : Nat} (hmagic : buffer.getD 0 0 = Pico.protocolMagic)
    (hmax : maxPayload ≤ Pico.protocolMaxPayload)
    (h : examine maxPayload acceptedTypes buffer = .deliver frame frameLen) :
    buffer.take frameLen = Pico.encode frame := by
  obtain ⟨hlen, hle, hpay, -, -⟩ := examine_deliver h
  have hdecode : Pico.decodeFrame (buffer.take frameLen) = .ok frame := by
    have hget : ∀ i, i < frameLen → (buffer.take frameLen).getD i 0 = buffer.getD i 0 := fun i hi => by
      conv => rhs; rw [← List.take_append_drop frameLen buffer]
      rw [Pico.getD_append_left (by rw [List.length_take]; omega)]
    unfold examine at h
    dsimp only at h
    split at h
    · cases h
    split at h
    · cases h
    rename_i hversion
    split at h
    · cases h
    split at h
    · cases h
    split at h
    · cases h
    split at h
    · cases h
    rename_i hcrc
    split at h
    · cases h
    injection h with hframe hn
    subst hn
    have hcovered : (((buffer.take (7 + leNat [buffer.getD 3 0, buffer.getD 4 0])).drop 1).take
        (4 + leNat [buffer.getD 3 0, buffer.getD 4 0])) =
        (buffer.drop 1).take (4 + leNat [buffer.getD 3 0, buffer.getD 4 0]) := by
      rw [List.drop_take, List.take_take, Nat.min_eq_left (by omega)]
    have hpayload : (((buffer.take (7 + leNat [buffer.getD 3 0, buffer.getD 4 0])).drop 5).take
        (leNat [buffer.getD 3 0, buffer.getD 4 0])) =
        (buffer.drop 5).take (leNat [buffer.getD 3 0, buffer.getD 4 0]) := by
      rw [List.drop_take, List.take_take, Nat.min_eq_left (by omega)]
    have hfull : (buffer.take (7 + leNat [buffer.getD 3 0, buffer.getD 4 0])).length =
        7 + leNat [buffer.getD 3 0, buffer.getD 4 0] := by
      rw [List.length_take]
      omega
    unfold Pico.decodeFrame
    rw [if_neg (by omega), hget 0 (by omega), if_neg (not_not.2 hmagic), hget 1 (by omega), if_neg hversion,
      hget 2 (by omega), hget 3 (by omega), hget 4 (by omega)]
    dsimp only
    rw [if_neg (by simp only [Bool.or_eq_true, decide_eq_true_eq]; omega), hget _ (by omega), hget _ (by omega),
      hcovered, hpayload, ← crc16_ccitt_false_eq, if_neg (fun hc => hcrc hc.symm), hframe]
  exact (Pico.decodeFrame_sound hdecode).1

end Examine

/-- A frame the decoder delivers: its type is accepted and its payload has the type's shape. -/
def Deliverable (frame : Frame) : Prop :=
  picoToZero frame.type = true ∧ picoPayloadIsValid frame.type frame.payload = true

instance (frame : Frame) : Decidable (Deliverable frame) := inferInstanceAs (Decidable (_ ∧ _))

theorem Deliverable.length_le {frame : Frame} (h : Deliverable frame) :
    frame.payload.length ≤ Pico.protocolMaxPayload := by
  have hv := h.2
  unfold picoPayloadIsValid at hv
  unfold Pico.protocolMaxPayload
  repeat' split at hv
  all_goals
    simp only [Bool.and_eq_true, beq_iff_eq] at hv
    omega

/-- The checks deliver an encoded frame. -/
theorem examine_encode {frame : Frame} (h : Deliverable frame) (more : List UInt8) :
    examine Pico.protocolMaxPayload picoToZero (Pico.encode frame ++ more) =
      .deliver frame (Pico.encode frame).length := by
  have hmax := h.length_le
  have hlen : (Pico.encode frame).length = 7 + frame.payload.length := Pico.length_frameBytes _ _
  have hexact : examine Pico.protocolMaxPayload picoToZero (Pico.encode frame) =
      .deliver frame (Pico.encode frame).length := by
    obtain ⟨c₀, c₁, hcrc, he⟩ := Pico.frameBytes_eq frame.type frame.payload
    have hread : leNat [UInt8.ofNat (frame.payload.length % 256), UInt8.ofNat (frame.payload.length / 256 % 256)] =
        frame.payload.length :=
      Pico.leNat_leBytes 2 frame.payload.length (by unfold Pico.protocolMaxPayload at hmax; omega)
    have hcovered : ((Pico.encode frame).drop 1).take (4 + frame.payload.length) =
        Pico.covered frame.type frame.payload := by
      have hc : (Pico.covered frame.type frame.payload).length = 4 + frame.payload.length := by
        simp [Pico.covered]
        omega
      unfold Pico.encode Pico.frameBytes
      rw [List.cons_append, List.drop_one, List.tail_cons, ← hc, List.take_left]
    have hactual : leNat [c₀, c₁] = crc16_ccitt_false (Pico.covered frame.type frame.payload) := by
      rw [← hcrc, crc16_ccitt_false_eq]
      exact Pico.leNat_leBytes 2 _ (UInt16.toNat_lt _)
    have hgets : (Pico.encode frame).getD 1 0 = Pico.protocolVersion ∧ (Pico.encode frame).getD 2 0 = frame.type ∧
        leNat [(Pico.encode frame).getD 3 0, (Pico.encode frame).getD 4 0] = frame.payload.length ∧
        (Pico.encode frame).getD (5 + frame.payload.length) 0 = c₀ ∧
        (Pico.encode frame).getD (6 + frame.payload.length) 0 = c₁ ∧
        ((Pico.encode frame).drop 5).take frame.payload.length = frame.payload := by
      have h₅ : 5 + frame.payload.length = frame.payload.length + 5 := Nat.add_comm _ _
      have h₆ : 6 + frame.payload.length = (frame.payload.length + 1) + 5 := by omega
      unfold Pico.encode
      rw [he, h₅, h₆]
      refine ⟨rfl, rfl, hread, ?_, ?_, ?_⟩
      · exact (Pico.getD_append_two frame.payload c₀ c₁).1
      · exact (Pico.getD_append_two frame.payload c₀ c₁).2
      · exact List.take_left
    obtain ⟨hversion, htype, hpaylen, hc₀, hc₁, hpayload⟩ := hgets
    unfold examine
    dsimp only
    rw [if_neg (by omega), hversion, htype, hpaylen, hc₀, hc₁, hcovered, hpayload, hactual, if_neg (by simp),
      if_neg (by simp [h.1]), if_neg (by omega), if_neg (by omega), if_neg (by simp), if_neg (by simp [h.2]), hlen]
  rw [examine_append more (by rw [hexact]; simp), hexact]

/-! ## The scanner behind `feed` -/

/-- What a cut of the stream was: a byte that cannot begin a frame, a rejected byte, a frame. -/
inductive Cut where
  | noise
  | rejected (detail : String)
  | delivered (frame : Frame)
  deriving DecidableEq, Repr

def Cut.frame? : Cut → Option Frame
  | .delivered frame => some frame
  | _ => none

def Cut.detail? : Cut → Option String
  | .rejected detail => some detail
  | _ => none

def look (maxPayload : Nat) (acceptedTypes : UInt8 → Bool) : List UInt8 → Option (Nat × Cut)
  | [] => none
  | byte :: rest =>
    if byte ≠ Pico.protocolMagic then some (1, .noise)
    else
      match examine maxPayload acceptedTypes (byte :: rest) with
      | .wait => none
      | .reject detail => some (1, .rejected detail)
      | .deliver frame frameLen => some (frameLen, .delivered frame)

/-- What `look` says about a buffer that begins with MAGIC is the verdict of the checks. -/
theorem look_magic (maxPayload : Nat) (acceptedTypes : UInt8 → Bool) {buffer : List UInt8} (h : buffer ≠ [])
    (hmagic : buffer.getD 0 0 = Pico.protocolMagic) :
    look maxPayload acceptedTypes buffer =
      match examine maxPayload acceptedTypes buffer with
      | .wait => none
      | .reject detail => some (1, .rejected detail)
      | .deliver frame frameLen => some (frameLen, .delivered frame) := by
  cases buffer with
  | nil => exact absurd rfl h
  | cons byte rest =>
    rw [List.getD_cons_zero] at hmagic
    rw [look, if_neg (not_not.2 hmagic)]

theorem look_cut {maxPayload : Nat} {acceptedTypes : UInt8 → Bool} {buffer : List UInt8} {n : Nat} {cut : Cut}
    (h : look maxPayload acceptedTypes buffer = some (n, cut)) :
    0 < n ∧ n ≤ buffer.length ∧ ∀ more, look maxPayload acceptedTypes (buffer ++ more) = some (n, cut) := by
  cases buffer with
  | nil => cases h
  | cons byte rest =>
    rw [look] at h
    by_cases hb : byte ≠ Pico.protocolMagic
    · rw [if_pos hb] at h
      cases h
      refine ⟨by simp, by simp, fun more => ?_⟩
      rw [List.cons_append, look, if_pos hb]
    · rw [if_neg hb] at h
      cases hv : examine maxPayload acceptedTypes (byte :: rest) with
      | wait => rw [hv] at h; cases h
      | reject detail =>
        have happ := fun more => examine_append more (by rw [hv]; simp : _ ≠ Verdict.wait)
        rw [hv] at h
        cases h
        refine ⟨by simp, by simp, fun more => ?_⟩
        rw [List.cons_append, look, if_neg hb, ← List.cons_append, happ more, hv]
      | deliver frame frameLen =>
        obtain ⟨hlen, hle, -⟩ := examine_deliver hv
        have happ := fun more => examine_append more (by rw [hv]; simp : _ ≠ Verdict.wait)
        rw [hv] at h
        cases h
        refine ⟨by omega, hle, fun more => ?_⟩
        rw [List.cons_append, look, if_neg hb, ← List.cons_append, happ more, hv]

def scanner (maxPayload : Nat) (acceptedTypes : UInt8 → Bool) : Scanner UInt8 Cut where
  look := look maxPayload acceptedTypes
  pos h := (look_cut h).1
  le h := (look_cut h).2.1
  stable more h := (look_cut h).2.2 more

@[simp] theorem scanner_look (maxPayload : Nat) (acceptedTypes : UInt8 → Bool) (l : List UInt8) :
    (scanner maxPayload acceptedTypes).look l = look maxPayload acceptedTypes l := rfl

/-! ## The loop of `feed` -/

theorem turn_again {d d' : IncrementalDecoder} (h : d.turn = .again d') : d'.buffer.length < d.buffer.length := by
  unfold turn at h
  split at h
  · cases h
  rename_i magicAt hfind
  have hlt := (List.findIdx?_eq_some_iff_getElem.1 hfind).1
  dsimp only at h
  split at h <;> cases h
  simp only [reject, List.length_drop]
  omega

theorem turn_append {d d' : IncrementalDecoder} {frame : Frame} (h : d.turn = .append frame d') :
    d'.buffer.length < d.buffer.length := by
  unfold turn at h
  split at h
  · cases h
  rename_i magicAt hfind
  dsimp only at h
  split at h <;> cases h
  rename_i frameLen hdeliver
  obtain ⟨hlen, hle, -⟩ := examine_deliver hdeliver
  simp only [List.length_drop] at hle ⊢
  omega

/-- The loop of `feed`: the frames in the order they were appended, and the decoder it leaves. -/
def feedLoop (d : IncrementalDecoder) : List Frame × IncrementalDecoder :=
  match _h : d.turn with
  | .leave d' => ([], d')
  | .again d' => feedLoop d'
  | .append frame d' =>
    let r := feedLoop d'
    (frame :: r.1, r.2)
termination_by d.buffer.length
decreasing_by
  · exact turn_again _h
  · exact turn_append _h

theorem feedLoop_leave {d d' : IncrementalDecoder} (h : d.turn = .leave d') : d.feedLoop = ([], d') := by
  rw [feedLoop]
  split <;> simp_all

theorem feedLoop_again {d d' : IncrementalDecoder} (h : d.turn = .again d') : d.feedLoop = d'.feedLoop := by
  conv => lhs; rw [feedLoop]
  split <;> simp_all

theorem feedLoop_append {d d' : IncrementalDecoder} {frame : Frame} (h : d.turn = .append frame d') :
    d.feedLoop = (frame :: d'.feedLoop.1, d'.feedLoop.2) := by
  conv => lhs; rw [feedLoop]
  split <;> simp_all

def feed (data : List UInt8) (d : IncrementalDecoder) : List Frame × IncrementalDecoder :=
  feedLoop { d with buffer := d.buffer ++ data }

def popErrors (d : IncrementalDecoder) : List String × IncrementalDecoder := (d.errors, { d with errors := [] })

/-! ## `feed` is the scanner's run -/

/-- The frames of some cuts. -/
def framesOf (cuts : List (List UInt8 × Cut)) : List Frame := cuts.filterMap (fun p => p.2.frame?)

/-- The errors of some cuts. -/
def detailsOf (cuts : List (List UInt8 × Cut)) : List String := cuts.filterMap (fun p => p.2.detail?)

theorem framesOf_append (cuts more : List (List UInt8 × Cut)) :
    framesOf (cuts ++ more) = framesOf cuts ++ framesOf more := by
  simp [framesOf]

theorem detailsOf_append (cuts more : List (List UInt8 × Cut)) :
    detailsOf (cuts ++ more) = detailsOf cuts ++ detailsOf more := by
  simp [detailsOf]

/-- The decoder after the cuts of a scan. -/
def afterCuts (d : IncrementalDecoder) (r : List (List UInt8 × Cut) × List UInt8) : IncrementalDecoder :=
  { d with buffer := r.2, errors := d.errors ++ detailsOf r.1 }

/-- Bytes without MAGIC are noise. -/
theorem scan_noise (maxPayload : Nat) (acceptedTypes : UInt8 → Bool) (rest : List UInt8) :
    ∀ noise : List UInt8, (∀ byte ∈ noise, byte ≠ Pico.protocolMagic) →
      (scanner maxPayload acceptedTypes).scan (noise ++ rest) =
      (noise.map (fun byte => ([byte], Cut.noise)) ++ ((scanner maxPayload acceptedTypes).scan rest).1,
        ((scanner maxPayload acceptedTypes).scan rest).2)
  | [], _ => rfl
  | byte :: noise, h => by
    have hlook : look maxPayload acceptedTypes (byte :: (noise ++ rest)) = some (1, .noise) := by
      rw [look, if_pos (h byte (by simp))]
    rw [List.cons_append, Scanner.scan_cut ((scanner_look _ _ _).trans hlook), List.drop_one, List.tail_cons,
      scan_noise _ _ rest noise (fun b hb => h b (List.mem_cons_of_mem _ hb))]
    rfl

theorem framesOf_noise (noise : List UInt8) : framesOf (noise.map (fun byte => ([byte], Cut.noise))) = [] := by
  simp [framesOf, Cut.frame?]

theorem detailsOf_noise (noise : List UInt8) : detailsOf (noise.map (fun byte => ([byte], Cut.noise))) = [] := by
  simp [detailsOf, Cut.detail?]

/-- **The loop of `feed` makes the scanner's cuts.** -/
theorem feedLoop_eq (d : IncrementalDecoder) :
    d.feedLoop = (framesOf ((scanner d.maxPayload d.acceptedTypes).scan d.buffer).1,
      d.afterCuts ((scanner d.maxPayload d.acceptedTypes).scan d.buffer)) := by
  induction hk : d.buffer.length using Nat.strongRecOn generalizing d with
  | ind k ih =>
    subst hk
    cases hfind : d.buffer.findIdx? (· == Pico.protocolMagic) with
    | none =>
      have hturn : d.turn = .leave { d with buffer := [] } := by rw [turn, hfind]
      have hnoise : ∀ byte ∈ d.buffer, byte ≠ Pico.protocolMagic := by
        simpa using List.findIdx?_eq_none_iff.1 hfind
      have hscan := scan_noise d.maxPayload d.acceptedTypes [] d.buffer hnoise
      have hnil : (scanner d.maxPayload d.acceptedTypes).scan [] = ([], []) := Scanner.scan_wait rfl
      rw [List.append_nil, hnil] at hscan
      rw [feedLoop_leave hturn, hscan, afterCuts, framesOf_append, detailsOf_append, framesOf_noise, detailsOf_noise]
      simp [framesOf, detailsOf]
    | some magicAt =>
      obtain ⟨hlt, hmagic, hbefore⟩ := List.findIdx?_eq_some_iff_getElem.1 hfind
      have hnoise : ∀ byte ∈ d.buffer.take magicAt, byte ≠ Pico.protocolMagic := by
        intro byte hb
        obtain ⟨i, hi, rfl⟩ := List.getElem_of_mem hb
        rw [List.length_take] at hi
        rw [List.getElem_take]
        simpa using hbefore i (by omega)
      have hscan := scan_noise d.maxPayload d.acceptedTypes (d.buffer.drop magicAt) _ hnoise
      rw [List.take_append_drop] at hscan
      have hne : d.buffer.drop magicAt ≠ [] := by
        rw [Ne, List.drop_eq_nil_iff]
        omega
      have hhead : (d.buffer.drop magicAt).getD 0 0 = Pico.protocolMagic := by
        rw [List.getD_eq_getElem?_getD, List.getElem?_drop, Nat.add_zero, List.getElem?_eq_getElem hlt]
        simpa using hmagic
      have hlook := look_magic d.maxPayload d.acceptedTypes hne hhead
      rw [hscan, afterCuts, framesOf_append, detailsOf_append, framesOf_noise, detailsOf_noise, List.nil_append,
        List.nil_append]
      cases hv : examine d.maxPayload d.acceptedTypes (d.buffer.drop magicAt) with
      | wait =>
        have hturn : d.turn = .leave { d with buffer := d.buffer.drop magicAt } := by
          rw [turn, hfind]
          simp only [hv]
        rw [hv] at hlook
        rw [feedLoop_leave hturn, Scanner.scan_wait ((scanner_look _ _ _).trans hlook)]
        simp [framesOf, detailsOf]
      | reject detail =>
        have hturn : d.turn = .again (reject detail { d with buffer := d.buffer.drop magicAt }) := by
          rw [turn, hfind]
          simp only [hv]
        rw [hv] at hlook
        rw [feedLoop_again hturn, ih _ (turn_again hturn) _ rfl,
          Scanner.scan_cut ((scanner_look _ _ _).trans hlook)]
        simp [framesOf, detailsOf, afterCuts, reject, Cut.frame?, Cut.detail?]
      | deliver frame frameLen =>
        have hturn : d.turn = .append frame { d with buffer := (d.buffer.drop magicAt).drop frameLen } := by
          rw [turn, hfind]
          simp only [hv]
        rw [hv] at hlook
        rw [feedLoop_append hturn, ih _ (turn_append hturn) _ rfl,
          Scanner.scan_cut ((scanner_look _ _ _).trans hlook)]
        simp [framesOf, detailsOf, afterCuts, Cut.frame?, Cut.detail?]

/-- `feed` makes the cuts of everything that is buffered then. -/
theorem feed_eq (data : List UInt8) (d : IncrementalDecoder) :
    d.feed data = (framesOf ((scanner d.maxPayload d.acceptedTypes).scan (d.buffer ++ data)).1,
      d.afterCuts ((scanner d.maxPayload d.acceptedTypes).scan (d.buffer ++ data))) := by
  rw [feed, feedLoop_eq]
  rfl

end IncrementalDecoder

end PiZero
end PicoRecorder
