import PicoRecorder.PiZero.Reading
import PicoRecorder.Pico.Uart
/-!
# Telemetry — what the Zero reads out of what the Pico sent

The payload writers of `main.c` and `pico_uart_encode_frame` on one side, `IncrementalDecoder` and the `validate_*`
functions on the other.  `Message` is a frame's meaning, and both sides agree on it.
-/
namespace PicoRecorder
namespace Link

open Lib (Scanner)
open Pico (Frame MsgType PicoMsg Metrics leBytes leNat twosComplement)
open PiZero (Checked Reading DecoderOp leInt)
open PiZero.IncrementalDecoder (Deliverable)

/-! ## Little-endian fields in a payload -/

theorem leNat_field (n v : Nat) (rest : List UInt8) (h : v < 256 ^ n) : leNat ((leBytes n v ++ rest).take n) = v := by
  rw [List.take_left' (Pico.length_leBytes n v), Pico.leNat_leBytes n v h]

theorem drop_field (n v : Nat) (rest : List UInt8) : (leBytes n v ++ rest).drop n = rest :=
  List.drop_left' (Pico.length_leBytes n v)

theorem twosComplement_lt (n : Nat) (v : Int) : twosComplement n v < 256 ^ n := by
  have hpow : (256 : Nat) ^ n = 2 ^ (8 * n) := by rw [Nat.pow_mul]
  have hcast : ((2 ^ (8 * n) : Nat) : Int) = (2 : Int) ^ (8 * n) := Int.natCast_pow 2 (8 * n)
  have hpos : (0 : Int) < 2 ^ (8 * n) := Int.pow_pos (by decide)
  have hmod := Int.emod_lt_of_pos v hpos
  have hnonneg := Int.emod_nonneg v (Int.ne_of_gt hpos)
  unfold twosComplement
  rw [hpow]
  omega

/-- **A signed field is read back with its sign.** -/
theorem leInt_field (n : Nat) (hn : 0 < n) (v : Int) (rest : List UInt8) (hlo : -(2 ^ (8 * n - 1)) ≤ v)
    (hhi : v < 2 ^ (8 * n - 1)) : leInt n (leBytes n (twosComplement n v) ++ rest) = v := by
  unfold leInt
  rw [leNat_field n _ rest (twosComplement_lt n v)]
  dsimp only
  have hdouble : (2 : Int) ^ (8 * n) = 2 * 2 ^ (8 * n - 1) := by
    conv => lhs; rw [show 8 * n = 8 * n - 1 + 1 by omega]
    rw [Int.pow_succ]
    omega
  have hcast : ((2 ^ (8 * n - 1) : Nat) : Int) = (2 : Int) ^ (8 * n - 1) := Int.natCast_pow 2 (8 * n - 1)
  unfold twosComplement
  rw [hdouble]
  generalize (2 : Int) ^ (8 * n - 1) = half at *
  by_cases hv : 0 ≤ v
  · have hmod : v % (2 * half) = v := Int.emod_eq_of_lt hv (by omega)
    rw [hmod, if_pos (by omega)]
    omega
  · have hmod : v % (2 * half) = v + 2 * half := by
      rw [← Int.add_emod_right, Int.emod_eq_of_lt (by omega) (by omega)]
    rw [hmod, if_neg (by omega)]
    omega

/-! ## What a frame means -/

inductive Message where
  | recordEvent (timestampUs : Nat) (report : List UInt8)
  | picoStatus (state : UInt8) (faults : List Bool)
  | bufferStatus (state : UInt8) (queuedCount freeCapacity : Nat)
  | playStarted (playbackStartUs : Nat)
  | playUnderrun (elapsedOffsetUs freeCapacity : Nat)
  | modeChanged (state reason : UInt8)
  | playMetrics (metrics : PiZero.PlayMetrics)
  /-- A frame without a payload. -/
  | bare (type : UInt8)
  deriving DecidableEq, Repr

/-- The Zero's reading: the `validate_*` function of the frame's type. -/
def readMessage (frame : Frame) : Checked Message :=
  match MsgType.ofByte? frame.type with
  | some .recordEvent => (PiZero.validateRecordEvent frame).map (fun r => .recordEvent r.1 r.2)
  | some .picoStatus => (PiZero.validatePicoStatus frame).map (fun r => .picoStatus r.1 r.2)
  | some .bufferStatus => (PiZero.validateBufferStatus frame).map (fun r => .bufferStatus r.1 r.2.1 r.2.2)
  | some .playStarted => (PiZero.validatePlayStarted frame).map .playStarted
  | some .playUnderrun => (PiZero.validatePlayUnderrun frame).map (fun r => .playUnderrun r.1 r.2)
  | some .modeChanged => (PiZero.validateModeChanged frame).map (fun r => .modeChanged r.1 r.2)
  | some .playMetrics => (PiZero.validatePlayMetrics frame).map .playMetrics
  | _ => .ok (.bare frame.type)

/-- The same metrics in Python's integers. -/
def metricsValue (m : Metrics) : PiZero.PlayMetrics where
  dispatchedCount := m.dispatchedCount.toNat
  underrunCount := m.underrunCount.toNat
  minLatenessUs := m.minLatenessUs
  maxLatenessUs := m.maxLatenessUs
  sumLatenessUs := m.sumLatenessUs
  p95LatenessUs := m.p95LatenessUs
  p99LatenessUs := m.p99LatenessUs
  samplesTruncated := m.samplesTruncated

/-- The Pico's meaning: the fields the payload was written from. -/
def meaning : PicoMsg → Message
  | .recordEvent timestampUs report => .recordEvent timestampUs.toNat report.toList
  | .picoStatus state rx hw inv tx => .picoStatus state.byte [rx, hw, inv, tx]
  | .bufferStatus state queued free => .bufferStatus state.byte queued.toNat free.toNat
  | .playStarted playbackStartUs => .playStarted playbackStartUs.toNat
  | .playUnderrun elapsedOffsetUs free => .playUnderrun elapsedOffsetUs.toNat free.toNat
  | .modeChanged state reason => .modeChanged state.byte reason.byte
  | .playMetrics metrics => .playMetrics (metricsValue metrics)
  | .playReady => .bare MsgType.playReady.byte
  | .playFinished => .bare MsgType.playFinished.byte
  | .playAborted => .bare MsgType.playAborted.byte
  | .pong _ => .bare MsgType.pong.byte

/-- `int32_t` lateness fields and an `int64_t` sum. -/
structure InRange (m : Metrics) : Prop where
  min : -(2 ^ 31) ≤ m.minLatenessUs ∧ m.minLatenessUs < 2 ^ 31
  max : -(2 ^ 31) ≤ m.maxLatenessUs ∧ m.maxLatenessUs < 2 ^ 31
  sum : -(2 ^ 63) ≤ m.sumLatenessUs ∧ m.sumLatenessUs < 2 ^ 63
  p95 : -(2 ^ 31) ≤ m.p95LatenessUs ∧ m.p95LatenessUs < 2 ^ 31
  p99 : -(2 ^ 31) ≤ m.p99LatenessUs ∧ m.p99LatenessUs < 2 ^ 31

/-- The values the fields' C types can hold.  A PONG echoes a PING, whose payload the parser wants empty. -/
def Sendable : PicoMsg → Prop
  | .playMetrics metrics => InRange metrics
  | .pong payload => payload = []
  | _ => True

/-- What `pico_uart_transport_queue_frame` puts into the ring for a message. -/
def transmitted (msg : PicoMsg) : Option (List UInt8) :=
  Pico.encodeFrame msg.toFrame.type msg.toFrame.payload Pico.uartParserCapacity

/-! ## One frame -/

theorem mode_valid (state : Pico.Mode) : PiZero.validMode state.byte = true := by cases state <;> rfl

theorem metrics_payload (m : Metrics) : m.payload.length = 33 := by simp [Metrics.payload]

/-- The fixed shapes: each message has the type and length the Zero's decoder wants. -/
theorem deliverable_toFrame {msg : PicoMsg} (h : Sendable msg) : Deliverable msg.toFrame := by
  refine ⟨by cases msg <;> rfl, ?_⟩
  cases msg with
  | recordEvent timestampUs report =>
    have hlen : (leBytes 8 timestampUs.toNat).length = 8 := Pico.length_leBytes _ _
    have hget : (leBytes 8 timestampUs.toNat ++ [8] ++ report.toList).getD 8 0 = 8 := by
      rw [List.append_assoc, List.getD_eq_getElem?_getD, List.getElem?_append_right (by omega), hlen]
      rfl
    show ((leBytes 8 timestampUs.toNat ++ [8] ++ report.toList).length == 17 &&
      (leBytes 8 timestampUs.toNat ++ [8] ++ report.toList).getD 8 0 == 8) = true
    rw [hget]
    simp [hlen]
  | playMetrics metrics =>
    show (metrics.payload.length == 33) = true
    simp [metrics_payload]
  | pong payload => obtain rfl : payload = [] := h; rfl
  | bufferStatus state queued free =>
    show ((state.byte :: (leBytes 2 queued.toNat ++ leBytes 2 free.toNat)).length == 5) = true
    simp
  | playStarted t =>
    show ((leBytes 8 t.toNat).length == 8) = true
    simp
  | playUnderrun e f =>
    show ((leBytes 8 e.toNat ++ leBytes 2 f.toNat).length == 10) = true
    simp
  | _ => rfl

theorem transmitted_eq {msg : PicoMsg} (h : Sendable msg) : transmitted msg = some (Pico.encode msg.toFrame) := by
  have hlen := (deliverable_toFrame h).length_le
  have hknown : Pico.typeKnown msg.toFrame.type = true := by cases msg <;> rfl
  unfold transmitted Pico.encodeFrame
  unfold Pico.uartParserCapacity
  rw [if_neg]
  · rfl
  · simp only [hknown, Bool.or_eq_true, decide_eq_true_eq, Bool.not_true, Bool.false_eq_true, or_false]
    omega

theorem expectPayload_ok {type : MsgType} {name : String} {length : Nat} {frame : Frame} (ht : frame.type = type.byte)
    (hl : frame.payload.length = length) : PiZero.expectPayload type name length frame = .ok () := by
  unfold PiZero.expectPayload
  rw [if_neg (not_not.2 ht), if_neg (not_not.2 hl)]

theorem read_recordEvent (timestampUs : UInt64) (report : Pico.Report) :
    PiZero.validateRecordEvent (PicoMsg.recordEvent timestampUs report).toFrame =
      .ok (timestampUs.toNat, report.toList) := by
  have hlen : (leBytes 8 timestampUs.toNat).length = 8 := Pico.length_leBytes _ _
  have hsplit : (PicoMsg.recordEvent timestampUs report).toFrame.payload =
      leBytes 8 timestampUs.toNat ++ ([8] ++ report.toList) := List.append_assoc _ _ _
  have hget : (PicoMsg.recordEvent timestampUs report).toFrame.payload.getD 8 0 = 8 := by
    rw [hsplit, List.getD_eq_getElem?_getD, List.getElem?_append_right (by omega), hlen]
    rfl
  have hdrop : (PicoMsg.recordEvent timestampUs report).toFrame.payload.drop 9 = report.toList := by
    rw [hsplit, show 9 = 8 + 1 from rfl, ← List.drop_drop, drop_field]
    rfl
  unfold PiZero.validateRecordEvent
  rw [expectPayload_ok rfl (by rw [hsplit]; simp)]
  simp only [hget, hdrop, bind, Except.bind, ne_eq, not_true_eq_false, if_false]
  rw [hsplit, leNat_field 8 _ _ timestampUs.toNat_lt]

theorem read_picoStatus (state : Pico.Mode) (rx hw inv tx : Bool) :
    PiZero.validatePicoStatus (PicoMsg.picoStatus state rx hw inv tx).toFrame =
      .ok (state.byte, [rx, hw, inv, tx]) := by
  cases state <;> cases rx <;> cases hw <;> cases inv <;> cases tx <;> rfl

theorem read_bufferStatus (state : Pico.Mode) (queued free : UInt16) :
    PiZero.validateBufferStatus (PicoMsg.bufferStatus state queued free).toFrame =
      .ok (state.byte, queued.toNat, free.toNat) := by
  have hq : leNat ((leBytes 2 queued.toNat ++ leBytes 2 free.toNat).take 2) = queued.toNat :=
    leNat_field 2 _ _ queued.toNat_lt
  have hf : leNat (((leBytes 2 queued.toNat ++ leBytes 2 free.toNat).drop 2).take 2) = free.toNat := by
    have := leNat_field 2 free.toNat [] free.toNat_lt
    rw [List.append_nil] at this
    rw [drop_field, this]
  unfold PiZero.validateBufferStatus
  rw [expectPayload_ok rfl (by simp [PicoMsg.toFrame, PicoMsg.payload])]
  simp only [PicoMsg.toFrame, PicoMsg.payload, List.getD_cons_zero, mode_valid, bind, Except.bind, List.drop_succ_cons,
    List.drop_zero, hq, hf, Bool.not_true, Bool.false_eq_true, if_false]

theorem read_playStarted (t : UInt64) :
    PiZero.validatePlayStarted (PicoMsg.playStarted t).toFrame = .ok t.toNat := by
  unfold PiZero.validatePlayStarted
  rw [expectPayload_ok rfl (by simp [PicoMsg.toFrame, PicoMsg.payload])]
  simp only [PicoMsg.toFrame, PicoMsg.payload, bind, Except.bind, Pico.leNat_leBytes 8 _ t.toNat_lt]

theorem read_playUnderrun (e : UInt64) (f : UInt16) :
    PiZero.validatePlayUnderrun (PicoMsg.playUnderrun e f).toFrame = .ok (e.toNat, f.toNat) := by
  unfold PiZero.validatePlayUnderrun
  rw [expectPayload_ok rfl (by simp [PicoMsg.toFrame, PicoMsg.payload])]
  simp only [PicoMsg.toFrame, PicoMsg.payload, bind, Except.bind, leNat_field 8 _ _ e.toNat_lt, drop_field,
    Pico.leNat_leBytes 2 _ f.toNat_lt]

theorem read_modeChanged (state : Pico.Mode) (reason : Pico.Reason) :
    PiZero.validateModeChanged (PicoMsg.modeChanged state reason).toFrame = .ok (state.byte, reason.byte) := by
  cases state <;> cases reason <;> rfl

/-- The eight fields of a metrics payload, one behind the other. -/
theorem metrics_fields (m : Metrics) :
    m.payload = leBytes 4 m.dispatchedCount.toNat ++
      (leBytes 4 m.underrunCount.toNat ++
        (leBytes 4 (twosComplement 4 m.minLatenessUs) ++
          (leBytes 4 (twosComplement 4 m.maxLatenessUs) ++
            (leBytes 8 (twosComplement 8 m.sumLatenessUs) ++
              (leBytes 4 (twosComplement 4 m.p95LatenessUs) ++
                (leBytes 4 (twosComplement 4 m.p99LatenessUs) ++ [m.samplesTruncated.toNat.toUInt8])))))) := by
  simp only [Metrics.payload, List.append_assoc]

theorem read_playMetrics {m : Metrics} (h : InRange m) :
    PiZero.validatePlayMetrics (PicoMsg.playMetrics m).toFrame = .ok (metricsValue m) := by
  unfold PiZero.validatePlayMetrics
  rw [expectPayload_ok rfl (metrics_payload m)]
  dsimp only [PicoMsg.toFrame, PicoMsg.payload, bind, Except.bind]
  rw [metrics_fields]
  -- every later field begins where the one before it ends
  have hdrop : ∀ (l : List UInt8) (i n v : Nat) (rest : List UInt8), l.drop i = leBytes n v ++ rest →
      l.drop (i + n) = rest :=
    fun l i n v rest hl => by rw [← List.drop_drop, hl, drop_field]
  generalize hp : leBytes 4 m.dispatchedCount.toNat ++ _ = p
  have h₄ := hdrop p 0 4 _ _ hp.symm
  have h₈ := hdrop p 4 4 _ _ h₄
  have h₁₂ := hdrop p 8 4 _ _ h₈
  have h₁₆ := hdrop p 12 4 _ _ h₁₂
  have h₂₄ := hdrop p 16 8 _ _ h₁₆
  have h₂₈ := hdrop p 24 4 _ _ h₂₄
  have h₃₂ := hdrop p 28 4 _ _ h₂₈
  simp only [Nat.zero_add, Nat.reduceAdd] at h₄ h₈ h₁₂ h₁₆ h₂₄ h₂₈ h₃₂
  have htruncated : p.getD 32 0 = m.samplesTruncated.toNat.toUInt8 := by
    have hget := congrArg (fun l : List UInt8 => l.getD 0 0) h₃₂
    simpa [List.getD_eq_getElem?_getD] using hget
  rw [htruncated, h₄, h₈, h₁₂, h₁₆, h₂₄, h₂₈, ← hp, leNat_field 4 _ _ m.dispatchedCount.toNat_lt,
    leNat_field 4 _ _ m.underrunCount.toNat_lt, leInt_field 4 (by decide) _ _ h.min.1 h.min.2,
    leInt_field 4 (by decide) _ _ h.max.1 h.max.2, leInt_field 8 (by decide) _ _ h.sum.1 h.sum.2,
    leInt_field 4 (by decide) _ _ h.p95.1 h.p95.2, leInt_field 4 (by decide) _ _ h.p99.1 h.p99.2]
  cases ht : m.samplesTruncated <;> simp [metricsValue, ht]

/-- **A frame means at the Zero what it meant at the Pico.** -/
theorem readMessage_toFrame {msg : PicoMsg} (h : Sendable msg) : readMessage msg.toFrame = .ok (meaning msg) := by
  have htype : MsgType.ofByte? msg.toFrame.type = some msg.msgType := MsgType.ofByte?_byte _
  unfold readMessage
  rw [htype]
  cases msg with
  | recordEvent timestampUs report =>
    simp only [PicoMsg.msgType, read_recordEvent, Except.map, meaning]
  | picoStatus state rx hw inv tx => simp only [PicoMsg.msgType, read_picoStatus, Except.map, meaning]
  | bufferStatus state queued free => simp only [PicoMsg.msgType, read_bufferStatus, Except.map, meaning]
  | playStarted t => simp only [PicoMsg.msgType, read_playStarted, Except.map, meaning]
  | playUnderrun e f => simp only [PicoMsg.msgType, read_playUnderrun, Except.map, meaning]
  | modeChanged state reason => simp only [PicoMsg.msgType, read_modeChanged, Except.map, meaning]
  | playMetrics metrics =>
    have hread := read_playMetrics (m := metrics) h
    simp only [PicoMsg.msgType, hread, Except.map, meaning]
  | playReady | playFinished | playAborted | pong payload => rfl

/-! ## Any number of frames -/

/-- The scanner cuts a stream of encodings into its frames. -/
theorem scan_encodes : ∀ frames : List Frame, (∀ frame ∈ frames, Deliverable frame) →
    Reading.protocolScanner.scan (frames.flatMap Pico.encode) =
      (frames.map (fun frame => (Pico.encode frame, .delivered frame)), [])
  | [], _ => Scanner.scan_wait rfl
  | frame :: frames, h => by
    have hlook := Reading.look_encode (h frame (by simp)) (frames.flatMap Pico.encode)
    rw [List.flatMap_cons, Scanner.scan_cut hlook, List.take_left, List.drop_left,
      scan_encodes frames (fun f hf => h f (List.mem_cons_of_mem _ hf))]
    rfl

theorem mapM_transmitted : ∀ msgs : List PicoMsg, (∀ msg ∈ msgs, Sendable msg) →
    msgs.mapM transmitted = some (msgs.map (fun msg => Pico.encode msg.toFrame))
  | [], _ => rfl
  | msg :: msgs, h => by
    rw [List.mapM_cons, transmitted_eq (h msg (by simp)),
      mapM_transmitted msgs (fun m hm => h m (List.mem_cons_of_mem _ hm))]
    rfl

/-- **The two codecs agree.**  Every list of messages the firmware can send encodes, and in whatever pieces its bytes
reach the Zero's decoder, the decoder reports no error and the Zero reads the same list of field values. -/
theorem telemetry_agrees (msgs : List PicoMsg) (h : ∀ msg ∈ msgs, Sendable msg) :
    ∃ encoded, msgs.mapM transmitted = some encoded ∧
      ∀ ops : List DecoderOp, Reading.bytes ops = encoded.flatten →
        (((Reading.start .create).run ops).frames.map readMessage = msgs.map (fun msg => .ok (meaning msg))) ∧
          ((Reading.start .create).run ops).errors = [] := by
  refine ⟨_, mapM_transmitted msgs h, fun ops hops => ?_⟩
  have hfollows := (Reading.follows_start (d := .create) rfl).run ops
  have hframes := hfollows.frames
  have herrors := hfollows.errors
  have hstream : Reading.bytes ops = (msgs.map PicoMsg.toFrame).flatMap Pico.encode := by
    rw [hops, List.flatMap_map, List.flatMap_def]
  have hscan := scan_encodes (msgs.map PicoMsg.toFrame) (by simpa using fun msg hm => deliverable_toFrame (h msg hm))
  rw [List.nil_append, hstream] at hframes herrors
  replace hframes := hframes.trans (congrArg (fun r => PiZero.IncrementalDecoder.framesOf r.1) hscan)
  replace herrors := herrors.trans (congrArg (fun r => [] ++ PiZero.IncrementalDecoder.detailsOf r.1) hscan)
  constructor
  · have hmap : PiZero.IncrementalDecoder.framesOf ((msgs.map PicoMsg.toFrame).map
        (fun frame => (Pico.encode frame, .delivered frame))) = msgs.map PicoMsg.toFrame := by
      simp [PiZero.IncrementalDecoder.framesOf, PiZero.IncrementalDecoder.Cut.frame?, List.filterMap_map,
        Function.comp_def]
    rw [hframes, hmap, List.map_map]
    exact List.map_congr_left (fun msg hm => readMessage_toFrame (h msg hm))
  · rw [herrors]
    simp [PiZero.IncrementalDecoder.detailsOf, PiZero.IncrementalDecoder.Cut.detail?]

/-- A report, and metrics of a run whose reports came early. -/
theorem telemetry_agrees_early :
    ∃ encoded, [PicoMsg.recordEvent 7 Pico.Report.releaseAll, .playMetrics ⟨2, 0, -3, -1, -4, -1, -1, false⟩,
        .playFinished].mapM transmitted = some encoded ∧
      ∀ ops : List DecoderOp, Reading.bytes ops = encoded.flatten →
        (((Reading.start .create).run ops).frames.map readMessage =
          [.ok (.recordEvent 7 [0, 0, 0, 0, 0, 0, 0, 0]), .ok (.playMetrics ⟨2, 0, -3, -1, -4, -1, -1, false⟩),
            .ok (.bare 6)]) ∧ ((Reading.start .create).run ops).errors = [] :=
  telemetry_agrees [PicoMsg.recordEvent 7 Pico.Report.releaseAll, .playMetrics ⟨2, 0, -3, -1, -4, -1, -1, false⟩,
    .playFinished] (by
      intro msg hm
      simp only [List.mem_cons, List.not_mem_nil, or_false] at hm
      rcases hm with rfl | rfl | rfl
      · trivial
      · exact ⟨by decide, by decide, by decide, by decide, by decide⟩
      · trivial)

end Link
end PicoRecorder
