import PicoRecorder.Pico.Uart
import PicoRecorder.PiZero.Codec
/-!
# Commands — what the Zero encodes and what the Pico parses

The language of the command parser, whatever the interrupts and the polls, and the frames the Zero's encoders put into
it.
-/
namespace PicoRecorder
namespace Link

open Pico
open PiZero (Request)

/-- What stands for the commands `cs` in a stream: their encodings, then the beginning of a frame. -/
def Spells (cs : List Frame) (Beginning : List UInt8 → Prop) (stream : List UInt8) : Prop :=
  ∃ rest, stream = cs.flatMap encode ++ rest ∧ (∀ c ∈ cs, WellFormed c) ∧ Beginning rest

/-- **The parser accepts its grammar, independently of chunking**: of the bytes read so far the commands taken out and
still queued are exactly those the bytes spell, and no fault is latched.  And what the Zero builds is such a
spelling. -/
theorem commands_spelled {ops : List UartOp} (h : UartRun.start.NoOverflow ops) :
    (∃ polled, rxBytes ops = polled ++ (UartRun.start.run ops).uart.rx.toList ∧
      ∀ cs, ((UartRun.start.run ops).uart.faultPending = false ∧
          (UartRun.start.run ops).popped ++ (UartRun.start.run ops).uart.commands.toList = cs) ↔
        Spells cs Legal polled) ∧
    ∀ (r : Request) (bytes : List UInt8), r.build = .ok bytes →
      bytes = encode r.frame ∧ WellFormed r.frame ∧ decodeFrame bytes = .ok r.frame := by
  constructor
  · obtain ⟨polled, hstream, hview⟩ := UartRun.reads h
    refine ⟨polled, hstream, fun cs => ?_⟩
    rw [Spells, ← parse_iff, ← hview]
    rfl
  · intro r bytes hb
    have hv := Request.valid_of_build hb
    have hw := Request.frame_wellFormed hv
    obtain rfl := Except.ok.inj ((Request.build_of_valid hv).symm.trans hb)
    exact ⟨rfl, hw, decodeFrame_frameBytes _ _ (payload_le hw.2)⟩

/-- A QUEUE_CLEAR in two chunks and the first byte of the next frame. -/
def splitQueueClear : List UartOp :=
  [.rxPush 0xA5, .pollByte, .rxPush 0x02, .rxPush 0x80, .rxPush 0, .pollByte, .pollByte, .rxPush 0, .pollByte,
   .rxPush 0xF2, .pollByte, .rxPush 0x52, .pollByte, .pollByte, .popCommand, .rxPush 0xA5, .pollByte]

theorem commands_spelled_split : UartRun.start.NoOverflow splitQueueClear ∧
    ∃ polled, rxBytes splitQueueClear = polled ++ (UartRun.start.run splitQueueClear).uart.rx.toList ∧
      ((UartRun.start.run splitQueueClear).uart.faultPending = false ∧
        (UartRun.start.run splitQueueClear).popped ++ (UartRun.start.run splitQueueClear).uart.commands.toList =
          [⟨0x80, []⟩]) ∧ Spells [⟨0x80, []⟩] Legal polled := by
  have hover : UartRun.start.NoOverflow splitQueueClear := by decide +kernel
  have hrun : (UartRun.start.run splitQueueClear).uart.faultPending = false ∧
      (UartRun.start.run splitQueueClear).popped ++ (UartRun.start.run splitQueueClear).uart.commands.toList =
        [⟨0x80, []⟩] := by decide +kernel
  obtain ⟨⟨polled, hstream, hiff⟩, -⟩ := commands_spelled hover
  exact ⟨hover, polled, hstream, hrun, (hiff _).1 hrun⟩

/-! ### The length is examined when both its bytes are there -/

/-- The beginning of a frame of legal version and length: some more bytes make it one. -/
def Completable (rest : List UInt8) : Prop :=
  ∃ (more : List UInt8) (type : UInt8) (payload : List UInt8) (c₀ c₁ : UInt8),
    more ≠ [] ∧ payload.length ≤ protocolMaxPayload ∧
      rest ++ more = [protocolMagic, protocolVersion, type] ++ leBytes 2 payload.length ++ payload ++ [c₀, c₁]

/-- A header up to a low length byte that no legal length has. -/
def lowLengthByte : List UartOp := [0xA5, 0x02, 0x80, 0xC8].flatMap (fun byte => [.rxPush byte, .pollByte])

/-- **A beginning that no frame completes is waited on**: the low length byte alone already exceeds the maximum, and the
transport neither faults nor drops it. -/
theorem lowLengthByte_waits :
    UartRun.start.NoOverflow lowLengthByte ∧ (UartRun.start.run lowLengthByte).uart.rx.toList = [] ∧
      (UartRun.start.run lowLengthByte).uart.commands.toList = [] ∧
      ¬∀ cs, ((UartRun.start.run lowLengthByte).uart.faultPending = false ∧
          (UartRun.start.run lowLengthByte).popped = cs) ↔ Spells cs Completable (rxBytes lowLengthByte) := by
  refine ⟨by decide +kernel, by decide +kernel, by decide +kernel, fun h => ?_⟩
  obtain ⟨rest, hstream, -, more, type, payload, c₀, c₁, -, hlen, hframe⟩ := (h []).1 (by decide +kernel)
  rw [List.flatMap_nil, List.nil_append] at hstream
  have hbytes : rxBytes lowLengthByte = [0xA5, 0x02, 0x80, 0xC8] := rfl
  rw [← hstream, hbytes] at hframe
  have hlow : (0xC8 : UInt8) = UInt8.ofNat (payload.length % 256) := by
    have := congrArg (fun l => l.getD 3 0) hframe
    exact this
  have := congrArg UInt8.toNat hlow
  unfold protocolMaxPayload at hlen
  rw [UInt8.toNat_ofNat'] at this
  have h200 : (0xC8 : UInt8).toNat = 200 := rfl
  omega

end Link
end PicoRecorder
