import PicoRecorder.Lib.CounterRing
import PicoRecorder.Pico.Grammar
/-!
# Uart — the receiving half of the transport (`uart_transport.c`)

The receive interrupt pushes bytes into one ring; the main loop takes them out, runs them through the parser and puts
the commands into a second ring.  One turn of the loop in `pico_uart_transport_poll` is a step of its own, since the
interrupt may fall between any two of them.  Of the statistics the model has the ones that are read back or tell an
overflow.
-/
namespace PicoRecorder
namespace Pico

open Lib (CounterRing)

def uartRxRingCapacity : Nat := 512
def uartCommandCapacity : Nat := 8
def uartParserCapacity : Nat := protocolHeaderLen + protocolMaxPayload + protocolCrcLen

structure UartStats where
  rxOverflow : UInt32
  hardwareErrors : UInt32
  invalidFrames : UInt32
  commandOverflow : UInt32
  deriving DecidableEq, Repr

structure Uart where
  rx : CounterRing UInt8 uartRxRingCapacity 16
  commands : CounterRing Frame uartCommandCapacity 8
  /-- The first `parser_len` bytes of the parser's buffer. -/
  parser : List UInt8
  faultPending : Bool
  stats : UartStats

namespace Uart

/-- `pico_uart_transport_init`. -/
def init : Uart where
  rx := CounterRing.init uartRxRingCapacity 16 0 (by decide) (by decide) (by decide)
  commands := CounterRing.init uartCommandCapacity 8 ⟨0, []⟩ (by decide) (by decide) (by decide)
  parser := []
  faultPending := false
  stats := ⟨0, 0, 0, 0⟩

def latchFault (u : Uart) : Uart := { u with faultPending := true }

/-- `pico_uart_transport_rx_push_isr`. -/
def rxPushIsr (byte : UInt8) (u : Uart) : Uart :=
  match u.rx.push byte with
  | none => { u.latchFault with stats := { u.stats with rxOverflow := u.stats.rxOverflow + 1 } }
  | some rx => { u with rx := rx }

def noteDecodeError (u : Uart) : Uart :=
  { u.latchFault with stats := { u.stats with invalidFrames := u.stats.invalidFrames + 1 } }

def enqueueCommand (frame : Frame) (u : Uart) : Uart :=
  if !typeIsCommand frame.type || !framePayloadValid frame then u.noteDecodeError
  else
    match u.commands.push frame with
    | none => { u.latchFault with stats := { u.stats with commandOverflow := u.stats.commandOverflow + 1 } }
    | some commands => { u with commands := commands }

/-- What `pico_uart_transport_poll` does with one byte. -/
def parseByte (byte : UInt8) (u : Uart) : Uart :=
  if u.parser = [] ∧ byte ≠ protocolMagic then u.noteDecodeError
  else
    let u := if u.parser.length ≥ uartParserCapacity then { u.noteDecodeError with parser := [] } else u
    let parser := u.parser ++ [byte]
    if parser.length = 2 ∧ parser.getD 1 0 ≠ protocolVersion then { u.noteDecodeError with parser := [] }
    else if parser.length < protocolHeaderLen then { u with parser := parser }
    else
      let payloadLen := declaredLength parser
      if payloadLen > protocolMaxPayload then { u.noteDecodeError with parser := [] }
      else if parser.length < 7 + payloadLen then { u with parser := parser }
      else
        match decodeFrame (parser.take (7 + payloadLen)) with
        | .error _ => { u.noteDecodeError with parser := [] }
        | .ok frame => { u.enqueueCommand frame with parser := [] }

/-- One turn of the loop of `pico_uart_transport_poll`; nothing when the ring is empty. -/
def pollByte (u : Uart) : Uart :=
  match u.rx.pop with
  | none => u
  | some (byte, rx) => { u with rx := rx }.parseByte byte

/-- `pico_uart_transport_poll` with no interrupt in between. -/
def poll (u : Uart) : Uart := Nat.repeat pollByte u.rx.count u

/-- `pico_uart_transport_pop_command`. -/
def popCommand (u : Uart) : Option (Frame × Uart) :=
  u.commands.pop.map (fun r => (r.1, { u with commands := r.2 }))

/-- `pico_uart_transport_take_fault`. -/
def takeFault (u : Uart) : Bool × Uart := (u.faultPending, { u with faultPending := false })

end Uart

/-! ## The parser against its grammar -/

/-- The transport as the grammar's parser sees it, with the commands taken out before. -/
def Uart.view (popped : List Frame) (u : Uart) : Parse := ⟨u.parser, popped ++ u.commands.toList, u.faultPending⟩

theorem Legal.length_lt {bytes : List UInt8} (h : Legal bytes) : bytes.length < uartParserCapacity := by
  have h₅ := h.2.2
  unfold uartParserCapacity protocolHeaderLen protocolMaxPayload protocolCrcLen
  unfold protocolMaxPayload at h₅
  omega

/-- A legal beginning is short of the whole frame, so it ends with the next byte at the latest. -/
theorem Legal.length_snoc_le {bytes : List UInt8} (h : Legal bytes) (byte : UInt8) :
    (bytes ++ [byte]).length ≤ 7 + declaredLength (bytes ++ [byte]) := by
  by_cases h5 : 5 ≤ bytes.length
  · have := (h.2.2 h5).2
    rw [declaredLength_append h5, List.length_append, List.length_singleton]
    omega
  · rw [List.length_append, List.length_singleton]
    omega

/-- The tests the transport makes on a new byte are the ones by which a legal beginning stays legal. -/
theorem legal_snoc {bytes : List UInt8} (h : Legal bytes) (byte : UInt8) :
    Legal (bytes ++ [byte]) ↔
      ¬(bytes = [] ∧ byte ≠ protocolMagic) ∧
      ¬((bytes ++ [byte]).length = 2 ∧ (bytes ++ [byte]).getD 1 0 ≠ protocolVersion) ∧
      ((bytes ++ [byte]).length < 5 ∨ declaredLength (bytes ++ [byte]) ≤ protocolMaxPayload ∧
        (bytes ++ [byte]).length < 7 + declaredLength (bytes ++ [byte])) := by
  constructor
  · rintro ⟨h₀, h₁, h₅⟩
    refine ⟨?_, fun hv => hv.2 (h₁ (by omega)), ?_⟩
    · rintro ⟨rfl, hb⟩
      exact hb (h₀ (by simp))
    · by_cases hl : (bytes ++ [byte]).length < 5
      · exact .inl hl
      · exact .inr (h₅ (by omega))
  · rintro ⟨h₀, h₁, h₅⟩
    refine ⟨fun _ => ?_, fun hl => ?_, fun hl => ?_⟩
    · by_cases hb : bytes = []
      · subst hb
        by_contra hm
        exact h₀ ⟨rfl, hm⟩
      · rw [getD_append_left (List.length_pos_of_ne_nil hb)]
        exact h.1 hb
    · by_cases hl' : (bytes ++ [byte]).length = 2
      · by_contra hv
        exact h₁ ⟨hl', hv⟩
      · rw [List.length_append, List.length_singleton] at hl hl'
        rw [getD_append_left (by omega)]
        exact h.2.1 (by omega)
    · exact h₅.resolve_left (by omega)

/-- A buffer that is given up early is no frame. -/
theorem decodeCommand_short {bytes : List UInt8} (h : bytes.length < 7) : decodeCommand bytes = none := by
  unfold decodeCommand decodeFrame
  rw [if_pos h]

theorem decodeCommand_long {bytes : List UInt8} (h : protocolMaxPayload < declaredLength bytes) :
    decodeCommand bytes = none := by
  cases hd : decodeCommand bytes with
  | none => rfl
  | some c =>
    obtain ⟨rfl, hc⟩ := decodeCommand_eq_some.1 hd
    rw [declaredLength_encode hc] at h
    have := payload_le hc.2
    omega

theorem Uart.enqueueCommand_view (u : Uart) (frame : Frame)
    (h : (u.enqueueCommand frame).stats.commandOverflow = u.stats.commandOverflow) (popped : List Frame) :
    (u.enqueueCommand frame).view popped =
      if typeIsCommand frame.type && framePayloadValid frame then
        { u.view popped with commands := popped ++ u.commands.toList ++ [frame] }
      else { u.view popped with fault := true } := by
  unfold Uart.enqueueCommand at h ⊢
  rw [← Bool.not_and] at h ⊢
  cases hv : typeIsCommand frame.type && framePayloadValid frame with
  | false => rfl
  | true =>
    rw [hv] at h
    cases hp : u.commands.push frame with
    | none =>
      rw [hp] at h
      simp at h
    | some commands =>
      simp [Uart.view, CounterRing.toList_push _ _ _ hp]

/-- The last branch of the parser, where the frame is complete. -/
theorem Uart.decode_view {u : Uart} {bytes : List UInt8} {u' : Uart} (popped : List Frame)
    (hu : u' = match decodeFrame bytes with
      | .error _ => { u.noteDecodeError with parser := [] }
      | .ok frame => { u.enqueueCommand frame with parser := [] })
    (h : u'.stats.commandOverflow = u.stats.commandOverflow) :
    u'.view popped = match decodeCommand bytes with
      | some c => { u.view popped with buffer := [], commands := popped ++ u.commands.toList ++ [c] }
      | none => { u.view popped with buffer := [], fault := true } := by
  unfold decodeCommand
  cases hd : decodeFrame bytes with
  | error e =>
    rw [hd] at hu
    rw [hu]
    rfl
  | ok frame =>
    rw [hd] at hu
    subst hu
    have hview := Uart.enqueueCommand_view u frame h popped
    dsimp only at h ⊢
    rw [show Uart.view popped { u.enqueueCommand frame with parser := [] } =
      { (u.enqueueCommand frame).view popped with buffer := [] } from rfl, hview]
    split <;> rfl

/-- **One byte of the transport is one byte of the grammar's parser**, as long as the command ring has room. -/
theorem Uart.parseByte_view {u : Uart} {byte : UInt8} (hl : Legal u.parser)
    (h : (u.parseByte byte).stats.commandOverflow = u.stats.commandOverflow) (popped : List Frame) :
    (u.parseByte byte).view popped = (u.view popped).feed byte := by
  have hcap : ¬u.parser.length ≥ uartParserCapacity := by have := hl.length_lt; omega
  have hlegal := legal_snoc hl byte
  unfold Uart.parseByte at h ⊢
  simp only [if_neg hcap] at h ⊢
  by_cases hm : u.parser = [] ∧ byte ≠ protocolMagic
  · rw [if_pos hm, feed_reject (fun hL => (hlegal.1 hL).1 hm) (decodeCommand_short (by simp [Uart.view, hm.1]))]
    simp [Uart.view, Uart.noteDecodeError, Uart.latchFault, hm.1]
  rw [if_neg hm] at h ⊢
  by_cases hv : (u.parser ++ [byte]).length = 2 ∧ (u.parser ++ [byte]).getD 1 0 ≠ protocolVersion
  · have hshort : (u.parser ++ [byte]).length < 7 := by omega
    rw [if_pos hv, feed_reject (fun hL => (hlegal.1 hL).2.1 hv) (decodeCommand_short hshort)]
    rfl
  rw [if_neg hv] at h ⊢
  by_cases hs : (u.parser ++ [byte]).length < protocolHeaderLen
  · rw [if_pos hs, feed_of_legal (hlegal.2 ⟨hm, hv, .inl hs⟩)]
    rfl
  rw [if_neg hs] at h ⊢
  have h5 : 5 ≤ (u.parser ++ [byte]).length := Nat.le_of_not_lt hs
  by_cases hlong : declaredLength (u.parser ++ [byte]) > protocolMaxPayload
  · have hL : ¬Legal (u.parser ++ [byte]) := fun hL => Nat.not_le_of_gt hlong (hL.2.2 h5).1
    rw [if_pos hlong, feed_reject (p := u.view popped) hL (decodeCommand_long hlong)]
    rfl
  rw [if_neg hlong] at h ⊢
  by_cases hshort : (u.parser ++ [byte]).length < 7 + declaredLength (u.parser ++ [byte])
  · rw [if_pos hshort, feed_of_legal (hlegal.2 ⟨hm, hv, .inr ⟨Nat.le_of_not_lt hlong, hshort⟩⟩)]
    rfl
  rw [if_neg hshort] at h ⊢
  have hL : ¬Legal (u.parser ++ [byte]) := fun hL => hshort (hL.2.2 h5).2
  rw [List.take_of_length_le (hl.length_snoc_le byte)] at h ⊢
  rw [Uart.decode_view popped rfl h, Parse.feed]
  exact (if_neg hL).symm

theorem Uart.parseByte_rx (u : Uart) (byte : UInt8) : (u.parseByte byte).rx = u.rx := by
  unfold Uart.parseByte Uart.enqueueCommand Uart.noteDecodeError Uart.latchFault
  dsimp only
  repeat' split
  all_goals rfl

/-! ## Interleavings -/

/-- What happens to the transport: an interrupt with a byte, a turn of the poll loop, a call of `pop_command`. -/
inductive UartOp where
  | rxPush (byte : UInt8)
  | pollByte
  | popCommand
  deriving DecidableEq, Repr

/-- The transport, and the commands taken out of it so far. -/
structure UartRun where
  uart : Uart
  popped : List Frame

namespace UartRun

def start : UartRun := ⟨Uart.init, []⟩

def step (r : UartRun) : UartOp → UartRun
  | .rxPush byte => { r with uart := r.uart.rxPushIsr byte }
  | .pollByte => { r with uart := r.uart.pollByte }
  | .popCommand =>
    match r.uart.popCommand with
    | none => r
    | some (frame, uart) => ⟨uart, r.popped ++ [frame]⟩

def run (r : UartRun) (ops : List UartOp) : UartRun := ops.foldl step r

/-- Neither ring overflows: no operation moves one of the two overflow counters. -/
def NoOverflow : UartRun → List UartOp → Prop
  | _, [] => True
  | r, op :: ops =>
    (r.step op).uart.stats.rxOverflow = r.uart.stats.rxOverflow ∧
      (r.step op).uart.stats.commandOverflow = r.uart.stats.commandOverflow ∧ NoOverflow (r.step op) ops

instance : ∀ (r : UartRun) (ops : List UartOp), Decidable (r.NoOverflow ops)
  | _, [] => inferInstanceAs (Decidable True)
  | r, op :: ops =>
    have := instDecidableNoOverflow (r.step op) ops
    inferInstanceAs (Decidable (_ ∧ _ ∧ _))

end UartRun

def UartOp.byte? : UartOp → Option UInt8
  | .rxPush byte => some byte
  | _ => none

/-- The byte stream the interrupts brought. -/
def rxBytes (ops : List UartOp) : List UInt8 := ops.filterMap UartOp.byte?

/-- The stream so far is what the parser has read and what waits in the ring. -/
def UartRun.Reads (r : UartRun) (stream polled : List UInt8) : Prop :=
  stream = polled ++ r.uart.rx.toList ∧ r.uart.view r.popped = polled.foldl Parse.feed Parse.init

theorem UartRun.Reads.legal {r : UartRun} {stream polled : List UInt8} (h : r.Reads stream polled) :
    Legal r.uart.parser := by
  have := (Parse.cuts polled).legal
  rw [← h.2] at this
  exact this

theorem UartRun.Reads.rxPush {r : UartRun} {stream polled : List UInt8} (h : r.Reads stream polled) {byte : UInt8}
    (hover : (r.uart.rxPushIsr byte).stats.rxOverflow = r.uart.stats.rxOverflow) :
    (r.step (.rxPush byte)).Reads (stream ++ [byte]) polled := by
  obtain ⟨hstream, hview⟩ := h
  unfold Uart.rxPushIsr at hover
  cases hp : r.uart.rx.push byte with
  | none =>
    rw [hp] at hover
    simp at hover
  | some rx =>
    have hstep : r.step (.rxPush byte) = { r with uart := { r.uart with rx := rx } } := by
      unfold UartRun.step Uart.rxPushIsr
      dsimp only
      rw [hp]
    rw [hstep]
    exact ⟨by rw [hstream, (CounterRing.toList_push _ _ _ hp).1, List.append_assoc], hview⟩

/-- A turn of the poll loop that finds a byte reads it. -/
theorem UartRun.Reads.pollByte_some {r : UartRun} {stream polled : List UInt8} (h : r.Reads stream polled)
    {byte : UInt8} {rx : CounterRing UInt8 uartRxRingCapacity 16} (hp : r.uart.rx.pop = some (byte, rx))
    (hover : r.uart.pollByte.stats.commandOverflow = r.uart.stats.commandOverflow) :
    (r.step .pollByte).Reads stream (polled ++ [byte]) := by
  have hlegal := h.legal
  obtain ⟨hstream, hview⟩ := h
  unfold UartRun.step
  unfold Uart.pollByte at hover ⊢
  rw [hp] at hover ⊢
  refine ⟨?_, ?_⟩
  · rw [hstream, CounterRing.toList_pop _ _ _ hp]
    simp [Uart.parseByte_rx]
  · have hbyte := Uart.parseByte_view (u := { r.uart with rx := rx }) hlegal hover r.popped
    rw [List.foldl_append, ← hview]
    exact hbyte

theorem UartRun.step_pollByte_none {r : UartRun} (hp : r.uart.rx.pop = none) : r.step .pollByte = r := by
  unfold UartRun.step Uart.pollByte
  rw [hp]

theorem UartRun.Reads.pollByte {r : UartRun} {stream polled : List UInt8} (h : r.Reads stream polled)
    (hover : r.uart.pollByte.stats.commandOverflow = r.uart.stats.commandOverflow) :
    ∃ polled', (r.step .pollByte).Reads stream polled' := by
  cases hp : r.uart.rx.pop with
  | none => exact ⟨polled, by rw [UartRun.step_pollByte_none hp]; exact h⟩
  | some taken => exact ⟨_, h.pollByte_some hp hover⟩

theorem UartRun.Reads.popCommand {r : UartRun} {stream polled : List UInt8} (h : r.Reads stream polled) :
    (r.step .popCommand).Reads stream polled := by
  obtain ⟨hstream, hview⟩ := h
  unfold UartRun.step Uart.popCommand
  cases hp : r.uart.commands.pop with
  | none => exact ⟨hstream, hview⟩
  | some taken =>
    obtain ⟨frame, commands⟩ := taken
    refine ⟨hstream, ?_⟩
    rw [← hview]
    simp [Uart.view, CounterRing.toList_pop _ _ _ hp]

theorem UartRun.Reads.run : ∀ (ops : List UartOp) {r : UartRun} {stream polled : List UInt8}, r.Reads stream polled →
    r.NoOverflow ops → ∃ polled', (r.run ops).Reads (stream ++ rxBytes ops) polled'
  | [], _, stream, polled, h, _ => ⟨polled, by rw [rxBytes, List.filterMap_nil, List.append_nil]; exact h⟩
  | .rxPush byte :: ops, r, stream, polled, h, hover => by
    obtain ⟨polled', h'⟩ := UartRun.Reads.run ops (h.rxPush hover.1) hover.2.2
    rw [List.append_assoc] at h'
    exact ⟨polled', h'⟩
  | .pollByte :: ops, r, stream, polled, h, hover => by
    obtain ⟨polled₁, h₁⟩ := h.pollByte hover.2.1
    exact UartRun.Reads.run ops h₁ hover.2.2
  | .popCommand :: ops, r, stream, polled, h, hover => UartRun.Reads.run ops h.popCommand hover.2.2

/-- **Whatever the interleaving, the transport has read the stream as the grammar's parser reads it.** -/
theorem UartRun.reads {ops : List UartOp} (h : UartRun.start.NoOverflow ops) :
    ∃ polled, (UartRun.start.run ops).Reads (rxBytes ops) polled := by
  have hstart : UartRun.start.Reads [] [] := ⟨by simp [UartRun.start, Uart.init], rfl⟩
  exact UartRun.Reads.run ops hstart h

/-! ### A whole poll -/

theorem Uart.pollByte_rx {u : Uart} {byte : UInt8} {rx : CounterRing UInt8 uartRxRingCapacity 16}
    (h : u.rx.pop = some (byte, rx)) : u.pollByte.rx = rx := by
  unfold Uart.pollByte
  rw [h]
  exact Uart.parseByte_rx _ _

/-- Uninterrupted, `poll` leaves the receive ring empty. -/
theorem Uart.toList_poll (u : Uart) : u.poll.rx.toList = [] := by
  have key : ∀ n, (Nat.repeat Uart.pollByte n u).rx.toList = u.rx.toList.drop n := fun n => by
    induction n with
    | zero => rfl
    | succ n ih =>
      rw [Nat.repeat]
      cases hp : (Nat.repeat Uart.pollByte n u).rx.pop with
      | none =>
        have hnil := (CounterRing.pop_eq_none _).1 hp
        have hsame : (Nat.repeat Uart.pollByte n u).pollByte = Nat.repeat Uart.pollByte n u := by
          rw [Uart.pollByte, hp]
        rw [hsame, hnil]
        rw [ih] at hnil
        exact (List.drop_eq_nil_of_le (by rw [List.drop_eq_nil_iff] at hnil; omega)).symm
      | some taken =>
        obtain ⟨byte, rx⟩ := taken
        rw [Uart.pollByte_rx hp, ← List.tail_drop, ← ih, CounterRing.toList_pop _ _ _ hp]
        rfl
  rw [Uart.poll, key, ← CounterRing.length_toList, List.drop_length]

end Pico
end PicoRecorder
