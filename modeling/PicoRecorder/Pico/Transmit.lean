import PicoRecorder.Lib.Run
import PicoRecorder.Pico.Uart
/-!
# Transmit — the sending half of the transport (`uart_transport.c`)

A frame is encoded whole and goes into the ring only if all of it fits, so a full ring drops frames and never bytes.
-/
namespace PicoRecorder
namespace Pico

open Lib (CounterRing)

def uartTxRingCapacity : Nat := 2048

/-- The fields of the transport that sending uses. -/
structure Transmitter where
  tx : CounterRing UInt8 uartTxRingCapacity 16
  txDropped : UInt32

namespace Transmitter

/-- `pico_uart_transport_init`. -/
def init : Transmitter where
  tx := CounterRing.init uartTxRingCapacity 16 0 (by decide) (by decide) (by decide)
  txDropped := 0

def drop (t : Transmitter) : Bool × Transmitter := (false, { t with txDropped := t.txDropped + 1 })

/-- `pico_uart_transport_queue_frame`. -/
def queueFrame (type : UInt8) (payload : List UInt8) (t : Transmitter) : Bool × Transmitter :=
  match encodeFrame type payload uartParserCapacity with
  | none => t.drop
  | some encoded =>
    if h : t.tx.count + encoded.length > uartTxRingCapacity then t.drop
    else (true, { t with tx := CounterRing.storeAll encoded t.tx (by omega) })

/-- `pico_uart_transport_pop_tx_byte`. -/
def popTxByte (t : Transmitter) : Option (UInt8 × Transmitter) := t.tx.pop.map (fun r => (r.1, { t with tx := r.2 }))

/-- What the ring holds, oldest byte first. -/
def ring (t : Transmitter) : List UInt8 := t.tx.toList

/-- **A call appends the whole encoding or nothing**, and counts what it drops. -/
theorem queueFrame_cases (type : UInt8) (payload : List UInt8) (t : Transmitter) :
    (∃ encoded, encodeFrame type payload uartParserCapacity = some encoded ∧ (t.queueFrame type payload).1 = true ∧
      (t.queueFrame type payload).2.ring = t.ring ++ encoded ∧
      (t.queueFrame type payload).2.txDropped = t.txDropped) ∨
    ((t.queueFrame type payload).1 = false ∧ (t.queueFrame type payload).2.ring = t.ring ∧
      (t.queueFrame type payload).2.txDropped = t.txDropped + 1) := by
  unfold queueFrame
  cases encodeFrame type payload uartParserCapacity with
  | none => exact .inr ⟨rfl, rfl, rfl⟩
  | some encoded =>
    dsimp only
    by_cases h : t.tx.count + encoded.length > uartTxRingCapacity
    · rw [dif_pos h]
      exact .inr ⟨rfl, rfl, rfl⟩
    · rw [dif_neg h]
      exact .inl ⟨encoded, rfl, rfl, CounterRing.toList_storeAll _ _ _, rfl⟩

theorem ring_pop {t t' : Transmitter} {byte : UInt8} (h : t.popTxByte = some (byte, t')) :
    t.ring = byte :: t'.ring := by
  unfold popTxByte at h
  obtain ⟨⟨b, tx⟩, hpop, heq⟩ := Option.map_eq_some_iff.1 h
  cases heq
  exact CounterRing.toList_pop _ _ _ hpop

end Transmitter

/-! ## Runs -/

inductive TxOp where
  | queueFrame (type : UInt8) (payload : List UInt8)
  | popTxByte
  deriving DecidableEq, Repr

/-- One call of `queue_frame` and what it returned. -/
structure TxCall where
  type : UInt8
  payload : List UInt8
  queued : Bool
  deriving DecidableEq, Repr

/-- The bytes of a call that returned true. -/
def TxCall.sent (call : TxCall) : List UInt8 :=
  if call.queued then (encodeFrame call.type call.payload uartParserCapacity).getD [] else []

structure TxRun where
  transmitter : Transmitter
  popped : List UInt8
  calls : List TxCall

namespace TxRun

def init : TxRun := ⟨.init, [], []⟩

def apply (r : TxRun) : TxOp → TxRun
  | .queueFrame type payload =>
    let queued := r.transmitter.queueFrame type payload
    { r with transmitter := queued.2, calls := r.calls ++ [⟨type, payload, queued.1⟩] }
  | .popTxByte =>
    match r.transmitter.popTxByte with
    | none => r
    | some (byte, transmitter) => { r with transmitter := transmitter, popped := r.popped ++ [byte] }

def run (ops : List TxOp) : TxRun := ops.foldl apply init

/-- What went out and what waits are the sent frames, and every call that returned true had one. -/
structure Whole (r : TxRun) : Prop where
  bytes : r.popped ++ r.transmitter.ring = r.calls.flatMap TxCall.sent
  encoded : ∀ call ∈ r.calls, call.queued = true → (encodeFrame call.type call.payload uartParserCapacity).isSome

theorem Whole.apply {r : TxRun} (h : r.Whole) (op : TxOp) : (r.apply op).Whole := by
  cases op with
  | queueFrame type payload =>
    rcases Transmitter.queueFrame_cases type payload r.transmitter with ⟨encoded, he, ht, hr, -⟩ | ⟨hf, hr, -⟩
    · refine ⟨?_, fun call hc hq => ?_⟩
      · simp [TxRun.apply, ← h.bytes, TxCall.sent, ht, hr, he]
      · rcases List.mem_append.1 hc with hc | hc
        · exact h.encoded call hc hq
        · obtain rfl := List.mem_singleton.1 hc
          simp [he]
    · refine ⟨?_, fun call hc hq => ?_⟩
      · simp [TxRun.apply, ← h.bytes, TxCall.sent, hf, hr]
      · rcases List.mem_append.1 hc with hc | hc
        · exact h.encoded call hc hq
        · obtain rfl := List.mem_singleton.1 hc
          rw [hf] at hq
          cases hq
  | popTxByte =>
    simp only [TxRun.apply]
    cases hp : r.transmitter.popTxByte with
    | none => exact h
    | some popped =>
      obtain ⟨byte, transmitter⟩ := popped
      refine ⟨?_, h.encoded⟩
      have hbytes := h.bytes
      rw [Transmitter.ring_pop hp] at hbytes
      rw [List.append_assoc]
      exact hbytes

theorem run_whole (ops : List TxOp) : (run ops).Whole :=
  Lib.foldl_invariant (P := Whole) (fun _ op h => h.apply op) ops init
    ⟨by simp [init, Transmitter.ring, Transmitter.init], by simp [init]⟩

/-- **A full ring drops whole frames only.**  Whatever was queued and popped in whatever order, the bytes popped and
then the bytes in the ring are the encodings of the calls that returned true, in the order of the calls; a call that
returns false leaves the ring as it was and is counted. -/
theorem tx_whole_frames (ops : List TxOp) :
    (run ops).popped ++ (run ops).transmitter.ring = (run ops).calls.flatMap TxCall.sent ∧
      (∀ call ∈ (run ops).calls, call.queued = true →
        (encodeFrame call.type call.payload uartParserCapacity).isSome) ∧
      ∀ type payload, ((run ops).transmitter.queueFrame type payload).1 = false →
        ((run ops).transmitter.queueFrame type payload).2.ring = (run ops).transmitter.ring ∧
          ((run ops).transmitter.queueFrame type payload).2.txDropped = (run ops).transmitter.txDropped + 1 := by
  refine ⟨(run_whole ops).bytes, (run_whole ops).encoded, fun type payload hf => ?_⟩
  rcases Transmitter.queueFrame_cases type payload (run ops).transmitter with ⟨_, _, ht, _⟩ | ⟨_, hr, hd⟩
  · rw [ht] at hf
    cases hf
  · exact ⟨hr, hd⟩

end TxRun
end Pico
end PicoRecorder
