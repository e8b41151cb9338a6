import PicoRecorder.Lib.Fifo
import PicoRecorder.Pico.Queues
import PicoRecorder.Pico.Uart
/-!
# Fifos — every bounded queue of the firmware is one

The playback queue and the capture FIFO have indices and a count, the receive ring and the command ring two free-running
counters.  Each is run here on any list of its operations against `Lib.Fifo`, from any state it can be in, so also after
any number of wraps.  The receive interrupt falls between any two steps of a turn of `pico_uart_transport_poll`.
-/
namespace PicoRecorder
namespace Pico

open Lib (Ring CounterRing Fifo.push Fifo.pop offer outputs outputs_refines)

/-! ## Indices and a count -/

inductive QueueOp where
  /-- An offset or a timestamp, and the report with its length. -/
  | push (timeUs : UInt64) (report : List UInt8)
  | pop
  | peek
  | clear
  deriving DecidableEq, Repr

inductive QueueResult (α : Type) where
  | accepted (ok : Bool)
  | element (a : Option α)
  | done
  deriving DecidableEq, Repr

/-- What the operations are for: a report of eight bytes is stored if there is room. -/
def fifoQueue {α : Type} (capacity : Nat) (element : UInt64 → Report → α) (queue : List α) :
    QueueOp → QueueResult α × List α
  | .push timeUs report =>
    if report.length ≠ hidBootKeyboardReportLen then (.accepted false, queue)
    else
      let pushed := Fifo.push capacity queue (element timeUs (Report.ofBytes report))
      (.accepted pushed.1, pushed.2)
  | .pop => (.element (Fifo.pop queue).1, (Fifo.pop queue).2)
  | .peek => (.element queue.head?, queue)
  | .clear => (.done, [])

def PlaybackQueue.apply (q : PlaybackQueue) : QueueOp → QueueResult PlaybackEvent × PlaybackQueue
  | .push offsetUs report =>
    let pushed := offer q (PlaybackQueue.push q offsetUs report)
    (.accepted pushed.1, pushed.2)
  | .pop => (.element q.peek, q.pop)
  | .peek => (.element q.peek, q)
  | .clear => (.done, q.clear)

theorem PlaybackQueue.apply_fifo (q : PlaybackQueue) (op : QueueOp) :
    (q.apply op).1 = (fifoQueue playbackQueueCapacity PlaybackEvent.mk q.toList op).1 ∧
      (q.apply op).2.toList = (fifoQueue playbackQueueCapacity PlaybackEvent.mk q.toList op).2 := by
  cases op with
  | push offsetUs report =>
    by_cases hlength : report.length = hidBootKeyboardReportLen
    · obtain ⟨hok, hlist⟩ := Ring.offer_push q ⟨offsetUs, Report.ofBytes report⟩
      simp [PlaybackQueue.apply, PlaybackQueue.push, fifoQueue, hlength, hok, hlist]
    · simp [PlaybackQueue.apply, PlaybackQueue.push, fifoQueue, hlength, offer]
  | pop => simp [PlaybackQueue.apply, fifoQueue, Fifo.pop, Ring.peek_eq]
  | peek => simp [PlaybackQueue.apply, fifoQueue, Ring.peek_eq]
  | clear => simp [PlaybackQueue.apply, fifoQueue]

/-- The capture FIFO has one operation more, which stores nothing. -/
inductive CaptureOp where
  | queue (op : QueueOp)
  | markHeadRecorded
  deriving DecidableEq, Repr

def fifoCapture (queue : List CaptureEvent) : CaptureOp → QueueResult CaptureEvent × List CaptureEvent
  | .queue op => fifoQueue keyboardCaptureCapacity CaptureEvent.mk queue op
  | .markHeadRecorded => (.done, queue)

def Capture.apply (c : Capture) : CaptureOp → QueueResult CaptureEvent × Capture
  | .queue (.push timestampUs report) =>
    let pushed := offer c (c.push timestampUs report)
    (.accepted pushed.1, pushed.2)
  | .queue .pop => (.element c.peek, c.pop)
  | .queue .peek => (.element c.peek, c)
  | .queue .clear => (.done, c.clear)
  | .markHeadRecorded => (.done, c.markHeadRecorded)

theorem Capture.toList_pop (c : Capture) : c.pop.toList = c.toList.tail := by
  unfold Capture.pop
  split
  · rename_i hzero
    rw [(count_eq_zero c).1 hzero]
    rfl
  · exact Ring.toList_pop _

theorem Capture.apply_fifo (c : Capture) (op : CaptureOp) :
    (c.apply op).1 = (fifoCapture c.toList op).1 ∧ (c.apply op).2.toList = (fifoCapture c.toList op).2 := by
  have hpeek : c.peek = c.toList.head? := Ring.peek_eq _
  rcases op with (⟨timestampUs, report⟩ | _ | _ | _) | _
  · by_cases hlength : report.length = hidBootKeyboardReportLen
    · have hoffer := Ring.offer_push c.events ⟨timestampUs, Report.ofBytes report⟩
      cases hpush : c.events.push ⟨timestampUs, Report.ofBytes report⟩ <;> rw [hpush] at hoffer <;>
        simpa [Capture.apply, Capture.push, fifoCapture, fifoQueue, hlength, hpush, offer, Capture.toList] using hoffer
    · simp [Capture.apply, Capture.push, fifoCapture, fifoQueue, hlength, offer]
  · simp [Capture.apply, fifoCapture, fifoQueue, Fifo.pop, hpeek, Capture.toList_pop]
  · simp [Capture.apply, fifoCapture, fifoQueue, hpeek]
  · simp [Capture.apply, fifoCapture, fifoQueue]
  · simp [Capture.apply, fifoCapture]

/-! ## Free-running counters -/

/-- Where a turn of the loop of `pico_uart_transport_poll` is: before its test of the counters, before it loads the
byte, before it advances `rx_tail`, and before it runs the byte through the parser. -/
inductive PollAt where
  | test
  | load
  | advance (byte : UInt8)
  | parse (byte : UInt8)
  deriving DecidableEq, Repr

/-- The transport, in the middle of a poll. -/
structure Polling where
  uart : Uart
  at_ : PollAt

inductive RxOp where
  | interrupt (byte : UInt8)
  | poll
  deriving DecidableEq, Repr

inductive RxResult where
  | accepted (ok : Bool)
  /-- The byte that has left the ring. -/
  | taken (byte : Option UInt8)
  deriving DecidableEq, Repr

def Polling.apply (p : Polling) : RxOp → RxResult × Polling
  | .interrupt byte =>
    let uart := p.uart.rxPushIsr byte
    (.accepted (uart.stats.rxOverflow = p.uart.stats.rxOverflow), { p with uart := uart })
  | .poll =>
    match p.at_ with
    | .test => (.taken none, if p.uart.rx.tail = p.uart.rx.head then p else { p with at_ := .load })
    | .load => (.taken none, { p with at_ := .advance p.uart.rx.front })
    | .advance byte => (.taken (some byte), ⟨{ p.uart with rx := p.uart.rx.advance }, .parse byte⟩)
    | .parse byte => (.taken none, ⟨p.uart.parseByte byte, .test⟩)

/-- The queue of the bytes, and how far the poll has come: it looks at the oldest byte and then removes it. -/
def fifoRx (queue : List UInt8 × PollAt) : RxOp → RxResult × (List UInt8 × PollAt)
  | .interrupt byte =>
    let pushed := Fifo.push uartRxRingCapacity queue.1 byte
    (.accepted pushed.1, (pushed.2, queue.2))
  | .poll =>
    match queue.2 with
    | .test => (.taken none, (queue.1, if queue.1 = [] then .test else .load))
    | .load => (.taken none, (queue.1, (queue.1.head?).elim .test .advance))
    | .advance byte => (.taken (Fifo.pop queue.1).1, ((Fifo.pop queue.1).2, .parse byte))
    | .parse _ => (.taken none, (queue.1, .test))

/-- The ring holds the bytes of the queue, and the byte the poll has loaded is the oldest of them. -/
def Polling.Holds (p : Polling) (queue : List UInt8 × PollAt) : Prop :=
  queue = (p.uart.rx.toList, p.at_) ∧ (p.at_ = .load → p.uart.rx.toList ≠ []) ∧
    ∀ byte, p.at_ = .advance byte → p.uart.rx.toList.head? = some byte

theorem Uart.rxPushIsr_rx (u : Uart) (byte : UInt8) : (u.rxPushIsr byte).rx = (offer u.rx (u.rx.push byte)).2 ∧
    decide ((u.rxPushIsr byte).stats.rxOverflow = u.stats.rxOverflow) = (offer u.rx (u.rx.push byte)).1 := by
  unfold Uart.rxPushIsr
  cases u.rx.push byte with
  | none => exact ⟨rfl, by simp [offer]⟩
  | some rx => exact ⟨rfl, by simp [offer]⟩

/-- An element that is already stored stays the oldest one. -/
theorem head?_push {capacity : Nat} {queue : List UInt8} {byte : UInt8} (h : queue ≠ []) :
    (Fifo.push capacity queue byte).2 ≠ [] ∧ (Fifo.push capacity queue byte).2.head? = queue.head? := by
  obtain ⟨oldest, rest, rfl⟩ := List.exists_cons_of_ne_nil h
  unfold Fifo.push
  split <;> simp

theorem Polling.apply_fifo {p : Polling} {queue : List UInt8 × PollAt} (op : RxOp) (h : p.Holds queue) :
    (p.apply op).1 = (fifoRx queue op).1 ∧ (p.apply op).2.Holds (fifoRx queue op).2 := by
  obtain ⟨rfl, hload, hadvance⟩ := h
  cases op with
  | interrupt byte =>
    obtain ⟨hrx, hok⟩ := p.uart.rxPushIsr_rx byte
    obtain ⟨hfifo, hlist⟩ := CounterRing.offer_push p.uart.rx byte
    have hnew : (p.uart.rxPushIsr byte).rx.toList = (Fifo.push uartRxRingCapacity p.uart.rx.toList byte).2 := by
      rw [hrx, hlist]
    refine ⟨by simp [Polling.apply, fifoRx, hok, hfifo], by simp [Polling.apply, fifoRx, hnew], fun hat => ?_,
      fun loaded hat => ?_⟩
    · simpa [Polling.apply, hnew] using (head?_push (hload hat)).1
    · have hne : p.uart.rx.toList ≠ [] := by
        intro hnil
        simpa [hnil] using hadvance loaded hat
      simpa [Polling.apply, hnew, (head?_push hne).2] using hadvance loaded hat
  | poll =>
    cases hat : p.at_ with
    | test =>
      by_cases hempty : p.uart.rx.tail = p.uart.rx.head
      · have hnil := p.uart.rx.tail_eq_head.1 hempty
        simp [Polling.apply, fifoRx, Polling.Holds, hat, hempty, hnil]
      · have hne : p.uart.rx.toList ≠ [] := fun hnil => hempty (p.uart.rx.tail_eq_head.2 hnil)
        simp [Polling.apply, fifoRx, Polling.Holds, hat, hempty, hne]
    | load =>
      have hfront := p.uart.rx.front_eq (hload hat)
      simp [Polling.apply, fifoRx, Polling.Holds, hat, hfront]
    | advance byte =>
      have hhead := hadvance byte hat
      simp [Polling.apply, fifoRx, Polling.Holds, hat, Fifo.pop, hhead, CounterRing.toList_advance]
    | parse byte =>
      have hrx := p.uart.parseByte_rx byte
      simp [Polling.apply, fifoRx, Polling.Holds, hat, hrx]

/-- With no interrupt in between, the four steps are one turn of the loop. -/
theorem Polling.turn (u : Uart) :
    (outputs Polling.apply [.poll, .poll, .poll, .poll] ⟨u, .test⟩).2 =
      ⟨u.pollByte, .test⟩ ∨ u.rx.toList = [] := by
  by_cases hempty : u.rx.tail = u.rx.head
  · exact .inr (u.rx.tail_eq_head.1 hempty)
  · refine .inl ?_
    have hne : u.rx.toList ≠ [] := fun hnil => hempty (u.rx.tail_eq_head.2 hnil)
    unfold Uart.pollByte
    cases hpop : u.rx.pop with
    | none => exact absurd (u.rx.pop_eq_none.1 hpop) hne
    | some popped =>
      have hfront : u.rx.front = popped.1 := by
        have hhead := u.rx.front_eq hne
        rw [u.rx.toList_pop popped.2 popped.1 hpop] at hhead
        exact (Option.some.inj hhead).symm
      have hadvance : u.rx.advance = popped.2 := by simp [CounterRing.advance, hpop]
      simp [outputs, Polling.apply, hempty, hfront, hadvance]

inductive CommandOp where
  | enqueue (frame : Frame)
  | pop
  deriving DecidableEq, Repr

inductive CommandResult where
  | accepted (ok : Bool)
  | command (frame : Option Frame)
  deriving DecidableEq, Repr

def Uart.applyCommand (u : Uart) : CommandOp → CommandResult × Uart
  | .enqueue frame =>
    let after := u.enqueueCommand frame
    (.accepted (after.stats = u.stats), after)
  | .pop => (.command (u.popCommand.map Prod.fst), (u.popCommand.map Prod.snd).getD u)

/-- A frame that is a command of the right length is stored if there is room. -/
def fifoCommands (queue : List Frame) : CommandOp → CommandResult × List Frame
  | .enqueue frame =>
    if !typeIsCommand frame.type || !framePayloadValid frame then (.accepted false, queue)
    else
      let pushed := Fifo.push uartCommandCapacity queue frame
      (.accepted pushed.1, pushed.2)
  | .pop => (.command (Fifo.pop queue).1, (Fifo.pop queue).2)

theorem Uart.applyCommand_fifo (u : Uart) (op : CommandOp) :
    (u.applyCommand op).1 = (fifoCommands u.commands.toList op).1 ∧
      (u.applyCommand op).2.commands.toList = (fifoCommands u.commands.toList op).2 := by
  cases op with
  | enqueue frame =>
    by_cases hvalid : (!typeIsCommand frame.type || !framePayloadValid frame) = true
    · have hrejected : u.enqueueCommand frame = u.noteDecodeError := if_pos hvalid
      have hstats : u.noteDecodeError.stats ≠ u.stats := by
        intro heq
        simpa [Uart.noteDecodeError] using congrArg UartStats.invalidFrames heq
      simp only [Uart.applyCommand, fifoCommands, hrejected, hvalid, hstats, decide_false]
      exact ⟨rfl, rfl⟩
    · obtain ⟨hok, hlist⟩ := CounterRing.offer_push u.commands frame
      simp only [Uart.applyCommand, fifoCommands, Uart.enqueueCommand, if_neg hvalid, ← hok, ← hlist]
      cases u.commands.push frame with
      | none =>
        have hstats : ({ u.stats with commandOverflow := u.stats.commandOverflow + 1 } : UartStats) ≠ u.stats := by
          intro heq
          simpa using congrArg UartStats.commandOverflow heq
        simp [offer, hstats, Uart.latchFault]
      | some commands => simp [offer]
  | pop =>
    obtain ⟨hfirst, hrest⟩ := CounterRing.pop_fifo u.commands
    rw [Uart.applyCommand, fifoCommands, ← hfirst, ← hrest, Uart.popCommand]
    cases u.commands.pop <;> exact ⟨rfl, rfl⟩

/-- **Every bounded queue of the firmware is a bounded FIFO**, through any list of its operations from any state it can
be in: it answers what the queue of its elements answers, and holds them.  The receive interrupt comes at any point of a
poll. -/
theorem queues_refine_fifo :
    (∀ (ops : List QueueOp) (q : PlaybackQueue),
      let after := outputs PlaybackQueue.apply ops q
      let spec := outputs (fifoQueue playbackQueueCapacity PlaybackEvent.mk) ops q.toList
      after.1 = spec.1 ∧ after.2.toList = spec.2) ∧
    (∀ (ops : List CaptureOp) (c : Capture),
      let after := outputs Capture.apply ops c
      let spec := outputs fifoCapture ops c.toList
      after.1 = spec.1 ∧ after.2.toList = spec.2) ∧
    (∀ (ops : List RxOp) (u : Uart),
      let after := outputs Polling.apply ops ⟨u, .test⟩
      let spec := outputs fifoRx ops (u.rx.toList, .test)
      after.1 = spec.1 ∧ (after.2.uart.rx.toList, after.2.at_) = spec.2) ∧
    ∀ (ops : List CommandOp) (u : Uart),
      let after := outputs Uart.applyCommand ops u
      let spec := outputs fifoCommands ops u.commands.toList
      after.1 = spec.1 ∧ after.2.commands.toList = spec.2 := by
  refine ⟨fun ops q => ?_, fun ops c => ?_, fun ops u => ?_, fun ops u => ?_⟩
  · refine outputs_refines (R := fun (q : PlaybackQueue) queue => q.toList = queue) ?_ ops rfl
    rintro q queue op rfl
    exact q.apply_fifo op
  · refine outputs_refines (R := fun (c : Capture) queue => c.toList = queue) ?_ ops rfl
    rintro c queue op rfl
    exact c.apply_fifo op
  · have hstart : Polling.Holds ⟨u, .test⟩ (u.rx.toList, .test) := ⟨rfl, by simp, by simp⟩
    obtain ⟨hout, hholds⟩ := outputs_refines (fun _ _ op h => Polling.apply_fifo op h) ops hstart
    exact ⟨hout, hholds.1.symm⟩
  · refine outputs_refines (R := fun (u : Uart) queue => u.commands.toList = queue) ?_ ops rfl
    rintro u queue op rfl
    exact u.applyCommand_fifo op

end Pico
end PicoRecorder
