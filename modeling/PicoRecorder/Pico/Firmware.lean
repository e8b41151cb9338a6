import PicoRecorder.Pico.Scheduler
/-!
# Firmware — the normal build of the Pico (`main.c`, `mode_state.c`, `safety_release.c`, `hid_keyboard_host.c`,
`physical_report_dispatch.c`)

The globals of `main.c` are one `Fw`: the scheduler with its queue, and a `Rest` that holds the mode, the capture FIFO,
the pending release, the mounted keyboard and the board.  A `Board` is the hardware and the two libraries, TinyUSB and
the UART transmitter, with any answers at all.  `Rest.trace` is a history variable: the code writes it and never reads
it.
-/
namespace PicoRecorder
namespace Pico

inductive HidSource where
  | release | physical | playback
  deriving DecidableEq, Repr

/-- What a run remembers.  `entered` is a mode written by a transition, `allRelease` a call of `mode_all_release`. -/
inductive Obs where
  | captured (event : CaptureEvent)
  | pushed (event : PlaybackEvent) (accepted : Bool)
  | modeSet (target : UInt8) (accepted : Bool)
  | entered (mode : Mode)
  | allRelease
  | hid (source : HidSource) (report : Report) (accepted : Bool)
  | frame (msg : PicoMsg) (queued : Bool)
  | started (playbackStartUs : UInt64)
  | completed (reason : Reason) (metrics : Metrics)
  deriving DecidableEq

/-- The four transport counters `send_status` looks at, as "not zero". -/
structure LinkStats where
  rxOverflow : Bool
  hardwareErrors : Bool
  invalidFrames : Bool
  txDropped : Bool
  deriving DecidableEq, Repr

structure Board (β : Type) where
  tudTask : β → β
  hidReady : β → Bool
  hidReport : Report → β → Bool × β
  timeUs64 : β → UInt64 × β
  addAlarmAt : UInt64 → β → Int × β
  cancelAlarm : Int → β → β
  alarmIsr : β → Bool × β
  queueFrame : Frame → β → Bool × β
  stats : β → LinkStats
  txTask : β → β

/-- The part of `host_state` that decides anything; its statistics are read by nobody. -/
structure HostKeyboard where
  mounted : Bool
  devAddr : UInt8
  interface : UInt8
  deriving DecidableEq, Repr

structure Rest (β : Type) where
  mode : Mode
  capture : Capture
  releasePending : Bool
  flowControlFault : Bool
  keyboard : HostKeyboard
  board : β
  trace : List Obs

abbrev Fw (β : Type) := Machine (Rest β)

section Callbacks

variable {β : Type} (d : Board β)

def Rest.note (o : Obs) (r : Rest β) : Rest β := { r with trace := o :: r.trace }

def Rest.queueFrame (msg : PicoMsg) (r : Rest β) : Bool × Rest β :=
  let queued := d.queueFrame msg.toFrame r.board
  (queued.1, { r with board := queued.2, trace := .frame msg queued.1 :: r.trace })

/-- `pico_hid_keyboard_send_boot_report`, for each of its three callers. -/
def Rest.sendBootReport (source : HidSource) (report : Report) (r : Rest β) : Bool × Rest β :=
  if !d.hidReady r.board then (false, r.note (.hid source report false))
  else
    let sent := d.hidReport report r.board
    (sent.1, { r with board := sent.2, trace := .hid source report sent.1 :: r.trace })

def Rest.sendBufferStatus (queue : PlaybackQueue) (r : Rest β) : Bool × Rest β :=
  r.queueFrame d
    (.bufferStatus r.mode (UInt16.ofNat queue.count) (UInt16.ofNat (PlaybackQueue.freeCapacity queue)))

/-- A callback of the scheduler that lost its frame leaves the flow-control fault for the main loop. -/
def Rest.faultUnless (sent : Bool × Rest β) : Rest β :=
  if sent.1 then sent.2 else { sent.2 with flowControlFault := true }

def playbackUnderrun (elapsedOffsetUs : UInt64) (freeCapacity : UInt16) (r : Rest β) : Rest β :=
  Rest.faultUnless (r.queueFrame d (.playUnderrun elapsedOffsetUs freeCapacity))

def playbackBufferAvailable (queue : PlaybackQueue) (r : Rest β) : Rest β :=
  Rest.faultUnless (r.sendBufferStatus d queue)

/-- The frames of `playback_complete`. -/
def outcomeFrames (reason : Reason) (metrics : Metrics) (r : Rest β) : Rest β :=
  let r := r.note (.completed reason metrics)
  let r := (r.queueFrame d (if reason = .finished then .playFinished else .playAborted)).2
  (r.queueFrame d (.playMetrics metrics)).2

/-- The scheduler's host on a board, for a given completion callback. -/
def Board.host (onComplete : Reason → Metrics → Fw β → Fw β) : Host (Rest β) where
  timeUs64 r := ((d.timeUs64 r.board).1, { r with board := (d.timeUs64 r.board).2 })
  addAlarmAt deadline r := ((d.addAlarmAt deadline r.board).1, { r with board := (d.addAlarmAt deadline r.board).2 })
  cancelAlarm id r := { r with board := d.cancelAlarm id r.board }
  alarmIsr r := ((d.alarmIsr r.board).1, { r with board := (d.alarmIsr r.board).2 })
  sendReport report r := r.sendBootReport d .playback report
  onComplete := onComplete
  onUnderrun := playbackUnderrun d
  onBufferAvailable := playbackBufferAvailable d

/-- The host `mode_clear_queue` stops the scheduler with.  A stop completes with `ABORTED`, where `playback_complete`
queues its two frames and does not touch the mode again. -/
def Board.stopHost : Host (Rest β) :=
  d.host (fun reason metrics m => { m with rest := outcomeFrames d reason metrics m.rest })

end Callbacks

/-! ## `mode_state.c` with the callbacks of `main.c` -/

section Mode

variable {β : Type} (d : Board β)

def notify (reason : Reason) (m : Fw β) : Fw β :=
  { m with rest := (m.rest.queueFrame d (.modeChanged m.rest.mode reason)).2 }

def modeAllRelease (m : Fw β) : Fw β :=
  { m with rest := { m.rest with releasePending := true, trace := .allRelease :: m.rest.trace } }

def modeClearPhysical (m : Fw β) : Fw β := { m with rest := { m.rest with capture := m.rest.capture.clear } }

def modeClearQueue (m : Fw β) : Fw β :=
  let m := stop d.stopHost m
  { sched := m.sched.resetSequence, queue := m.queue.clear, rest := { m.rest with flowControlFault := false } }

def clearAndRelease (m : Fw β) : Fw β := modeAllRelease (modeClearPhysical m)

def clearReleaseAndQueue (m : Fw β) : Fw β := clearAndRelease (modeClearQueue d m)

/-- `mode->state = target`. -/
def enter (target : Mode) (m : Fw β) : Fw β :=
  { m with rest := { m.rest with mode := target, trace := .entered target :: m.rest.trace } }

/-- The block every queue-discarding transition repeats. -/
def transition (target : Mode) (reason : Reason) (m : Fw β) : Fw β :=
  notify d reason (enter target (clearReleaseAndQueue d m))

/-- A target byte that passed the range check. -/
def targetMode (target : UInt8) : Mode :=
  if target = Mode.pass.byte then .pass else if target = Mode.record.byte then .record else .armed

def handleModeSet (target : UInt8) (m : Fw β) : Bool × Fw β :=
  if target > Mode.armed.byte then (false, notify d .invalidTarget m)
  else if target = Mode.pass.byte then
    (true, if m.rest.mode ≠ .pass then transition d .pass .ok m else notify d .ok m)
  else if target = m.rest.mode.byte then (true, notify d .ok m)
  else if (target = Mode.record.byte ∨ target = Mode.armed.byte) ∧ m.rest.mode = .pass then
    (true, transition d (targetMode target) .ok m)
  else (false, notify d .invalidTransition m)

def playStart (m : Fw β) : Bool × Fw β :=
  if m.rest.mode ≠ .armed then (false, notify d .invalidTransition m)
  else (true, notify d .ok (enter .playing (clearAndRelease m)))

def playAbort (m : Fw β) : Bool × Fw β :=
  if m.rest.mode ≠ .armed ∧ m.rest.mode ≠ .playing then (false, notify d .invalidTransition m)
  else (true, transition d .armed .aborted m)

def playFinish (m : Fw β) : Bool × Fw β :=
  if m.rest.mode ≠ .playing then (false, notify d .invalidTransition m)
  else (true, transition d .armed .finished m)

/-- `enter_error`: a fault in PASS or ERROR is reported and changes nothing. -/
def enterError (reason : Reason) (m : Fw β) : Fw β :=
  if m.rest.mode ≠ .pass ∧ m.rest.mode ≠ .error then transition d .error reason m else notify d reason m

def playbackComplete (reason : Reason) (metrics : Metrics) (m : Fw β) : Fw β :=
  let m := { m with rest := outcomeFrames d reason metrics m.rest }
  if reason = .finished then (playFinish d m).2 else m

/-- The host the scheduler is initialised with. -/
def Board.mainHost : Host (Rest β) := d.host (playbackComplete d)

end Mode

/-! ## The main loop -/

section Loop

variable {β : Type} (d : Board β)

/-- What `tuh_task` calls back.  A mount carries what `tuh_hid_interface_protocol` answers. -/
inductive HostEvent where
  | mount (devAddr interface : UInt8) (isKeyboard : Bool)
  | umount (devAddr interface : UInt8)
  | reportReceived (devAddr interface : UInt8) (report : List UInt8)

def HostKeyboard.matches (k : HostKeyboard) (devAddr interface : UInt8) : Bool :=
  k.mounted && k.devAddr == devAddr && k.interface == interface

def acceptsPhysical (mode : Mode) : Bool := mode = .pass || mode = .record

/-- The three TinyUSB host callbacks.  Re-arming the reception only counts errors, so it is left out. -/
def hostEvent (m : Fw β) : HostEvent → Fw β
  | .mount devAddr interface isKeyboard =>
    if !isKeyboard then m
    else if m.rest.keyboard.mounted && !m.rest.keyboard.matches devAddr interface then m
    else { m with rest := { m.rest with keyboard := ⟨true, devAddr, interface⟩ } }
  | .umount devAddr interface =>
    if !m.rest.keyboard.matches devAddr interface then m
    else { m with rest := { m.rest with keyboard := { m.rest.keyboard with mounted := false } } }
  | .reportReceived devAddr interface report =>
    let timestamp := d.timeUs64 m.rest.board
    let m := { m with rest := { m.rest with board := timestamp.2 } }
    if !m.rest.keyboard.matches devAddr interface || !acceptsPhysical m.rest.mode then m
    else
      match m.rest.capture.push timestamp.1 report with
      | some capture =>
        { m with rest := { m.rest with
            capture := capture, trace := .captured ⟨timestamp.1, Report.ofBytes report⟩ :: m.rest.trace } }
      | none => m

/-- An acknowledgement that did not fit into the transmitter is a protocol error. -/
def acknowledgeQueue (m : Fw β) : Fw β :=
  let sent := m.rest.sendBufferStatus d m.queue
  let m := { m with rest := sent.2 }
  if !sent.1 then enterError d .protocolError m else m

def queueEvent (frame : Frame) (m : Fw β) : Fw β :=
  let offsetUs := UInt64.ofNat (leNat (frame.payload.take 8))
  let report := (frame.payload.drop 9).take 8
  let event : PlaybackEvent := ⟨offsetUs, Report.ofBytes report⟩
  match PlaybackQueue.push m.queue offsetUs report with
  | none => enterError d .protocolError { m with rest := m.rest.note (.pushed event false) }
  | some queue => acknowledgeQueue d { m with queue := queue, rest := m.rest.note (.pushed event true) }

def dispatchQueueCommand (frame : Frame) (m : Fw β) : Fw β :=
  let state := m.rest.mode
  if !queueCommandAllowed frame.type state then enterError d .protocolError m
  else match MsgType.ofByte? frame.type with
    | some .queueClear =>
      acknowledgeQueue d { m with queue := m.queue.clear, sched := m.sched.resetSequence }
    | some .queueEvent => queueEvent d frame m
    | some .queueEnd =>
      let m := { m with sched := m.sched.markSequenceEnded }
      let m := if state = .armed then { m with rest := (m.rest.queueFrame d .playReady).2 } else m
      acknowledgeQueue d m
    | _ => enterError d .protocolError m

/-- PLAY_START reads the epoch once, for the scheduler and for Zero. -/
def dispatchPlayStart (m : Fw β) : Fw β :=
  let now := d.timeUs64 m.rest.board
  let m := { m with rest := { m.rest with board := now.2 } }
  let entered := playStart d m
  if entered.1 then
    let m := { entered.2 with rest := (entered.2.rest.queueFrame d (.playStarted now.1)).2 }
    start d.mainHost now.1 { m with rest := m.rest.note (.started now.1) }
  else entered.2

def sendStatus (m : Fw β) : Fw β :=
  let stats := d.stats m.rest.board
  { m with rest := (m.rest.queueFrame d
      (.picoStatus m.rest.mode stats.rxOverflow stats.hardwareErrors stats.invalidFrames stats.txDropped)).2 }

def dispatchCommand (m : Fw β) (frame : Frame) : Fw β :=
  match MsgType.ofByte? frame.type with
  | some .modeSet =>
    let target := frame.payload.getD 0 0
    let handled := handleModeSet d target m
    { handled.2 with rest := handled.2.rest.note (.modeSet target handled.1) }
  | some .playStart => dispatchPlayStart d m
  | some .playAbort => (playAbort d m).2
  | some .ping => { m with rest := (m.rest.queueFrame d (.pong frame.payload)).2 }
  | some .statusRequest => sendStatus d m
  | some .queueClear | some .queueEvent | some .queueEnd => dispatchQueueCommand d frame m
  | _ => enterError d .protocolError m

inductive ReleaseResult where
  | ready | sent | blocked
  deriving DecidableEq, Repr

def serviceRelease (r : Rest β) : ReleaseResult × Rest β :=
  if !r.releasePending then (.ready, r)
  else
    let sent := r.sendBootReport d .release Report.releaseAll
    if sent.1 then (.sent, { sent.2 with releasePending := false }) else (.blocked, sent.2)

/-- The head is recorded the first time it is seen, whatever HID will say to it. -/
def recordHead (event : CaptureEvent) (r : Rest β) : Rest β :=
  if r.capture.isHeadRecorded then r
  else
    let r := (r.queueFrame d (.recordEvent event.timestampUs event.report)).2
    { r with capture := r.capture.markHeadRecorded }

/-- The loop of `pico_physical_report_dispatch` in RECORD. -/
def recordLoop (hidOutputReady : Bool) : Nat → Rest β → Rest β
  | 0, r => r
  | fuel + 1, r =>
    match r.capture.peek with
    | none => r
    | some event =>
      let r := recordHead d event r
      if !hidOutputReady then r
      else
        let sent := r.sendBootReport d .physical event.report
        if !sent.1 then sent.2 else recordLoop hidOutputReady fuel { sent.2 with capture := sent.2.capture.pop }

/-- The loop of `pico_physical_report_dispatch` in PASS. -/
def passLoop : Nat → Rest β → Rest β
  | 0, r => r
  | fuel + 1, r =>
    match r.capture.peek with
    | none => r
    | some event =>
      let sent := r.sendBootReport d .physical event.report
      if !sent.1 then sent.2 else passLoop fuel { sent.2 with capture := sent.2.capture.pop }

/-- Both loops pop once per round, so the FIFO's length and one more round are fuel enough. -/
def physicalReportDispatch (hidOutputReady : Bool) (r : Rest β) : Rest β :=
  if r.mode = .record then recordLoop d hidOutputReady (r.capture.events.count + 1) r
  else if !hidOutputReady || r.mode ≠ .pass then r
  else passLoop d (r.capture.events.count + 1) r

def flowControlCheck (m : Fw β) : Fw β :=
  if m.rest.flowControlFault then
    enterError d .protocolError { m with rest := { m.rest with flowControlFault := false } }
  else m

def watchdogCheck (m : Fw β) : Fw β :=
  if m.rest.mode ≠ .playing then m
  else
    let now := d.timeUs64 m.rest.board
    let m := { m with rest := { m.rest with board := now.2 } }
    if m.sched.watchdogExpired now.1 then enterError d .underrun m else m

/-- What one iteration is given: the host callbacks of `tuh_task`, the latched transport fault, the parsed commands. -/
structure LoopInput where
  events : List HostEvent
  fault : Bool
  commands : List Frame

/-- The first half of an iteration, up to the last command. -/
def loopCommands (input : LoopInput) (m : Fw β) : Fw β :=
  let m := { m with rest := { m.rest with board := d.tudTask m.rest.board } }
  let m := input.events.foldl (hostEvent d) m
  let m := if input.fault then enterError d .uartFault m else m
  input.commands.foldl (dispatchCommand d) m

/-- The second half, from the safety release on. -/
def loopOutput (m : Fw β) : Fw β :=
  let released := serviceRelease d m.rest
  let m := { m with rest := physicalReportDispatch d (released.1 = .ready) released.2 }
  let m := task d.mainHost m
  let m := watchdogCheck d (flowControlCheck d m)
  { m with rest := { m.rest with board := d.txTask m.rest.board } }

/-- One iteration of the loop in `main`. -/
def loopBody (m : Fw β) (input : LoopInput) : Fw β := loopOutput d (loopCommands d input m)

/-- The state the loop starts from. -/
def boot (board : β) : Fw β where
  sched := Scheduler.init
  queue := PlaybackQueue.init
  rest :=
    { mode := .pass
      capture := Capture.init
      releasePending := false
      flowControlFault := false
      keyboard := ⟨false, 0, 0⟩
      board := board
      trace := [] }

/-- The state after some iterations. -/
def run (board : β) (inputs : List LoopInput) : Fw β := inputs.foldl (loopBody d) (boot board)

end Loop

/-- A board on the bench, its state the endpoint's readiness: `tud_task` frees the endpoint, a report takes it, the
clock stands still and every frame fits. -/
def benchBoard : Board Bool where
  tudTask _ := true
  hidReady ready := ready
  hidReport _ ready := (ready, false)
  timeUs64 ready := (0, ready)
  addAlarmAt _ ready := (0, ready)
  cancelAlarm _ ready := ready
  alarmIsr ready := (false, ready)
  queueFrame _ ready := (true, ready)
  stats _ := ⟨false, false, false, false⟩
  txTask ready := ready

/-- A command as the transport hands it over. -/
def command (type : MsgType) (payload : List UInt8) : Frame := ⟨type.byte, payload⟩

end Pico
end PicoRecorder
