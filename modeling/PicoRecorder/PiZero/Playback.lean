import PicoRecorder.Lib.Binary64
import PicoRecorder.PiZero.Transport
/-!
# Playback — `PlaybackSession` (`playback.py`)

The session is created with the expanded events: the offsets are integers by then, whatever the speed.  The fields
behind `progress()` are left out, nothing in a run reads them.
-/
namespace PicoRecorder
namespace PiZero

open Lib
open Lib.Binary64 (general nearest)
open Pico (Frame MsgType)

def PIPELINE_WINDOW : Nat := 4

structure Playback where
  events : List (Int × List UInt8)
  prebufferUs : Int
  modeTimeout : Int
  playbackTimeout : Option Int
  started : Bool
  playing : Bool
  finished : Bool
  armed : Bool
  nextEvent : Nat
  freeCapacity : Nat
  deadline : Int
  playbackStartUs : Nat
  underruns : List (Nat × Nat)
  deriving DecidableEq, Repr

/-- `PlaybackSession.__init__`, from the values it has checked and converted. -/
def Playback.create (events : List (Int × List UInt8)) (prebufferUs modeTimeout : Int) (playbackTimeout : Option Int) :
    Playback where
  events := events
  prebufferUs := prebufferUs
  modeTimeout := modeTimeout
  playbackTimeout := playbackTimeout
  started := false
  playing := false
  finished := false
  armed := false
  nextEvent := 0
  freeCapacity := 0
  deadline := 0
  playbackStartUs := 0
  underruns := []

structure PlaybackResult where
  outcome : String
  playbackStartUs : Nat
  metrics : PlayMetrics
  underruns : List (Nat × Nat)
  deriving DecidableEq, Repr

namespace Playback

def effectivePlaybackTimeout (p : Playback) : Int :=
  match p.playbackTimeout with
  | some timeout => timeout
  | none =>
    let scaledDuration := match p.events.getLast? with | some (offsetUs, _) => offsetUs | none => 0
    max 5000000 (scaledDuration + p.modeTimeout + 3000000)

/-- `_prebuffer_count`: up to the first event at or past the prebuffer. -/
def prebufferCount (p : Playback) : Nat :=
  match p.events.findIdx? (fun e => e.1 ≥ p.prebufferUs) with
  | some index => index + 1
  | none => p.events.length

variable {σ : Type} (L : Link σ)

def remaining (timeout : Option Int) : Py Playback σ Int := do
  match timeout with
  | some timeout => pure timeout
  | none =>
    let remaining := (← session).deadline - (← clock L)
    if remaining ≤ 0 then raise .transportTimeout "timed out during playback" else pure remaining

/-- The credit waits of `_await_credit`.  As in `_await`, the deferred frames go back to the front on every way out. -/
def awaitCredit (expectedState : UInt8) : Nat → Py Playback σ Nat
  | 0 => throw .suspended
  | n + 1 => do
    let frame ← checked (requireNotError (← Transport.receiveFrame L (← remaining L none)))
    if frame.type = MsgType.bufferStatus.byte then
      let (state, _, freeCapacity) ← checked (validateBufferStatus frame)
      if state ≠ expectedState then raise .protocol s!"BUFFER_STATUS has unexpected state {state}"
      else if freeCapacity > 0 then pure freeCapacity
      else awaitCredit expectedState n
    else if frame.type = MsgType.playUnderrun.byte then
      let (elapsed, freeCapacity) ← checked (validatePlayUnderrun frame)
      updateSession (fun p => { p with underruns := p.underruns ++ [(elapsed, freeCapacity)] })
      if freeCapacity > 0 then pure freeCapacity
      else awaitCredit expectedState n
    else ensuring Exn.leaves (Heap.putBack [frame]) (awaitCredit expectedState n)

def sendEvents : List (Int × List UInt8) → Py Playback σ Unit
  | [] => pure ()
  | (offsetUs, report) :: events => do
    Transport.write L (.queueEvent offsetUs report)
    sendEvents events

/-- The acknowledgements of a batch. -/
def awaitAcks (expectedState : UInt8) : Nat → Py Playback σ Unit
  | 0 => pure ()
  | n + 1 => do
    let frame ← Transport.awaitFrame L .bufferStatus (← remaining L none)
    modify (Heap.note (.took frame))
    let (state, _, freeCapacity) ← checked (validateBufferStatus frame)
    if state ≠ expectedState then raise .protocol s!"QUEUE_EVENT acknowledged in unexpected state {state}"
    else
      updateSession (fun p => { p with freeCapacity := freeCapacity })
      awaitAcks expectedState n

/-- Without credit, wait for some. -/
def refill (expectedState : UInt8) : Py Playback σ Unit := do
  if (← session).freeCapacity = 0 then
    modify (fun h => h.note (.awaitsCredit h.pending))
    let freeCapacity ← awaitCredit L expectedState L.patience
    modify (Heap.note (.credited freeCapacity))
    updateSession (fun p => { p with freeCapacity := freeCapacity })
  else pure ()

/-- The loop of `_send_through`. -/
def sendThrough (stop : Nat) (expectedState : UInt8) : Nat → Py Playback σ Unit
  | 0 => throw .suspended
  | n + 1 => do
    if (← session).nextEvent < stop then
      refill L expectedState
      let p ← session
      let batchCount := min PIPELINE_WINDOW (min p.freeCapacity (stop - p.nextEvent))
      sendEvents L ((p.events.drop p.nextEvent).take batchCount)
      awaitAcks L expectedState batchCount
      updateSession (fun p => { p with nextEvent := p.nextEvent + batchCount })
      sendThrough stop expectedState n
    else pure ()

/-- The BUFFER_STATUS that acknowledges QUEUE_CLEAR and QUEUE_END. -/
def awaitQueueAck (command : String) : Py Playback σ Unit := do
  let (state, _, freeCapacity) ←
    checked (validateBufferStatus (← Transport.awaitFrame L .bufferStatus (← remaining L none)))
  if state ≠ MODE_ARMED then raise .protocol s!"{command} acknowledged in unexpected state {state}"
  else updateSession (fun p => { p with freeCapacity := freeCapacity })

/-- A recording that the prebuffer holds completely is closed before PLAY_START. -/
def closeSequence : Py Playback σ Unit := do
  let p ← session
  if p.nextEvent = p.events.length then
    Transport.write L .queueEnd
    discard (Transport.awaitFrame L .playReady (← remaining L none))
    awaitQueueAck L "QUEUE_END"
  else pure ()

/-- PLAY_START and its two answers. -/
def startRun : Py Playback σ Nat := do
  Transport.write L .playStart
  let (state, reason) ←
    checked (validateModeChanged (← Transport.awaitFrame L .modeChanged (← remaining L none)))
  if state ≠ MODE_PLAYING ∨ reason ≠ REASON_OK then
    raise .protocol s!"PLAY_START was not accepted: state={state}, reason={reason}"
  else checked (validatePlayStarted (← Transport.awaitFrame L .playStarted (← remaining L none)))

/-- What `start` does once the Pico is ARMED, up to the answer to PLAY_START. -/
def prepare : Py Playback σ Nat := do
  let now ← clock L
  updateSession (fun p => { p with deadline := now + p.effectivePlaybackTimeout })
  Transport.write L .queueClear
  awaitQueueAck L "QUEUE_CLEAR"
  let p ← session
  if p.prebufferCount > p.freeCapacity then
    let prebufferMs := nearest ((p.prebufferUs : ℚ) / 1000)
    raise .recorder
      s!"cannot prebuffer {general prebufferMs} ms within the Pico's {p.freeCapacity}-event free capacity"
  else
    sendThrough L p.prebufferCount MODE_ARMED L.patience
    closeSequence L
    startRun L

def start : Py Playback σ Nat := do
  if (← session).started || (← session).finished then raise .recorder "playback session has already started"
  else
    Transport.setMode L MODE_ARMED.toNat (← session).modeTimeout 1
    updateSession (fun p => { p with armed := true })
    let playbackStartUs ← prepare L
    updateSession (fun p => { p with playbackStartUs := playbackStartUs, started := true, playing := true })
    pure playbackStartUs

/-- `_collect_diagnostics` of one frame. -/
def collectFrame (frame : Frame) : Py Playback σ Unit := do
  let frame ← checked (requireNotError frame)
  if frame.type = MsgType.playUnderrun.byte then
    let underrun ← checked (validatePlayUnderrun frame)
    updateSession (fun p => { p with underruns := p.underruns ++ [underrun] })
  else if frame.type = MsgType.bufferStatus.byte then discard (checked (validateBufferStatus frame))
  else pure ()

def collectDiagnostics : List Frame → Py Playback σ Unit
  | [] => pure ()
  | frame :: frames => do
    collectFrame frame
    collectDiagnostics frames

def awaitOutcome (outcomeType : MsgType) (expectedReason : UInt8) (outcome : String) (timeout : Option Int) :
    Py Playback σ PlaybackResult := do
  discard (Transport.awaitFrame L outcomeType (← remaining L timeout))
  let metrics ← checked (validatePlayMetrics (← Transport.awaitFrame L .playMetrics (← remaining L timeout)))
  let (state, reason) ←
    checked (validateModeChanged (← Transport.awaitFrame L .modeChanged (← remaining L timeout)))
  if state ≠ MODE_ARMED ∨ reason ≠ expectedReason then
    raise .protocol s!"playback ended with unexpected state={state}, reason={reason}"
  else
    collectDiagnostics (← Transport.drainPendingFrames)
    let p ← session
    pure ⟨outcome, p.playbackStartUs, metrics, p.underruns⟩

/-- The events the prebuffer did not hold, and the end of the sequence.  QUEUE_END in PLAYING has no PLAY_READY. -/
def feedRest : Py Playback σ Unit := do
  let p ← session
  if p.nextEvent < p.events.length then
    sendThrough L p.events.length MODE_PLAYING L.patience
    Transport.write L .queueEnd
  else pure ()

def returnPass (returnToPass : Bool) : Py Playback σ Unit := do
  if returnToPass then
    Transport.setMode L MODE_PASS.toNat (← session).modeTimeout 1
    updateSession (fun p => { p with armed := false })
  else pure ()

def finish (returnToPass : Bool) : Py Playback σ PlaybackResult := do
  let p ← session
  if !p.started then raise .recorder "playback session has not started"
  else if p.finished then raise .recorder "playback session has already finished"
  else
    feedRest L
    let result ← awaitOutcome L .playFinished REASON_FINISHED "finished" none
    updateSession (fun p => { p with playing := false, armed := true })
    returnPass L returnToPass
    updateSession (fun p => { p with finished := true })
    pure result

/-- The first half of `abort`: the outcome of a run that is on, or the exception that came instead. -/
def abortRun : Py Playback σ (Option PlaybackResult × Option Exn) := do
  if (← session).playing then
    let outcome ← attempt do
      Transport.write L .playAbort
      awaitOutcome L .playAborted REASON_ABORTED "aborted" (some (← session).modeTimeout)
    updateSession (fun p => { p with playing := false, armed := true })
    match outcome with
    | .ok result => pure (some result, none)
    | .error e => pure (none, some e)
  else pure (none, none)

/-- Stale frames of a run that ended just before PLAY_ABORT came are dropped before the independent request. -/
def dropStale (outcomeError : Option Exn) : Py Playback σ Unit :=
  if outcomeError.isSome then discard Transport.drainPendingFrames else pure ()

/-- The second half of `abort`: MODE_SET(PASS), with the exception the first half left. -/
def abortToPass (returnToPass : Bool) (outcomeError : Option Exn) : Py Playback σ (Option Exn) := do
  if returnToPass && (← session).armed then
    dropStale outcomeError
    match ← attempt (Transport.setMode L MODE_PASS.toNat (← session).modeTimeout 1) with
    | .ok () =>
      updateSession (fun p => { p with armed := false })
      pure outcomeError
    | .error cleanupError =>
      match outcomeError with
      | none => pure (some cleanupError)
      | some outcomeError =>
        pure (some (.raised .recorder
          s!"{outcomeError.message}; additionally could not return Pico to PASS: {cleanupError.message}"))
  else pure outcomeError

def abort (returnToPass : Bool) : Py Playback σ (Option PlaybackResult) := do
  if (← session).finished then pure none
  else
    let (result, outcomeError) ← abortRun L
    let outcomeError ← abortToPass L returnToPass outcomeError
    updateSession (fun p => { p with finished := true })
    match outcomeError with
    | some e => throw e
    | none => pure result

/-- `abort_best_effort`: the exception, if there was one. -/
def abortBestEffort : Py Playback σ (Option Exn) := do
  match ← attempt (abort L true) with
  | .ok _ => pure none
  | .error e => pure (some e)

/-! ## Outside the handshakes -/

/-- The flags the cleanup decides by. -/
def flags (p : Playback) : Bool × Bool × Bool × Bool := (p.started, p.playing, p.finished, p.armed)

/-- Inside a run the session changes no flag and does no handshake. -/
abbrev Inside (s t : Heap Playback σ) : Prop := Quiet flags s t

theorem inside_trans (s t u : Heap Playback σ) (h : Inside s t) (h' : Inside t u) : Inside s u :=
  Quiet.trans _ s t u h h'

theorem inside_of_untouched {α : Type} {m : Py Playback σ α} (h : Keeps Untouched m) : Keeps Inside m :=
  quiet_of_untouched flags h

theorem inside_pure {α : Type} (a : α) : Keeps Inside (pure a : Py Playback σ α) := Keeps.pure (Quiet.refl flags) a

theorem inside_throw {α : Type} (e : Exn) : Keeps Inside (throw e : Py Playback σ α) := Keeps.throw (Quiet.refl flags) e

theorem inside_raise {α : Type} (kind : ErrorKind) (message : String) :
    Keeps Inside (raise kind message : Py Playback σ α) := quiet_raise flags kind message

theorem inside_checked {α : Type} (c : Checked α) : Keeps Inside (checked c : Py Playback σ α) :=
  inside_of_untouched (untouched_checked c)

theorem inside_session : Keeps Inside (session : Py Playback σ Playback) := inside_of_untouched untouched_session

theorem inside_update {f : Playback → Playback} (hf : ∀ p, flags (f p) = flags p) :
    Keeps Inside (updateSession f : Py Playback σ Unit) := quiet_updateSession flags hf

theorem inside_write {request : Request} (hr : ∀ target, request ≠ .modeSet target) :
    Keeps Inside (Transport.write L request : Py Playback σ Unit) := quiet_write flags L hr

theorem inside_discard {α : Type} {m : Py Playback σ α} (h : Keeps Inside m) : Keeps Inside (discard m) :=
  Keeps.bind inside_trans h (fun _ => inside_pure _)

theorem inside_remaining (timeout : Option Int) : Keeps Inside (remaining L timeout) := by
  unfold remaining
  cases timeout with
  | some timeout => exact inside_pure _
  | none =>
    refine Keeps.bind inside_trans inside_session (fun p => ?_)
    refine Keeps.bind inside_trans (inside_of_untouched (untouched_clock L)) (fun now => ?_)
    dsimp only
    split
    · exact inside_raise _ _
    · exact inside_pure _

theorem inside_awaitCredit (expectedState : UInt8) : ∀ n, Keeps Inside (awaitCredit L expectedState n)
  | 0 => inside_throw _
  | n + 1 => by
    unfold awaitCredit
    refine Keeps.bind inside_trans (inside_remaining L none) (fun timeout => ?_)
    refine Keeps.bind inside_trans (inside_of_untouched (Transport.untouched_receiveFrame L timeout)) (fun frame => ?_)
    refine Keeps.bind inside_trans (inside_checked _) (fun frame => ?_)
    split
    · refine Keeps.bind inside_trans (inside_checked _) (fun status => ?_)
      split
      split
      · exact inside_raise _ _
      split
      · exact inside_pure _
      · exact inside_awaitCredit expectedState n
    split
    · refine Keeps.bind inside_trans (inside_checked _) (fun underrun => ?_)
      split
      refine Keeps.bind inside_trans (inside_update (fun _ => rfl)) (fun _ => ?_)
      split
      · exact inside_pure _
      · exact inside_awaitCredit expectedState n
    · exact Keeps.ensuring inside_trans (inside_awaitCredit expectedState n) (fun s => ⟨rfl, .refl _⟩)

theorem inside_sendEvents : ∀ events, Keeps Inside (sendEvents L events)
  | [] => inside_pure _
  | (offsetUs, report) :: events =>
    Keeps.bind inside_trans (inside_write L (by rintro _ ⟨⟩)) (fun _ => inside_sendEvents events)

theorem inside_awaitAcks (expectedState : UInt8) : ∀ n, Keeps Inside (awaitAcks L expectedState n)
  | 0 => inside_pure _
  | n + 1 => by
    unfold awaitAcks
    refine Keeps.bind inside_trans (inside_remaining L none) (fun timeout => ?_)
    refine Keeps.bind inside_trans (inside_of_untouched (Transport.untouched_awaitFrame L _ _)) (fun frame => ?_)
    refine Keeps.bind inside_trans (quiet_note flags (fun _ => .took frame) (fun _ => rfl)) (fun _ => ?_)
    refine Keeps.bind inside_trans (inside_checked _) (fun status => ?_)
    split
    split
    · exact inside_raise _ _
    · exact Keeps.bind inside_trans (inside_update (fun _ => rfl)) (fun _ => inside_awaitAcks expectedState n)

theorem inside_refill (expectedState : UInt8) : Keeps Inside (refill L expectedState) := by
  unfold refill
  refine Keeps.bind inside_trans inside_session (fun p => ?_)
  split
  · refine Keeps.bind inside_trans (quiet_note flags (fun h => .awaitsCredit h.pending) (fun _ => rfl)) (fun _ => ?_)
    refine Keeps.bind inside_trans (inside_awaitCredit L _ _) (fun freeCapacity => ?_)
    exact Keeps.bind inside_trans (quiet_note flags (fun _ => .credited freeCapacity) (fun _ => rfl))
      (fun _ => inside_update (fun _ => rfl))
  · exact inside_pure _

theorem inside_sendThrough (stop : Nat) (expectedState : UInt8) : ∀ n, Keeps Inside (sendThrough L stop expectedState n)
  | 0 => inside_throw _
  | n + 1 => by
    unfold sendThrough
    refine Keeps.bind inside_trans inside_session (fun p => ?_)
    split
    · refine Keeps.bind inside_trans (inside_refill L expectedState) (fun _ => ?_)
      refine Keeps.bind inside_trans inside_session (fun p => ?_)
      refine Keeps.bind inside_trans (inside_sendEvents L _) (fun _ => ?_)
      refine Keeps.bind inside_trans (inside_awaitAcks L _ _) (fun _ => ?_)
      exact Keeps.bind inside_trans (inside_update (fun _ => rfl)) (fun _ => inside_sendThrough stop expectedState n)
    · exact inside_pure _

theorem inside_awaitQueueAck (command : String) : Keeps Inside (awaitQueueAck L command) := by
  unfold awaitQueueAck
  refine Keeps.bind inside_trans (inside_remaining L none) (fun timeout => ?_)
  refine Keeps.bind inside_trans (inside_of_untouched (Transport.untouched_awaitFrame L _ _)) (fun frame => ?_)
  refine Keeps.bind inside_trans (inside_checked _) (fun status => ?_)
  split
  split
  · exact inside_raise _ _
  · exact inside_update (fun _ => rfl)

theorem inside_closeSequence : Keeps Inside (closeSequence L) := by
  unfold closeSequence
  refine Keeps.bind inside_trans inside_session (fun p => ?_)
  split
  · refine Keeps.bind inside_trans (inside_write L (by rintro _ ⟨⟩)) (fun _ => ?_)
    refine Keeps.bind inside_trans (inside_remaining L none) (fun timeout => ?_)
    refine Keeps.bind inside_trans
      (inside_discard (inside_of_untouched (Transport.untouched_awaitFrame L _ _))) (fun _ => ?_)
    exact inside_awaitQueueAck L _
  · exact inside_pure _

theorem inside_startRun : Keeps Inside (startRun L) := by
  unfold startRun
  refine Keeps.bind inside_trans (inside_write L (by rintro _ ⟨⟩)) (fun _ => ?_)
  refine Keeps.bind inside_trans (inside_remaining L none) (fun timeout => ?_)
  refine Keeps.bind inside_trans (inside_of_untouched (Transport.untouched_awaitFrame L _ _)) (fun frame => ?_)
  refine Keeps.bind inside_trans (inside_checked _) (fun answer => ?_)
  split
  split
  · exact inside_raise _ _
  · refine Keeps.bind inside_trans (inside_remaining L none) (fun timeout => ?_)
    refine Keeps.bind inside_trans (inside_of_untouched (Transport.untouched_awaitFrame L _ _)) (fun frame => ?_)
    exact inside_checked _

theorem inside_prepare : Keeps Inside (prepare L) := by
  unfold prepare
  refine Keeps.bind inside_trans (inside_of_untouched (untouched_clock L)) (fun now => ?_)
  refine Keeps.bind inside_trans (inside_update (fun _ => rfl)) (fun _ => ?_)
  refine Keeps.bind inside_trans (inside_write L (by rintro _ ⟨⟩)) (fun _ => ?_)
  refine Keeps.bind inside_trans (inside_awaitQueueAck L _) (fun _ => ?_)
  refine Keeps.bind inside_trans inside_session (fun p => ?_)
  split
  · exact inside_raise _ _
  · refine Keeps.bind inside_trans (inside_sendThrough L _ _ _) (fun _ => ?_)
    exact Keeps.bind inside_trans (inside_closeSequence L) (fun _ => inside_startRun L)

theorem inside_collectFrame (frame : Frame) : Keeps Inside (collectFrame frame : Py Playback σ Unit) := by
  unfold collectFrame
  refine Keeps.bind inside_trans (inside_checked _) (fun frame => ?_)
  split
  · exact Keeps.bind inside_trans (inside_checked _) (fun _ => inside_update (fun _ => rfl))
  split
  · exact inside_discard (inside_checked _)
  · exact inside_pure _

theorem inside_collectDiagnostics : ∀ frames, Keeps Inside (collectDiagnostics frames : Py Playback σ Unit)
  | [] => inside_pure _
  | frame :: frames =>
    Keeps.bind inside_trans (inside_collectFrame frame) (fun _ => inside_collectDiagnostics frames)

theorem inside_awaitOutcome (outcomeType : MsgType) (expectedReason : UInt8) (outcome : String) (timeout : Option Int) :
    Keeps Inside (awaitOutcome L outcomeType expectedReason outcome timeout) := by
  unfold awaitOutcome
  refine Keeps.bind inside_trans (inside_remaining L timeout) (fun wait => ?_)
  refine Keeps.bind inside_trans
    (inside_discard (inside_of_untouched (Transport.untouched_awaitFrame L _ _))) (fun _ => ?_)
  refine Keeps.bind inside_trans (inside_remaining L timeout) (fun wait => ?_)
  refine Keeps.bind inside_trans (inside_of_untouched (Transport.untouched_awaitFrame L _ _)) (fun frame => ?_)
  refine Keeps.bind inside_trans (inside_checked _) (fun metrics => ?_)
  refine Keeps.bind inside_trans (inside_remaining L timeout) (fun wait => ?_)
  refine Keeps.bind inside_trans (inside_of_untouched (Transport.untouched_awaitFrame L _ _)) (fun frame => ?_)
  refine Keeps.bind inside_trans (inside_checked _) (fun answer => ?_)
  split
  split
  · exact inside_raise _ _
  · refine Keeps.bind inside_trans (inside_of_untouched Transport.untouched_drainPendingFrames) (fun frames => ?_)
    refine Keeps.bind inside_trans (inside_collectDiagnostics frames) (fun _ => ?_)
    exact Keeps.bind inside_trans inside_session (fun _ => inside_pure _)

theorem inside_feedRest : Keeps Inside (feedRest L) := by
  unfold feedRest
  refine Keeps.bind inside_trans inside_session (fun p => ?_)
  split
  · exact Keeps.bind inside_trans (inside_sendThrough L _ _ _) (fun _ => inside_write L (by rintro _ ⟨⟩))
  · exact inside_pure _

/-! ## The calls, by their flags and handshakes -/

theorem flags_eq {p q : Playback} (h : flags p = flags q) :
    p.started = q.started ∧ p.playing = q.playing ∧ p.finished = q.finished ∧ p.armed = q.armed := by
  simpa [flags] using h

/-- `start` makes one handshake.  Once that has come to its answer the session is `armed`, however `start` ends. -/
theorem start_spec (s : Heap Playback σ) :
    wp (start L)
      (fun _ t => flags t.session = (true, true, false, true) ∧ Shook MODE_ARMED s.history t.history)
      (fun _ t => Inside s t ∨
        s.session.finished = false ∧ flags t.session = flags s.session ∧ Missed MODE_ARMED s.history t.history ∨
        flags t.session = (false, s.session.playing, false, true) ∧ Shook MODE_ARMED s.history t.history) s := by
  unfold start
  simp only [wp_bind, wp_session]
  by_cases hnew : (s.session.started || s.session.finished) = true
  · rw [if_pos hnew]
    exact .inl (Quiet.refl _ _)
  rw [if_neg hnew]
  have hfresh : s.session.started = false ∧ s.session.finished = false := by simpa using hnew
  simp only [wp_bind, wp_session]
  refine wp_mono (Transport.setMode_spec L MODE_ARMED (.inr (.inr rfl)) _ s) ?_ ?_
  · rintro - t ⟨hs, hd⟩
    have hflags : flags { t.session with armed := true } = (false, s.session.playing, false, true) := by
      rw [hs, flags, hfresh.1, hfresh.2]
    rw [wp_bind, wp_updateSession, wp_bind]
    refine wp_mono (inside_prepare L _) (fun playbackStartUs u hu => ?_) (fun e u hu => ?_)
    · have hf := (flags_eq (hu.1.trans hflags : flags u.session =
        flags ⟨[], 0, 0, none, false, s.session.playing, false, true, 0, 0, 0, 0, []⟩)).2
      refine ⟨?_, hd.shook.after hu.2⟩
      show (true, true, u.session.finished, u.session.armed) = _
      rw [hf.2.1, hf.2.2]
    · exact .inr (.inr ⟨hu.1.trans hflags, hd.shook.after hu.2⟩)
  · rintro e t ⟨hs, hd⟩
    exact .inr (.inl ⟨hfresh.2, by rw [hs], hd.missed⟩)

/-- `finish` returns only from a handshake for PASS; if it raises in that, the session is `armed`. -/
theorem finish_spec (s : Heap Playback σ) :
    wp (finish L true)
      (fun _ t => s.session.started = true ∧ flags t.session = (true, false, true, false) ∧
        Shook MODE_PASS s.history t.history)
      (fun _ t => Inside s t ∨ s.session.started = true ∧ flags t.session = (true, false, false, true) ∧
        Missed MODE_PASS s.history t.history) s := by
  unfold finish
  simp only [wp_bind, wp_session]
  by_cases hstarted : s.session.started = true
  · rw [if_neg (by simp [hstarted])]
    by_cases hfinished : s.session.finished = true
    · rw [if_pos hfinished]
      exact .inl (Quiet.refl _ _)
    rw [if_neg hfinished, wp_bind]
    have hunfinished : s.session.finished = false := by simpa using hfinished
    refine wp_mono (inside_feedRest L s) (fun _ t ht => ?_) (fun _ t ht => .inl ht)
    rw [wp_bind]
    refine wp_mono (inside_awaitOutcome L _ _ _ _ t) (fun result u hu => ?_)
      (fun _ u hu => .inl (inside_trans _ _ _ ht hu))
    have hu := inside_trans _ _ _ ht hu
    obtain ⟨hs, -, hf, -⟩ := flags_eq hu.1
    rw [wp_bind, wp_updateSession, wp_bind, returnPass, if_pos rfl, wp_bind, wp_session, wp_bind]
    refine wp_mono (Transport.setMode_spec L MODE_PASS (.inl rfl) _ _) ?_ ?_
    · rintro - v ⟨hv, hd⟩
      refine ⟨hstarted, ?_, hd.shook.before hu.2⟩
      show (v.session.started, v.session.playing, true, false) = _
      rw [hv]
      show (u.session.started, false, true, false) = _
      rw [hs, hstarted]
    · rintro e v ⟨hv, hd⟩
      refine .inr ⟨hstarted, ?_, hd.missed.before hu.2⟩
      rw [hv]
      show (u.session.started, false, u.session.finished, true) = _
      rw [hs, hf, hstarted, hunfinished]
  · rw [if_pos (by simpa using hstarted)]
    exact .inl (Quiet.refl _ _)

/-- The flags tell the cleanup that there is something to do. -/
def flagged (p : Playback) : Bool := !p.finished && (p.playing || p.armed)

/-- The first half of the cleanup does no handshake, and a session that was `playing` is `armed` after it. -/
theorem abortRun_spec (s : Heap Playback σ) :
    wp (abortRun L)
      (fun outcome t => QuietAfter s.history t.history ∧ t.session.armed = (s.session.playing || s.session.armed) ∧
        (s.session.playing = false → outcome.2 = none ∧ t.history = s.history))
      (fun e _ => e.leaves = false) s := by
  unfold abortRun
  rw [wp_bind, wp_session]
  by_cases hp : s.session.playing = true
  · rw [if_pos hp, wp_bind, wp_attempt]
    have hrun : Keeps Inside (do
        Transport.write L .playAbort
        awaitOutcome L .playAborted REASON_ABORTED "aborted" (some (← session).modeTimeout)) :=
      Keeps.bind inside_trans (inside_write L (by rintro _ ⟨⟩))
        (fun _ => Keeps.bind inside_trans inside_session (fun _ => inside_awaitOutcome L _ _ _ _))
    have hnot : s.session.playing ≠ false := by rw [hp]; decide
    refine wp_mono (hrun s) (fun result t ht => ?_) (fun e t ht => ?_)
    · exact ⟨ht.2, by rw [hp]; rfl, fun h => absurd h hnot⟩
    · cases e with
      | suspended => rfl
      | raised kind message => exact ⟨ht.2, by rw [hp]; rfl, fun h => absurd h hnot⟩
  · rw [if_neg hp]
    have hplaying : s.session.playing = false := by simpa using hp
    exact ⟨.refl _, by rw [hplaying]; rfl, fun _ => ⟨rfl, rfl⟩⟩

/-- The second half makes the handshake for PASS if the session is `armed`; it comes back without an exception only if
the handshake came to its answer. -/
theorem abortToPass_spec (outcomeError : Option Exn) (s : Heap Playback σ) :
    wp (abortToPass L true outcomeError)
      (fun report t => if s.session.armed = true then
          Shook MODE_PASS s.history t.history ∧ report = outcomeError ∨
            Missed MODE_PASS s.history t.history ∧ report ≠ none
        else report = outcomeError ∧ t.history = s.history)
      (fun e _ => e.leaves = false) s := by
  unfold abortToPass
  rw [wp_bind, wp_session, Bool.true_and]
  by_cases ha : s.session.armed = true
  · rw [if_pos ha, wp_bind]
    simp only [if_pos ha]
    have hdrop : wp (dropStale outcomeError) (fun _ t => t.history = s.history) (fun e _ => e.leaves = false) s := by
      unfold dropStale
      split <;> rfl
    refine wp_mono hdrop (fun _ t ht => ?_) (fun _ _ he => he)
    rw [wp_bind, wp_session, wp_bind, wp_attempt]
    refine wp_mono (Transport.setMode_spec L MODE_PASS (.inl rfl) _ t) ?_ ?_
    · rintro - u ⟨-, hd⟩
      rw [ht] at hd
      exact .inl ⟨hd.shook, rfl⟩
    · rintro e u ⟨-, hd⟩
      rw [ht] at hd
      cases e with
      | suspended => rfl
      | raised kind message => cases outcomeError <;> exact .inr ⟨hd.missed, by simp⟩
  · rw [if_neg ha]
    simp only [if_neg ha]
    exact ⟨rfl, rfl⟩

/-- **`abort` makes the handshake for PASS exactly when the flags tell it to**, and returns only if that came to its
answer. -/
theorem abort_spec (s : Heap Playback σ) :
    wp (abort L true)
      (fun _ t => if flagged s.session = true then Shook MODE_PASS s.history t.history else t.history = s.history)
      (fun e t => e.leaves = true → flagged s.session = true ∧
        (Shook MODE_PASS s.history t.history ∨ Missed MODE_PASS s.history t.history)) s := by
  unfold abort flagged
  rw [wp_bind, wp_session]
  by_cases hf : s.session.finished = true
  · rw [if_pos hf, hf]
    exact rfl
  have hunfinished : s.session.finished = false := by simpa using hf
  rw [if_neg hf, wp_bind, hunfinished]
  refine wp_mono (abortRun_spec L s) ?_ (fun e t he hl => absurd (he.symm.trans hl) (by decide))
  rintro ⟨result, outcomeError⟩ t ⟨hq, harmed, hidle⟩
  dsimp only
  rw [wp_bind]
  refine wp_mono (abortToPass_spec L outcomeError t) (fun report u hu => ?_)
    (fun e u he hl => absurd (he.symm.trans hl) (by decide))
  rw [wp_bind, wp_updateSession, Bool.not_false, Bool.true_and]
  by_cases hflag : (s.session.playing || s.session.armed) = true
  · rw [harmed, if_pos hflag] at hu
    cases report with
    | none =>
      rcases hu with ⟨hd, -⟩ | ⟨-, hc⟩
      · show (if _ then _ else _)
        rw [if_pos hflag]
        exact hd.before hq
      · exact absurd rfl hc
    | some e =>
      intro _
      rcases hu with ⟨hd, -⟩ | ⟨hd, -⟩
      · exact ⟨hflag, .inl (hd.before hq)⟩
      · exact ⟨hflag, .inr (hd.before hq)⟩
  · have hnot : s.session.playing = false := by
      cases hp : s.session.playing with
      | false => rfl
      | true => rw [hp] at hflag; exact absurd rfl hflag
    obtain ⟨hnone, hh⟩ := hidle hnot
    rw [harmed, if_neg hflag] at hu
    obtain ⟨rfl, hu⟩ := hu
    dsimp only at hnone
    subst hnone
    show (if _ then _ else _)
    rw [if_neg hflag]
    exact hu.trans hh

theorem abortBestEffort_spec (s : Heap Playback σ) :
    wp (abortBestEffort L)
      (fun report t => if flagged s.session = true then
          Shook MODE_PASS s.history t.history ∨ Missed MODE_PASS s.history t.history ∧ report ≠ none
        else report = none ∧ t.history = s.history)
      (fun e _ => e.leaves = false) s := by
  unfold abortBestEffort
  rw [wp_bind, wp_attempt]
  refine wp_mono (abort_spec L s) (fun result t ht => ?_) (fun e t ht => ?_)
  · show (if _ then _ else _)
    by_cases hf : flagged s.session = true
    · rw [if_pos hf] at ht ⊢
      exact .inl ht
    · rw [if_neg hf] at ht ⊢
      exact ⟨rfl, ht⟩
  · cases e with
    | suspended => rfl
    | raised kind message =>
      obtain ⟨hf, hd⟩ := ht rfl
      rw [if_pos (show (Exn.raised kind message).leaves = true from rfl), wp_pure, if_pos hf]
      exact hd.imp_right (fun hd => ⟨hd, by simp⟩)

end Playback
end PiZero
end PicoRecorder
