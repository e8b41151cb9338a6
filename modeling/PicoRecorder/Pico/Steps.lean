import PicoRecorder.Pico.Firmware
/-!
# Steps — everything one iteration of the main loop can do

`FwStep` lists the single steps of the firmware with their guards, in two phases: up to the safety release, and after
it.  `loopBody_steps` cuts an iteration into such steps, so that an invariant is proved once for each kind of step.
-/
namespace PicoRecorder
namespace Pico

open Relation (ReflTransGen)
open Lib (Preserved)

variable {β : Type} {d : Board β}

/-- The calls that ask the board for nothing but time, alarms and frames. -/
inductive BoardCall (d : Board β) : β → β → Prop
  | clock (b) : BoardCall d b (d.timeUs64 b).2
  | addAlarm (deadline) (b) : BoardCall d b (d.addAlarmAt deadline b).2
  | cancelAlarm (id) (b) : BoardCall d b (d.cancelAlarm id b)
  | alarmIsr (b) : BoardCall d b (d.alarmIsr b).2
  | queueFrame (frame) (b) : BoardCall d b (d.queueFrame frame b).2
  | tx (b) : BoardCall d b (d.txTask b)

/-! ## What a queue-discarding transition does -/

/-- The part of the trace a stop adds, newest first. -/
def Stopped (running : Bool) (outcome : List Obs) : Prop :=
  (running = false ∧ outcome = []) ∨
  (running = true ∧ ∃ metrics q₁ q₂,
    outcome = [.frame (.playMetrics metrics) q₂, .frame .playAborted q₁, .completed .aborted metrics])

structure Cleared (d : Board β) (m m' : Fw β) : Prop where
  running : m'.sched.running = false
  sequenceEnded : m'.sched.sequenceEnded = false
  waitingForEvent : m'.sched.waitingForEvent = false
  underrunActive : m'.sched.underrunActive = false
  alarmArmed : m'.sched.alarmArmed = true → m.sched.running = false ∧ m.sched.alarmArmed = true
  queue : m'.queue.toList = []
  mode : m'.rest.mode = m.rest.mode
  capture : m'.rest.capture = m.rest.capture.clear
  releasePending : m'.rest.releasePending = true
  flowControlFault : m'.rest.flowControlFault = false
  board : ReflTransGen (BoardCall d) m.rest.board m'.rest.board
  trace : ∃ outcome, m'.rest.trace = .allRelease :: (outcome ++ m.rest.trace) ∧ Stopped m.sched.running outcome

theorem outcomeFrames_board (reason : Reason) (metrics : Metrics) (r : Rest β) :
    ReflTransGen (BoardCall d) r.board (outcomeFrames d reason metrics r).board :=
  (ReflTransGen.single (.queueFrame _ _)).tail (.queueFrame _ _)

theorem cancelArmed_rest (onComplete : Reason → Metrics → Fw β → Fw β) (m : Fw β) :
    ∃ board, (cancelArmed (d.host onComplete) m).rest = { m.rest with board := board } ∧
      ReflTransGen (BoardCall d) m.rest.board board := by
  unfold cancelArmed
  dsimp only
  split
  · exact ⟨_, rfl, (ReflTransGen.single (.alarmIsr _)).tail (.cancelAlarm _ _)⟩
  · exact ⟨_, rfl, .single (.alarmIsr _)⟩

/-- A stop, written out: nothing, or the outcome frames of an aborted run. -/
theorem stop_spec (d : Board β) (m : Fw β) :
    (m.sched.running = false ∧ stop d.stopHost m = m) ∨
    (m.sched.running = true ∧ ∃ sched board, sched.running = false ∧ sched.alarmArmed = false ∧
      ReflTransGen (BoardCall d) m.rest.board board ∧
      stop d.stopHost m =
        ⟨sched, m.queue, outcomeFrames d .aborted sched.metrics { m.rest with board := board }⟩) := by
  by_cases hr : m.sched.running = true
  · obtain ⟨board, hrest, hboard⟩ := cancelArmed_rest (d := d)
      (fun reason metrics m => { m with rest := outcomeFrames d reason metrics m.rest }) m
    have hq := cancelArmed_queue d.stopHost m
    have hun := cancelArmed_unarmed d.stopHost m
    let sched : Scheduler := { (cancelArmed d.stopHost m).sched with
      alarmFired := false
      running := false
      latenessSamples := Scheduler.sortSamples (cancelArmed d.stopHost m).sched.latenessSamples }
    refine .inr ⟨hr, sched, board, rfl, hun, hboard, ?_⟩
    rw [← hrest, ← hq]
    unfold stop
    rw [if_neg (by rw [hr]; decide)]
    rfl
  · have hf : m.sched.running = false := Bool.eq_false_iff.2 hr
    refine .inl ⟨hf, ?_⟩
    unfold stop
    rw [if_pos (by rw [hf]; rfl)]

theorem resetSequence_stopped {s : Scheduler} (h : s.running = false) :
    s.resetSequence = { s with sequenceEnded := false, waitingForEvent := false, underrunActive := false } := by
  unfold Scheduler.resetSequence
  rw [if_neg (by rw [h]; decide)]

/-- **What `clear_release_and_queue` leaves behind**, whatever was going on. -/
theorem clearReleaseAndQueue_spec (d : Board β) (m : Fw β) : Cleared d m (clearReleaseAndQueue d m) := by
  unfold clearReleaseAndQueue modeClearQueue
  dsimp only
  rcases stop_spec d m with ⟨hr, hs⟩ | ⟨hr, sched, board, hrun, harm, hboard, hs⟩
  · rw [hs, resetSequence_stopped hr]
    exact ⟨hr, rfl, rfl, rfl, fun h => ⟨hr, h⟩, rfl, rfl, rfl, rfl, rfl, .refl, [], rfl, .inl ⟨hr, rfl⟩⟩
  · rw [hs]
    dsimp only
    rw [resetSequence_stopped hrun]
    refine ⟨hrun, rfl, rfl, rfl, fun h => ?_, rfl, rfl, rfl, rfl, rfl, ?_, ?_⟩
    · change sched.alarmArmed = true at h
      rw [harm] at h; cases h
    · exact hboard.trans (outcomeFrames_board .aborted sched.metrics { m.rest with board := board })
    · exact ⟨_, rfl, .inr ⟨hr, _, _, _, rfl⟩⟩

/-! ## The steps -/

inductive Phase where
  | input | output

/-- A MODE_CHANGED that reports no transition. -/
def Unchanged (mode : Mode) (reason : Reason) : Prop :=
  reason = .invalidTarget ∨ reason = .invalidTransition ∨
  (reason = .ok ∧ (mode = .pass ∨ mode = .record ∨ mode = .armed)) ∨
  (reason.isFault = true ∧ (mode = .pass ∨ mode = .error))

/-- The transitions of `mode_state.c` that discard the queue, with the reason each reports. -/
def Changes (mode target : Mode) (reason : Reason) : Prop :=
  (reason = .ok ∧ target = .pass ∧ mode ≠ .pass) ∨
  (reason = .ok ∧ (target = .record ∨ target = .armed) ∧ mode = .pass) ∨
  (reason = .aborted ∧ target = .armed ∧ (mode = .armed ∨ mode = .playing)) ∨
  (reason.isFault = true ∧ target = .error ∧ mode ≠ .pass ∧ mode ≠ .error)

/-- The frames that answer a command without reporting a mode. -/
def PicoMsg.isReply : PicoMsg → Bool
  | .pong _ | .picoStatus .. | .bufferStatus .. | .playReady => true
  | _ => false

/-- PLAY_START up to the planning of the first event. -/
def launch (d : Board β) (epoch : UInt64) (m : Fw β) : Fw β :=
  let m := notify d .ok (enter .playing (clearAndRelease m))
  let rest := ((m.rest.queueFrame d (.playStarted epoch)).2).note (.started epoch)
  { m with sched := m.sched.started epoch, rest := rest }

inductive FwStep (d : Board β) : Phase → Fw β → Fw β → Prop
  | tud (m) : FwStep d .input m { m with rest := { m.rest with board := d.tudTask m.rest.board } }
  | board {phase} (m) (b) (call : BoardCall d m.rest.board b) :
      FwStep d phase m { m with rest := { m.rest with board := b } }
  | keyboard {phase} (m) (k) : FwStep d phase m { m with rest := { m.rest with keyboard := k } }
  | capture {phase} (m) (timestamp report capture) (accepts : m.rest.mode = .pass ∨ m.rest.mode = .record)
      (push : m.rest.capture.push timestamp report = some capture) :
      FwStep d phase m { m with rest := { m.rest with
        capture := capture, trace := .captured ⟨timestamp, Report.ofBytes report⟩ :: m.rest.trace } }
  | notify {phase} (m) (reason) (unchanged : Unchanged m.rest.mode reason) : FwStep d phase m (notify d reason m)
  | reply {phase} (m) (msg : PicoMsg) (kind : msg.isReply = true) :
      FwStep d phase m { m with rest := (m.rest.queueFrame d msg).2 }
  | handled {phase} (m) (target accepted) :
      FwStep d phase m { m with rest := m.rest.note (.modeSet target accepted) }
  | transition {phase} (m) (target reason) (changes : Changes m.rest.mode target reason) :
      FwStep d phase m (transition d target reason m)
  | launch (m) (epoch) (armed : m.rest.mode = .armed) (idle : m.sched.running = false) :
      FwStep d .input m (launch d epoch m)
  | enqueue {phase} (m) (event queue) (streams : m.rest.mode = .armed ∨ m.rest.mode = .playing)
      (push : queue.toList = m.queue.toList ++ [event]) :
      FwStep d phase m { m with queue := queue, rest := m.rest.note (.pushed event true) }
  | reject {phase} (m) (event) : FwStep d phase m { m with rest := m.rest.note (.pushed event false) }
  | queueClear {phase} (m) (armed : m.rest.mode = .armed) :
      FwStep d phase m { m with queue := m.queue.clear, sched := m.sched.resetSequence }
  | queueEnd {phase} (m) (streams : m.rest.mode = .armed ∨ m.rest.mode = .playing) :
      FwStep d phase m { m with sched := m.sched.markSequenceEnded }
  | takeFlowFault {phase} (m) : FwStep d phase m { m with rest := { m.rest with flowControlFault := false } }
  | release (m) : FwStep d .input m { m with rest := (serviceRelease d m.rest).2 }
  | record (m) (event) (recording : m.rest.mode = .record) (head : m.rest.capture.peek = some event)
      (fresh : m.rest.capture.isHeadRecorded = false) :
      FwStep d .output m { m with rest := recordHead d event m.rest }
  | refusePhysical (m) (event : CaptureEvent) (busy : (m.rest.sendBootReport d .physical event.report).1 = false) :
      FwStep d .output m { m with rest := (m.rest.sendBootReport d .physical event.report).2 }
  | sendPhysical (m) (event : CaptureEvent) (head : m.rest.capture.peek = some event)
      (mode : m.rest.mode = .pass ∨ m.rest.mode = .record ∧ m.rest.capture.isHeadRecorded = true)
      (calm : m.rest.releasePending = false)
      (taken : (m.rest.sendBootReport d .physical event.report).1 = true) :
      FwStep d .output m { m with rest :=
        { (m.rest.sendBootReport d .physical event.report).2 with capture := m.rest.capture.pop } }
  | arming {phase m m'} (step : Arming d.mainHost m m') : FwStep d phase m m'
  | play {m m'} (step : Micro d.mainHost m m') : FwStep d .output m m'

/-! ## The scheduler's steps on the main host -/

/-- A step of the scheduler that touches neither the queue nor anything outside but the board. -/
structure Quietly (d : Board β) (m m' : Fw β) : Prop where
  queue : m'.queue = m.queue
  running : m'.sched.running = m.sched.running
  sequenceEnded : m'.sched.sequenceEnded = m.sched.sequenceEnded
  underrunActive : m'.sched.underrunActive = true → m.sched.underrunActive = true
  alarmArmed : m'.sched.alarmArmed = true → m.sched.alarmArmed = true ∨ m.sched.running = true
  rest : ∃ board, m'.rest = { m.rest with board := board } ∧ ReflTransGen (BoardCall d) m.rest.board board

theorem faultUnless_queueFrame (msg : PicoMsg) (r : Rest β) :
    Rest.faultUnless (r.queueFrame d msg) =
      { (r.queueFrame d msg).2 with flowControlFault := r.flowControlFault || !(r.queueFrame d msg).1 } := by
  unfold Rest.faultUnless
  cases hq : (r.queueFrame d msg).1
  · simp
  · simp [Rest.queueFrame]

/-- A run that found its queue empty and its sequence open says so, once. -/
structure Starved (d : Board β) (m m' : Fw β) : Prop where
  queue : m'.queue = m.queue
  running : m'.sched.running = m.sched.running
  sequenceEnded : m'.sched.sequenceEnded = m.sched.sequenceEnded
  alarmArmed : m'.sched.alarmArmed = m.sched.alarmArmed
  rest : ∃ board elapsed queued, ReflTransGen (BoardCall d) m.rest.board board ∧ m'.rest = { m.rest with
    board := board
    flowControlFault := m.rest.flowControlFault || !queued
    trace := .frame (.playUnderrun elapsed (UInt16.ofNat (PlaybackQueue.freeCapacity m.queue))) queued :: m.rest.trace }

theorem beginUnderrun_starved {m : Fw β} (hu : m.sched.underrunActive = false) :
    Starved d m (beginUnderrun d.mainHost m) := by
  unfold beginUnderrun
  rw [if_neg (by rw [hu]; decide)]
  refine ⟨rfl, rfl, rfl, rfl, ?_⟩
  change ∃ board elapsed queued, _ ∧ Rest.faultUnless _ = _
  rw [faultUnless_queueFrame]
  exact ⟨_, _, _, (ReflTransGen.single (.clock _)).tail (.queueFrame _ _), rfl⟩

/-- **What a planning step does on the firmware's host**: nothing to be seen, one notice of an underrun, or the end of
the run. -/
theorem arming_cases {m m' : Fw β} (hs : Arming d.mainHost m m') :
    Quietly d m m' ∨
    (m.sched.running = true ∧ m.sched.alarmArmed = false ∧ m.queue.toList = [] ∧ m.sched.sequenceEnded = false ∧
      Starved d m m') ∨
    (m.sched.running = true ∧ m.sched.alarmArmed = false ∧ m.queue.toList = [] ∧ m.sched.sequenceEnded = true ∧
      m' = finish d.mainHost .finished m) := by
  cases hs with
  | clock => exact .inl ⟨rfl, rfl, rfl, id, .inl, _, rfl, .single (.clock _)⟩
  | interrupt => exact .inl ⟨rfl, rfl, rfl, id, .inl, _, rfl, .single (.alarmIsr _)⟩
  | exchange => exact .inl ⟨rfl, rfl, rfl, id, .inl, _, rfl, .refl⟩
  | disarm armed => exact .inl ⟨rfl, rfl, rfl, id, (fun h => nomatch h), _, rfl, .single (.cancelAlarm _ _)⟩
  | plan event running unarmed head => exact .inl ⟨rfl, rfl, rfl, (fun h => nomatch h), .inl, _, rfl, .refl⟩
  | arm running unarmed nonempty =>
    refine .inl ?_
    unfold armAlarm
    dsimp only
    split
    · exact ⟨rfl, rfl, rfl, id, fun _ => .inr running, _, rfl, .single (.addAlarm _ _)⟩
    · exact ⟨rfl, rfl, rfl, id, .inl, _, rfl, .single (.addAlarm _ _)⟩
  | underrun running unarmed empty unended =>
    by_cases hu : m.sched.underrunActive = true
    · refine .inl ?_
      unfold beginUnderrun
      rw [if_pos hu]
      exact ⟨rfl, rfl, rfl, id, .inl, _, rfl, .refl⟩
    · exact .inr (.inl ⟨running, unarmed, (Lib.Ring.peek_eq_none _).1 empty, unended,
        beginUnderrun_starved (Bool.eq_false_iff.2 hu)⟩)
  | finish running unarmed empty ended =>
    exact .inr (.inr ⟨running, unarmed, (Lib.Ring.peek_eq_none _).1 empty, ended, rfl⟩)

/-- A submission to the endpoint, from either sender. -/
theorem sendBootReport_cases (d : Board β) (source : HidSource) (report : Report) (r : Rest β) :
    (d.hidReady r.board = false ∧
      r.sendBootReport d source report = (false, r.note (.hid source report false))) ∨
    (d.hidReady r.board = true ∧ r.sendBootReport d source report =
      ((d.hidReport report r.board).1, { r with
        board := (d.hidReport report r.board).2
        trace := .hid source report (d.hidReport report r.board).1 :: r.trace })) := by
  unfold Rest.sendBootReport
  by_cases hr : d.hidReady r.board = true
  · exact .inr ⟨hr, by rw [if_neg (by rw [hr]; decide)]⟩
  · have hf : d.hidReady r.board = false := Bool.eq_false_iff.2 hr
    exact .inl ⟨hf, by rw [if_pos (by rw [hf]; rfl)]⟩

theorem sendBootReport_taken (source : HidSource) {report : Report} {r : Rest β}
    (ht : (r.sendBootReport d source report).1 = true) :
    d.hidReady r.board = true ∧ (d.hidReport report r.board).1 = true ∧
      (r.sendBootReport d source report).2 = { r with
        board := (d.hidReport report r.board).2, trace := .hid source report true :: r.trace } := by
  rcases sendBootReport_cases d source report r with ⟨-, he⟩ | ⟨hr, he⟩
  · rw [he] at ht; cases ht
  · rw [he] at ht ⊢
    have ht : (d.hidReport report r.board).1 = true := ht
    exact ⟨hr, ht, by rw [ht]⟩

/-- The credit the scheduler grants when its queue stops being full. -/
def Credit (mode : Mode) (queue : PlaybackQueue) (queued : Bool) : Obs :=
  .frame (.bufferStatus mode (UInt16.ofNat queue.count) (UInt16.ofNat (PlaybackQueue.freeCapacity queue))) queued

theorem onBufferAvailable_main (d : Board β) (queue : PlaybackQueue) (r : Rest β) :
    ∃ frame queued, d.mainHost.onBufferAvailable queue r = { r with
      board := (d.queueFrame frame r.board).2
      flowControlFault := r.flowControlFault || !queued
      trace := Credit r.mode queue queued :: r.trace } := by
  change ∃ frame queued, Rest.faultUnless (r.queueFrame d _) = _
  rw [faultUnless_queueFrame]
  exact ⟨_, _, rfl⟩

/-- A dispatch: the head was taken, and one credit may have been granted. -/
structure Played (d : Board β) (m m' : Fw β) (event : PlaybackEvent) : Prop where
  queue : m'.queue = m.queue.pop
  running : m'.sched.running = m.sched.running
  sequenceEnded : m'.sched.sequenceEnded = m.sched.sequenceEnded
  underrunActive : m'.sched.underrunActive = m.sched.underrunActive
  alarmArmed : m'.sched.alarmArmed = m.sched.alarmArmed
  taken : d.hidReady m.rest.board = true ∧ (d.hidReport event.report m.rest.board).1 = true
  rest : ∃ board fault credit, ReflTransGen (BoardCall d) (d.hidReport event.report m.rest.board).2 board ∧
    m'.rest = { m.rest with
      board := board
      flowControlFault := fault
      trace := credit ++ .hid .playback event.report true :: m.rest.trace } ∧
    (((PlaybackQueue.freeCapacity m.queue ≠ 0 ∨ m.sched.sequenceEnded = true) ∧ credit = []) ∨
      (PlaybackQueue.freeCapacity m.queue = 0 ∧ m.sched.sequenceEnded = false ∧
        ∃ queued, credit = [Credit m.rest.mode m.queue.pop queued]))

theorem dispatched_played {m : Fw β} {event : PlaybackEvent}
    (taken : (d.mainHost.sendReport event.report m.rest).1 = true) :
    Played d m (dispatched d.mainHost { m with rest := (d.mainHost.sendReport event.report m.rest).2 })
      event := by
  obtain ⟨hr, ht, hs⟩ := sendBootReport_taken (d := d) .playback taken
  change Played d m (dispatched d.mainHost { m with rest := (m.rest.sendBootReport d .playback event.report).2 }) event
  rw [hs]
  refine ⟨rfl, rfl, rfl, rfl, rfl, ⟨hr, ht⟩, ?_⟩
  unfold dispatched
  dsimp only
  split
  · rename_i hf
    rw [Bool.and_eq_true, Bool.not_eq_true', beq_iff_eq] at hf
    obtain ⟨frame, queued, hcredit⟩ := onBufferAvailable_main d m.queue.pop { m.rest with
      board := (d.hidReport event.report m.rest.board).2
      trace := .hid .playback event.report true :: m.rest.trace }
    rw [hcredit]
    exact ⟨_, _, _, (ReflTransGen.single (.queueFrame frame _)).tail (.clock _), rfl, .inr ⟨hf.1, hf.2, _, rfl⟩⟩
  · rename_i hf
    refine ⟨_, _, [], .single (.clock _), rfl, .inl ⟨?_, rfl⟩⟩
    by_cases hfree : PlaybackQueue.freeCapacity m.queue = 0
    · refine .inr ?_
      simpa [hfree] using hf
    · exact .inl hfree

/-- The machine `playback_complete` leaves the mode with: the outcome frames of a finished run are queued. -/
def finished (d : Board β) (m : Fw β) : Fw β :=
  let sched := { m.sched with
    running := false, latenessSamples := Scheduler.sortSamples m.sched.latenessSamples }
  { m with sched := sched, rest := outcomeFrames d .finished sched.metrics m.rest }

theorem finish_main (d : Board β) (m : Fw β) :
    finish d.mainHost .finished m =
      if m.rest.mode ≠ .playing then notify d .invalidTransition (finished d m)
      else transition d .armed .finished (finished d m) := by
  change (if Reason.finished = Reason.finished then (playFinish d (finished d m)).2 else finished d m) = _
  rw [if_pos rfl]
  unfold playFinish
  change (if m.rest.mode ≠ .playing then _ else _ : Bool × Fw β).2 = _
  split <;> rfl

theorem transition_cleared (d : Board β) (target : Mode) (reason : Reason) (m : Fw β) :
    (transition d target reason m).sched = (clearReleaseAndQueue d m).sched := rfl

theorem transition_running (d : Board β) (target : Mode) (reason : Reason) (m : Fw β) :
    (transition d target reason m).sched.running = false := (clearReleaseAndQueue_spec d m).running

theorem main_settles (d : Board β) : d.mainHost.Settles := by
  intro reason metrics m hr
  change (playbackComplete d reason metrics m).sched.running = false
  unfold playbackComplete playFinish
  dsimp only
  split
  · split
    · exact hr
    · exact transition_running d _ _ _
  · exact hr

/-! ## The trace only grows -/

theorem transition_trace (d : Board β) (target : Mode) (reason : Reason) (m : Fw β) :
    ∃ outcome queued, (transition d target reason m).rest.trace =
      .frame (.modeChanged target reason) queued :: .entered target :: .allRelease :: (outcome ++ m.rest.trace) ∧
      Stopped m.sched.running outcome := by
  obtain ⟨outcome, htrace, hstop⟩ := (clearReleaseAndQueue_spec d m).trace
  refine ⟨outcome, (d.queueFrame (PicoMsg.modeChanged target reason).toFrame
    (clearReleaseAndQueue d m).rest.board).1, ?_, hstop⟩
  rw [← htrace]
  rfl

theorem finished_trace (d : Board β) (m : Fw β) : ∃ metrics q₁ q₂, (finished d m).rest.trace =
    .frame (.playMetrics metrics) q₂ :: .frame .playFinished q₁ :: .completed .finished metrics :: m.rest.trace :=
  ⟨_, _, _, rfl⟩

theorem finish_trace (d : Board β) (m : Fw β) : m.rest.trace <:+ (finish d.mainHost .finished m).rest.trace := by
  obtain ⟨metrics, q₁, q₂, hf⟩ := finished_trace d m
  have hfinished : m.rest.trace <:+ (finished d m).rest.trace := ⟨[_, _, _], hf.symm⟩
  rw [finish_main]
  split
  · exact hfinished.trans (List.suffix_cons _ _)
  · obtain ⟨outcome, queued, htrace, -⟩ := transition_trace d .armed .finished (finished d m)
    exact hfinished.trans ⟨_ :: _ :: _ :: outcome, by rw [htrace]; rfl⟩

theorem arming_trace {m m' : Fw β} (hs : Arming d.mainHost m m') : m.rest.trace <:+ m'.rest.trace := by
  rcases arming_cases hs with hq | ⟨-, -, -, -, hq⟩ | ⟨-, -, -, -, rfl⟩
  · obtain ⟨board, hrest, -⟩ := hq.rest
    simp only [hrest, List.suffix_refl]
  · obtain ⟨board, elapsed, queued, -, hrest⟩ := hq.rest
    rw [hrest]
    exact List.suffix_cons _ _
  · exact finish_trace d m

theorem sendBootReport_trace (source : HidSource) (report : Report) (r : Rest β) :
    r.trace <:+ (r.sendBootReport d source report).2.trace := by
  rcases sendBootReport_cases d source report r with ⟨-, he⟩ | ⟨-, he⟩ <;> rw [he] <;> exact List.suffix_cons _ _

theorem micro_trace {m m' : Fw β} (hs : Micro d.mainHost m m') : m.rest.trace <:+ m'.rest.trace := by
  cases hs with
  | arming step => exact arming_trace step
  | refuse event running ready head busy => exact sendBootReport_trace _ _ _
  | dispatch event running ready head taken =>
    obtain ⟨board, fault, credit, -, hrest, -⟩ := (dispatched_played (d := d) taken).rest
    rw [hrest]
    exact (List.suffix_cons _ _).trans (List.suffix_append credit _)

theorem serviceRelease_trace (r : Rest β) : r.trace <:+ (serviceRelease d r).2.trace := by
  unfold serviceRelease
  split
  · exact List.suffix_refl _
  · dsimp only
    split <;> exact sendBootReport_trace _ _ _

theorem step_trace {phase : Phase} {m m' : Fw β} (hs : FwStep d phase m m') : m.rest.trace <:+ m'.rest.trace := by
  cases hs with
  | tud => exact List.suffix_refl _
  | board _ b call => exact List.suffix_refl _
  | keyboard _ k => exact List.suffix_refl _
  | capture _ timestamp report capture accepts push => exact List.suffix_cons _ _
  | notify _ reason unchanged => exact List.suffix_cons _ _
  | reply _ msg kind => exact List.suffix_cons _ _
  | handled _ target accepted => exact List.suffix_cons _ _
  | transition _ target reason changes =>
    obtain ⟨outcome, queued, htrace, -⟩ := transition_trace d target reason m
    exact ⟨_ :: _ :: _ :: outcome, by rw [htrace]; rfl⟩
  | launch _ epoch armed idle => exact ⟨[_, _, _, _, _], rfl⟩
  | enqueue _ event queue streams push => exact List.suffix_cons _ _
  | reject _ event => exact List.suffix_cons _ _
  | queueClear _ armed => exact List.suffix_refl _
  | queueEnd _ streams => exact List.suffix_refl _
  | takeFlowFault => exact List.suffix_refl _
  | release => exact serviceRelease_trace _
  | record _ event recording head fresh =>
    unfold recordHead
    split
    · exact List.suffix_refl _
    · exact List.suffix_cons _ _
  | refusePhysical _ event busy => exact sendBootReport_trace _ _ _
  | sendPhysical _ event head mode calm taken => exact sendBootReport_trace .physical event.report m.rest
  | arming step => exact arming_trace step
  | play step => exact micro_trace step

/-- Every frame of the trace fitted into the transmitter. -/
def Lossless (trace : List Obs) : Prop := ∀ msg, Obs.frame msg false ∉ trace

def Obs.isDropped : Obs → Bool
  | .frame _ false => true
  | _ => false

instance (trace : List Obs) : Decidable (Lossless trace) :=
  decidable_of_iff (trace.any Obs.isDropped = false) <| by
    rw [List.any_eq_false]
    refine ⟨fun h msg hm => h _ hm rfl, fun h o ho hd => ?_⟩
    match o, hd with
    | .frame msg false, _ => exact h msg ho

theorem Lossless.earlier {earlier later : List Obs} (hl : Lossless later) (hs : earlier <:+ later) :
    Lossless earlier := fun msg hm => hl msg (hs.subset hm)

theorem Lossless.queued {queued : Bool} {trace : List Obs} (hl : Lossless trace) (msg : PicoMsg)
    (hm : Obs.frame msg queued ∈ trace) : queued = true := by
  cases queued with
  | true => rfl
  | false => exact absurd hm (hl msg)

/-- The frames that reached the transmitter, newest first. -/
def wire : List Obs → List PicoMsg
  | [] => []
  | .frame msg true :: trace => msg :: wire trace
  | _ :: trace => wire trace

/-! ## An iteration as a run of steps -/

/-- What holds of the scheduler between any two of the main loop's calls. -/
structure Boundary (m : Fw β) : Prop where
  planned : Planned m
  playing : m.sched.running = true → m.rest.mode = .playing

theorem Boundary.stopped {m : Fw β} (hr : m.sched.running = false) : Boundary m where
  planned h := by rw [hr] at h; cases h
  playing h := by rw [hr] at h; cases h

theorem Boundary.frame {m m' : Fw β} (hb : Boundary m) (hs : m'.sched = m.sched) (hq : m'.queue = m.queue)
    (hm : m'.rest.mode = m.rest.mode) : Boundary m' := by
  refine ⟨?_, ?_⟩
  · intro hr hw
    rw [hs] at hr hw
    rw [hq]
    exact hb.planned hr hw
  · rw [hs, hm]
    exact hb.playing

theorem Boundary.idle {m : Fw β} (hb : Boundary m) (hm : m.rest.mode ≠ .playing) : m.sched.running = false :=
  Bool.eq_false_iff.2 (fun hr => hm (hb.playing hr))

theorem arming_playing {m m' : Fw β} (hs : Arming d.mainHost m m')
    (hp : m.sched.running = true → m.rest.mode = .playing) : m'.sched.running = true → m'.rest.mode = .playing := by
  rcases arming_cases hs with hq | ⟨-, -, -, -, hq⟩ | ⟨-, -, -, -, rfl⟩
  · obtain ⟨board, hrest, -⟩ := hq.rest
    rw [hq.running, hrest]
    exact hp
  · obtain ⟨board, elapsed, queued, -, hrest⟩ := hq.rest
    rw [hq.running, hrest]
    exact hp
  · intro hr
    rw [finish_running (main_settles d)] at hr
    cases hr

theorem sendBootReport_mode (source : HidSource) (report : Report) (r : Rest β) :
    (r.sendBootReport d source report).2.mode = r.mode := by
  rcases sendBootReport_cases d source report r with ⟨-, he⟩ | ⟨-, he⟩ <;> rw [he]
  rfl

theorem micro_playing {m m' : Fw β} (hs : Micro d.mainHost m m')
    (hp : m.sched.running = true → m.rest.mode = .playing) : m'.sched.running = true → m'.rest.mode = .playing := by
  cases hs with
  | arming step => exact arming_playing step hp
  | refuse event running ready head busy => exact fun hr => (sendBootReport_mode _ _ _).trans (hp hr)
  | dispatch event running ready head taken =>
    have hd := dispatched_played (d := d) taken
    obtain ⟨board, fault, credit, -, hrest, -⟩ := hd.rest
    rw [hd.running]
    exact fun hr => (congrArg Rest.mode hrest).trans (hp hr)

/-- A run of the firmware's steps that ends between two calls. -/
def Leads (d : Board β) (phase : Phase) (m m' : Fw β) : Prop :=
  ReflTransGen (FwStep d phase) m m' ∧ Boundary m'

variable {phase : Phase} {m : Fw β}

theorem Leads.step {m' : Fw β} (hs : FwStep d phase m m') (hb : Boundary m') : Leads d phase m m' :=
  ⟨.single hs, hb⟩

theorem Leads.trans {m' n : Fw β} (h₁ : Leads d phase m m') (h₂ : Leads d phase m' n) : Leads d phase m n :=
  ⟨h₁.1.trans h₂.1, h₂.2⟩

theorem notify_leads {reason : Reason} (hb : Boundary m) (hu : Unchanged m.rest.mode reason) :
    Leads d phase m (notify d reason m) := .step (.notify m reason hu) (hb.frame rfl rfl rfl)

theorem transition_leads {target : Mode} {reason : Reason} (hc : Changes m.rest.mode target reason) :
    Leads d phase m (transition d target reason m) :=
  .step (.transition m target reason hc) (.stopped (transition_running d _ _ _))

theorem enterError_leads (reason : Reason) (hb : Boundary m) (hf : reason.isFault = true) :
    Leads d phase m (enterError d reason m) := by
  unfold enterError
  split
  · rename_i hm
    exact transition_leads (.inr (.inr (.inr ⟨hf, rfl, hm⟩)))
  · rename_i hm
    refine notify_leads hb (.inr (.inr (.inr ⟨hf, ?_⟩)))
    by_cases hp : m.rest.mode = .pass
    · exact .inl hp
    · exact .inr (Decidable.not_not.1 (fun he => hm ⟨hp, he⟩))

theorem target_le {target : UInt8} (h : ¬target > Mode.armed.byte) :
    target = Mode.pass.byte ∨ target = Mode.record.byte ∨ target = Mode.armed.byte := by
  have hle : target.toNat ≤ 2 := by
    have : ¬(2 : UInt8) < target := h
    rw [UInt8.lt_iff_toNat_lt] at this
    simpa using this
  have hcases : target.toNat = 0 ∨ target.toNat = 1 ∨ target.toNat = 2 := by omega
  rcases hcases with h0 | h1 | h2
  · exact .inl (UInt8.toNat.inj h0)
  · exact .inr (.inl (UInt8.toNat.inj h1))
  · exact .inr (.inr (UInt8.toNat.inj h2))

theorem handleModeSet_leads (target : UInt8) (hb : Boundary m) :
    Leads d phase m (handleModeSet d target m).2 := by
  unfold handleModeSet
  split
  · exact notify_leads hb (.inl rfl)
  rename_i hrange
  split
  · split
    · rename_i hm
      exact transition_leads (.inl ⟨rfl, rfl, hm⟩)
    · rename_i hm
      exact notify_leads hb (.inr (.inr (.inl ⟨rfl, .inl (Decidable.not_not.1 hm)⟩)))
  rename_i hpass
  split
  · rename_i hsame
    refine notify_leads hb (.inr (.inr (.inl ⟨rfl, ?_⟩)))
    rcases target_le hrange with h | h | h
    · exact absurd h hpass
    · exact .inr (.inl (Mode.byte_injective (hsame.symm.trans h)))
    · exact .inr (.inr (Mode.byte_injective (hsame.symm.trans h)))
  split
  · rename_i hnew
    refine transition_leads (.inr (.inl ⟨rfl, ?_, hnew.2⟩))
    unfold targetMode
    rw [if_neg hpass]
    split
    · exact .inl rfl
    · exact .inr rfl
  · exact notify_leads hb (.inr (.inl rfl))

theorem playAbort_leads (hb : Boundary m) : Leads d phase m (playAbort d m).2 := by
  unfold playAbort
  split
  · exact notify_leads hb (.inr (.inl rfl))
  · rename_i hm
    refine transition_leads (.inr (.inr (.inl ⟨rfl, rfl, ?_⟩)))
    by_cases ha : m.rest.mode = .armed
    · exact .inl ha
    · exact .inr (Decidable.not_not.1 (fun hp => hm ⟨ha, hp⟩))

theorem hostEvent_leads (e : HostEvent) (hb : Boundary m) : Leads d phase m (hostEvent d m e) := by
  cases e with
  | mount devAddr interface isKeyboard =>
    simp only [hostEvent]
    split
    · exact ⟨.refl, hb⟩
    · split
      · exact ⟨.refl, hb⟩
      · exact .step (.keyboard m _) (hb.frame rfl rfl rfl)
  | umount devAddr interface =>
    simp only [hostEvent]
    split
    · exact ⟨.refl, hb⟩
    · exact .step (.keyboard m _) (hb.frame rfl rfl rfl)
  | reportReceived devAddr interface report =>
    have hclock : Leads d phase m { m with rest := { m.rest with board := (d.timeUs64 m.rest.board).2 } } :=
      .step (.board m _ (.clock _)) (hb.frame rfl rfl rfl)
    simp only [hostEvent]
    split
    · exact hclock
    · rename_i hm
      split
      · rename_i capture hpush
        refine hclock.trans (.step (.capture _ _ _ _ ?_ hpush) (hb.frame rfl rfl rfl))
        simp only [acceptsPhysical, Bool.or_eq_true, not_or, Bool.not_eq_true, Bool.not_eq_false', decide_eq_true_eq]
          at hm
        simpa using hm.2
      · exact hclock

theorem acknowledgeQueue_leads (hb : Boundary m) : Leads d phase m (acknowledgeQueue d m) := by
  have hreply : Leads d phase m { m with rest := (m.rest.sendBufferStatus d m.queue).2 } :=
    .step (.reply m _ rfl) (hb.frame rfl rfl rfl)
  unfold acknowledgeQueue
  dsimp only
  split
  · exact hreply.trans (enterError_leads _ hreply.2 rfl)
  · exact hreply

theorem Boundary.queue {queue : PlaybackQueue} {event : PlaybackEvent} (hb : Boundary m)
    (hq : queue.toList = m.queue.toList ++ [event]) (rest : Rest β) (hm : rest.mode = m.rest.mode) :
    Boundary ⟨m.sched, queue, rest⟩ := by
  refine ⟨fun hr hw => ?_, fun hr => hm.trans (hb.playing hr)⟩
  rw [Ne, Lib.Ring.peek_eq_none, hq]
  simp

theorem queueEvent_leads (frame : Frame) (hb : Boundary m) (hs : m.rest.mode = .armed ∨ m.rest.mode = .playing) :
    Leads d phase m (queueEvent d frame m) := by
  unfold queueEvent
  dsimp only
  split
  · exact (Leads.step (.reject m _) (hb.frame rfl rfl rfl)).trans (enterError_leads _ (hb.frame rfl rfl rfl) rfl)
  · rename_i queue hpush
    have hq := PlaybackQueue.toList_push hpush
    have hb' := hb.queue hq (m.rest.note (.pushed ⟨UInt64.ofNat (leNat (frame.payload.take 8)),
      Report.ofBytes ((frame.payload.drop 9).take 8)⟩ true)) rfl
    exact (Leads.step (.enqueue m _ queue hs hq) hb').trans (acknowledgeQueue_leads hb')

theorem queueCommand_streams {type : UInt8} {state : Mode} (h : queueCommandAllowed type state = true) :
    (type = MsgType.queueClear.byte → state = .armed) ∧ (state = .armed ∨ state = .playing) := by
  unfold queueCommandAllowed at h
  split at h
  · have hs : state = .armed := by simpa using h
    exact ⟨fun _ => hs, .inl hs⟩
  · rename_i hc
    split at h
    · exact ⟨fun ht => absurd ht hc, by simpa using h⟩
    · cases h

theorem dispatchQueueCommand_leads (frame : Frame) (hb : Boundary m) :
    Leads d phase m (dispatchQueueCommand d frame m) := by
  unfold dispatchQueueCommand
  dsimp only
  split
  · exact enterError_leads _ hb rfl
  rename_i hallowed
  obtain ⟨hclear, hstreams⟩ := queueCommand_streams (by simpa using hallowed)
  split
  · rename_i htype
    have harmed := hclear (MsgType.ofByte?_eq_some.1 htype)
    have hidle := hb.idle (by rw [harmed]; decide)
    have hb' : Boundary (⟨m.sched.resetSequence, m.queue.clear, m.rest⟩ : Fw β) :=
      .stopped (by rw [resetSequence_stopped hidle]; exact hidle)
    exact (Leads.step (.queueClear m harmed) hb').trans (acknowledgeQueue_leads hb')
  · exact queueEvent_leads frame hb hstreams
  · have hend : Leads d phase m { m with sched := m.sched.markSequenceEnded } :=
      .step (.queueEnd m hstreams) ⟨hb.planned, hb.playing⟩
    split
    · have hready := hend.trans (.step (.reply _ .playReady rfl) (hend.2.frame rfl rfl rfl))
      exact hready.trans (acknowledgeQueue_leads hready.2)
    · exact hend.trans (acknowledgeQueue_leads hend.2)
  · exact enterError_leads _ hb rfl

theorem arming_steps {m m' : Fw β} (hs : ReflTransGen (Arming d.mainHost) m m') :
    ReflTransGen (FwStep d phase) m m' := ReflTransGen.mono (fun _ _ step => .arming step) _ _ hs

/-- The machine after the epoch was read. -/
def readEpoch (d : Board β) (m : Fw β) : Fw β :=
  { m with rest := { m.rest with board := (d.timeUs64 m.rest.board).2 } }

theorem dispatchPlayStart_eq (d : Board β) (m : Fw β) :
    dispatchPlayStart d m =
      let entered := playStart d (readEpoch d m)
      let now := (d.timeUs64 m.rest.board).1
      if entered.1 then
        start d.mainHost now { entered.2 with
          rest := ((entered.2.rest.queueFrame d (.playStarted now)).2).note (.started now) }
      else entered.2 := rfl

theorem dispatchPlayStart_armed (hm : m.rest.mode = .armed) :
    dispatchPlayStart d m = start d.mainHost (d.timeUs64 m.rest.board).1
      { launch d (d.timeUs64 m.rest.board).1 (readEpoch d m) with sched := m.sched } := by
  have hs : playStart d (readEpoch d m) = (true, notify d .ok (enter .playing (clearAndRelease (readEpoch d m)))) :=
    if_neg (not_not_intro hm)
  rw [dispatchPlayStart_eq, hs]
  rfl

theorem dispatchPlayStart_refused (hm : m.rest.mode ≠ .armed) :
    dispatchPlayStart d m = notify d .invalidTransition (readEpoch d m) := by
  have hs : playStart d (readEpoch d m) = (false, notify d .invalidTransition (readEpoch d m)) := if_pos hm
  rw [dispatchPlayStart_eq, hs]
  rfl

theorem dispatchPlayStart_leads (hb : Boundary m) : Leads d .input m (dispatchPlayStart d m) := by
  have hclock : Leads d .input m (readEpoch d m) := .step (.board m _ (.clock _)) (hb.frame rfl rfl rfl)
  by_cases hm : m.rest.mode = .armed
  · have hidle := hb.idle (by rw [hm]; decide)
    rw [dispatchPlayStart_armed hm]
    have harm := start_arming (h := d.mainHost)
      (m := { launch d (d.timeUs64 m.rest.board).1 (readEpoch d m) with sched := m.sched })
      (d.timeUs64 m.rest.board).1 hidle
    have hlaunch := hclock.1.tail (.launch _ (d.timeUs64 m.rest.board).1 hm hidle)
    refine ⟨hlaunch.trans (arming_steps harm), start_planned (main_settles d) _ (fun hr => ?_), ?_⟩
    · change m.sched.running = true at hr
      rw [hidle] at hr; cases hr
    · exact Preserved.run (P := fun m : Fw β => m.sched.running = true → m.rest.mode = .playing)
        (fun _ _ step hp => arming_playing step hp) harm (fun _ => rfl)
  · rw [dispatchPlayStart_refused hm]
    exact hclock.trans (notify_leads hclock.2 (.inr (.inl rfl)))

theorem dispatchCommand_leads (hb : Boundary m) (frame : Frame) :
    Leads d .input m (dispatchCommand d m frame) := by
  unfold dispatchCommand
  split
  · have hset : Leads d .input m (handleModeSet d (frame.payload.getD 0 0) m).2 := handleModeSet_leads _ hb
    exact hset.trans (.step (.handled _ _ _) (hset.2.frame rfl rfl rfl))
  · exact dispatchPlayStart_leads hb
  · exact playAbort_leads hb
  · exact .step (.reply m (.pong _) rfl) (hb.frame rfl rfl rfl)
  · exact .step (.reply m (.picoStatus ..) rfl) (hb.frame rfl rfl rfl)
  · exact dispatchQueueCommand_leads frame hb
  · exact dispatchQueueCommand_leads frame hb
  · exact dispatchQueueCommand_leads frame hb
  · exact enterError_leads _ hb rfl

theorem foldl_leads {α : Type} {f : Fw β → α → Fw β} (hf : ∀ m x, Boundary m → Leads d phase m (f m x)) :
    ∀ (xs : List α) (m : Fw β), Boundary m → Leads d phase m (xs.foldl f m)
  | [], _, hb => ⟨.refl, hb⟩
  | x :: xs, m, hb => (hf m x hb).trans (foldl_leads hf xs (f m x) (hf m x hb).2)

/-- **The first half of an iteration** is a run of input steps. -/
theorem loopCommands_leads (input : LoopInput) (hb : Boundary m) :
    Leads d .input m (loopCommands d input m) := by
  have htud : Leads d .input m { m with rest := { m.rest with board := d.tudTask m.rest.board } } :=
    .step (.tud m) (hb.frame rfl rfl rfl)
  have hevents := htud.trans (foldl_leads (fun m e h => hostEvent_leads e h) input.events _ htud.2)
  unfold loopCommands
  dsimp only
  split
  · have hfault := hevents.trans (enterError_leads .uartFault hevents.2 rfl)
    exact hfault.trans (foldl_leads (fun m frame h => dispatchCommand_leads h frame) input.commands _ hfault.2)
  · exact hevents.trans (foldl_leads (fun m frame h => dispatchCommand_leads h frame) input.commands _ hevents.2)

theorem recordHead_mode (event : CaptureEvent) (r : Rest β) : (recordHead d event r).mode = r.mode := by
  unfold recordHead
  split <;> rfl

theorem recordHead_releasePending (event : CaptureEvent) (r : Rest β) :
    (recordHead d event r).releasePending = r.releasePending := by
  unfold recordHead
  split <;> rfl

theorem recordHead_capture {event : CaptureEvent} {r : Rest β} (hp : r.capture.peek = some event) :
    (recordHead d event r).capture.peek = some event ∧ (recordHead d event r).capture.isHeadRecorded = true := by
  unfold recordHead
  split
  · rename_i hrecorded
    exact ⟨hp, hrecorded⟩
  · change r.capture.markHeadRecorded.peek = some event ∧ r.capture.markHeadRecorded.isHeadRecorded = true
    have hpeek : r.capture.markHeadRecorded.peek = some event := by rw [Capture.peek_markHeadRecorded, hp]
    exact ⟨hpeek, by rw [Capture.isHeadRecorded_of_peek hpeek, Capture.headRecorded_markHeadRecorded hp]⟩

theorem recordHead_leads {event : CaptureEvent} (hb : Boundary m) (hm : m.rest.mode = .record)
    (hp : m.rest.capture.peek = some event) :
    Leads d .output m { m with rest := recordHead d event m.rest } := by
  by_cases hrecorded : m.rest.capture.isHeadRecorded = true
  · have he : recordHead d event m.rest = m.rest := if_pos hrecorded
    rw [he]
    exact ⟨.refl, hb⟩
  · exact .step (.record m event hm hp (Bool.eq_false_iff.2 hrecorded)) (hb.frame rfl rfl (recordHead_mode _ _))

/-- A physical submission, refused or followed by the pop of the head. -/
theorem sendPhysical_leads {event : CaptureEvent} (hb : Boundary m) (hp : m.rest.capture.peek = some event)
    (hm : m.rest.mode = .pass ∨ m.rest.mode = .record ∧ m.rest.capture.isHeadRecorded = true)
    (hcalm : m.rest.releasePending = false) (ht : (m.rest.sendBootReport d .physical event.report).1 = true) :
    Leads d .output m { m with rest :=
      { (m.rest.sendBootReport d .physical event.report).2 with
        capture := (m.rest.sendBootReport d .physical event.report).2.capture.pop } } := by
  have hc : (m.rest.sendBootReport d .physical event.report).2.capture = m.rest.capture := by
    rw [(sendBootReport_taken _ ht).2.2]
  rw [hc]
  exact .step (.sendPhysical m event hp hm hcalm ht)
    (hb.frame rfl rfl (sendBootReport_mode .physical event.report m.rest))

theorem sendBootReport_releasePending (source : HidSource) (report : Report) (r : Rest β) :
    (r.sendBootReport d source report).2.releasePending = r.releasePending := by
  rcases sendBootReport_cases d source report r with ⟨-, he⟩ | ⟨-, he⟩ <;> rw [he]
  rfl

theorem refusePhysical_leads {event : CaptureEvent} (hb : Boundary m)
    (ht : (m.rest.sendBootReport d .physical event.report).1 = false) :
    Leads d .output m { m with rest := (m.rest.sendBootReport d .physical event.report).2 } :=
  .step (.refusePhysical m event ht) (hb.frame rfl rfl (sendBootReport_mode .physical event.report m.rest))

theorem recordLoop_leads (hidOutputReady : Bool) :
    ∀ (fuel : Nat) (m : Fw β), Boundary m → m.rest.mode = .record →
      (hidOutputReady = true → m.rest.releasePending = false) →
      Leads d .output m { m with rest := recordLoop d hidOutputReady fuel m.rest }
  | 0, m, hb, _, _ => ⟨.refl, hb⟩
  | fuel + 1, m, hb, hm, hcalm => by
    unfold recordLoop
    cases hpeek : m.rest.capture.peek with
    | none => exact ⟨.refl, hb⟩
    | some event =>
      have hrecord := recordHead_leads (d := d) hb hm hpeek
      obtain ⟨hpeek', hrecorded⟩ := recordHead_capture (d := d) hpeek
      have hm' := (recordHead_mode (d := d) event m.rest).trans hm
      have hpend := recordHead_releasePending (d := d) event m.rest
      dsimp only
      split
      · exact hrecord
      rename_i hready
      have hcalm' : m.rest.releasePending = false := hcalm (by simpa using hready)
      split
      · rename_i hbusy
        exact hrecord.trans (refusePhysical_leads hrecord.2 (by simpa using hbusy))
      · rename_i htaken
        have hsend := hrecord.trans (sendPhysical_leads hrecord.2 hpeek' (.inr ⟨hm', hrecorded⟩) (hpend.trans hcalm')
          (by simpa using htaken))
        exact hsend.trans (recordLoop_leads hidOutputReady fuel _ hsend.2
          ((sendBootReport_mode _ _ _).trans hm')
          (fun _ => (sendBootReport_releasePending _ _ _).trans (hpend.trans hcalm')))

theorem passLoop_leads : ∀ (fuel : Nat) (m : Fw β), Boundary m → m.rest.mode = .pass → m.rest.releasePending = false →
    Leads d .output m { m with rest := passLoop d fuel m.rest }
  | 0, m, hb, _, _ => ⟨.refl, hb⟩
  | fuel + 1, m, hb, hm, hcalm => by
    unfold passLoop
    cases hpeek : m.rest.capture.peek with
    | none => exact ⟨.refl, hb⟩
    | some event =>
      dsimp only
      split
      · rename_i hbusy
        exact refusePhysical_leads hb (by simpa using hbusy)
      · rename_i htaken
        have hsend := sendPhysical_leads (d := d) hb hpeek (.inl hm) hcalm (by simpa using htaken)
        exact hsend.trans (passLoop_leads fuel _ hsend.2 ((sendBootReport_mode _ _ _).trans hm)
          ((sendBootReport_releasePending _ _ _).trans hcalm))

theorem physicalReportDispatch_leads (hidOutputReady : Bool) (hb : Boundary m)
    (hcalm : hidOutputReady = true → m.rest.releasePending = false) :
    Leads d .output m { m with rest := physicalReportDispatch d hidOutputReady m.rest } := by
  unfold physicalReportDispatch
  split
  · rename_i hm
    exact recordLoop_leads hidOutputReady _ m hb hm hcalm
  · split
    · exact ⟨.refl, hb⟩
    · rename_i hpass
      simp only [Bool.or_eq_true, Bool.not_eq_true', decide_eq_true_eq, not_or, Bool.not_eq_false,
        Decidable.not_not] at hpass
      exact passLoop_leads _ m hb hpass.2 (hcalm hpass.1)

theorem flowControlCheck_leads (hb : Boundary m) : Leads d .output m (flowControlCheck d m) := by
  unfold flowControlCheck
  split
  · have htake : Leads d .output m { m with rest := { m.rest with flowControlFault := false } } :=
      .step (.takeFlowFault m) (hb.frame rfl rfl rfl)
    exact htake.trans (enterError_leads _ htake.2 rfl)
  · exact ⟨.refl, hb⟩

theorem watchdogCheck_leads (hb : Boundary m) : Leads d .output m (watchdogCheck d m) := by
  have hclock : Leads d .output m (readEpoch d m) := .step (.board m _ (.clock _)) (hb.frame rfl rfl rfl)
  unfold watchdogCheck
  split
  · exact ⟨.refl, hb⟩
  · dsimp only
    split
    · exact hclock.trans (enterError_leads _ hclock.2 rfl)
    · exact hclock

theorem serviceRelease_mode (r : Rest β) : (serviceRelease d r).2.mode = r.mode := by
  unfold serviceRelease
  split
  · rfl
  · dsimp only
    split <;> exact sendBootReport_mode _ _ _

theorem serviceRelease_ready {r : Rest β} (h : (serviceRelease d r).1 = .ready) :
    r.releasePending = false ∧ (serviceRelease d r).2 = r := by
  unfold serviceRelease at h ⊢
  split
  · rename_i hp
    exact ⟨by simpa using hp, rfl⟩
  · rename_i hp
    rw [if_neg hp] at h
    dsimp only at h
    split at h <;> cases h

theorem release_leads (hb : Boundary m) : Leads d .input m { m with rest := (serviceRelease d m.rest).2 } :=
  .step (.release m) (hb.frame rfl rfl (serviceRelease_mode _))

/-- **The second half of an iteration**, from what the safety release left, is a run of output steps. -/
theorem loopOutput_leads (hb : Boundary m) :
    Leads d .output { m with rest := (serviceRelease d m.rest).2 } (loopOutput d m) := by
  have hrel := (release_leads (d := d) hb).2
  have hphys := physicalReportDispatch_leads (d := d) ((serviceRelease d m.rest).1 = .ready) hrel (fun hr => by
    obtain ⟨hp, he⟩ := serviceRelease_ready (of_decide_eq_true hr)
    rw [he]; exact hp)
  have htask := hphys.trans (n := task d.mainHost _)
    ⟨ReflTransGen.mono (fun _ _ step => .play step) _ _ (task_micro (main_settles d) hphys.2.planned),
      task_planned (main_settles d) hphys.2.planned,
      Preserved.run (P := fun m : Fw β => m.sched.running = true → m.rest.mode = .playing)
        (fun _ _ step hp => micro_playing step hp) (task_micro (main_settles d) hphys.2.planned) hphys.2.playing⟩
  have hflow := htask.trans (flowControlCheck_leads htask.2)
  have hdog := hflow.trans (watchdogCheck_leads hflow.2)
  exact hdog.trans (.step (.board _ _ (.tx _)) (hdog.2.frame rfl rfl rfl))

theorem boot_boundary (b : β) : Boundary (boot b) := .stopped rfl

theorem loopBody_boundary (input : LoopInput) (hb : Boundary m) : Boundary (loopBody d m input) :=
  (loopOutput_leads (loopCommands_leads input hb).2).2

/-- **An invariant of every single step is an invariant of the iteration.** -/
theorem loopBody_invariant {P : Fw β → Prop} (hp : ∀ phase, Preserved (FwStep d phase) P) (input : LoopInput)
    (hb : Boundary m) (h : P m) : P (loopBody d m input) := by
  have hin := loopCommands_leads (d := d) input hb
  have hrel := hin.trans (release_leads hin.2)
  exact (hp .output).run (loopOutput_leads hin.2).1 ((hp .input).run hrel.1 h)

/-- **Run lemma**: what boots true and survives every single step holds at every loop boundary. -/
theorem run_invariant {P : Fw β → Prop} (hboot : ∀ b, P (boot b)) (hp : ∀ phase, Preserved (FwStep d phase) P)
    (board : β) (inputs : List LoopInput) : Boundary (run d board inputs) ∧ P (run d board inputs) :=
  Lib.foldl_invariant (P := fun m : Fw β => Boundary m ∧ P m) (f := loopBody d)
    (fun _ input h => ⟨loopBody_boundary input h.1, loopBody_invariant hp input h.1 h.2⟩) inputs (boot board)
    ⟨boot_boundary board, hboot board⟩

/-- And after any command in the middle of an iteration. -/
theorem midrun_invariant {P : Fw β → Prop} (hboot : ∀ b, P (boot b)) (hp : ∀ phase, Preserved (FwStep d phase) P)
    (board : β) (inputs : List LoopInput) (input : LoopInput) : P (loopCommands d input (run d board inputs)) := by
  obtain ⟨hb, h⟩ := run_invariant hboot hp board inputs
  exact (hp .input).run (loopCommands_leads input hb).1 h

/-! ## Modes that stay -/

/-- What callbacks of the host and the reports' way out keep. -/
def SameMode (r r' : Rest β) : Prop := r'.mode = r.mode ∧ r'.flowControlFault = r.flowControlFault

theorem SameMode.trans {r r' r'' : Rest β} (h : SameMode r r') (h' : SameMode r' r'') : SameMode r r'' :=
  ⟨h'.1.trans h.1, h'.2.trans h.2⟩

theorem sendBootReport_sameMode (source : HidSource) (report : Report) (r : Rest β) :
    SameMode r (r.sendBootReport d source report).2 := by
  rcases sendBootReport_cases d source report r with ⟨-, he⟩ | ⟨-, he⟩ <;> rw [he] <;> exact ⟨rfl, rfl⟩

theorem serviceRelease_sameMode (r : Rest β) : SameMode r (serviceRelease d r).2 := by
  unfold serviceRelease
  split
  · exact ⟨rfl, rfl⟩
  · dsimp only
    split <;> exact sendBootReport_sameMode _ _ _

theorem recordHead_sameMode (event : CaptureEvent) (r : Rest β) : SameMode r (recordHead d event r) := by
  unfold recordHead
  split <;> exact ⟨rfl, rfl⟩

theorem recordLoop_sameMode (hidOutputReady : Bool) : ∀ (fuel : Nat) (r : Rest β),
    SameMode r (recordLoop d hidOutputReady fuel r)
  | 0, r => ⟨rfl, rfl⟩
  | fuel + 1, r => by
    unfold recordLoop
    split
    · exact ⟨rfl, rfl⟩
    · rename_i event _
      have hhead := recordHead_sameMode (d := d) event r
      have hsent := hhead.trans (sendBootReport_sameMode (d := d) .physical event.report (recordHead d event r))
      dsimp only
      split
      · exact hhead
      split
      · exact hsent
      · exact hsent.trans (recordLoop_sameMode hidOutputReady fuel _)

theorem passLoop_sameMode : ∀ (fuel : Nat) (r : Rest β), SameMode r (passLoop d fuel r)
  | 0, r => ⟨rfl, rfl⟩
  | fuel + 1, r => by
    unfold passLoop
    split
    · exact ⟨rfl, rfl⟩
    · rename_i event _
      have hsent := sendBootReport_sameMode (d := d) .physical event.report r
      dsimp only
      split
      · exact hsent
      · exact hsent.trans (passLoop_sameMode fuel _)

theorem physicalReportDispatch_sameMode (hidOutputReady : Bool) (r : Rest β) :
    SameMode r (physicalReportDispatch d hidOutputReady r) := by
  unfold physicalReportDispatch
  split
  · exact recordLoop_sameMode hidOutputReady _ r
  split
  · exact ⟨rfl, rfl⟩
  · exact passLoop_sameMode _ r

theorem hostEvent_sameMode (m : Fw β) (e : HostEvent) :
    hostEvent d m e = { m with rest := (hostEvent d m e).rest } ∧ SameMode m.rest (hostEvent d m e).rest := by
  cases e with
  | mount devAddr interface isKeyboard =>
    simp only [hostEvent]
    split
    · exact ⟨rfl, rfl, rfl⟩
    split <;> exact ⟨rfl, rfl, rfl⟩
  | umount devAddr interface =>
    simp only [hostEvent]
    split <;> exact ⟨rfl, rfl, rfl⟩
  | reportReceived devAddr interface report =>
    simp only [hostEvent]
    split
    · exact ⟨rfl, rfl, rfl⟩
    · split <;> exact ⟨rfl, rfl, rfl⟩

theorem task_idle {m : Fw β} (h : m.sched.running = false) : task d.mainHost m = m := by
  rw [task, taskLoop, h]
  rfl

end Pico
end PicoRecorder
