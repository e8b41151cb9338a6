import PicoRecorder.Pico.Sinks
/-!
# Stall — what the PC has been told once the backlog has drained

A report is a whole key state, so the last one HID took is what the PC believes.  The keyboard's reports go through the
16 entries of the FIFO, and one that finds it full is dropped; `listen` remembers which found room.  The main loop is
cut into its statements, so a moment is any point between two of them.
-/
namespace PicoRecorder
namespace Pico

open Relation (ReflTransGen)
open Lib (Preserved)

/-- The last report HID took, from any sender. -/
def lastTaken : List Obs → Option Report
  | [] => none
  | .hid _ report true :: _ => some report
  | _ :: obs => lastTaken obs

theorem lastTaken_aside {o : Obs} (ho : o.isAside = true) (obs : List Obs) : lastTaken (o :: obs) = lastTaken obs := by
  match o, ho with
  | .hid source report false, _ => rfl
  | .captured _, ho | .entered _, ho => cases ho
  | .frame .., _ | .pushed .., _ | .modeSet .., _ | .allRelease, _ | .started _, _ | .completed .., _ => rfl

/-- While captured reports are forwarded, what left the FIFO last is what HID took last; and nothing is forwarded before
the release of the entry went out. -/
def Echo (v : View) : Prop := v.mode = .pass ∨ v.mode = .record → ∃ popped,
  accepted (sinceEntry v.trace) = popped ++ v.capture.toList ∧
  (popped ≠ [] → v.releasePending = false ∧
    lastTaken (sinceEntry v.trace) = popped.getLast?.map CaptureEvent.report)

variable {hears gated : Prop}

theorem sink_echo : Preserved (Sink hears True) Echo := by
  intro v v' hstep he
  cases hstep with
  | aside o idle =>
    intro hm
    obtain ⟨popped, ha, hlast⟩ := he hm
    refine ⟨popped, ?_, ?_⟩
    · rw [sinceEntry_cons (isEntered_aside idle), (sinks_aside idle _).1]
      exact ha
    · rw [sinceEntry_cons (isEntered_aside idle), lastTaken_aside idle]
      exact hlast
  | push timestampUs report capture heard push =>
    intro hm
    obtain ⟨popped, ha, hlast⟩ := he hm
    refine ⟨popped, ?_, hlast⟩
    rw [sinceEntry_cons rfl, (Capture.push_some push).1]
    simp [accepted, ha]
  | record event queued recording head fresh =>
    intro hm
    obtain ⟨popped, ha, hlast⟩ := he hm
    refine ⟨popped, ?_, hlast⟩
    rw [sinceEntry_cons rfl, Capture.toList_markHeadRecorded]
    exact ha
  | forward event head mode calm =>
    intro hm
    obtain ⟨popped, ha, -⟩ := he hm
    refine ⟨popped ++ [event], ?_, fun _ => ⟨calm trivial, ?_⟩⟩
    · rw [sinceEntry_cons rfl]
      simpa [accepted, Capture.toList_of_peek head] using ha
    · rw [sinceEntry_cons rfl]
      simp [lastTaken]
  | release owed =>
    intro hm
    obtain ⟨popped, ha, hlast⟩ := he hm
    refine ⟨popped, ha, fun hne => ?_⟩
    -- a release is owed, so nothing was forwarded yet
    rw [(hlast hne).1] at owed
    cases owed
  | play report playing =>
    intro hm
    rcases hm with hm | hm <;> rw [playing] at hm <;> cases hm
  | enter target => exact fun _ => ⟨[], by simp [sinceEntry, Obs.isEntered, accepted], fun hne => absurd rfl hne⟩

/-! ## The main loop, statement by statement -/

section Statements

variable {β : Type} (d : Board β)

/-- The statements of the main loop; `output` is the safety release with the dispatch it gates. -/
inductive Statement where
  | tudTask
  | host (event : HostEvent)
  | uartFault
  | command (frame : Frame)
  | output
  | task
  | flowControl
  | watchdog
  | txTask

def exec (m : Fw β) : Statement → Fw β
  | .tudTask => { m with rest := { m.rest with board := d.tudTask m.rest.board } }
  | .host event => hostEvent d m event
  | .uartFault => enterError d .uartFault m
  | .command frame => dispatchCommand d m frame
  | .output =>
    let released := serviceRelease d m.rest
    { m with rest := physicalReportDispatch d (released.1 = .ready) released.2 }
  | .task => task d.mainHost m
  | .flowControl => flowControlCheck d m
  | .watchdog => watchdogCheck d m
  | .txTask => { m with rest := { m.rest with board := d.txTask m.rest.board } }

/-- The statements of one iteration. -/
def LoopInput.statements (input : LoopInput) : List Statement :=
  .tudTask :: (input.events.map .host ++ (if input.fault then [.uartFault] else []) ++ input.commands.map .command ++
    [.output, .task, .flowControl, .watchdog, .txTask])

theorem loopBody_exec (m : Fw β) (input : LoopInput) : loopBody d m input = input.statements.foldl (exec d) m := by
  unfold loopBody loopCommands loopOutput LoopInput.statements
  by_cases hf : input.fault = true
  · simp only [hf, if_true, List.foldl_cons, List.foldl_append, List.foldl_map, List.foldl_nil, exec]
  · simp only [hf, Bool.false_eq_true, if_false, List.foldl_cons, List.foldl_append, List.foldl_map, List.foldl_nil,
      exec]

theorem run_exec (board : β) (inputs : List LoopInput) :
    run d board inputs = (inputs.flatMap LoopInput.statements).foldl (exec d) (boot board) := by
  unfold run
  rw [List.foldl_flatMap]
  exact congrArg (fun f => inputs.foldl f (boot board)) (funext fun m => funext fun input => loopBody_exec d m input)

end Statements

/-! ## What each statement does to the reports -/

section Sinks

variable {β : Type} {d : Board β}

theorem acknowledgeQueue_sink (m : Fw β) :
    ReflTransGen (Sink hears gated) m.rest.view (acknowledgeQueue d m).rest.view := by
  have hsend : ReflTransGen (Sink hears gated) m.rest.view (m.rest.sendBufferStatus d m.queue).2.view :=
    sink_send _ (fun _ => rfl) m.rest
  unfold acknowledgeQueue
  dsimp only
  split
  · exact hsend.trans (enterError_sink _ { m with rest := (m.rest.sendBufferStatus d m.queue).2 })
  · exact hsend

theorem queueEvent_sink (frame : Frame) (m : Fw β) :
    ReflTransGen (Sink hears gated) m.rest.view (queueEvent d frame m).rest.view := by
  have hnote : ∀ event accepted,
      ReflTransGen (Sink hears gated) m.rest.view (m.rest.note (.pushed event accepted)).view :=
    fun event accepted => .single (.aside m.rest.view (.pushed event accepted) rfl)
  unfold queueEvent
  dsimp only
  split
  · exact (hnote _ false).trans (enterError_sink _ { m with rest := m.rest.note (.pushed _ false) })
  · rename_i queue _
    exact (hnote _ true).trans (acknowledgeQueue_sink ⟨m.sched, queue, m.rest.note (.pushed _ true)⟩)

theorem dispatchQueueCommand_sink (frame : Frame) (m : Fw β) :
    ReflTransGen (Sink hears gated) m.rest.view (dispatchQueueCommand d frame m).rest.view := by
  unfold dispatchQueueCommand
  dsimp only
  split
  · exact enterError_sink _ m
  split
  · exact acknowledgeQueue_sink ⟨m.sched.resetSequence, m.queue.clear, m.rest⟩
  · exact queueEvent_sink frame m
  · have hready : ReflTransGen (Sink hears gated) m.rest.view (m.rest.queueFrame d .playReady).2.view :=
      sink_send .playReady (fun _ => rfl) m.rest
    split
    · exact hready.trans
        (acknowledgeQueue_sink ⟨m.sched.markSequenceEnded, m.queue, (m.rest.queueFrame d .playReady).2⟩)
    · exact acknowledgeQueue_sink ⟨m.sched.markSequenceEnded, m.queue, m.rest⟩
  · exact enterError_sink _ m

/-- A step of the scheduler's planning; the mode is PLAYING where a run is on. -/
theorem arming_sink {m m' : Fw β} (hs : Arming d.mainHost m m') :
    ReflTransGen (Sink hears gated) m.rest.view m'.rest.view := by
  rcases arming_cases hs with hq | ⟨-, -, -, -, hq⟩ | ⟨-, -, -, -, rfl⟩
  · obtain ⟨board, hrest, -⟩ := hq.rest
    rw [hrest]
    exact .refl
  · obtain ⟨board, elapsed, queued, -, hrest⟩ := hq.rest
    rw [hrest]
    exact .single (.aside m.rest.view _ rfl)
  · obtain ⟨metrics, q₁, q₂, htrace⟩ := finished_trace d m
    have hview : (finished d m).rest.view = { m.rest.view with trace := (finished d m).rest.trace } := rfl
    have hfinished : ReflTransGen (Sink hears gated) m.rest.view (finished d m).rest.view := by
      rw [hview, htrace]
      exact sink_asides m.rest.view
        [.frame (.playMetrics metrics) q₂, .frame .playFinished q₁, .completed .finished metrics]
        (by simp [Obs.isAside])
    rw [finish_main]
    split
    · exact hfinished.trans (notify_sink _ _)
    · exact hfinished.trans (transition_sink _ _ _)

theorem armings_sink {m m' : Fw β} (hs : ReflTransGen (Arming d.mainHost) m m') :
    ReflTransGen (Sink hears gated) m.rest.view m'.rest.view := by
  induction hs with
  | refl => exact .refl
  | tail _ step ih => exact ih.trans (arming_sink step)

theorem micro_sink {m m' : Fw β} (hs : Micro d.mainHost m m') (hp : m.sched.running = true → m.rest.mode = .playing) :
    ReflTransGen (Sink hears gated) m.rest.view m'.rest.view := by
  cases hs with
  | arming step => exact arming_sink step
  | refuse event running ready head busy => exact sendBootReport_busy .playback event.report busy
  | dispatch event running ready head taken =>
    obtain ⟨board, fault, credit, -, hrest, hcredit⟩ := (dispatched_played (d := d) taken).rest
    have hview : Rest.view _ = { m.rest.view with
        trace := credit ++ .hid .playback event.report true :: m.rest.trace } := congrArg Rest.view hrest
    rw [hview]
    have hplay : ReflTransGen (Sink hears gated) m.rest.view
        { m.rest.view with trace := .hid .playback event.report true :: m.rest.trace } :=
      .single (.play m.rest.view event.report (hp running))
    refine hplay.trans (sink_asides _ credit ?_)
    rcases hcredit with ⟨-, rfl⟩ | ⟨-, -, queued, rfl⟩
    · simp
    · simp [Credit, Obs.isAside]

theorem task_sink {m : Fw β} (hb : Boundary m) :
    ReflTransGen (Sink hears gated) m.rest.view (task d.mainHost m).rest.view := by
  have hrun := task_micro (main_settles d) hb.planned
  have hboth := Preserved.run
    (P := fun n : Fw β => (n.sched.running = true → n.rest.mode = .playing) ∧
      ReflTransGen (Sink hears gated) m.rest.view n.rest.view)
    (fun _ _ step h => ⟨micro_playing step h.1, h.2.trans (micro_sink step h.1)⟩) hrun ⟨hb.playing, .refl⟩
  exact hboth.2

theorem dispatchPlayStart_sink {m : Fw β} (hb : Boundary m) :
    ReflTransGen (Sink hears gated) m.rest.view (dispatchPlayStart d m).rest.view := by
  by_cases hm : m.rest.mode = .armed
  · have hidle := hb.idle (by rw [hm]; decide)
    rw [dispatchPlayStart_armed hm]
    have harm := start_arming (h := d.mainHost)
      (m := { launch d (d.timeUs64 m.rest.board).1 (readEpoch d m) with sched := m.sched })
      (d.timeUs64 m.rest.board).1 hidle
    have hstart : ReflTransGen (Sink hears gated) m.rest.view (playStart d (readEpoch d m)).2.rest.view :=
      playStart_sink (readEpoch d m)
    have hentered : playStart d (readEpoch d m) =
        (true, notify d .ok (enter .playing (clearAndRelease (readEpoch d m)))) := if_neg (not_not_intro hm)
    rw [hentered] at hstart
    have hframe : ReflTransGen (Sink hears gated) m.rest.view
        ((notify d .ok (enter .playing (clearAndRelease (readEpoch d m)))).rest.queueFrame d
          (.playStarted (d.timeUs64 m.rest.board).1)).2.view := hstart.trans (sink_send _ (fun _ => rfl) _)
    have hstarted := hframe.tail (.aside _ (.started (d.timeUs64 m.rest.board).1) rfl)
    exact hstarted.trans (armings_sink harm)
  · rw [dispatchPlayStart_refused hm]
    exact notify_sink _ (readEpoch d m)

theorem dispatchCommand_sink {m : Fw β} (hb : Boundary m) (frame : Frame) :
    ReflTransGen (Sink hears gated) m.rest.view (dispatchCommand d m frame).rest.view := by
  unfold dispatchCommand
  split
  · exact (handleModeSet_sink _ m).tail (.aside _ (.modeSet _ _) rfl)
  · exact dispatchPlayStart_sink hb
  · exact playAbort_sink m
  · exact sink_send _ (fun _ => rfl) m.rest
  · exact sink_send (.picoStatus ..) (fun _ => rfl) { m.rest with board := m.rest.board }
  · exact dispatchQueueCommand_sink frame m
  · exact dispatchQueueCommand_sink frame m
  · exact dispatchQueueCommand_sink frame m
  · exact enterError_sink _ m

theorem output_sink (m : Fw β) : ReflTransGen (Sink hears gated) m.rest.view (exec d m .output).rest.view := by
  have hrelease : ReflTransGen (Sink hears gated) m.rest.view (serviceRelease d m.rest).2.view :=
    serviceRelease_sink m.rest
  refine hrelease.trans (physicalReportDispatch_sink (fun _ hready => ?_))
  obtain ⟨hcalm, he⟩ := serviceRelease_ready (of_decide_eq_true hready)
  rw [he]
  exact hcalm

theorem flowControlCheck_sink (m : Fw β) :
    ReflTransGen (Sink hears gated) m.rest.view (flowControlCheck d m).rest.view := by
  unfold flowControlCheck
  split
  · exact enterError_sink _ { m with rest := { m.rest with flowControlFault := false } }
  · exact .refl

theorem watchdogCheck_sink (m : Fw β) : ReflTransGen (Sink hears gated) m.rest.view (watchdogCheck d m).rest.view := by
  unfold watchdogCheck
  split
  · exact .refl
  · dsimp only
    split
    · exact enterError_sink _ { m with rest := { m.rest with board := (d.timeUs64 m.rest.board).2 } }
    · exact .refl

theorem hostEvent_sink (m : Fw β) (e : HostEvent) (heard : hears) :
    ReflTransGen (Sink hears gated) m.rest.view (hostEvent d m e).rest.view := by
  cases e with
  | mount devAddr interface isKeyboard =>
    simp only [hostEvent]
    split
    · exact .refl
    · split <;> exact .refl
  | umount devAddr interface =>
    simp only [hostEvent]
    split <;> exact .refl
  | reportReceived devAddr interface report =>
    simp only [hostEvent]
    split
    · exact .refl
    split
    · rename_i capture hpush
      exact .single (.push m.rest.view _ report capture heard hpush)
    · exact .refl

/-- **Only the keyboard's callback takes reports in**, and nothing is forwarded while a release is owed. -/
theorem exec_sink {m : Fw β} (hb : Boundary m) (s : Statement) (hhears : ∀ e, s = .host e → hears) :
    ReflTransGen (Sink hears True) m.rest.view (exec d m s).rest.view := by
  cases s with
  | tudTask => exact .refl
  | host event => exact hostEvent_sink m event (hhears event rfl)
  | uartFault => exact enterError_sink _ m
  | command frame => exact dispatchCommand_sink hb frame
  | output => exact output_sink m
  | task => exact task_sink hb
  | flowControl => exact flowControlCheck_sink m
  | watchdog => exact watchdogCheck_sink m
  | txTask => exact .refl

theorem exec_boundary {m : Fw β} (hb : Boundary m) (s : Statement) : Boundary (exec d m s) := by
  cases s with
  | tudTask => exact hb.frame rfl rfl rfl
  | host event =>
    have hled : Leads d .input m (hostEvent d m event) := hostEvent_leads event hb
    exact hled.2
  | uartFault =>
    have hled : Leads d .input m (enterError d .uartFault m) := enterError_leads .uartFault hb rfl
    exact hled.2
  | command frame => exact (dispatchCommand_leads hb frame).2
  | output =>
    refine hb.frame rfl rfl ?_
    exact (physicalReportDispatch_sameMode _ _).1.trans (serviceRelease_mode m.rest)
  | task =>
    refine ⟨task_planned (main_settles d) hb.planned, ?_⟩
    exact Preserved.run (P := fun m : Fw β => m.sched.running = true → m.rest.mode = .playing)
      (fun _ _ step hp => micro_playing step hp) (task_micro (main_settles d) hb.planned) hb.playing
  | flowControl => exact (flowControlCheck_leads hb).2
  | watchdog => exact (watchdogCheck_leads hb).2
  | txTask => exact hb.frame rfl rfl rfl

end Sinks

/-! ## What the keyboard said since the entry -/

section Heard

variable {β : Type} (d : Board β)

/-- A valid report from the mounted keyboard in a mode that listens, and whether the FIFO has room for it. -/
def heardAt (m : Fw β) : HostEvent → Option (Report × Bool)
  | .reportReceived devAddr interface report =>
    if report.length = hidBootKeyboardReportLen ∧ m.rest.keyboard.matches devAddr interface = true ∧
        acceptsPhysical m.rest.mode = true then
      some (Report.ofBytes report, decide (m.rest.capture.events.count < keyboardCaptureCapacity))
    else none
  | _ => none

/-- The firmware with what its keyboard said since a mode was last entered, oldest first. -/
structure Hearing (β : Type) where
  fw : Fw β
  heard : List (Report × Bool)

def entries (trace : List Obs) : Nat := trace.countP Obs.isEntered

def listen (h : Hearing β) (s : Statement) : Hearing β :=
  let fw := exec d h.fw s
  match s with
  | .host event => ⟨fw, h.heard ++ (heardAt h.fw event).toList⟩
  | _ => ⟨fw, if entries fw.rest.trace = entries h.fw.rest.trace then h.heard else []⟩

/-- The reports that found room. -/
def thatFit (heard : List (Report × Bool)) : List Report := (heard.filter (·.2)).map (·.1)

@[simp] theorem thatFit_nil : thatFit [] = [] := rfl

@[simp] theorem thatFit_append (heard more : List (Report × Bool)) :
    thatFit (heard ++ more) = thatFit heard ++ thatFit more := by simp [thatFit]

/-- What was heard with room is what the FIFO accepted since the entry, and the first report always finds room. -/
structure Tuned (h : Hearing β) : Prop where
  boundary : Boundary h.fw
  echo : Echo h.fw.rest.view
  fit : thatFit h.heard = (accepted (sinceEntry h.fw.rest.trace)).map CaptureEvent.report
  first : h.heard ≠ [] → accepted (sinceEntry h.fw.rest.trace) ≠ []

/-- What a stretch without the keyboard does to a session: it leaves its reports alone, or ends it. -/
def Deaf (v v' : View) : Prop :=
  (entries v'.trace = entries v.trace ∧ accepted (sinceEntry v'.trace) = accepted (sinceEntry v.trace)) ∨
  (entries v.trace < entries v'.trace ∧ accepted (sinceEntry v'.trace) = [])

theorem Deaf.note {v v' v'' : View} {o : Obs} (h : Deaf v v') (htrace : v''.trace = o :: v'.trace)
    (ho : o.isEntered = false) (hacc : ∀ obs, accepted (o :: obs) = accepted obs) : Deaf v v'' := by
  have hentries : entries v''.trace = entries v'.trace := by simp [entries, htrace, ho]
  unfold Deaf
  rw [hentries, htrace, sinceEntry_cons ho, hacc]
  exact h

theorem sink_deaf {gated : Prop} {v v' : View} (hr : ReflTransGen (Sink False gated) v v') : Deaf v v' := by
  induction hr with
  | refl => exact .inl ⟨rfl, rfl⟩
  | tail _ step ih =>
    cases step with
    | aside o idle => exact ih.note rfl (isEntered_aside idle) (fun obs => (sinks_aside idle obs).1)
    | push timestampUs report capture heard push => exact heard.elim
    | record event queued recording head fresh => exact ih.note rfl rfl (fun _ => rfl)
    | forward event head mode calm => exact ih.note rfl rfl (fun _ => rfl)
    | release owed => exact ih.note rfl rfl (fun _ => rfl)
    | play report playing => exact ih.note rfl rfl (fun _ => rfl)
    | enter target =>
      refine .inr ⟨?_, by simp [sinceEntry, Obs.isEntered, accepted]⟩
      have hgrow : ∀ trace : List Obs, entries (.entered target :: .allRelease :: trace) = entries trace + 1 := by
        intro trace
        unfold entries
        rw [List.countP_cons_of_pos (by rfl), List.countP_cons_of_neg (by decide)]
      rw [hgrow]
      rcases ih with ⟨he, -⟩ | ⟨he, -⟩ <;> omega

variable {d}

theorem push_eq_none {c : Capture} {t : UInt64} {report : List UInt8}
    (hlen : report.length = hidBootKeyboardReportLen) :
    c.push t report = none ↔ c.toList.length = keyboardCaptureCapacity := by
  unfold Capture.push
  rw [if_neg (not_not_intro hlen), Option.map_eq_none_iff, Lib.Ring.push_eq_none]
  rfl

theorem reportReceived_ignored {m : Fw β} {devAddr interface : UInt8} {report : List UInt8}
    (h : ¬(m.rest.keyboard.matches devAddr interface = true ∧ acceptsPhysical m.rest.mode = true)) :
    (hostEvent d m (.reportReceived devAddr interface report)).rest.trace = m.rest.trace := by
  simp only [hostEvent]
  split
  · rfl
  · rename_i hlistens
    exact absurd (by simpa using hlistens) h

theorem reportReceived_captured {m : Fw β} {devAddr interface : UInt8} {report : List UInt8}
    (h : m.rest.keyboard.matches devAddr interface = true ∧ acceptsPhysical m.rest.mode = true) :
    (hostEvent d m (.reportReceived devAddr interface report)).rest.trace =
      match m.rest.capture.push (d.timeUs64 m.rest.board).1 report with
      | some _ => .captured ⟨(d.timeUs64 m.rest.board).1, Report.ofBytes report⟩ :: m.rest.trace
      | none => m.rest.trace := by
  simp only [hostEvent]
  rw [if_neg (by simp [h])]
  cases m.rest.capture.push (d.timeUs64 m.rest.board).1 report <;> rfl

/-- **What the callback does with a report**: nothing to do with the FIFO, a report that found it full, or one taken
in. -/
theorem hostEvent_heard (m : Fw β) (e : HostEvent) :
    (heardAt m e = none ∧ (hostEvent d m e).rest.trace = m.rest.trace) ∨
    (∃ report, heardAt m e = some (report, false) ∧ (hostEvent d m e).rest.trace = m.rest.trace ∧
      acceptsPhysical m.rest.mode = true ∧ m.rest.capture.toList ≠ []) ∨
    (∃ event : CaptureEvent, heardAt m e = some (event.report, true) ∧
      (hostEvent d m e).rest.trace = .captured event :: m.rest.trace) := by
  cases e with
  | mount devAddr interface isKeyboard =>
    refine .inl ⟨rfl, ?_⟩
    simp only [hostEvent]
    split
    · rfl
    · split <;> rfl
  | umount devAddr interface =>
    refine .inl ⟨rfl, ?_⟩
    simp only [hostEvent]
    split <;> rfl
  | reportReceived devAddr interface report =>
    by_cases hlistens : m.rest.keyboard.matches devAddr interface = true ∧ acceptsPhysical m.rest.mode = true
    · rw [reportReceived_captured hlistens]
      by_cases hlen : report.length = hidBootKeyboardReportLen
      · have hheard : heardAt m (.reportReceived devAddr interface report) =
            some (Report.ofBytes report, decide (m.rest.capture.events.count < keyboardCaptureCapacity)) :=
          if_pos ⟨hlen, hlistens⟩
        have hcount : m.rest.capture.toList.length = m.rest.capture.events.count := Lib.Ring.length_toList _
        rw [hheard]
        cases hpush : m.rest.capture.push (d.timeUs64 m.rest.board).1 report with
        | none =>
          have hfull := (push_eq_none hlen).1 hpush
          refine .inr (.inl ⟨Report.ofBytes report, ?_, rfl, hlistens.2, ?_⟩)
          · rw [← hcount, hfull]
            simp
          · rw [← List.length_pos_iff, hfull]
            decide
        | some capture =>
          have hroom : m.rest.capture.events.count < keyboardCaptureCapacity := by
            refine Nat.lt_of_le_of_ne m.rest.capture.events.count_le (fun hfull => ?_)
            rw [(push_eq_none hlen).2 (hcount.trans hfull)] at hpush
            cases hpush
          exact .inr (.inr ⟨_, by simp [hroom], rfl⟩)
      · have hpush : m.rest.capture.push (d.timeUs64 m.rest.board).1 report = none := if_pos hlen
        rw [hpush]
        exact .inl ⟨if_neg (fun h => hlen h.1), rfl⟩
    · exact .inl ⟨if_neg (fun h => hlistens h.2), reportReceived_ignored hlistens⟩

theorem listen_host {h : Hearing β} (ht : Tuned h) (e : HostEvent) : Tuned (listen d h (.host e)) := by
  have hsink : ReflTransGen (Sink True True) h.fw.rest.view (hostEvent d h.fw e).rest.view :=
    hostEvent_sink h.fw e trivial
  have hecho : Echo (hostEvent d h.fw e).rest.view := sink_echo.run hsink ht.echo
  refine ⟨exec_boundary ht.boundary (.host e), hecho, ?_, ?_⟩
  · change thatFit (h.heard ++ (heardAt h.fw e).toList) =
      (accepted (sinceEntry (hostEvent d h.fw e).rest.trace)).map CaptureEvent.report
    rcases hostEvent_heard (d := d) h.fw e with ⟨hn, htrace⟩ | ⟨report, hn, htrace, -, -⟩ | ⟨event, hn, htrace⟩
    · rw [hn, htrace]
      simpa using ht.fit
    · rw [hn, htrace]
      simpa [thatFit] using ht.fit
    · rw [hn, htrace, sinceEntry_cons rfl, thatFit_append, ht.fit]
      simp [accepted, thatFit]
  · intro _
    change accepted (sinceEntry (hostEvent d h.fw e).rest.trace) ≠ []
    rcases hostEvent_heard (d := d) h.fw e with ⟨hn, htrace⟩ | ⟨report, hn, htrace, hmode, hfull⟩ | ⟨event, hn, htrace⟩
    · rename_i hne
      rw [htrace]
      refine ht.first (fun hnil => hne ?_)
      change h.heard ++ (heardAt h.fw e).toList = []
      rw [hnil, hn]
      rfl
    · have hlistens : h.fw.rest.mode = .pass ∨ h.fw.rest.mode = .record := by
        simpa [acceptsPhysical] using hmode
      obtain ⟨popped, hacc, -⟩ := ht.echo hlistens
      rw [htrace, show accepted (sinceEntry h.fw.rest.trace) = _ from hacc]
      simp [show h.fw.rest.view.capture.toList ≠ [] from hfull]
    · rw [htrace, sinceEntry_cons rfl]
      simp [accepted]

theorem listen_tuned {h : Hearing β} (ht : Tuned h) (s : Statement) : Tuned (listen d h s) := by
  by_cases hhost : ∃ e, s = .host e
  · obtain ⟨e, rfl⟩ := hhost
    exact listen_host ht e
  · have hsink : ReflTransGen (Sink False True) h.fw.rest.view (exec d h.fw s).rest.view :=
      exec_sink ht.boundary s (fun e he => hhost ⟨e, he⟩)
    have hdeaf := sink_deaf hsink
    have hecho : Echo (exec d h.fw s).rest.view := sink_echo.run hsink ht.echo
    have hlisten : listen d h s = ⟨exec d h.fw s,
        if entries (exec d h.fw s).rest.trace = entries h.fw.rest.trace then h.heard else []⟩ := by
      cases s with
      | host e => exact absurd ⟨e, rfl⟩ hhost
      | _ => rfl
    rw [hlisten]
    rcases hdeaf with ⟨he, hacc⟩ | ⟨he, hacc⟩
    · change entries (exec d h.fw s).rest.trace = entries h.fw.rest.trace at he
      rw [if_pos he]
      refine ⟨exec_boundary ht.boundary s, hecho, ?_, ?_⟩
      · exact ht.fit.trans (congrArg (List.map CaptureEvent.report) hacc.symm)
      · exact fun hne hnil => ht.first hne (hacc.symm.trans hnil)
    · change entries h.fw.rest.trace < entries (exec d h.fw s).rest.trace at he
      rw [if_neg (Nat.ne_of_gt he)]
      refine ⟨exec_boundary ht.boundary s, hecho, ?_, fun hne => absurd rfl hne⟩
      exact (congrArg (List.map CaptureEvent.report) hacc).symm

theorem boot_tuned (board : β) : Tuned (⟨boot board, []⟩ : Hearing β) where
  boundary := boot_boundary board
  echo _ := ⟨[], rfl, fun hne => absurd rfl hne⟩
  fit := rfl
  first hne := absurd rfl hne

end Heard

/-- **Once the backlog has drained, the PC's key state is the last one that found room**: at every moment of every run
in PASS or RECORD with the FIFO empty, HID's last report since the entry is the last valid report from the keyboard that
the FIFO had room for. -/
theorem drained_echo {β : Type} (d : Board β) (board : β) (statements : List Statement) :
    let h := statements.foldl (listen d) ⟨boot board, []⟩
    h.fw.rest.mode = .pass ∨ h.fw.rest.mode = .record →
    h.fw.rest.capture.toList = [] → h.heard ≠ [] →
      lastTaken (sinceEntry h.fw.rest.trace) = (thatFit h.heard).getLast? := by
  intro h hmode hempty hheard
  have ht : Tuned h := Lib.foldl_invariant (P := Tuned) (fun _ s ht => listen_tuned ht s)
    statements _ (boot_tuned board)
  obtain ⟨popped, hacc, hlast⟩ := ht.echo hmode
  have hacc : accepted (sinceEntry h.fw.rest.trace) = popped := by
    have hdrained : h.fw.rest.view.capture.toList = [] := hempty
    rw [hdrained, List.append_nil] at hacc
    exact hacc
  have hne : popped ≠ [] := hacc ▸ ht.first hheard
  rw [ht.fit, hacc, List.getLast?_map]
  exact (hlast hne).2

/-- The key `4 + n` alone, pressed. -/
def benchKey (n : Nat) : List UInt8 := [0, 0, UInt8.ofNat (4 + n), 0, 0, 0, 0, 0]

/-- A keyboard that sends `n` reports in one pass of the host stack, then the passes that drain sixteen of them. -/
def benchBurst (n : Nat) : List LoopInput :=
  ⟨[.mount 1 0 true], false, []⟩ :: ⟨(List.range n).map (fun i => .reportReceived 1 0 (benchKey i)), false, []⟩ ::
    List.replicate 16 ⟨[], false, []⟩

/-- **The seventeenth report of a burst never reaches the PC**, which is left with the sixteenth. -/
theorem burst_leaves_stale_keys :
    ¬ ∀ statements : List Statement,
      let h := statements.foldl (listen benchBoard) ⟨boot true, []⟩
      h.fw.rest.mode = .pass ∨ h.fw.rest.mode = .record →
      h.fw.rest.capture.toList = [] → h.fw.rest.releasePending = false →
        ∀ report fit, h.heard.getLast? = some (report, fit) → lastTaken (sinceEntry h.fw.rest.trace) = some report :=
  fun h => absurd (h ((benchBurst 17).flatMap LoopInput.statements) (by decide +kernel) (by decide +kernel)
    (by decide +kernel) (Report.ofBytes (benchKey 16)) false (by decide +kernel)) (by decide +kernel)

/-- A burst of sixteen arrives whole. -/
theorem drained_echo_bench :
    let h := ((benchBurst 16).flatMap LoopInput.statements).foldl (listen benchBoard) ⟨boot true, []⟩
    h.heard.length = 16 ∧ lastTaken (sinceEntry h.fw.rest.trace) = some (Report.ofBytes (benchKey 15)) :=
  ⟨by decide +kernel, (drained_echo benchBoard true ((benchBurst 16).flatMap LoopInput.statements) (by decide +kernel)
    (by decide +kernel) (by decide +kernel)).trans (by decide +kernel)⟩

end Pico
end PicoRecorder
