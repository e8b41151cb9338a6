import PicoRecorder.Pico.Steps
/-!
# Joint — the invariant that ties mode, scheduler, queue and capture together

The four modules call each other through callbacks.  `Joint` is what they agree on at every loop boundary, after any
iterations; `runMonitor` reads the history of runs off the trace.
-/
namespace PicoRecorder
namespace Pico

open Lib (Monitor Preserved)

/-- A run is started, then completed once, and only then can the next one be started. -/
def runMonitor : Monitor Bool Obs where
  start := false
  step
    | false, .started _ => some true
    | true, .started _ => none
    | true, .completed .. => some false
    | false, .completed .. => none
    | running, _ => some running

def Obs.isStarted : Obs → Bool
  | .started _ => true
  | _ => false

def Obs.isCompleted : Obs → Bool
  | .completed .. => true
  | _ => false

def Obs.isRun (o : Obs) : Bool := o.isStarted || o.isCompleted

theorem runMonitor_idle {o : Obs} (ho : o.isRun = false) (trace : List Obs) :
    runMonitor.after (o :: trace) = runMonitor.after trace := by
  refine runMonitor.after_cons_idle (fun running => ?_)
  cases o <;> first | (cases running <;> rfl) | cases ho

/-- **The monitor counts**: every start but a pending one has had its completion. -/
theorem runMonitor_count : ∀ {trace : List Obs} {running : Bool}, runMonitor.after trace = some running →
    trace.countP Obs.isStarted = trace.countP Obs.isCompleted + running.toNat
  | [], running, h => by
    obtain rfl : false = running := Option.some.inj h
    rfl
  | o :: trace, running, h => by
    rw [Monitor.after_cons, Option.bind_eq_some_iff] at h
    obtain ⟨before, hb, hs⟩ := h
    have ih := runMonitor_count hb
    rw [List.countP_cons, List.countP_cons]
    cases o <;> cases before <;> simp_all [runMonitor, Obs.isStarted, Obs.isCompleted]

structure Joint {β : Type} (m : Fw β) : Prop where
  running : m.sched.running = true ↔ m.rest.mode = .playing
  queue : m.rest.mode ≠ .armed → m.rest.mode ≠ .playing → m.queue.toList = [] ∧ m.sched.sequenceEnded = false
  capture : m.rest.mode ≠ .pass → m.rest.mode ≠ .record → m.rest.capture.toList = []
  underrun : m.sched.underrunActive = true → m.sched.running = true
  alarm : m.sched.alarmArmed = true → m.sched.running = true
  recorded : m.rest.capture.headRecorded = true → m.rest.mode = .record ∧ m.rest.capture.toList ≠ []
  runs : runMonitor.after m.rest.trace = some m.sched.running

section Invariant

variable {β : Type} {d : Board β} {phase : Phase} {m m' : Fw β}

/-- Steps that leave the four modules where they are. -/
theorem Joint.frame (hj : Joint m) (hrun : m'.sched.running = m.sched.running)
    (hended : m'.sched.sequenceEnded = m.sched.sequenceEnded)
    (hunder : m'.sched.underrunActive = true → m.sched.underrunActive = true ∨ m.sched.running = true)
    (halarm : m'.sched.alarmArmed = true → m.sched.alarmArmed = true ∨ m.sched.running = true)
    (hqueue : m'.queue = m.queue) (hmode : m'.rest.mode = m.rest.mode) (hcapture : m'.rest.capture = m.rest.capture)
    (htrace : runMonitor.after m'.rest.trace = runMonitor.after m.rest.trace) : Joint m' where
  running := by rw [hrun, hmode]; exact hj.running
  queue := by rw [hmode, hqueue, hended]; exact hj.queue
  capture := by rw [hmode, hcapture]; exact hj.capture
  underrun h := by rw [hrun]; exact (hunder h).elim hj.underrun id
  alarm h := by rw [hrun]; exact (halarm h).elim hj.alarm id
  recorded := by rw [hmode, hcapture]; exact hj.recorded
  runs := by rw [htrace, hrun]; exact hj.runs

/-- Steps outside the scheduler that only add to the trace. -/
theorem Joint.rest (hj : Joint m) (rest : Rest β) (hmode : rest.mode = m.rest.mode)
    (hcapture : rest.capture = m.rest.capture)
    (htrace : runMonitor.after rest.trace = runMonitor.after m.rest.trace) : Joint ⟨m.sched, m.queue, rest⟩ :=
  hj.frame rfl rfl .inl .inl rfl hmode hcapture htrace

theorem stopped_runs {running : Bool} {outcome trace : List Obs} (hs : Stopped running outcome)
    (ht : runMonitor.after trace = some running) : runMonitor.after (outcome ++ trace) = some false := by
  rcases hs with ⟨rfl, rfl⟩ | ⟨rfl, metrics, q₁, q₂, rfl⟩
  · exact ht
  · simp only [List.cons_append, List.nil_append]
    rw [runMonitor_idle rfl, runMonitor_idle rfl, Monitor.after_cons_of _ ht]
    rfl

/-- A transition that discards the queue re-establishes everything in any mode but PLAYING. -/
theorem transition_joint {target : Mode} {reason : Reason} (ht : target ≠ .playing)
    (halarm : m.sched.running = false → m.sched.alarmArmed = false)
    (hruns : runMonitor.after m.rest.trace = some m.sched.running) : Joint (transition d target reason m) := by
  have hc := clearReleaseAndQueue_spec d m
  obtain ⟨outcome, queued, htrace, hstop⟩ := transition_trace d target reason m
  have hmode : (transition d target reason m).rest.mode = target := rfl
  have hcapture : (transition d target reason m).rest.capture = m.rest.capture.clear := hc.capture
  refine ⟨?_, ?_, ?_, ?_, ?_, ?_, ?_⟩
  · rw [transition_running, hmode]
    exact ⟨fun h => (nomatch h), fun h => absurd h ht⟩
  · exact fun _ _ => ⟨hc.queue, hc.sequenceEnded⟩
  · rw [hcapture]; exact fun _ _ => rfl
  · intro h
    rw [transition_cleared, hc.underrunActive] at h; cases h
  · intro h
    obtain ⟨hr, ha⟩ := hc.alarmArmed h
    rw [halarm hr] at ha; cases ha
  · rw [hcapture]; exact fun h => (nomatch h)
  · rw [transition_running, htrace, runMonitor_idle rfl, runMonitor_idle rfl, runMonitor_idle rfl]
    exact stopped_runs hstop hruns

theorem Joint.unarmed (hj : Joint m) (hr : m.sched.running = false) : m.sched.alarmArmed = false :=
  Bool.eq_false_iff.2 (fun ha => by rw [hj.alarm ha] at hr; cases hr)

theorem Joint.transition (hj : Joint m) {target : Mode} {reason : Reason} (hc : Changes m.rest.mode target reason) :
    Joint (transition d target reason m) := by
  refine transition_joint ?_ hj.unarmed hj.runs
  rcases hc with ⟨-, rfl, -⟩ | ⟨-, rfl | rfl, -⟩ | ⟨-, rfl, -⟩ | ⟨-, rfl, -⟩ <;> decide

theorem Joint.launch (hj : Joint m) (epoch : UInt64) (hr : m.sched.running = false) :
    Joint (launch d epoch m) := by
  have hruns := hj.runs
  rw [hr] at hruns
  refine ⟨⟨fun _ => rfl, fun _ => rfl⟩, fun _ h => absurd rfl h, fun _ _ => rfl, fun _ => rfl, fun _ => rfl,
    (fun h => nomatch h), ?_⟩
  have he : (Pico.launch d epoch m).rest.trace =
      .started epoch :: .frame (.playStarted epoch) _ :: .frame (.modeChanged .playing .ok) _ :: .entered .playing ::
        .allRelease :: m.rest.trace := rfl
  rw [he]
  refine (Monitor.after_cons_of _ (s := false) ?_).trans rfl
  rw [runMonitor_idle rfl, runMonitor_idle rfl, runMonitor_idle rfl, runMonitor_idle rfl, hruns]

/-- The natural end of a run, with the transition `playback_complete` makes inside it. -/
theorem Joint.finish (hj : Joint m) (hr : m.sched.running = true) (hu : m.sched.alarmArmed = false) :
    Joint (finish d.mainHost .finished m) := by
  rw [finish_main, if_neg (not_not_intro (hj.running.1 hr))]
  refine transition_joint (by decide) (fun _ => hu) ?_
  have hruns := hj.runs
  rw [hr] at hruns
  obtain ⟨metrics, q₁, q₂, htrace⟩ := finished_trace d m
  rw [htrace, runMonitor_idle rfl, runMonitor_idle rfl, Monitor.after_cons_of _ hruns]
  rfl

theorem Joint.arming (hj : Joint m) (hs : Arming d.mainHost m m') : Joint m' := by
  rcases arming_cases hs with hq | ⟨hr, -, -, -, hq⟩ | ⟨hr, hu, -, -, rfl⟩
  · obtain ⟨board, hrest, -⟩ := hq.rest
    exact hj.frame hq.running hq.sequenceEnded (fun h => .inl (hq.underrunActive h)) hq.alarmArmed hq.queue
      (by rw [hrest]) (by rw [hrest]) (by rw [hrest])
  · obtain ⟨board, elapsed, queued, -, hrest⟩ := hq.rest
    refine hj.frame hq.running hq.sequenceEnded (fun _ => .inr hr) (fun h => .inl (hq.alarmArmed ▸ h)) hq.queue
      (by rw [hrest]) (by rw [hrest]) ?_
    rw [hrest]
    exact runMonitor_idle rfl _
  · exact hj.finish hr hu

theorem Joint.sendBootReport (hj : Joint m) (source : HidSource) (report : Report) :
    Joint { m with rest := (m.rest.sendBootReport d source report).2 } := by
  rcases sendBootReport_cases d source report m.rest with ⟨-, he⟩ | ⟨-, he⟩ <;> rw [he] <;>
    exact hj.rest _ rfl rfl (runMonitor_idle rfl _)

theorem Joint.micro (hj : Joint m) (hs : Micro d.mainHost m m') : Joint m' := by
  cases hs with
  | arming step => exact hj.arming step
  | refuse event running ready head busy => exact hj.sendBootReport .playback event.report
  | dispatch event running ready head taken =>
    have hd := dispatched_played (d := d) taken
    obtain ⟨board, fault, credit, -, hrest, hcredit⟩ := hd.rest
    have hmode := hj.running.1 running
    have hrest' : (dispatched d.mainHost
        { m with rest := (d.mainHost.sendReport event.report m.rest).2 }).rest.mode = .playing := by rw [hrest, ← hmode]
    refine ⟨?_, fun _ h => absurd hrest' h, ?_, ?_, ?_, ?_, ?_⟩
    · rw [hd.running, hrest']; exact ⟨fun _ => rfl, fun _ => running⟩
    · rw [hrest]; exact hj.capture
    · intro _; rw [hd.running]; exact running
    · intro _; rw [hd.running]; exact running
    · rw [hrest]; exact hj.recorded
    · rw [hd.running, hrest]
      change runMonitor.after (credit ++ _) = _
      rcases hcredit with ⟨-, rfl⟩ | ⟨-, -, queued, rfl⟩
      · exact (runMonitor_idle rfl _).trans hj.runs
      · exact (runMonitor_idle rfl _).trans ((runMonitor_idle rfl _).trans hj.runs)

/-- While the queue is in use the scheduler may run or not, and nothing is captured. -/
theorem Joint.streams (hj : Joint m) (hs : m.rest.mode = .armed ∨ m.rest.mode = .playing) (sched : Scheduler)
    (queue : PlaybackQueue) (rest : Rest β) (hrun : sched.running = m.sched.running)
    (hunder : sched.underrunActive = true → m.sched.underrunActive = true)
    (halarm : sched.alarmArmed = m.sched.alarmArmed)
    (hmode : rest.mode = m.rest.mode) (hcapture : rest.capture = m.rest.capture)
    (htrace : runMonitor.after rest.trace = runMonitor.after m.rest.trace) : Joint ⟨sched, queue, rest⟩ where
  running := by rw [hrun, hmode]; exact hj.running
  queue := by
    rw [hmode]
    exact fun ha hp => absurd hs (not_or.2 ⟨ha, hp⟩)
  capture := by rw [hmode, hcapture]; exact hj.capture
  underrun h := by rw [hrun]; exact hj.underrun (hunder h)
  alarm h := by rw [hrun]; exact hj.alarm (halarm ▸ h)
  recorded := by rw [hmode, hcapture]; exact hj.recorded
  runs := by rw [htrace, hrun]; exact hj.runs

/-- A new capture FIFO, in a mode that captures. -/
theorem Joint.recapture (hj : Joint m) (rest : Rest β) (hmode : rest.mode = m.rest.mode)
    (hs : m.rest.mode = .pass ∨ m.rest.mode = .record)
    (hrecorded : rest.capture.headRecorded = true → m.rest.mode = .record ∧ rest.capture.toList ≠ [])
    (htrace : runMonitor.after rest.trace = runMonitor.after m.rest.trace) : Joint ⟨m.sched, m.queue, rest⟩ where
  running := by rw [hmode]; exact hj.running
  queue := by rw [hmode]; exact hj.queue
  capture := by
    rw [hmode]
    exact fun hp hr => absurd hs (not_or.2 ⟨hp, hr⟩)
  underrun := hj.underrun
  alarm := hj.alarm
  recorded := by rw [hmode]; exact hrecorded
  runs := by rw [htrace]; exact hj.runs

theorem Joint.release (hj : Joint m) : Joint { m with rest := (serviceRelease d m.rest).2 } := by
  unfold serviceRelease
  split
  · exact hj
  · have hsent := hj.sendBootReport (d := d) .release Report.releaseAll
    dsimp only
    split
    · exact hsent.rest _ rfl rfl rfl
    · exact hsent

theorem Joint.record (hj : Joint m) {event : CaptureEvent} (hm : m.rest.mode = .record)
    (hp : m.rest.capture.peek = some event) (hfresh : m.rest.capture.isHeadRecorded = false) :
    Joint { m with rest := recordHead d event m.rest } := by
  have he : recordHead d event m.rest = { (m.rest.queueFrame d (.recordEvent event.timestampUs event.report)).2 with
      capture := m.rest.capture.markHeadRecorded } := if_neg (by rw [hfresh]; decide)
  rw [he]
  refine hj.recapture _ rfl (.inr hm) (fun _ => ⟨hm, ?_⟩) (runMonitor_idle rfl _)
  change m.rest.capture.markHeadRecorded.toList ≠ []
  rw [Capture.toList_markHeadRecorded, Capture.toList_of_peek hp]
  exact List.cons_ne_nil _ _

/-- **Every single step keeps the joint invariant.** -/
theorem joint_step (phase : Phase) : Preserved (FwStep d phase) (Joint (β := β)) := by
  intro m m' hs hj
  cases hs with
  | tud => exact hj.rest _ rfl rfl rfl
  | board _ b call => exact hj.rest _ rfl rfl rfl
  | keyboard _ k => exact hj.rest _ rfl rfl rfl
  | capture _ timestamp report capture accepts push =>
    obtain ⟨hlist, hflag⟩ := Capture.push_some push
    refine hj.recapture _ rfl accepts (fun h => ?_) (runMonitor_idle rfl _)
    refine ⟨(hj.recorded (hflag ▸ h)).1, ?_⟩
    change capture.toList ≠ []
    rw [hlist]
    simp
  | notify _ reason unchanged => exact hj.rest _ rfl rfl (runMonitor_idle rfl _)
  | reply _ msg kind => exact hj.rest _ rfl rfl (runMonitor_idle rfl _)
  | handled _ target accepted => exact hj.rest _ rfl rfl (runMonitor_idle rfl _)
  | transition _ target reason changes => exact hj.transition changes
  | launch _ epoch armed idle => exact hj.launch epoch idle
  | enqueue _ event queue streams push => exact hj.streams streams _ _ _ rfl id rfl rfl rfl (runMonitor_idle rfl _)
  | reject _ event => exact hj.rest _ rfl rfl (runMonitor_idle rfl _)
  | queueClear _ armed =>
    have hr : m.sched.running = false := Bool.eq_false_iff.2 (fun h => by
      rw [hj.running.1 h] at armed; cases armed)
    rw [resetSequence_stopped hr]
    exact hj.streams (.inl armed) _ _ _ rfl (fun h => nomatch h) rfl rfl rfl rfl
  | queueEnd _ streams => exact hj.streams streams _ _ _ rfl id rfl rfl rfl rfl
  | takeFlowFault => exact hj.rest _ rfl rfl rfl
  | release => exact hj.release
  | record _ event recording head fresh => exact hj.record recording head fresh
  | refusePhysical _ event busy => exact hj.sendBootReport .physical event.report
  | sendPhysical _ event head mode calm taken =>
    rw [(sendBootReport_taken _ taken).2.2]
    refine hj.recapture _ rfl (mode.imp_right And.left) (fun h => ?_) (runMonitor_idle rfl _)
    change m.rest.capture.pop.headRecorded = true at h
    rw [Capture.headRecorded_pop head] at h; cases h
  | arming step => exact hj.arming step
  | play step => exact hj.micro step

theorem boot_joint (b : β) : Joint (boot b) :=
  ⟨⟨fun h => (nomatch h), fun h => (nomatch h)⟩, fun _ _ => ⟨rfl, rfl⟩, fun _ _ => rfl, (fun h => nomatch h),
    (fun h => nomatch h), (fun h => nomatch h), rfl⟩

theorem run_joint (d : Board β) (board : β) (inputs : List LoopInput) : Joint (run d board inputs) :=
  (run_invariant boot_joint joint_step board inputs).2

end Invariant

/-- **The joint invariant holds at every loop boundary**, after any iterations on any board; `on_complete` was invoked
once for every run that was started, but for the one still in progress. -/
theorem run_keeps_joint {β : Type} (d : Board β) (board : β) (inputs : List LoopInput) :
    let m := run d board inputs
    Joint m ∧
      m.rest.trace.countP Obs.isStarted = m.rest.trace.countP Obs.isCompleted + m.sched.running.toNat := by
  have hj := run_joint d board inputs
  exact ⟨hj, runMonitor_count hj.runs⟩

end Pico
end PicoRecorder
