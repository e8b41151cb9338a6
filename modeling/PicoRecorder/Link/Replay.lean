import PicoRecorder.Link.Timing
import PicoRecorder.Pico.Credit
import PicoRecorder.Pico.Delivery
import PicoRecorder.Pico.Stall
/-!
# Replay — what HID is given while a session's commands come in

The commands of a session are heard one by one, whatever the loop does in between.  While the sequence is under way the
reports taken from the queue and those that wait there are the reports of the events heard; after an error nothing more
is taken; and PLAY_FINISHED is sent when all were, and not otherwise.
-/
namespace PicoRecorder
namespace Link

open Pico
open Relation (ReflTransGen)
open Lib (Preserved)

/-- The report HID took from the queue. -/
def taken? : Obs → Option Report
  | .hid .playback report true => some report
  | _ => none

/-- The reports HID took from the queue, oldest first. -/
def replayed (obs : List Obs) : List Report := (obs.filterMap taken?).reverse

theorem replayed_append (newer older : List Obs) : replayed (newer ++ older) = replayed older ++ replayed newer := by
  simp [replayed]

/-- How far the commands of a session have come, with the events heard so far: before QUEUE_CLEAR, before QUEUE_END, and
behind it. -/
inductive Progress where
  | arming
  | feeding (events : List PlaybackEvent) (started : Bool)
  | closed (events : List PlaybackEvent) (started : Bool)
  deriving DecidableEq

namespace Progress

/-- The next command of a session.  There is one PLAY_START, and MODE_SET(PASS) comes behind it and QUEUE_END. -/
def hear (progress : Progress) (frame : Frame) : Option Progress :=
  match progress, MsgType.ofByte? frame.type with
  | .arming, some .modeSet => some .arming
  | .arming, some .queueClear => some (.feeding [] false)
  | .feeding events started, some .queueEvent => some (.feeding (events ++ [queuedEvent frame]) started)
  | .feeding events started, some .queueEnd => some (.closed events started)
  | .feeding events false, some .playStart => some (.feeding events true)
  | .closed events false, some .playStart => some (.closed events true)
  | .closed events true, some .modeSet =>
    if frame.payload.getD 0 0 = Mode.pass.byte then some (.closed events true) else none
  | _, _ => none

def events : Progress → List PlaybackEvent
  | .arming => []
  | .feeding events _ | .closed events _ => events

/-- All events were heard, and PLAY_START. -/
def complete : Progress → Bool
  | .closed _ started => started
  | _ => false

end Progress

section Session

variable {β : Type} {d : Board β} {base : List Obs} {m m' : Fw β} {events : List PlaybackEvent} {started ended : Bool}

/-- Nothing taken from the queue, and no PLAY_FINISHED. -/
def isAway : Obs → Bool
  | .hid .playback _ taken => !taken
  | .frame .playFinished _ => false
  | _ => true

theorem away_of_routine {o : Obs} (h : o.isRoutine = true) : isAway o = true := by
  cases o with
  | frame msg queued => cases msg <;> first | rfl | exact h
  | hid source report taken => cases source <;> first | rfl | exact h
  | _ => rfl

theorem replayed_away {obs : List Obs} (h : ∀ o ∈ obs, isAway o = true) : replayed obs = [] := by
  rw [replayed, List.reverse_eq_nil_iff, List.filterMap_eq_nil_iff]
  intro o ho
  have haway := h o ho
  cases o with
  | hid source report taken =>
    cases source <;> cases taken <;> first | rfl | cases haway
  | _ => rfl

theorem unfinished_away {obs : List Obs} (h : ∀ o ∈ obs, isAway o = true) : .playFinished ∉ sent obs := fun hm => by
  cases h _ (mem_sent.1 hm)

/-- What was observed since `base`: these reports were taken, and PLAY_FINISHED was sent only if `finished`. -/
def Shows (base : List Obs) (reports : List Report) (finished : Prop) (m : Fw β) : Prop :=
  ∃ obs, m.rest.trace = obs ++ base ∧ replayed obs = reports ∧ (.playFinished ∈ sent obs → finished)

theorem Shows.adds {reports : List Report} {finished : Prop} (h : Shows base reports finished m)
    (hadds : Adds isAway m m') :
    Shows base reports finished m' := by
  obtain ⟨obs, htrace, hreports, hfinished⟩ := h
  obtain ⟨more, hmore, haway⟩ := hadds
  refine ⟨more ++ obs, by rw [hmore, htrace, List.append_assoc], ?_, fun hm => ?_⟩
  · rw [replayed_append, replayed_away haway, List.append_nil, hreports]
  · rw [sent_append] at hm
    exact (List.mem_append.1 hm).elim hfinished (fun hm => absurd hm (unfinished_away haway))

/-- The sequence is open or running. -/
structure Underway (base : List Obs) (events : List PlaybackEvent) (started ended : Bool) (m : Fw β) : Prop where
  mode : m.rest.mode = if started then .playing else .armed
  ended : m.sched.sequenceEnded = ended
  shows : ∃ taken, taken ++ reports m.queue.toList = reports events ∧ Shows base taken False m

/-- The sequence was refused or given up. -/
structure Abandoned (base : List Obs) (events : List PlaybackEvent) (m : Fw β) : Prop where
  mode : m.rest.mode ≠ .armed ∧ m.rest.mode ≠ .playing
  shows : ∃ taken, taken <+: reports events ∧ Shows base taken False m

structure Finished (base : List Obs) (events : List PlaybackEvent) (m : Fw β) : Prop where
  mode : m.rest.mode ≠ .playing
  shows : Shows base (reports events) True m

/-- Where the Pico is, after so many commands of a session. -/
def Replays (base : List Obs) : Progress → Fw β → Prop
  | .arming, m => m.rest.mode ≠ .playing ∧ Shows base [] False m
  | .feeding events started, m => Underway base events started false m ∨ Abandoned base events m
  | .closed events started, m =>
    Underway base events started true m ∨ Abandoned base events m ∨ started = true ∧ Finished base events m

/-! ## What a statement does -/

/-- Nothing of the sequence changes. -/
structure Idles (m m' : Fw β) : Prop where
  boundary : Boundary m'
  queue : m'.queue = m.queue
  ended : m'.sched.sequenceEnded = m.sched.sequenceEnded
  mode : m'.rest.mode = m.rest.mode
  adds : Adds isAway m m'

/-- The sequence is given up. -/
structure Fails (m m' : Fw β) : Prop where
  boundary : Boundary m'
  mode : m'.rest.mode ≠ .armed ∧ m'.rest.mode ≠ .playing
  adds : Adds isAway m m'

theorem Underway.idles (h : Underway base events started ended m) (hm : Idles m m') :
    Underway base events started ended m' := by
  obtain ⟨taken, hbalance, hshows⟩ := h.shows
  exact ⟨hm.mode.trans h.mode, hm.ended.trans h.ended, taken, by rw [hm.queue]; exact hbalance, hshows.adds hm.adds⟩

theorem Underway.fails (h : Underway base events started ended m) (hm : Fails m m') : Abandoned base events m' := by
  obtain ⟨taken, hbalance, hshows⟩ := h.shows
  exact ⟨hm.mode, taken, ⟨_, hbalance⟩, hshows.adds hm.adds⟩

theorem Abandoned.adds (h : Abandoned base events m) (hmode : m'.rest.mode ≠ .armed ∧ m'.rest.mode ≠ .playing)
    (hadds : Adds isAway m m') : Abandoned base events m' := by
  obtain ⟨taken, hprefix, hshows⟩ := h.shows
  exact ⟨hmode, taken, hprefix, hshows.adds hadds⟩

theorem Finished.adds (h : Finished base events m) (hmode : m'.rest.mode ≠ .playing) (hadds : Adds isAway m m') :
    Finished base events m' := ⟨hmode, h.shows.adds hadds⟩

theorem Replays.idles {progress : Progress} (h : Replays base progress m) (hm : Idles m m') :
    Replays base progress m' := by
  have hsame := hm.mode
  cases progress with
  | arming => exact ⟨by rw [hsame]; exact h.1, h.2.adds hm.adds⟩
  | feeding events started =>
    exact h.imp (fun h => h.idles hm) (fun h => h.adds (by rw [hsame]; exact h.mode) hm.adds)
  | closed events started =>
    refine h.imp (fun h => h.idles hm) (fun h => h.imp (fun h => h.adds (by rw [hsame]; exact h.mode) hm.adds) ?_)
    exact fun h => ⟨h.1, h.2.adds (by rw [hsame]; exact h.2.mode) hm.adds⟩

theorem Replays.fails {progress : Progress} (h : Replays base progress m) (hm : Fails m m') :
    Replays base progress m' := by
  cases progress with
  | arming => exact ⟨hm.mode.2, h.2.adds hm.adds⟩
  | feeding events started => exact .inr (h.elim (fun h => h.fails hm) (fun h => h.adds hm.mode hm.adds))
  | closed events started =>
    rcases h with h | h | ⟨hstarted, h⟩
    · exact .inr (.inl (h.fails hm))
    · exact .inr (.inl (h.adds hm.mode hm.adds))
    · exact .inr (.inr ⟨hstarted, h.adds hm.mode.2 hm.adds⟩)

theorem enterError_fails (hb : Boundary m) (reason : Reason) (hfault : reason.isFault = true) :
    Fails m (enterError d reason m) := by
  have hleads : Leads d .output m (enterError d reason m) := enterError_leads reason hb hfault
  refine ⟨hleads.2, ?_, (enterError_adds reason m).mono (fun _ => away_of_routine)⟩
  unfold enterError
  split
  · exact ⟨nofun, nofun⟩
  · rename_i hmode
    change m.rest.mode ≠ _ ∧ m.rest.mode ≠ _
    constructor <;> intro h <;> rw [h] at hmode <;> exact hmode ⟨by decide, by decide⟩

/-- A frame that says nothing of the outcome. -/
theorem idles_frame (hb : Boundary m) {rest : Rest β} {msg : PicoMsg} {queued : Bool} (hmode : rest.mode = m.rest.mode)
    (htrace : rest.trace = .frame msg queued :: m.rest.trace) (hmsg : isAway (.frame msg queued) = true) :
    Idles m { m with rest := rest } :=
  ⟨hb.frame rfl rfl hmode, rfl, rfl, hmode, .one htrace hmsg⟩

theorem acknowledgeQueue_answers (hb : Boundary m) :
    Idles m (acknowledgeQueue d m) ∨ Fails m (acknowledgeQueue d m) := by
  have hsent : Idles m { m with rest := (m.rest.sendBufferStatus d m.queue).2 } := idles_frame hb rfl rfl rfl
  unfold acknowledgeQueue
  dsimp only
  cases (m.rest.sendBufferStatus d m.queue).1 with
  | true => exact .inl hsent
  | false =>
    have hfails := enterError_fails (d := d) hsent.boundary .protocolError rfl
    exact .inr ⟨hfails.boundary, hfails.mode, hsent.adds.trans hfails.adds⟩

/-- **The statements between the commands and the scheduler's task** leave the sequence alone or give it up. -/
theorem exec_settles (hb : Boundary m) (s : Pico.Statement) (hcommand : ∀ frame, s ≠ .command frame)
    (htask : s ≠ .task) :
    Idles m (exec d m s) ∨ Fails m (exec d m s) := by
  have hboundary := exec_boundary (d := d) hb s
  cases s with
  | tudTask => exact .inl ⟨hboundary, rfl, rfl, rfl, .same rfl⟩
  | host event =>
    obtain ⟨hrest, hsame⟩ := hostEvent_sameMode (d := d) m event
    have hadds := (hostEvent_adds (d := d) m event).captured.mono (fun _ => away_of_routine)
    have hqueue : (hostEvent d m event).queue = m.queue := by rw [hrest]
    have hended : (hostEvent d m event).sched.sequenceEnded = m.sched.sequenceEnded := by rw [hrest]
    exact .inl ⟨hboundary, hqueue, hended, hsame.1, hadds⟩
  | uartFault => exact .inr (enterError_fails hb .uartFault rfl)
  | command frame => exact absurd rfl (hcommand frame)
  | output => exact .inl ⟨hboundary, rfl, rfl, forward_mode m,
      (forward_adds m).forwarded.mono (fun _ => away_of_routine)⟩
  | task => exact absurd rfl htask
  | flowControl =>
    change Idles m (flowControlCheck d m) ∨ Fails m (flowControlCheck d m)
    unfold flowControlCheck
    split
    · have htaken : Boundary { m with rest := { m.rest with flowControlFault := false } } := hb.frame rfl rfl rfl
      have hfails := enterError_fails (d := d) htaken .protocolError rfl
      exact .inr ⟨hfails.boundary, hfails.mode, hfails.adds⟩
    · exact .inl ⟨hb, rfl, rfl, rfl, .refl m⟩
  | watchdog =>
    change Idles m (watchdogCheck d m) ∨ Fails m (watchdogCheck d m)
    unfold watchdogCheck
    split
    · exact .inl ⟨hb, rfl, rfl, rfl, .refl m⟩
    · have hclock : Boundary (readEpoch d m) := hb.frame rfl rfl rfl
      dsimp only
      split
      · have hfails := enterError_fails (d := d) hclock .underrun rfl
        exact .inr ⟨hfails.boundary, hfails.mode, hfails.adds⟩
      · exact .inl ⟨hclock, rfl, rfl, rfl, .same rfl⟩
  | txTask => exact .inl ⟨hboundary, rfl, rfl, rfl, .same rfl⟩

/-! ## The scheduler -/

/-- A run, and how it ends: by PLAY_FINISHED when the sequence is closed and nothing waits any more. -/
structure Runs (base : List Obs) (events : List PlaybackEvent) (ended : Bool) (m : Fw β) : Prop where
  playing : m.sched.running = true → m.rest.mode = .playing
  state : Underway base events true ended m ∨ ended = true ∧ Finished base events m

theorem Runs.underway (h : Runs base events ended m) (hrunning : m.sched.running = true) :
    Underway base events true ended m :=
  h.state.resolve_right (fun hf => hf.2.mode (h.playing hrunning))

theorem Runs.idles (h : Runs base events ended m) (hplaying : m'.sched.running = true → m'.rest.mode = .playing)
    (hqueue : m'.queue = m.queue) (hended : m'.sched.sequenceEnded = m.sched.sequenceEnded)
    (hmode : m'.rest.mode = m.rest.mode) (hadds : Adds isAway m m') : Runs base events ended m' := by
  refine ⟨hplaying, h.state.imp (fun h => ?_) (fun h => ⟨h.1, h.2.adds (by rw [hmode]; exact h.2.mode) hadds⟩)⟩
  obtain ⟨taken, hbalance, hshows⟩ := h.shows
  exact ⟨hmode.trans h.mode, hended.trans h.ended, taken, by rw [hqueue]; exact hbalance, hshows.adds hadds⟩

/-- The end of a run: all reports were taken. -/
theorem Underway.finish (h : Underway base events true ended m) (hempty : m.queue.toList = []) :
    Finished base events (finish d.mainHost .finished m) := by
  obtain ⟨taken, hbalance, obs, htrace, htaken, -⟩ := h.shows
  obtain ⟨metrics, q₁, q₂, hf⟩ := finished_trace d m
  have hplaying : m.rest.mode = .playing := h.mode
  have hall : taken = reports events := by rw [← hbalance, hempty]; simp [reports]
  have hfinished : Shows base (reports events) True (finished d m) := by
    refine ⟨_ :: _ :: _ :: obs, by rw [hf, htrace]; rfl, ?_, fun _ => trivial⟩
    rw [← hall, ← htaken]
    rfl
  rw [finish_main, if_neg (fun h => h hplaying)]
  have harmed : (transition d .armed .finished (finished d m)).rest.mode = .armed := rfl
  exact ⟨by rw [harmed]; decide, hfinished.adds ((transition_adds _ _ _).mono (fun _ => away_of_routine))⟩

theorem Runs.arming (h : Runs base events ended m) (hs : Arming d.mainHost m m') : Runs base events ended m' := by
  have hplaying := arming_playing hs h.playing
  rcases arming_cases hs with hq | ⟨-, -, -, -, hq⟩ | ⟨hrunning, -, hempty, hended, rfl⟩
  · obtain ⟨board, hrest, -⟩ := hq.rest
    exact h.idles hplaying hq.queue hq.sequenceEnded (by rw [hrest]) (.same (by rw [hrest]))
  · obtain ⟨board, elapsed, queued, -, hrest⟩ := hq.rest
    exact h.idles hplaying hq.queue hq.sequenceEnded (by rw [hrest]) (.one (by rw [hrest]) rfl)
  · have hrun := h.underway hrunning
    exact ⟨hplaying, .inr ⟨hrun.ended.symm.trans hended, hrun.finish hempty⟩⟩

/-- The head is taken. -/
theorem Underway.dispatch (h : Underway base events true ended m) {event : PlaybackEvent}
    (head : m.queue.peek = some event) (hplayed : Played d m m' event) : Underway base events true ended m' := by
  obtain ⟨taken, hbalance, obs, htrace, htaken, hunfinished⟩ := h.shows
  obtain ⟨board, fault, credit, -, hrest, hcredit⟩ := hplayed.rest
  have hcredited : ∀ o ∈ credit, isAway o = true := by
    rcases hcredit with ⟨-, rfl⟩ | ⟨-, -, queued, rfl⟩
    · nofun
    · exact fun o ho => List.mem_singleton.1 ho ▸ rfl
  refine ⟨(congrArg Rest.mode hrest).trans h.mode, hplayed.sequenceEnded.trans h.ended, taken ++ [event.report], ?_,
    credit ++ .hid .playback event.report true :: obs, ?_, ?_, fun hm => ?_⟩
  · rw [← hbalance, hplayed.queue, Lib.Ring.toList_of_peek _ _ head]
    simp [reports]
  · rw [hrest, htrace, List.append_assoc]
    rfl
  · rw [replayed_append, replayed_away hcredited, List.append_nil, ← htaken]
    simp [replayed, taken?]
  · rw [sent_append] at hm
    rcases List.mem_append.1 hm with hm | hm
    · exact hunfinished hm
    · exact unfinished_away hcredited hm

theorem refused_away {report : Report} (busy : (m.rest.sendBootReport d .playback report).1 = false) :
    Adds isAway m { m with rest := (m.rest.sendBootReport d .playback report).2 } := by
  rcases sendBootReport_cases d .playback report m.rest with ⟨-, he⟩ | ⟨-, he⟩
  · rw [he]
    exact .one rfl rfl
  · rw [he] at busy ⊢
    have busy : (d.hidReport report m.rest.board).1 = false := busy
    rw [busy]
    exact .one rfl rfl

theorem Runs.micro (h : Runs base events ended m) (hs : Micro d.mainHost m m') : Runs base events ended m' := by
  cases hs with
  | arming step => exact h.arming step
  | refuse event running ready head busy =>
    exact h.idles (micro_playing (.refuse m event running ready head busy) h.playing) rfl rfl
      (sendBootReport_sameMode (d := d) .playback event.report m.rest).1 (refused_away busy)
  | dispatch event running ready head taken =>
    have hplayed := dispatched_played (d := d) taken
    exact ⟨micro_playing (.dispatch m event running ready head taken) h.playing,
      .inl ((h.underway running).dispatch head hplayed)⟩

/-- Only a run that was started plays. -/
theorem Underway.begun (h : Underway base events started ended m) (hplaying : m.rest.mode = .playing) :
    started = true := by
  cases started with
  | true => rfl
  | false => cases hplaying.symm.trans h.mode

/-- A state that replays, between two statements. -/
def Hears (base : List Obs) (progress : Progress) (m : Fw β) : Prop := Boundary m ∧ Replays base progress m

theorem task_hears {progress : Progress} (h : Hears base progress m) : Hears base progress (task d.mainHost m) := by
  obtain ⟨hb, hreplays⟩ := h
  refine ⟨task_boundary hb, ?_⟩
  by_cases hplaying : m.rest.mode = .playing
  · have hruns : ∀ {events ended}, Underway base events true ended m → Runs base events ended (task d.mainHost m) :=
      fun h => Preserved.run (fun _ _ step hr => hr.micro step) (task_micro (main_settles d) hb.planned)
        ⟨hb.playing, .inl h⟩
    cases progress with
    | arming => exact absurd hplaying hreplays.1
    | feeding events started =>
      rcases hreplays with h | h
      · obtain rfl := h.begun hplaying
        exact .inl ((hruns h).state.resolve_right (fun hf => by cases hf.1))
      · exact absurd hplaying h.mode.2
    | closed events started =>
      rcases hreplays with h | h | h
      · obtain rfl := h.begun hplaying
        exact (hruns h).state.imp id (fun hf => .inr ⟨rfl, hf.2⟩)
      · exact absurd hplaying h.mode.2
      · exact absurd hplaying h.2.mode
  · rw [task_idle (hb.idle hplaying)]
    exact hreplays

theorem exec_hears {progress : Progress} (h : Hears base progress m) (s : Pico.Statement)
    (hcommand : ∀ frame, s ≠ .command frame) : Hears base progress (exec d m s) := by
  by_cases htask : s = .task
  · subst htask
    exact task_hears h
  · rcases exec_settles (d := d) h.1 s hcommand htask with hm | hm
    · exact ⟨hm.boundary, h.2.idles hm⟩
    · exact ⟨hm.boundary, h.2.fails hm⟩

/-! ## The commands -/

theorem dispatch_queue (d : Board β) (m : Fw β) {frame : Frame} {type : MsgType} (htype : frame.type = type.byte)
    (hqueue : type = .queueClear ∨ type = .queueEvent ∨ type = .queueEnd) :
    dispatchCommand d m frame = dispatchQueueCommand d frame m := by
  unfold dispatchCommand
  rw [htype, MsgType.ofByte?_byte]
  rcases hqueue with rfl | rfl | rfl <;> rfl

/-- A queue command that the mode does not allow is an error. -/
theorem dispatch_refused (hb : Boundary m) {frame : Frame}
    (hrefused : queueCommandAllowed frame.type m.rest.mode = false) :
    Fails m (dispatchQueueCommand d frame m) := by
  unfold dispatchQueueCommand
  dsimp only
  rw [if_pos (by rw [hrefused]; rfl)]
  exact enterError_fails hb .protocolError rfl

theorem handleModeSet_quiet (hm : m.rest.mode ≠ .playing) (target : UInt8) :
    (handleModeSet d target m).2.rest.mode ≠ .playing := by
  have htarget : targetMode target ≠ .playing := by
    unfold targetMode
    split
    · nofun
    split <;> nofun
  unfold handleModeSet
  split
  · exact hm
  split
  · dsimp only
    split
    · nofun
    · exact hm
  split
  · exact hm
  split
  · exact htarget
  · exact hm

theorem handleModeSet_passes (m : Fw β) : (handleModeSet d Mode.pass.byte m).2.rest.mode = .pass := by
  unfold handleModeSet
  rw [if_neg (by decide), if_pos rfl]
  dsimp only
  split
  · rfl
  · rename_i hmode
    exact not_not.1 hmode

theorem dispatch_modeSet (d : Board β) (m : Fw β) {frame : Frame} (htype : frame.type = MsgType.modeSet.byte) :
    (dispatchCommand d m frame).rest.mode = (handleModeSet d (frame.payload.getD 0 0) m).2.rest.mode ∧
      Adds isAway m (dispatchCommand d m frame) := by
  unfold dispatchCommand
  rw [htype, MsgType.ofByte?_byte]
  exact ⟨rfl, ((handleModeSet_adds _ m).mono (fun _ => away_of_routine)).trans (.one rfl rfl)⟩

theorem hear_queueClear (h : Hears base .arming m) {frame : Frame} (htype : frame.type = MsgType.queueClear.byte) :
    Replays base (.feeding [] false) (dispatchCommand d m frame) := by
  rw [dispatch_queue d m htype (.inl rfl)]
  have habandoned : ∀ {m' : Fw β}, Fails m m' → Abandoned base [] m' := fun hm =>
    ⟨hm.mode, [], List.prefix_refl _, h.2.2.adds hm.adds⟩
  cases hallowed : queueCommandAllowed frame.type m.rest.mode with
  | false => exact .inr (habandoned (dispatch_refused h.1 hallowed))
  | true =>
    have harmed : m.rest.mode = .armed := (queueCommand_streams hallowed).1 htype
    have hidle := h.1.idle (by rw [harmed]; decide)
    have hcleared : Boundary (⟨m.sched.resetSequence, m.queue.clear, m.rest⟩ : Fw β) :=
      .stopped (by rw [resetSequence_stopped hidle]; exact hidle)
    have hunderway : Underway base [] false false (⟨m.sched.resetSequence, m.queue.clear, m.rest⟩ : Fw β) := by
      refine ⟨harmed, ?_, [], ?_, h.2.2⟩
      · rw [resetSequence_stopped hidle]
      · rw [List.nil_append, (Lib.Ring.toList_eq_nil _).2 rfl]
    unfold dispatchQueueCommand
    dsimp only
    rw [if_neg (by simp [hallowed]), htype, MsgType.ofByte?_byte]
    exact (acknowledgeQueue_answers hcleared).imp (fun hm => hunderway.idles hm) (fun hm => hunderway.fails hm)

theorem Underway.allowed (h : Underway base events started ended m) {frame : Frame}
    (htype : frame.type = MsgType.queueEvent.byte ∨ frame.type = MsgType.queueEnd.byte) :
    queueCommandAllowed frame.type m.rest.mode = true := by
  have hmode := h.mode
  rcases htype with htype | htype <;> rw [htype, hmode] <;> cases started <;> rfl

/-- Once the sequence is over, its queue commands are errors. -/
theorem Abandoned.declined (h : Abandoned base events m) (hb : Boundary m) (frame : Frame) :
    Abandoned base events (dispatchQueueCommand d frame m) := by
  have hrefused : queueCommandAllowed frame.type m.rest.mode = false := by
    refine Bool.eq_false_iff.2 (fun hallowed => ?_)
    exact (queueCommand_streams hallowed).2.elim h.mode.1 h.mode.2
  have hfails := dispatch_refused (d := d) hb hrefused
  exact h.adds hfails.mode hfails.adds

theorem hear_queueEvent (hb : Boundary m) (h : Replays base (.feeding events started) m) {frame : Frame}
    (htype : frame.type = MsgType.queueEvent.byte) :
    Replays base (.feeding (events ++ [queuedEvent frame]) started) (dispatchCommand d m frame) := by
  rw [dispatch_queue d m htype (.inr (.inl rfl))]
  have hmore : ∀ {m' : Fw β}, Abandoned base events m' → Abandoned base (events ++ [queuedEvent frame]) m' :=
    fun h => by
    obtain ⟨taken, hprefix, hshows⟩ := h.shows
    exact ⟨h.mode, taken, hprefix.trans (by rw [reports_append]; exact List.prefix_append _ _), hshows⟩
  rcases h with h | h
  · have hallowed := h.allowed (.inl htype)
    unfold dispatchQueueCommand
    dsimp only
    rw [if_neg (by simp [hallowed]), htype, MsgType.ofByte?_byte]
    dsimp only
    unfold queueEvent
    dsimp only
    cases hpush : PlaybackQueue.push m.queue (UInt64.ofNat (leNat (frame.payload.take 8)))
        ((frame.payload.drop 9).take 8) with
    | none =>
      have hrejected : Boundary { m with rest := m.rest.note (.pushed (queuedEvent frame) false) } :=
        hb.frame rfl rfl rfl
      have hfails := enterError_fails (d := d) hrejected .protocolError rfl
      exact .inr (hmore (h.fails ⟨hfails.boundary, hfails.mode, .trans (.one rfl rfl) hfails.adds⟩))
    | some queue =>
      have hlist := PlaybackQueue.toList_push hpush
      have hpushed : Boundary ⟨m.sched, queue, m.rest.note (.pushed (queuedEvent frame) true)⟩ := hb.queue hlist _ rfl
      have hunderway : Underway base (events ++ [queuedEvent frame]) started false
          ⟨m.sched, queue, m.rest.note (.pushed (queuedEvent frame) true)⟩ := by
        obtain ⟨taken, hbalance, hshows⟩ := h.shows
        refine ⟨h.mode, h.ended, taken, ?_, hshows.adds (.one rfl rfl)⟩
        dsimp only
        rw [hlist, reports_append, ← List.append_assoc, hbalance, reports_append]
        rfl
      exact (acknowledgeQueue_answers hpushed).imp (fun hm => hunderway.idles hm) (fun hm => hunderway.fails hm)
  · exact .inr (hmore (h.declined hb frame))

theorem hear_queueEnd (hb : Boundary m) (h : Replays base (.feeding events started) m) {frame : Frame}
    (htype : frame.type = MsgType.queueEnd.byte) :
    Replays base (.closed events started) (dispatchCommand d m frame) := by
  rw [dispatch_queue d m htype (.inr (.inr rfl))]
  rcases h with h | h
  · have hallowed := h.allowed (.inr htype)
    have hmarked : Boundary { m with sched := m.sched.markSequenceEnded } := ⟨hb.planned, hb.playing⟩
    have hunderway : Underway base events started true { m with sched := m.sched.markSequenceEnded } :=
      ⟨h.mode, rfl, h.shows⟩
    have hanswers : ∀ {m' : Fw β}, Boundary m' → Underway base events started true m' →
        Underway base events started true (acknowledgeQueue d m') ∨ Abandoned base events (acknowledgeQueue d m') :=
      fun hb' h' => (acknowledgeQueue_answers hb').imp (fun hm => h'.idles hm) (fun hm => h'.fails hm)
    unfold dispatchQueueCommand
    dsimp only
    rw [if_neg (by simp [hallowed]), htype, MsgType.ofByte?_byte]
    dsimp only
    split
    · have hready : Idles { m with sched := m.sched.markSequenceEnded }
          { m with sched := m.sched.markSequenceEnded, rest := (m.rest.queueFrame d .playReady).2 } :=
        idles_frame hmarked rfl rfl rfl
      exact (hanswers hready.boundary (hunderway.idles hready)).imp id .inl
    · exact (hanswers hmarked hunderway).imp id .inl
  · exact .inr (.inl (h.declined hb frame))

theorem Underway.launch (h : Underway base events false ended m) (hb : Boundary m) :
    Runs base events ended (dispatchPlayStart d m) := by
  have harmed : m.rest.mode = .armed := h.mode
  have hidle := hb.idle (by rw [harmed]; decide)
  have hlaunched : Runs base events ended (Pico.launch d (d.timeUs64 m.rest.board).1 (readEpoch d m)) := by
    obtain ⟨taken, hbalance, hshows⟩ := h.shows
    obtain ⟨q₁, q₂, htrace⟩ := launch_trace d (d.timeUs64 m.rest.board).1 (readEpoch d m)
    refine ⟨fun _ => rfl, .inl ⟨rfl, h.ended, taken, hbalance, hshows.adds ⟨_, htrace, ?_⟩⟩⟩
    simp [isAway]
  have hplan := start_arming (h := d.mainHost)
    (m := { Pico.launch d (d.timeUs64 m.rest.board).1 (readEpoch d m) with sched := m.sched })
    (d.timeUs64 m.rest.board).1 hidle
  rw [dispatchPlayStart_armed harmed]
  exact Preserved.run (fun _ _ step hr => hr.arming step) hplan hlaunched

theorem Abandoned.refused (h : Abandoned base events m) : Abandoned base events (dispatchPlayStart d m) := by
  rw [dispatchPlayStart_refused h.mode.1]
  exact h.adds h.mode (.one rfl rfl)

theorem hear_playStart (hb : Boundary m) {progress progress' : Progress} (h : Replays base progress m) {frame : Frame}
    (htype : frame.type = MsgType.playStart.byte)
    (hnext : progress = .feeding events false ∧ progress' = .feeding events true ∨
      progress = .closed events false ∧ progress' = .closed events true) :
    Replays base progress' (dispatchCommand d m frame) := by
  have hdispatch : dispatchCommand d m frame = dispatchPlayStart d m := by
    unfold dispatchCommand
    rw [htype, MsgType.ofByte?_byte]
  rw [hdispatch]
  rcases hnext with ⟨rfl, rfl⟩ | ⟨rfl, rfl⟩
  · exact h.imp (fun h => (h.launch hb).state.resolve_right (fun hf => by cases hf.1)) Abandoned.refused
  · rcases h with h | h | h
    · exact (h.launch hb).state.imp id (fun hf => .inr ⟨rfl, hf.2⟩)
    · exact .inr (.inl h.refused)
    · cases h.1

theorem hear_pass (h : Replays base (.closed events true) m) {frame : Frame} (htype : frame.type = MsgType.modeSet.byte)
    (htarget : frame.payload.getD 0 0 = Mode.pass.byte) :
    Replays base (.closed events true) (dispatchCommand d m frame) := by
  obtain ⟨hmode, hadds⟩ := dispatch_modeSet d m htype
  rw [htarget, handleModeSet_passes] at hmode
  rcases h with h | h | h
  · obtain ⟨taken, hbalance, hshows⟩ := h.shows
    exact .inr (.inl ⟨by rw [hmode]; decide, taken, ⟨_, hbalance⟩, hshows.adds hadds⟩)
  · exact .inr (.inl (h.adds (by rw [hmode]; decide) hadds))
  · exact .inr (.inr ⟨rfl, h.2.adds (by rw [hmode]; decide) hadds⟩)

/-- **Every command of a session** is heard as `Progress.hear` says. -/
theorem dispatch_hears {progress progress' : Progress} (h : Hears base progress m) {frame : Frame}
    (hnext : progress.hear frame = some progress') : Hears base progress' (dispatchCommand d m frame) := by
  refine ⟨(dispatchCommand_leads h.1 frame).2, ?_⟩
  unfold Progress.hear at hnext
  split at hnext
  · rename_i htype
    cases hnext
    obtain ⟨hmode, hadds⟩ := dispatch_modeSet d m (MsgType.ofByte?_eq_some.1 htype)
    exact ⟨by rw [hmode]; exact handleModeSet_quiet h.2.1 _, h.2.2.adds hadds⟩
  · rename_i htype
    cases hnext
    exact hear_queueClear h (MsgType.ofByte?_eq_some.1 htype)
  · rename_i htype
    cases hnext
    exact hear_queueEvent h.1 h.2 (MsgType.ofByte?_eq_some.1 htype)
  · rename_i htype
    cases hnext
    exact hear_queueEnd h.1 h.2 (MsgType.ofByte?_eq_some.1 htype)
  · rename_i htype
    cases hnext
    exact hear_playStart h.1 h.2 (MsgType.ofByte?_eq_some.1 htype) (.inl ⟨rfl, rfl⟩)
  · rename_i htype
    cases hnext
    exact hear_playStart h.1 h.2 (MsgType.ofByte?_eq_some.1 htype) (.inr ⟨rfl, rfl⟩)
  · rename_i htype
    split at hnext
    · cases hnext
      exact hear_pass h.2 (MsgType.ofByte?_eq_some.1 htype) ‹_›
    · cases hnext
  · cases hnext

/-! ## Runs -/

/-- What HID was given since `base`, and whether PLAY_FINISHED was sent. -/
def Replayed (base : List Obs) (progress : Progress) (trace : List Obs) : Prop :=
  ∃ obs, trace = obs ++ base ∧ replayed obs <+: reports progress.events ∧
    (.playFinished ∈ sent obs → progress.complete = true ∧ replayed obs = reports progress.events)

theorem Hears.replayed {progress : Progress} (h : Hears base progress m) : Replayed base progress m.rest.trace := by
  have hunfinished : ∀ {taken}, taken <+: reports progress.events → Shows base taken False m →
      Replayed base progress m.rest.trace := by
    rintro taken hprefix ⟨obs, htrace, rfl, hunfinished⟩
    exact ⟨obs, htrace, hprefix, fun hm => (hunfinished hm).elim⟩
  obtain ⟨-, h⟩ := h
  cases progress with
  | arming => exact hunfinished (List.nil_prefix) h.2
  | feeding events started =>
    rcases h with h | h
    · obtain ⟨taken, hbalance, hshows⟩ := h.shows
      exact hunfinished ⟨_, hbalance⟩ hshows
    · obtain ⟨taken, hprefix, hshows⟩ := h.shows
      exact hunfinished hprefix hshows
  | closed events started =>
    rcases h with h | h | ⟨hstarted, h⟩
    · obtain ⟨taken, hbalance, hshows⟩ := h.shows
      exact hunfinished ⟨_, hbalance⟩ hshows
    · obtain ⟨taken, hprefix, hshows⟩ := h.shows
      exact hunfinished hprefix hshows
    · obtain ⟨obs, htrace, hall, -⟩ := h.shows
      exact ⟨obs, htrace, by rw [hall]; exact List.prefix_refl _, fun _ => ⟨hstarted, hall⟩⟩

/-- Nothing was heard yet, and nothing plays. -/
theorem hears_idle (hb : Boundary m) (hidle : m.rest.mode ≠ .playing) : Hears m.rest.trace .arming m :=
  ⟨hb, hidle, [], rfl, rfl, nofun⟩

def commandOf? : Pico.Statement → Option Frame
  | .command frame => some frame
  | _ => none

theorem execs_hear : ∀ (statements : List Pico.Statement) {m : Fw β} {progress progress' : Progress},
    Hears base progress m → (statements.filterMap commandOf?).foldlM Progress.hear progress = some progress' →
      Hears base progress' (statements.foldl (exec d) m)
  | [], m, progress, progress', h, hheard => by
    cases hheard
    exact h
  | s :: statements, m, progress, progress', h, hheard => by
    rw [List.foldl_cons]
    cases hs : commandOf? s with
    | none =>
      rw [List.filterMap_cons_none hs] at hheard
      refine execs_hear statements (exec_hears h s (fun frame hframe => ?_)) hheard
      rw [hframe] at hs
      cases hs
    | some frame =>
      rw [List.filterMap_cons_some hs, List.foldlM_cons] at hheard
      obtain ⟨next, hnext, hrest⟩ := Option.bind_eq_some_iff.1 hheard
      have hcommand : s = .command frame := by
        cases s <;> first | cases hs; rfl | cases hs
      rw [hcommand]
      exact execs_hear statements (dispatch_hears h hnext) hrest

theorem filterMap_statements (input : LoopInput) : input.statements.filterMap commandOf? = input.commands := by
  have hhosts : (input.events.map Pico.Statement.host).filterMap commandOf? = [] := by
    rw [List.filterMap_eq_nil_iff]
    intro s hs
    obtain ⟨event, -, rfl⟩ := List.mem_map.1 hs
    rfl
  have hcommands : (input.commands.map Pico.Statement.command).filterMap commandOf? = input.commands := by
    rw [List.filterMap_map]
    exact List.filterMap_some
  have hfault : (if input.fault then [Pico.Statement.uartFault] else []).filterMap commandOf? = [] := by
    split <;> rfl
  simp only [LoopInput.statements, List.filterMap_cons, List.filterMap_append, hhosts, hcommands, hfault]
  simp [commandOf?]

end Session

/-- **What a session's commands lead to**, in whatever iterations they come, with any captured reports, faults, endpoint
and losses in the transmitter: HID is given a beginning of the events' reports in order, all of them if PLAY_FINISHED is
sent, and it is sent only when the whole session was heard. -/
theorem run_replays {β : Type} (d : Board β) (board : β) (before inputs : List LoopInput) (progress : Progress)
    (hidle : (run d board before).rest.mode ≠ .playing)
    (hheard : (inputs.flatMap LoopInput.commands).foldlM Progress.hear .arming = some progress) :
    Replayed (run d board before).rest.trace progress (run d board (before ++ inputs)).rest.trace := by
  have hopening : Hears (run d board before).rest.trace .arming (run d board before) :=
    hears_idle (run_invariant boot_joint joint_step board before).1 hidle
  have hcommands : (inputs.flatMap LoopInput.statements).filterMap commandOf? = inputs.flatMap LoopInput.commands := by
    rw [List.filterMap_flatMap]
    exact List.flatMap_congr (fun input _ => filterMap_statements input)
  have hrun : run d board (before ++ inputs) = (inputs.flatMap LoopInput.statements).foldl (exec d)
      (run d board before) := by
    rw [run_exec, run_exec, List.flatMap_append, List.foldl_append]
  rw [hrun]
  exact (execs_hear _ hopening (by rw [hcommands]; exact hheard)).replayed

/-- Two events, one fed before PLAY_START and one behind it, and played to their end. -/
def benchSession : List LoopInput :=
  [⟨[], false, [command .modeSet [2], command .queueClear [],
      command .queueEvent [0, 0, 0, 0, 0, 0, 0, 0, 8, 0, 0, 4, 0, 0, 0, 0, 0]]⟩,
    ⟨[], false, [command .playStart [], command .queueEvent [0, 0, 0, 0, 0, 0, 0, 0, 8, 0, 0, 0, 0, 0, 0, 0, 0]]⟩,
    ⟨[], false, [command .queueEnd []]⟩, ⟨[], false, []⟩, ⟨[], false, []⟩, ⟨[], false, [command .modeSet [0]]⟩]

theorem run_replays_bench : ∃ obs, (run benchBoard true benchSession).rest.trace = obs ++ [] ∧
    .playFinished ∈ sent obs ∧
      replayed obs = [Report.ofBytes [0, 0, 4, 0, 0, 0, 0, 0], Report.ofBytes [0, 0, 0, 0, 0, 0, 0, 0]] := by
  have hheard : (benchSession.flatMap LoopInput.commands).foldlM Progress.hear .arming =
      some (.closed [⟨0, Report.ofBytes [0, 0, 4, 0, 0, 0, 0, 0]⟩, ⟨0, Report.ofBytes [0, 0, 0, 0, 0, 0, 0, 0]⟩]
        true) := by
    decide +kernel
  have hfinished : .playFinished ∈ sent (run benchBoard true benchSession).rest.trace := by decide +kernel
  obtain ⟨obs, htrace, -, hall⟩ := run_replays benchBoard true [] benchSession _ (by decide) hheard
  have hobs : (run benchBoard true benchSession).rest.trace = obs ++ [] := htrace
  rw [hobs, List.append_nil] at hfinished
  exact ⟨obs, hobs, hfinished, (hall hfinished).2⟩

end Link
end PicoRecorder
