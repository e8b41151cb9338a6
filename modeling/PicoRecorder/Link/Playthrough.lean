import PicoRecorder.Pico.Batching
import PicoRecorder.Link.Rig
import PicoRecorder.Link.Replay
import PicoRecorder.PiZero.Lasting
import PicoRecorder.PiZero.Scaling
/-!
# Playthrough — from a recording to the reports HID is given

The session of `Sequence` at one end of the cable, the main loop of `Replay` at the other.  What the Pico has heard is a
beginning of what the Zero has written, the rest is on its way; and the Zero reads no frame that was not sent.
-/
namespace PicoRecorder
namespace Link

open Pico (Fw Board Boundary LoopInput Frame MsgType Mode Obs PicoMsg PlaybackEvent Report reports sent)
open PiZero (Recording RecordingEvent Request MODE_ARMED MODE_PASS)
open PiZero.Playback (WholeRun queueEvents)

/-! ## Which progress a session makes -/

namespace Progress

variable {progress progress' : Progress} {frames rest : List Frame}

/-- What was heard stays heard. -/
theorem events_grow {frame : Frame} (h : progress.hear frame = some progress') :
    progress.events <+: progress'.events := by
  unfold hear at h
  split at h
  case h_7 =>
    split at h
    · cases h
      exact List.prefix_refl _
    · cases h
  case h_8 => cases h
  case h_3 =>
    cases h
    exact List.prefix_append _ _
  all_goals
    cases h
    exact List.prefix_refl _

theorem heard_grows : ∀ {frames : List Frame} {progress : Progress}, frames.foldlM hear progress = some progress' →
    progress.events <+: progress'.events
  | [], _, h => by
    cases h
    exact List.prefix_refl _
  | frame :: frames, progress, h => by
    rw [List.foldlM_cons] at h
    obtain ⟨next, hnext, hrest⟩ := Option.bind_eq_some_iff.1 h
    exact (events_grow hnext).trans (heard_grows hrest)

/-- Behind the whole session nothing is heard but MODE_SET(PASS). -/
theorem complete_next {frame : Frame} (hcomplete : progress.complete = true)
    (h : progress.hear frame = some progress') :
    progress' = progress := by
  cases progress with
  | arming | feeding => cases hcomplete
  | closed events started =>
    obtain rfl : started = true := hcomplete
    unfold hear at h
    generalize MsgType.ofByte? frame.type = heard at h
    cases heard with
    | none => cases h
    | some type =>
      cases type
      case modeSet =>
        dsimp only at h
        split at h
        · exact (Option.some.inj h).symm
        · cases h
      all_goals cases h

theorem complete_stays : ∀ {frames : List Frame} {progress : Progress}, progress.complete = true →
    frames.foldlM hear progress = some progress' → progress' = progress
  | [], _, _, h => by
    cases h
    rfl
  | frame :: frames, progress, hcomplete, h => by
    rw [List.foldlM_cons] at h
    obtain ⟨next, hnext, hrest⟩ := Option.bind_eq_some_iff.1 h
    obtain rfl := complete_next hcomplete hnext
    exact complete_stays hcomplete hrest

end Progress

/-- The events of QUEUE_EVENTs, as the Pico reads them. -/
def queued (events : List (Int × List UInt8)) : List PlaybackEvent :=
  events.map (fun e => queuedEvent (Request.queueEvent e.1 e.2).frame)

theorem queuedEvent_report (offsetUs : Int) (report : List UInt8) :
    (queuedEvent (Request.queueEvent offsetUs report).frame).report = Report.ofBytes report := by
  have hpayload : ((Request.queueEvent offsetUs report).frame.payload.drop 9).take 8 = report.take 8 := by
    rw [Request.frame, List.drop_left' (by simp)]
  unfold queuedEvent Report.ofBytes
  dsimp only
  rw [hpayload]
  refine Vector.ext (fun i hi => ?_)
  simp [List.getD_eq_getElem?_getD]

theorem reports_queued (events : List (Int × List UInt8)) :
    reports (queued events) = (events.map Prod.snd).map Report.ofBytes := by
  simp [reports, queued, queuedEvent_report]

section Whole

theorem hear_arms (arms : Nat) :
    ((List.replicate arms (Request.modeSet MODE_ARMED)).map Request.frame).foldlM Progress.hear .arming =
      some .arming := by
  induction arms with
  | zero => rfl
  | succ arms ih => exact ih

theorem hear_passes (events : List PlaybackEvent) (passes : Nat) :
    ((List.replicate passes (Request.modeSet MODE_PASS)).map Request.frame).foldlM Progress.hear (.closed events true) =
      some (.closed events true) := by
  induction passes with
  | zero => rfl
  | succ passes ih => exact ih

theorem hear_events (started : Bool) : ∀ (events : List (Int × List UInt8)) (before : List PlaybackEvent),
    ((queueEvents events).map Request.frame).foldlM Progress.hear (.feeding before started) =
      some (.feeding (before ++ queued events) started)
  | [], before => by simp [queueEvents, queued]
  | e :: events, before => by
    have hrest := hear_events started events (before ++ [queuedEvent (Request.queueEvent e.1 e.2).frame])
    rw [List.append_assoc] at hrest
    exact hrest

/-- **The commands of a whole run** are a session with all its events. -/
theorem wholeRun_heard {events : List (Int × List UInt8)} {prebufferUs : Int} {whole : List Request}
    (h : WholeRun events prebufferUs whole) :
    (whole.map Request.frame).foldlM Progress.hear .arming = some (.closed (queued events) true) := by
  obtain ⟨held, rest, arms, passes, rfl, -, -, -, rfl⟩ := h
  have hclear : (Request.frame .queueClear :: (queueEvents held).map Request.frame).foldlM Progress.hear .arming =
      some (.feeding (queued held) false) := hear_events false held []
  have hqueued : queued (held ++ rest) = queued held ++ queued rest := List.map_append
  unfold PiZero.Playback.opening PiZero.Playback.closing
  by_cases hrest : rest = []
  · subst hrest
    simp only [if_true, List.map_append, List.map_cons, List.map_nil, List.foldlM_append, hear_arms,
      Option.bind_eq_bind, Option.bind_some, hclear, List.append_nil, List.nil_append]
    exact hear_passes (queued held) passes
  · simp only [if_neg hrest, List.map_append, List.map_cons, List.map_nil, List.foldlM_append, hear_arms,
      Option.bind_eq_bind, Option.bind_some, hclear, List.nil_append, hqueued]
    have hstart : [Request.playStart.frame].foldlM Progress.hear (.feeding (queued held) false) =
        some (.feeding (queued held) true) := rfl
    rw [hstart, Option.bind_some, hear_events, Option.bind_some]
    exact hear_passes _ passes

end Whole

/-! ## The two ends together -/

section Ends

variable {β : Type} {d : Board β} {base : List Obs} {m m' : Fw β} {w : Receiver β} {stage stage' : Stage}

theorem Receiver.Moves.hears {progress : Progress} (h : Receiver.Moves d stage m stage' m')
    (hm : Hears base progress m) :
    Hears base progress m' := by
  cases h with
  | poll events =>
    have htud : Hears base progress (Pico.exec d m .tudTask) := exec_hears hm .tudTask nofun
    exact Lib.foldl_invariant (P := Hears base progress) (f := Pico.hostEvent d)
      (fun m event h => exec_hears h (.host event) (by rintro _ ⟨⟩)) events _ htud
  | task => exact task_hears (exec_hears hm .output nofun)
  | flowControl => exact exec_hears hm .flowControl nofun
  | watchdog => exact exec_hears (exec_hears hm .watchdog nofun) .txTask nofun

/-- What the Zero wrote, the frames not handed over, and the Pico.  `finished`: PLAY_FINISHED was sent. -/
structure Conversed (base : List Obs) (finished : Prop) (requests : List Request) (stream : List Frame)
    (w : Receiver β) :
    Prop where
  valid : ∀ r ∈ requests, r.Valid
  boundary : Boundary w.fw
  heard : ∃ heard coming, requests = heard ++ coming ∧ w.down = coming.map (fun r => Pico.encode r.frame) ∧
    ∀ progress, (heard.map Request.frame).foldlM Progress.hear .arming = some progress → Hears base progress w.fw
  told : ∃ obs, w.fw.rest.trace = obs ++ base ∧ (∀ frame ∈ stream, ∃ msg ∈ sent obs, frame = msg.toFrame) ∧
    (finished → .playFinished ∈ sent obs)

variable {finished : Prop} {requests : List Request} {stream : List Frame}

theorem Conversed.mono (h : Conversed base finished requests stream w) {stream' : List Frame}
    (hstream : ∀ frame ∈ stream', frame ∈ stream) : Conversed base finished requests stream' w := by
  obtain ⟨obs, htrace, hsent, hfinished⟩ := h.told
  exact ⟨h.valid, h.boundary, h.heard, obs, htrace, fun frame hframe => hsent frame (hstream frame hframe), hfinished⟩

/-- The Pico goes on, and what it sends is what its trace shows. -/
theorem Conversed.goes (h : Conversed base finished requests stream w) {v : Receiver β} (hfw : v.fw = w.fw) {fw : Fw β}
    (hboundary : Boundary fw) (htrace : w.fw.rest.trace <:+ fw.rest.trace) {heard coming : List Request}
    (hrequests : requests = heard ++ coming) (hdown : v.down = coming.map (fun r => Pico.encode r.frame))
    (hheard : ∀ progress, (heard.map Request.frame).foldlM Progress.hear .arming = some progress →
      Hears base progress fw) :
    Conversed base finished requests (stream ++ (v.goes fw stage).2) (v.goes fw stage).1 := by
  obtain ⟨more, hmore⟩ := htrace
  obtain ⟨obs, hobs, hsent, hfinished⟩ := h.told
  rw [← hfw] at hmore hobs
  rw [Receiver.goes_of_trace hmore.symm]
  refine ⟨h.valid, hboundary, ⟨heard, coming, hrequests, hdown, hheard⟩, more ++ obs, ?_, fun frame hframe => ?_,
    fun hf => ?_⟩
  · rw [List.append_assoc, ← hobs]
    exact hmore.symm
  · rw [Pico.sent_append]
    rcases List.mem_append.1 hframe with hold | hnew
    · obtain ⟨msg, hmsg, rfl⟩ := hsent frame hold
      exact ⟨msg, List.mem_append_left _ hmsg, rfl⟩
    · obtain ⟨msg, hmsg, rfl⟩ := List.mem_map.1 hnew
      exact ⟨msg, List.mem_append_right _ hmsg, rfl⟩
  · rw [Pico.sent_append]
    exact List.mem_append_left _ (hfinished hf)

/-- The next request arrives as it was written. -/
theorem Conversed.receive (h : Conversed base finished requests stream w) :
    Conversed base finished requests (stream ++ (w.receive d).2) (w.receive d).1 := by
  obtain ⟨heard, coming, hrequests, hdown, hheard⟩ := h.heard
  cases coming with
  | nil =>
    rw [Receiver.receive_nil hdown, List.append_nil]
    exact h
  | cons r coming =>
    have hleads : Pico.Leads d .input w.fw (Pico.dispatchCommand d w.fw r.frame) :=
      Pico.dispatchCommand_leads h.boundary r.frame
    rw [Receiver.receive_cons hdown (decode_request (h.valid r (by simp [hrequests])))]
    have hheard' : requests = (heard ++ [r]) ++ coming := by simp [hrequests]
    refine h.goes (v := { w with down := coming.map _, overran := _ }) rfl hleads.2 hleads.trace hheard' rfl
      (fun progress hprogress => ?_)
    rw [List.map_append, List.foldlM_append] at hprogress
    obtain ⟨before, hbefore, hnext⟩ := Option.bind_eq_some_iff.1 hprogress
    rw [List.map_singleton, List.foldlM_cons] at hnext
    obtain ⟨next, hnext, hsame⟩ := Option.bind_eq_some_iff.1 hnext
    cases hsame
    exact dispatch_hears (hheard before hbefore) hnext

theorem steady_conversed : Steady d (Conversed base finished requests) := by
  intro stream w s h
  rcases Receiver.step_cases d w s with hs | ⟨fw, stage, hmoves, hs⟩ | ⟨-, hs⟩
  · rw [hs, List.append_nil]
    exact h
  · rw [hs]
    obtain ⟨heard, coming, hrequests, hdown, hheard⟩ := h.heard
    obtain ⟨⟨obs, htrace, -⟩, hboundary⟩ := hmoves.reserved h.boundary
    exact h.goes rfl hboundary ⟨obs, htrace.symm⟩ hrequests hdown (fun progress hp => hmoves.hears (hheard progress hp))
  · rw [hs]
    exact h.receive

theorem Conversed.write (h : Conversed base finished requests stream w) {r : Request} (hvalid : r.Valid) :
    Conversed base finished (requests ++ [r]) stream { w with down := w.down ++ [Pico.encode r.frame] } := by
  obtain ⟨heard, coming, hrequests, hdown, hheard⟩ := h.heard
  refine ⟨fun other hother => ?_, h.boundary, ⟨heard, coming ++ [r], by simp [hrequests], by simp [hdown], hheard⟩,
    h.told⟩
  rcases List.mem_append.1 hother with hold | hnew
  · exact h.valid other hold
  · rw [List.mem_singleton.1 hnew]
    exact hvalid

theorem lasting_conversed (base : List Obs) (finished : Prop) (patience : Nat) :
    PiZero.Playback.Lasting (cable d patience)
      (fun requests frames w => Conversed base finished requests (frames ++ w.up) w.pico) where
  carries _ := steady_conversed.carries patience
  take h := h.mono (fun frame hframe => by
    simp only [List.mem_append, List.mem_cons] at hframe ⊢
    tauto)
  write hvalid h := steady_conversed.write patience _ (fun _ _ h => h.write hvalid) h

/-- A PLAY_FINISHED that is handed over was sent. -/
theorem Conversed.finish (h : Conversed base False requests stream w) {frame : Frame} (hframe : frame ∈ stream)
    (htype : frame.type = MsgType.playFinished.byte) : Conversed base True requests stream w := by
  obtain ⟨obs, htrace, hsent, -⟩ := h.told
  refine ⟨h.valid, h.boundary, h.heard, obs, htrace, hsent, fun _ => ?_⟩
  obtain ⟨msg, hmsg, rfl⟩ := hsent frame hframe
  cases msg <;> first | exact hmsg | cases htype

/-- **What was heard of a whole run** decides what HID was given. -/
theorem Conversed.given (h : Conversed base finished requests stream w) {events : List (Int × List UInt8)}
    {prebufferUs : Int} {whole : List Request} (hwhole : WholeRun events prebufferUs whole)
    (hrequests : requests <+: whole) :
    ∃ obs, w.fw.rest.trace = obs ++ base ∧ replayed obs <+: (events.map Prod.snd).map Report.ofBytes ∧
      (finished → replayed obs = (events.map Prod.snd).map Report.ofBytes) := by
  obtain ⟨heard, coming, hsplit, -, hheard⟩ := h.heard
  obtain ⟨rest, rfl⟩ : heard <+: whole := (hsplit ▸ List.prefix_append heard coming).trans hrequests
  have hall := wholeRun_heard hwhole
  rw [List.map_append, List.foldlM_append] at hall
  obtain ⟨progress, hprogress, hrest⟩ := Option.bind_eq_some_iff.1 hall
  obtain ⟨obs, htrace, hprefix, hcomplete⟩ := (hheard progress hprogress).replayed
  have hevents : reports progress.events <+: (events.map Prod.snd).map Report.ofBytes := by
    rw [← reports_queued]
    exact (Progress.heard_grows hrest).map _
  refine ⟨obs, htrace, hprefix.trans hevents, fun hf => ?_⟩
  obtain ⟨obs', htrace', -, hfinished⟩ := h.told
  obtain rfl : obs' = obs := List.append_cancel_right (htrace'.symm.trans htrace)
  obtain ⟨hended, hgiven⟩ := hcomplete (hfinished hf)
  obtain rfl := Progress.complete_stays hended hrest
  rw [hgiven, ← reports_queued]
  rfl

end Ends

/-- **A recording is played through.**  From any reachable state of the firmware but PLAYING, with nothing on the cable
and no frame put aside, however the session and the main loop interleave, whatever the keyboard, the endpoint and the
Pico's transmitter do and however long the frames take: if `play` returns, HID was given the recording's reports, all of
them, once and in order; if it raises, or is still waiting, a beginning of them. -/
theorem play_delivers {β : Type} (d : Board β) (board : β) (inputs : List LoopInput) (script : List Moment)
    (patience : Nat) {recording : Recording} {speed : Option ℚ} {prebufferUs modeTimeout : Int}
    {playbackTimeout : Option Int} {p : PiZero.Playback}
    (hp : PiZero.Playback.ofRecording recording speed prebufferUs modeTimeout playbackTimeout = .ok p)
    (hidle : (Pico.run d board inputs).rest.mode ≠ .playing) :
    let given (kind : List Report → Prop) (t : PiZero.Heap PiZero.Playback (Rig β)) : Prop :=
      ∃ obs, t.link.pico.fw.rest.trace = obs ++ (Pico.run d board inputs).rest.trace ∧ kind (replayed obs)
    let recorded := recording.events.map (fun event => Report.ofBytes event.report)
    Lib.wp (PiZero.Playback.play (cable d patience) true) (fun _ t => given (· = recorded) t)
      (fun _ t => given (· <+: recorded) t) ⟨[], p, Rig.opening d board inputs script, []⟩ := by
  intro given recorded
  obtain ⟨hexpand, rfl, hnext⟩ := PiZero.Playback.ofRecording_ok hp
  have hrecorded : (p.events.map Prod.snd).map Report.ofBytes = recorded := by
    rw [PiZero.expandOffsets_reports hexpand, List.map_map]
    rfl
  have hboundary : Boundary (Pico.run d board inputs) :=
    (Pico.run_invariant Pico.boot_joint Pico.joint_step board inputs).1
  have hopening : Conversed (Pico.run d board inputs).rest.trace False [] []
      (Rig.opening d board inputs script).pico := by
    refine ⟨nofun, hboundary, ⟨[], [], rfl, rfl, fun progress hprogress => ?_⟩, [], rfl, nofun, False.elim⟩
    cases hprogress
    exact hears_idle hboundary hidle
  have hlasts := PiZero.Playback.play_lasts
    (lasting_conversed (d := d) (Pico.run d board inputs).rest.trace False patience) (lasting_conversed _ True patience)
    (fun htype h => (h.finish (by simp) htype).mono (by simp; tauto)) true
    ⟨[], p, Rig.opening d board inputs script, []⟩ hopening
  refine Lib.wp_mono (Lib.wp_and (PiZero.Playback.play_sent (L := cable d patience) _ hnext) hlasts) (fun _ t ht => ?_)
    (fun _ t ht => ?_)
  · obtain ⟨⟨whole, hwhole, hsent⟩, hconversed⟩ := ht
    have hrequests : t.requests = whole := hsent.requests
    obtain ⟨obs, htrace, -, hall⟩ := hconversed.given hwhole (hrequests ▸ List.prefix_refl _)
    exact ⟨obs, htrace, (hall trivial).trans hrecorded⟩
  · obtain ⟨⟨whole, hwhole, sent, n, next, hprefix, hsent⟩, hheld⟩ := ht
    have hrequests : t.requests = sent := hsent.requests
    rw [← hrequests] at hprefix
    have hgiven : ∀ {finished frames}, Conversed (Pico.run d board inputs).rest.trace finished t.requests frames
        t.link.pico → given (· <+: recorded) t := fun h => by
      obtain ⟨obs, htrace, hbeginning, -⟩ := h.given hwhole hprefix
      exact ⟨obs, htrace, hrecorded ▸ hbeginning⟩
    exact hheld.elim (fun ⟨_, h⟩ => hgiven h) (fun ⟨_, h⟩ => hgiven h)

/-- A key that goes down and comes up at once. -/
def benchPress : Recording where
  name := "press"
  durationUs := 0
  events := [⟨0, [0, 0, 4, 0, 0, 0, 0, 0]⟩, ⟨0, [0, 0, 0, 0, 0, 0, 0, 0]⟩]

def benchPressed : PiZero.Playback :=
  .create [(0, [0, 0, 4, 0, 0, 0, 0, 0]), (0, [0, 0, 0, 0, 0, 0, 0, 0])] 500000 2000000 none

theorem benchPressed_of : PiZero.Playback.ofRecording benchPress (some 1) 500000 2000000 none = .ok benchPressed := by
  have hsum : (benchPress.events.map RecordingEvent.dtUs).sum < 2 ^ 53 := by simp [benchPress]
  rw [PiZero.Playback.ofRecording, PiZero.expandOffsets_one hsum]
  simp [benchPress, benchPressed, PiZero.offsetsFrom, Bind.bind, Except.bind]

/-- The Pico goes round its loop once whenever the Zero looks. -/
def benchScript : List Moment :=
  List.replicate 60 ⟨[.poll [], .command, .command, .task, .flowControl, .watchdog], 0, false, 100⟩

theorem play_delivers_press : ∃ result t,
    PiZero.Playback.play (cable Pico.benchBoard 100) true
      ⟨[], benchPressed, Rig.opening Pico.benchBoard true [] benchScript, []⟩ = .ok result t ∧
    ∃ obs, t.link.pico.fw.rest.trace = obs ++ [] ∧
      replayed obs = [Report.ofBytes [0, 0, 4, 0, 0, 0, 0, 0], Report.ofBytes [0, 0, 0, 0, 0, 0, 0, 0]] := by
  have hreturns : PiZero.Playback.Returns (PiZero.Playback.play (cable Pico.benchBoard 100) true)
      ⟨[], benchPressed, Rig.opening Pico.benchBoard true [] benchScript, []⟩ = true := by decide +kernel
  have hp := benchPressed_of
  generalize benchPressed = p at hreturns hp ⊢
  generalize benchScript = script at hreturns ⊢
  obtain ⟨result, t, hplay⟩ := PiZero.Playback.ok_of_returns hreturns
  have hdelivers := Lib.wp_of_ok hplay (play_delivers Pico.benchBoard true [] script 100 hp (by decide))
  exact ⟨result, t, hplay, hdelivers⟩

end Link
end PicoRecorder
