import PicoRecorder.Link.Commands
import PicoRecorder.Link.Telemetry
import PicoRecorder.PiZero.Recordings
import PicoRecorder.Pico.Firmware
/-!
# Timing — from the captured timestamps to the deadlines of a playback at normal speed

`replay` is the way of a recording through the Zero: RECORD_EVENTs into the builder, the builder's recording into its
JSON text and back, offsets at speed 1.0, QUEUE_EVENTs.  `timing_exact` follows it into the Pico's parser and scheduler.
-/
namespace PicoRecorder
namespace Link

open Pico
open PiZero (Checked Recording RecordingBuilder RecordingEvent Request)

/-- `validate_record_event` and `add`, for one frame after the other. -/
def addFrames (builder : RecordingBuilder) : List Frame → Checked RecordingBuilder
  | [] => .ok builder
  | frame :: frames => do
    let event ← PiZero.validateRecordEvent frame
    let builder ← builder.add event.1 event.2
    addFrames builder frames

/-- The QUEUE_EVENTs of a playback. -/
def encodeAll : List (Int × List UInt8) → Checked (List UInt8)
  | [] => .ok []
  | event :: events => do
    let bytes ← PiZero.encodeQueueEvent event.1 event.2
    let rest ← encodeAll events
    .ok (bytes ++ rest)

/-- `save` and `load` under the recording's own name. -/
def reload (repr : Lib.Json → String) (recording : Recording) : Checked Recording :=
  match Lib.Json.loads recording.text with
  | none => .error (.raised .storage s!"invalid recording file {recording.name}.json")
  | some value => PiZero.parseRecording repr value (some recording.name)

/-- The queue bytes of a playback at speed 1.0. -/
def play (recording : Recording) : Checked (List UInt8) := do
  let offsets ← PiZero.expandOffsets recording.events (some 1)
  encodeAll offsets

/-- Record under a name, save, load, play. -/
def replay (repr : Lib.Json → String) (name : String) (frames : List Frame) : Checked (List UInt8) := do
  let name ← PiZero.validateName (.str name)
  let builder ← addFrames (RecordingBuilder.create name) frames
  let recording ← reload repr builder.build
  play recording

/-- What `dispatch_queue_command` pushes for a QUEUE_EVENT (`queueEvent`). -/
def queuedEvent (frame : Frame) : PlaybackEvent :=
  ⟨UInt64.ofNat (leNat (frame.payload.take 8)), Report.ofBytes ((frame.payload.drop 9).take 8)⟩

/-- A captured report and its time stamp. -/
structure Stamped where
  timestampUs : UInt64
  report : Report

def Stamped.frame (e : Stamped) : Frame := (PicoMsg.recordEvent e.timestampUs e.report).toFrame

/-! ## Recording -/

/-- The events the builder makes of time stamps after `last`. -/
def deltas (last : UInt64) : List Stamped → List RecordingEvent
  | [] => []
  | e :: es => ⟨e.timestampUs.toNat - last.toNat, e.report.toList⟩ :: deltas e.timestampUs es

/-- The last time stamp. -/
def lastStamp (last : UInt64) : List Stamped → UInt64
  | [] => last
  | e :: es => lastStamp e.timestampUs es

/-- The time stamps from `last` on do not go backwards. -/
def Ordered (last : UInt64) : List Stamped → Prop
  | [] => True
  | e :: es => last.toNat ≤ e.timestampUs.toNat ∧ Ordered e.timestampUs es

theorem le_lastStamp : ∀ {es : List Stamped} {last : UInt64}, Ordered last es → last.toNat ≤ (lastStamp last es).toNat
  | [], _, _ => Nat.le_refl _
  | _ :: _, _, h => h.1.trans (le_lastStamp h.2)

theorem sum_deltas : ∀ (es : List Stamped) (last : UInt64), Ordered last es →
    ((deltas last es).map RecordingEvent.dtUs).sum = (lastStamp last es).toNat - last.toNat
  | [], last, _ => by simp [deltas, lastStamp]
  | e :: es, last, h => by
    have hle := le_lastStamp h.2
    have hord := h.1
    rw [deltas, List.map_cons, List.sum_cons, sum_deltas es e.timestampUs h.2, lastStamp]
    dsimp only
    omega

theorem add_later {b : RecordingBuilder} {last t : Nat} (hlast : b.lastTimestamp = some last) (h : last ≤ t)
    (report : List UInt8) :
    b.add t report = .ok { b with lastTimestamp := some t, events := b.events ++ [⟨t - last, report⟩] } := by
  unfold RecordingBuilder.add
  rw [hlast]
  exact if_neg (by omega)

theorem addFrames_later : ∀ (es : List Stamped) {b : RecordingBuilder} {last : UInt64},
    b.lastTimestamp = some last.toNat → Ordered last es →
      addFrames b (es.map Stamped.frame) =
        .ok { b with lastTimestamp := some (lastStamp last es).toNat, events := b.events ++ deltas last es }
  | [], b, last, hlast, _ => by
    rw [List.map_nil, addFrames, deltas, lastStamp, List.append_nil, ← hlast]
  | e :: es, b, last, hlast, h => by
    have hread : PiZero.validateRecordEvent e.frame = .ok (e.timestampUs.toNat, e.report.toList) :=
      read_recordEvent e.timestampUs e.report
    have hrest := addFrames_later es (b := { b with
      lastTimestamp := some e.timestampUs.toNat
      events := b.events ++ [⟨e.timestampUs.toNat - last.toNat, e.report.toList⟩] }) rfl h.2
    rw [List.map_cons, addFrames, hread]
    change (b.add e.timestampUs.toNat e.report.toList).bind _ = _
    rw [add_later hlast h.1]
    refine hrest.trans ?_
    rw [List.append_assoc]
    rfl

/-- The recording of a session that captured `first` and then `es`. -/
def recorded (name : String) (first : Stamped) (es : List Stamped) : Recording where
  name := name
  durationUs := (lastStamp first.timestampUs es).toNat - first.timestampUs.toNat
  events := ⟨0, first.report.toList⟩ :: deltas first.timestampUs es

theorem addFrames_recorded (name : String) (first : Stamped) {es : List Stamped} (h : Ordered first.timestampUs es) :
    addFrames (RecordingBuilder.create name) ((first :: es).map Stamped.frame) =
      .ok ⟨name, some first.timestampUs.toNat, some (lastStamp first.timestampUs es).toNat,
        (recorded name first es).events⟩ := by
  have hread : PiZero.validateRecordEvent first.frame = .ok (first.timestampUs.toNat, first.report.toList) :=
    read_recordEvent first.timestampUs first.report
  have hrest := addFrames_later es (b := ⟨name, some first.timestampUs.toNat, some first.timestampUs.toNat,
    [⟨0, first.report.toList⟩]⟩) rfl h
  rw [List.map_cons, addFrames, hread]
  exact hrest

theorem length_report : ∀ (es : List Stamped) (last : UInt64), ∀ event ∈ deltas last es, event.report.length = 8
  | [], _, _, h => by cases h
  | e :: es, _, event, h => by
    rcases List.mem_cons.1 h with rfl | h
    · exact e.report.size_toArray
    · exact length_report es _ event h

theorem recorded_valid {name : String} (hname : PiZero.matchesName name = true) {first : Stamped} {es : List Stamped}
    (h : Ordered first.timestampUs es) : (recorded name first es).Valid where
  name := hname
  first event he := by
    obtain rfl : (⟨0, first.report.toList⟩ : RecordingEvent) = event := Option.some.inj he
    rfl
  duration := by
    have hsum := sum_deltas es first.timestampUs h
    simp [recorded, hsum]
  fits := by
    have hlt := (lastStamp first.timestampUs es).toNat_lt
    unfold recorded PiZero.maxU64
    dsimp only
    omega
  reports event he := by
    rcases List.mem_cons.1 he with rfl | he
    · exact first.report.size_toArray
    · exact length_report es _ event he

/-! ## Playing -/

/-- The offset of an event: its distance from the first one. -/
def Stamped.offset (first e : Stamped) : Nat := e.timestampUs.toNat - first.timestampUs.toNat

theorem offsetsFrom_deltas (first : Stamped) : ∀ (es : List Stamped) {last : UInt64},
    first.timestampUs.toNat ≤ last.toNat → Ordered last es →
      PiZero.offsetsFrom (last.toNat - first.timestampUs.toNat) (deltas last es) =
        es.map (fun e => ((first.offset e : Int), e.report.toList))
  | [], _, _, _ => rfl
  | e :: es, last, hfirst, h => by
    have hsum : last.toNat - first.timestampUs.toNat + (e.timestampUs.toNat - last.toNat) = first.offset e := by
      have := h.1
      unfold Stamped.offset
      omega
    rw [deltas, PiZero.offsetsFrom]
    dsimp only
    rw [hsum, Stamped.offset, offsetsFrom_deltas first es (hfirst.trans h.1) h.2]
    rfl

theorem offsets_recorded (name : String) (first : Stamped) {es : List Stamped} (h : Ordered first.timestampUs es) :
    PiZero.offsetsFrom 0 (recorded name first es).events =
      (first :: es).map (fun e => ((first.offset e : Int), e.report.toList)) := by
  have hrest := offsetsFrom_deltas first es (Nat.le_refl _) h
  rw [Nat.sub_self] at hrest
  have hzero : first.offset first = 0 := Nat.sub_self _
  rw [List.map_cons, hzero, ← hrest]
  rfl

/-- The QUEUE_EVENT of an event. -/
def Stamped.queueEvent (first e : Stamped) : Frame := (Request.queueEvent (first.offset e) e.report.toList).frame

theorem queueEvent_valid (first e : Stamped) : (Request.queueEvent (first.offset e) e.report.toList).Valid := by
  have hlt := e.timestampUs.toNat_lt
  refine ⟨Int.natCast_nonneg _, ?_, e.report.size_toArray⟩
  unfold Stamped.offset
  omega

theorem encodeAll_offsets (first : Stamped) : ∀ es : List Stamped,
    encodeAll (es.map (fun e => ((first.offset e : Int), e.report.toList))) =
      .ok (es.flatMap (fun e => encode (first.queueEvent e)))
  | [] => rfl
  | e :: es => by
    have hbuild : PiZero.encodeQueueEvent (first.offset e) e.report.toList = .ok (encode (first.queueEvent e)) :=
      Request.build_of_valid (queueEvent_valid first e)
    rw [List.map_cons, encodeAll, hbuild, encodeAll_offsets first es]
    rfl

/-- **The Pico reads back what the Zero meant**: the offset and the report. -/
theorem queuedEvent_frame {offsetUs : Int} {report : List UInt8} (h : (Request.queueEvent offsetUs report).Valid) :
    queuedEvent (Request.queueEvent offsetUs report).frame =
      ⟨UInt64.ofNat offsetUs.toNat, Report.ofBytes report⟩ := by
  obtain ⟨hnonneg, hmax, hlength⟩ := h
  have hpayload : (Request.queueEvent offsetUs report).frame.payload = leBytes 8 offsetUs.toNat ++ ([8] ++ report) :=
    List.append_assoc _ _ _
  have hlt : offsetUs.toNat < 256 ^ 8 := by omega
  have hreport : ((Request.queueEvent offsetUs report).frame.payload.drop 9).take 8 = report := by
    rw [hpayload, show 9 = 8 + 1 from rfl, ← List.drop_drop, drop_field]
    exact List.take_of_length_le (Nat.le_of_eq hlength)
  unfold queuedEvent
  rw [hreport, hpayload, leNat_field 8 _ _ hlt]

theorem queuedEvent_queueEvent (first e : Stamped) :
    queuedEvent (first.queueEvent e) = ⟨UInt64.ofNat (first.offset e), e.report⟩ := by
  have hreport : Report.ofBytes e.report.toList = e.report := by
    unfold Report.ofBytes
    refine Vector.ext (fun i hi => ?_)
    simp [List.getD_eq_getElem?_getD]
  rw [Stamped.queueEvent, queuedEvent_frame (queueEvent_valid first e), hreport, Int.toNat_natCast]

theorem reload_valid (repr : Lib.Json → String) {recording : Recording} (h : recording.Valid) :
    reload repr recording = .ok recording := by
  rw [reload, Recording.loads_text]
  exact PiZero.parseRecording_toDict repr h

theorem play_recorded (name : String) (first : Stamped) {es : List Stamped} (h : Ordered first.timestampUs es)
    (hlast : (lastStamp first.timestampUs es).toNat < 2 ^ 53) :
    play (recorded name first es) = .ok ((first :: es).flatMap (fun e => encode (first.queueEvent e))) := by
  have hsum : ((recorded name first es).events.map RecordingEvent.dtUs).sum < 2 ^ 53 := by
    have hdeltas := sum_deltas es first.timestampUs h
    rw [recorded, List.map_cons, List.sum_cons, hdeltas]
    dsimp only
    omega
  rw [play, PiZero.expandOffsets_one hsum, offsets_recorded name first h]
  exact encodeAll_offsets first (first :: es)

/-- What `replay` puts on the wire is the QUEUE_EVENTs, in order. -/
theorem replay_bytes (repr : Lib.Json → String) {name : String} (hname : PiZero.matchesName name = true)
    (first : Stamped) {es : List Stamped} (h : Ordered first.timestampUs es)
    (hlast : (lastStamp first.timestampUs es).toNat < 2 ^ 53) :
    replay repr name ((first :: es).map Stamped.frame) =
      .ok ((first :: es).flatMap (fun e => encode (first.queueEvent e))) := by
  have hcheck : PiZero.validateName (.str name) = .ok name := if_pos hname
  have hbuild : (⟨name, some first.timestampUs.toNat, some (lastStamp first.timestampUs es).toNat,
      (recorded name first es).events⟩ : RecordingBuilder).build = recorded name first es := rfl
  simp only [replay, hcheck, addFrames_recorded name first h, bind, Except.bind]
  rw [hbuild, reload_valid repr (recorded_valid hname h)]
  exact play_recorded name first h hlast

theorem cancelArmed_playbackStartUs {ρ : Type} (h : Host ρ) (m : Machine ρ) :
    (cancelArmed h m).sched.playbackStartUs = m.sched.playbackStartUs := by
  unfold cancelArmed
  dsimp only
  split <;> rfl

theorem armIfFuture_nextDeadlineUs {ρ : Type} (h : Host ρ) (m : Machine ρ) :
    (armIfFuture h m).sched.nextDeadlineUs = m.sched.nextDeadlineUs := by
  unfold armIfFuture armAlarm
  dsimp only
  split
  · split <;> rfl
  · rfl

/-- `arm_next` plans the head of the queue for the epoch plus its offset. -/
theorem armNext_nextDeadlineUs {ρ : Type} (h : Host ρ) {m : Machine ρ} {event : PlaybackEvent}
    (he : m.queue.peek = some event) :
    (armNext h m).2.sched.nextDeadlineUs = m.sched.playbackStartUs + event.offsetUs := by
  rw [armNext_head he]
  dsimp only
  rw [armIfFuture_nextDeadlineUs, ← cancelArmed_playbackStartUs h m]
  rfl

theorem ordered_of_sorted : ∀ {es : List Stamped} {first : Stamped},
    (first :: es).Pairwise (fun a b => a.timestampUs ≤ b.timestampUs) → Ordered first.timestampUs es
  | [], _, _ => trivial
  | e :: es, first, h => by
    rw [List.pairwise_cons] at h
    exact ⟨UInt64.le_iff_toNat_le.1 (h.1 e List.mem_cons_self), ordered_of_sorted h.2⟩

theorem lastStamp_mem : ∀ (es : List Stamped) (first : Stamped),
    ∃ e ∈ first :: es, lastStamp first.timestampUs es = e.timestampUs
  | [], first => ⟨first, List.mem_cons_self, rfl⟩
  | e :: es, first => by
    obtain ⟨e', hm, he⟩ := lastStamp_mem es e
    exact ⟨e', List.mem_cons_of_mem first hm, he⟩

/-- **A recording played at normal speed is planned as it was captured.**  Whatever the interrupts and polls of the
transport, its commands are the events in order, with their reports and their distances from the first one; and where
one of them is the head, `arm_next` plans it for the epoch plus that distance. -/
theorem timing_exact (repr : Lib.Json → String) (name : String) (hname : PiZero.matchesName name = true)
    (first : Stamped) (es : List Stamped) (hsorted : (first :: es).Pairwise (fun a b => a.timestampUs ≤ b.timestampUs))
    (hbound : ∀ e ∈ first :: es, e.timestampUs.toNat < 2 ^ 53) :
    ∃ bytes, replay repr name ((first :: es).map Stamped.frame) = .ok bytes ∧
      (∀ ops, UartRun.start.NoOverflow ops → rxBytes ops = bytes → (UartRun.start.run ops).uart.rx.toList = [] →
        (UartRun.start.run ops).uart.faultPending = false ∧
        ((UartRun.start.run ops).popped ++ (UartRun.start.run ops).uart.commands.toList).map queuedEvent =
          (first :: es).map (fun e => ⟨e.timestampUs - first.timestampUs, e.report⟩)) ∧
      ∀ e ∈ first :: es, ∀ (ρ : Type) (h : Host ρ) (m : Machine ρ),
        m.queue.peek = some ⟨e.timestampUs - first.timestampUs, e.report⟩ →
        m.sched.playbackStartUs.toNat + (e.timestampUs.toNat - first.timestampUs.toNat) < 2 ^ 64 →
          (armNext h m).2.sched.nextDeadlineUs.toNat =
            m.sched.playbackStartUs.toNat + (e.timestampUs.toNat - first.timestampUs.toNat) := by
  have hord := ordered_of_sorted hsorted
  have hlast : (lastStamp first.timestampUs es).toNat < 2 ^ 53 := by
    obtain ⟨e, hm, he⟩ := lastStamp_mem es first
    rw [he]
    exact hbound e hm
  have hle : ∀ e ∈ first :: es, first.timestampUs ≤ e.timestampUs := fun e he => by
    rcases List.mem_cons.1 he with rfl | he
    · exact UInt64.le_refl _
    · exact (List.pairwise_cons.1 hsorted).1 e he
  have hoffset : ∀ e ∈ first :: es, UInt64.ofNat (first.offset e) = e.timestampUs - first.timestampUs := fun e he => by
    rw [← UInt64.toNat_inj, UInt64.toNat_sub_of_le _ _ (hle e he), UInt64.toNat_ofNat_of_lt']
    · rfl
    · have := e.timestampUs.toNat_lt
      unfold Stamped.offset UInt64.size
      omega
  refine ⟨_, replay_bytes repr hname first hord hlast, fun ops hover hstream hrx => ?_, fun e he ρ h m hp hsum => ?_⟩
  · obtain ⟨polled, hsplit, hiff⟩ := (commands_spelled hover).1
    rw [hrx, List.append_nil, hstream] at hsplit
    have hspelled : Spells ((first :: es).map first.queueEvent) Legal polled := by
      refine ⟨[], by rw [← hsplit, List.flatMap_map, List.append_nil], fun c hc => ?_, legal_nil⟩
      obtain ⟨e, -, rfl⟩ := List.mem_map.1 hc
      exact Request.frame_wellFormed (queueEvent_valid first e)
    obtain ⟨hfault, hcommands⟩ := (hiff _).2 hspelled
    refine ⟨hfault, ?_⟩
    rw [hcommands, List.map_map]
    refine List.map_congr_left (fun e he => ?_)
    rw [Function.comp_apply, queuedEvent_queueEvent, hoffset e he]
  · rw [armNext_nextDeadlineUs h hp, UInt64.toNat_add, UInt64.toNat_sub_of_le _ _ (hle e he), Nat.mod_eq_of_lt hsum]

/-- Two reports a quarter of a millisecond apart. -/
theorem timing_exact_two : ∃ bytes,
    replay (fun _ => "") "take-1" [Stamped.frame ⟨1000, Report.releaseAll⟩, Stamped.frame ⟨1250, Report.releaseAll⟩] =
        .ok bytes ∧
      ∀ ops, UartRun.start.NoOverflow ops → rxBytes ops = bytes → (UartRun.start.run ops).uart.rx.toList = [] →
        ((UartRun.start.run ops).popped ++ (UartRun.start.run ops).uart.commands.toList).map queuedEvent =
          [⟨0, Report.releaseAll⟩, ⟨250, Report.releaseAll⟩] := by
  obtain ⟨bytes, hreplay, hevents, -⟩ := timing_exact (fun _ => "") "take-1" (by decide +kernel)
    ⟨1000, Report.releaseAll⟩ [⟨1250, Report.releaseAll⟩] (by simp) (by simp)
  exact ⟨bytes, hreplay, fun ops hover hstream hrx => (hevents ops hover hstream hrx).2⟩

end Link
end PicoRecorder
