import PicoRecorder.Link.Timing
import PicoRecorder.Pico.Statistics
/-!
# Offsets — from `expand_offsets` to the deadline on the Pico

The bound of 64 bits is checked for the offset alone, on Zero; the epoch is added on the Pico.  `Kept` says what becomes
of one QUEUE_EVENT under one epoch: in any use of the scheduler, on any clock.
-/
namespace PicoRecorder
namespace Link

open Pico
open PiZero (Recording RecordingEvent Request)

/-- The queue takes the event of a QUEUE_EVENT, as long as it has room. -/
def Admitted (frame : Frame) : Prop :=
  WellFormed frame ∧ ∀ q : PlaybackQueue, PlaybackQueue.freeCapacity q ≠ 0 →
    ∃ q', PlaybackQueue.push q (queuedEvent frame).offsetUs ((frame.payload.drop 9).take 8) = some q' ∧
      q'.toList = q.toList ++ [queuedEvent frame]

/-- The deadline of an event is the epoch plus its offset, over the integers, and it is not dispatched before. -/
structure Kept (frame : Frame) (offsetUs : Int) (playbackStartUs : UInt64) : Prop where
  planned : ∀ (ρ : Type) (h : Host ρ) (m : Machine ρ), m.queue.peek = some (queuedEvent frame) →
    m.sched.playbackStartUs = playbackStartUs →
      ((armNext h m).2.sched.nextDeadlineUs.toNat : Int) = playbackStartUs.toNat + offsetUs
  dispatched : ∀ (ε : Type) (S : Surroundings ε) (now : ε → UInt64) (pending : ε → Int → UInt64 → Prop),
    Clockwork S now pending → ∀ env, (∀ id target, ¬pending env id target) → ∀ acts,
      ∀ x ∈ (account (drive S now env acts).rest.marks).dispatches,
        x.playbackStartUs = playbackStartUs → x.offsetUs = (queuedEvent frame).offsetUs →
          playbackStartUs.toNat + offsetUs ≤ (x.timeUs.toNat : Int)

section Event

variable {offsetUs : Int} {report : List UInt8}

theorem queueEvent_admitted (h : (Request.queueEvent offsetUs report).Valid) :
    Admitted (Request.queueEvent offsetUs report).frame := by
  refine ⟨Request.frame_wellFormed h, fun q hroom => ?_⟩
  have hreport : ((Request.queueEvent offsetUs report).frame.payload.drop 9).take 8 = report := by
    have hlength : (leBytes 8 offsetUs.toNat ++ [8]).length = 9 := by simp [length_leBytes]
    change ((leBytes 8 offsetUs.toNat ++ [8] ++ report).drop 9).take 8 = report
    rw [← hlength, List.drop_left]
    exact List.take_of_length_le (Nat.le_of_eq h.2.2)
  have hlt : q.toList.length < playbackQueueCapacity := by
    rw [PlaybackQueue.freeCapacity_eq] at hroom
    omega
  obtain ⟨q', hpush⟩ := Lib.Ring.push_isSome q (queuedEvent (Request.queueEvent offsetUs report).frame) hlt
  have hpushed : PlaybackQueue.push q (queuedEvent (Request.queueEvent offsetUs report).frame).offsetUs
      (((Request.queueEvent offsetUs report).frame.payload.drop 9).take 8) = some q' := by
    rw [hreport]
    unfold PlaybackQueue.push
    rw [if_neg (by simp [h.2.2, hidBootKeyboardReportLen])]
    rw [queuedEvent_frame h] at hpush ⊢
    exact hpush
  refine ⟨q', hpushed, (PlaybackQueue.toList_push hpushed).trans ?_⟩
  rfl

/-- The offset the Pico reads is the one the Zero wrote. -/
theorem queuedEvent_offset (h : (Request.queueEvent offsetUs report).Valid) :
    ((queuedEvent (Request.queueEvent offsetUs report).frame).offsetUs.toNat : Int) = offsetUs := by
  obtain ⟨hnonneg, hmax, -⟩ := id h
  rw [queuedEvent_frame h, UInt64.toNat_ofNat_of_lt' (by unfold UInt64.size; omega)]
  exact Int.toNat_of_nonneg hnonneg

/-- **A sum in range is kept.** -/
theorem queueEvent_kept (h : (Request.queueEvent offsetUs report).Valid) {playbackStartUs : UInt64}
    (hsum : playbackStartUs.toNat + offsetUs < 2 ^ 64) :
    Kept (Request.queueEvent offsetUs report).frame offsetUs playbackStartUs := by
  have hoffset := queuedEvent_offset h
  refine ⟨fun ρ host m hpeek hepoch => ?_, fun ε S now pending C env hidle acts x hx hepoch hat => ?_⟩
  · rw [armNext_nextDeadlineUs host hpeek, hepoch, UInt64.toNat_add, Nat.mod_eq_of_lt (by omega), Int.natCast_add,
      hoffset]
  · have hin := (punctual_account (drive_onTime C env hidle acts).told).2.2.2 x hx
    rw [hepoch, hat] at hin
    have hle := hin (by omega)
    omega

/-- A scheduler with one event at its head. -/
def planning (playbackStartUs : UInt64) (queue : PlaybackQueue) : Machine (Tape (UInt64 × Option UInt64)) :=
  ⟨{ Scheduler.init with playbackStartUs := playbackStartUs }, queue, ⟨(0, none), []⟩⟩

/-- **A kept sum is in range**: a 64-bit deadline is no larger number. -/
theorem sum_of_kept (h : (Request.queueEvent offsetUs report).Valid) {playbackStartUs : UInt64}
    (hkept : Kept (Request.queueEvent offsetUs report).frame offsetUs playbackStartUs) :
    playbackStartUs.toNat + offsetUs < 2 ^ 64 := by
  obtain ⟨queue, -, hqueue⟩ := (queueEvent_admitted h).2 PlaybackQueue.init (by decide)
  have hpeek : (planning playbackStartUs queue).queue.peek =
      some (queuedEvent (Request.queueEvent offsetUs report).frame) := by
    rw [Lib.Ring.peek_eq]
    change queue.toList.head? = _
    rw [hqueue]
    rfl
  have hplanned := hkept.planned _ ((benchPool 0).taped Prod.fst) _ hpeek rfl
  rw [← hplanned]
  exact_mod_cast UInt64.toNat_lt _

end Event

/-- **A deadline is exact if and only if the sum of the epoch and the offset is a 64-bit time**, for every offset that
the Zero computes from a recording it accepts. -/
theorem deadline_exact (repr : Lib.Json → String) {value : Lib.Json} {expectedName : Option String}
    {recording : Recording} (hparse : PiZero.parseRecording repr value expectedName = .ok recording) {speed : Option ℚ}
    {expanded : List (Int × List UInt8)} (hexpand : PiZero.expandOffsets recording.events speed = .ok expanded) :
    ∀ entry ∈ expanded, ∃ frame, PiZero.encodeQueueEvent entry.1 entry.2 = .ok (encode frame) ∧ Admitted frame ∧
      ∀ playbackStartUs : UInt64,
        Kept frame entry.1 playbackStartUs ↔ (playbackStartUs.toNat : Int) + entry.1 < 2 ^ 64 := by
  intro entry hmem
  obtain ⟨⟨hnonneg, hmax⟩, event, hevent, hreport⟩ := PiZero.expandOffsets_entry hexpand entry hmem
  have hvalid : (Request.queueEvent entry.1 entry.2).Valid := by
    refine ⟨hnonneg, hmax, ?_⟩
    rw [← hreport]
    exact (PiZero.parseRecording_valid hparse).reports event hevent
  exact ⟨_, Request.build_of_valid hvalid, queueEvent_admitted hvalid,
    fun playbackStartUs => ⟨sum_of_kept hvalid, queueEvent_kept hvalid⟩⟩

/-- A key that goes down at once and comes up at the last instant a double gives. -/
def benchLast : Recording where
  name := "take"
  durationUs := 0xFFFFFFFFFFFFF800
  events := [⟨0, [0, 0, 4, 0, 0, 0, 0, 0]⟩, ⟨0xFFFFFFFFFFFFF800, [0, 0, 0, 0, 0, 0, 0, 0]⟩]

theorem benchLast_valid : benchLast.Valid := ⟨by decide +kernel, by decide, by decide, by decide, by decide⟩

theorem benchLast_offsets : PiZero.expandOffsets benchLast.events (some 1) =
    .ok [(0, [0, 0, 4, 0, 0, 0, 0, 0]), (0xFFFFFFFFFFFFF800, [0, 0, 0, 0, 0, 0, 0, 0])] := by
  have heval : (PiZero.expandOffsets benchLast.events (some 1)).toOption =
      some [(0, [0, 0, 4, 0, 0, 0, 0, 0]), (0xFFFFFFFFFFFFF800, [0, 0, 0, 0, 0, 0, 0, 0])] := by decide +kernel
  cases hexpand : PiZero.expandOffsets benchLast.events (some 1) with
  | error e =>
    rw [hexpand] at heval
    cases heval
  | ok expanded =>
    rw [hexpand] at heval
    exact congrArg _ (Option.some.inj heval)

/-- **The last event of a recording that was accepted is dispatched 2⁶⁴ microseconds early.** -/
theorem deadline_wraps :
    ¬ ∀ (value : Lib.Json) (name : String) (recording : Recording) (speed : Option ℚ)
    (expanded : List (Int × List UInt8)),
      PiZero.parseRecording (fun _ => "") value (some name) = .ok recording →
      PiZero.expandOffsets recording.events speed = .ok expanded →
      ∀ entry ∈ expanded, ∀ playbackStartUs,
        Kept (Request.queueEvent entry.1 entry.2).frame entry.1 playbackStartUs := by
  intro h
  have hkept := h benchLast.toDict benchLast.name benchLast (some 1) _
    (PiZero.parseRecording_toDict _ benchLast_valid) benchLast_offsets
    (0xFFFFFFFFFFFFF800, [0, 0, 0, 0, 0, 0, 0, 0]) (by decide) 5000
  have hearly := hkept.dispatched _ _ _ _ (benchPool_clockwork 10) (5000, none) (by simp)
    [.push 0 [0, 0, 4, 0, 0, 0, 0, 0], .push 0xFFFFFFFFFFFFF800 [0, 0, 0, 0, 0, 0, 0, 0], .markSequenceEnded,
      .start 5000, .task]
    ⟨5000, 0xFFFFFFFFFFFFF800, 5050⟩ (by decide +kernel) rfl (by decide +kernel)
  exact absurd hearly (by decide)

/-- The first event of that recording keeps its time. -/
theorem deadline_exact_first : ∃ frame,
    PiZero.encodeQueueEvent 0 [0, 0, 4, 0, 0, 0, 0, 0] = .ok (encode frame) ∧ Kept frame 0 5000 := by
  obtain ⟨frame, hencode, -, hkept⟩ := deadline_exact (fun _ => "") (PiZero.parseRecording_toDict _ benchLast_valid)
    benchLast_offsets (0, [0, 0, 4, 0, 0, 0, 0, 0]) (by decide)
  exact ⟨frame, hencode, (hkept 5000).2 (by decide)⟩

end Link
end PicoRecorder
