import PicoRecorder.Lib.Ring
import PicoRecorder.Pico.Wire
/-!
# Queues — the playback queue and the capture FIFO (`playback_queue.c`, `keyboard_capture.c`)

Both are the circular array of `Lib.Ring`: 512 future events, and 16 captured reports with the flag that remembers
whether the oldest one was already sent as a RECORD_EVENT.
-/
namespace PicoRecorder
namespace Pico

open Lib (Ring)

def playbackQueueCapacity : Nat := 512
def keyboardCaptureCapacity : Nat := 16
def hidBootKeyboardReportLen : Nat := 8

structure PlaybackEvent where
  offsetUs : UInt64
  report : Report
  deriving DecidableEq, Repr

abbrev PlaybackQueue := Ring PlaybackEvent playbackQueueCapacity

/-- `pico_playback_queue_init`. -/
def PlaybackQueue.init : PlaybackQueue := Ring.init playbackQueueCapacity ⟨0, Report.releaseAll⟩ (by decide)

/-- `pico_playback_queue_push`; `none` for a report of the wrong length or a full queue. -/
def PlaybackQueue.push (q : PlaybackQueue) (offsetUs : UInt64) (report : List UInt8) : Option PlaybackQueue :=
  if report.length ≠ hidBootKeyboardReportLen then none else Ring.push q ⟨offsetUs, Report.ofBytes report⟩

/-- `pico_playback_queue_free_capacity`. -/
def PlaybackQueue.freeCapacity (q : PlaybackQueue) : Nat := playbackQueueCapacity - q.count

theorem PlaybackQueue.freeCapacity_eq (q : PlaybackQueue) :
    PlaybackQueue.freeCapacity q = playbackQueueCapacity - q.toList.length := by
  rw [Ring.length_toList]; rfl

theorem PlaybackQueue.toList_push {q q' : PlaybackQueue} {offsetUs : UInt64} {report : List UInt8}
    (h : PlaybackQueue.push q offsetUs report = some q') :
    q'.toList = q.toList ++ [⟨offsetUs, Report.ofBytes report⟩] := by
  unfold PlaybackQueue.push at h
  split at h
  · cases h
  · exact (Ring.toList_push _ _ _ h).1

structure CaptureEvent where
  timestampUs : UInt64
  report : Report
  deriving DecidableEq, Repr

/-- `pico_keyboard_capture_t`.  Its statistics are left out: nothing in the firmware reads them. -/
structure Capture where
  events : Ring CaptureEvent keyboardCaptureCapacity
  headRecorded : Bool

namespace Capture

/-- `pico_keyboard_capture_init`. -/
def init : Capture := ⟨Ring.init keyboardCaptureCapacity ⟨0, Report.releaseAll⟩ (by decide), false⟩

/-- `pico_keyboard_capture_clear`. -/
def clear (c : Capture) : Capture := ⟨c.events.clear, false⟩

/-- `pico_keyboard_capture_push`; `none` for a report of the wrong length or a full FIFO. -/
def push (c : Capture) (timestampUs : UInt64) (report : List UInt8) : Option Capture :=
  if report.length ≠ hidBootKeyboardReportLen then none
  else (c.events.push ⟨timestampUs, Report.ofBytes report⟩).map (fun events => { c with events := events })

/-- `pico_keyboard_capture_pop`: an empty FIFO keeps its flag. -/
def pop (c : Capture) : Capture := if c.events.count = 0 then c else ⟨c.events.pop, false⟩

/-- `pico_keyboard_capture_peek`. -/
def peek (c : Capture) : Option CaptureEvent := c.events.peek

/-- `pico_keyboard_capture_head_recorded`. -/
def isHeadRecorded (c : Capture) : Bool := c.events.count != 0 && c.headRecorded

/-- `pico_keyboard_capture_mark_head_recorded`. -/
def markHeadRecorded (c : Capture) : Capture := if c.events.count = 0 then c else { c with headRecorded := true }

/-- The captured reports waiting, oldest first. -/
def toList (c : Capture) : List CaptureEvent := c.events.toList

@[simp] theorem toList_init : init.toList = [] := rfl
@[simp] theorem headRecorded_init : init.headRecorded = false := rfl
@[simp] theorem toList_clear (c : Capture) : c.clear.toList = [] := rfl
@[simp] theorem headRecorded_clear (c : Capture) : c.clear.headRecorded = false := rfl

theorem count_eq_zero (c : Capture) : c.events.count = 0 ↔ c.toList = [] := (Ring.toList_eq_nil _).symm

theorem peek_eq_none (c : Capture) : c.peek = none ↔ c.toList = [] := Ring.peek_eq_none _

theorem toList_of_peek {c : Capture} {e : CaptureEvent} (h : c.peek = some e) : c.toList = e :: c.pop.toList := by
  have hne : c.events.count ≠ 0 := fun h0 => by
    rw [count_eq_zero, ← peek_eq_none] at h0
    rw [h] at h0; cases h0
  rw [pop, if_neg hne]
  exact Ring.toList_of_peek _ _ h

theorem headRecorded_pop {c : Capture} {e : CaptureEvent} (h : c.peek = some e) : c.pop.headRecorded = false := by
  have hne : c.events.count ≠ 0 := fun h0 => by
    rw [count_eq_zero, ← peek_eq_none] at h0
    rw [h] at h0; cases h0
  rw [pop, if_neg hne]

theorem isHeadRecorded_of_peek {c : Capture} {e : CaptureEvent} (h : c.peek = some e) :
    c.isHeadRecorded = c.headRecorded := by
  have hne : c.events.count ≠ 0 := fun h0 => by
    rw [count_eq_zero, ← peek_eq_none] at h0
    rw [h] at h0; cases h0
  simp [isHeadRecorded, hne]

@[simp] theorem toList_markHeadRecorded (c : Capture) : c.markHeadRecorded.toList = c.toList := by
  unfold markHeadRecorded; split <;> rfl

theorem headRecorded_markHeadRecorded {c : Capture} {e : CaptureEvent} (h : c.peek = some e) :
    c.markHeadRecorded.headRecorded = true := by
  have hne : c.events.count ≠ 0 := fun h0 => by
    rw [count_eq_zero, ← peek_eq_none] at h0
    rw [h] at h0; cases h0
  rw [markHeadRecorded, if_neg hne]

theorem peek_markHeadRecorded (c : Capture) : c.markHeadRecorded.peek = c.peek := by
  unfold markHeadRecorded; split <;> rfl

/-- **An accepted report goes to the back** and leaves the head's flag alone. -/
theorem push_some {c c' : Capture} {t : UInt64} {report : List UInt8} (h : c.push t report = some c') :
    c'.toList = c.toList ++ [⟨t, Report.ofBytes report⟩] ∧ c'.headRecorded = c.headRecorded := by
  unfold push at h
  split at h
  · cases h
  obtain ⟨events, he, rfl⟩ := Option.map_eq_some_iff.1 h
  exact ⟨(Ring.toList_push _ _ _ he).1, rfl⟩

end Capture
end Pico
end PicoRecorder
