import PicoRecorder.PiZero.Transport
/-!
# Service — `RecordingSession` (`service.py`) and its `RecordingBuilder` (`recording.py`)
-/
namespace PicoRecorder
namespace PiZero

open Lib
open Pico (Frame MsgType)

structure RecordingEvent where
  dtUs : Nat
  report : List UInt8
  deriving DecidableEq, Repr

structure Recording where
  name : String
  durationUs : Nat
  events : List RecordingEvent
  deriving DecidableEq, Repr

structure RecordingBuilder where
  name : String
  epoch : Option Nat
  lastTimestamp : Option Nat
  events : List RecordingEvent
  deriving DecidableEq, Repr

namespace RecordingBuilder

def create (name : String) : RecordingBuilder := ⟨name, none, none, []⟩

/-- `add`.  A timestamp off the wire is a u64 and a report is eight bytes, so only the order is left to check. -/
def add (b : RecordingBuilder) (timestampUs : Nat) (report : List UInt8) : Checked RecordingBuilder :=
  match b.lastTimestamp with
  | none => .ok { b with
      epoch := some timestampUs, lastTimestamp := some timestampUs, events := b.events ++ [⟨0, report⟩] }
  | some last =>
    if timestampUs < last then .error (.raised .recordingValidation "Pico timestamp moved backwards")
    else .ok { b with lastTimestamp := some timestampUs, events := b.events ++ [⟨timestampUs - last, report⟩] }

def build (b : RecordingBuilder) : Recording :=
  ⟨b.name, match b.epoch, b.lastTimestamp with | some epoch, some last => last - epoch | _, _ => 0, b.events⟩

end RecordingBuilder

/-- The two calls of the `RecordingStore` a session makes. -/
structure Store (σ : Type) where
  contains : String → σ → Checked Bool × σ
  save : Recording → σ → Checked Unit × σ

structure RecordingSession where
  name : String
  modeTimeout : Int
  builder : RecordingBuilder
  started : Bool
  finished : Bool
  deriving DecidableEq, Repr

namespace RecordingSession

def create (name : String) (modeTimeout : Int) : RecordingSession :=
  ⟨name, modeTimeout, RecordingBuilder.create name, false, false⟩

variable {σ : Type} (L : Link σ) (store : Store σ)

def storeSave (recording : Recording) : Py RecordingSession σ Unit := fun h =>
  checked (store.save recording h.link).1 { h with link := (store.save recording h.link).2 }

/-- The check of `start`, that the name is free. -/
def vacant (s : RecordingSession) (w : σ) : Checked Unit × σ :=
  let found := store.contains s.name w
  match found.1 with
  | .ok true => (.error (.raised .storage s!"recording already exists: {s.name}"), found.2)
  | .ok false => (.ok (), found.2)
  | .error e => (.error e, found.2)

theorem vacant_free {s : RecordingSession} {w : σ} (h : (store.contains s.name w).1 = .ok false) :
    s.vacant store w = (.ok (), (store.contains s.name w).2) := by
  simp only [vacant, h]

def checkName : Py RecordingSession σ Unit := fun h =>
  checked (h.session.vacant store h.link).1 { h with link := (h.session.vacant store h.link).2 }

/-- The handshake of `start`. -/
def enterRecord : Py RecordingSession σ Unit := do
  Transport.setMode L MODE_RECORD.toNat (← session).modeTimeout 1
  updateSession (fun s => { s with started := true })

def start : Py RecordingSession σ Unit := do
  checkName store
  enterRecord L

def consume (frame : Frame) : Py RecordingSession σ Unit := do
  if frame.type = MsgType.recordEvent.byte then
    let (timestampUs, report) ← checked (validateRecordEvent frame)
    let builder ← checked ((← session).builder.add timestampUs report)
    updateSession (fun s => { s with builder := builder })
  else if frame.type = MsgType.modeChanged.byte then
    raise .protocol "Pico mode changed unexpectedly while recording"
  else pure ()

def receiveAndConsume (timeout : Int) : Py RecordingSession σ Unit := do
  let frame ← Transport.receiveFrame L timeout
  modify (Heap.note (.took frame))
  consume (← checked (requireNotError frame))

def consumeAll : List Frame → Py RecordingSession σ Unit
  | [] => pure ()
  | frame :: frames => do
    consume (← checked (requireNotError frame))
    consumeAll frames

/-- The frames of `drain_pending_frames`. -/
def drainAll : Py RecordingSession σ Unit := do
  let frames ← Transport.drainPendingFrames
  modify (Heap.take frames)
  consumeAll frames

/-- The handler of `stop` for a `RecorderError`. -/
def exceptRecorder : Exn → Option (Py RecordingSession σ Unit)
  | .raised .foreign _ | .suspended => none
  | e => some (do
    updateSession (fun s => { s with finished := true })
    throw e)

def stop : Py RecordingSession σ Recording := do
  if (← session).finished then raise .recorder "recording session has already finished"
  else if !(← session).started then raise .recorder "recording session has not started"
  else
    catching
      (do
        Transport.setMode L MODE_PASS.toNat (← session).modeTimeout 1
        drainAll)
      exceptRecorder
    updateSession (fun s => { s with finished := true })
    let recording := (← session).builder.build
    storeSave store recording
    pure recording

/-- `abort`: the cleanup's exception, if there was one. -/
def abort : Py RecordingSession σ (Option Exn) := do
  if (← session).finished then pure none
  else
    updateSession (fun s => { s with finished := true })
    match ← attempt (Transport.setMode L MODE_PASS.toNat (← session).modeTimeout 1) with
    | .ok () => pure none
    | .error e => pure (some e)

/-! ## Outside the handshakes -/

/-- The flags the cleanup decides by. -/
def flags (s : RecordingSession) : Bool × Bool := (s.started, s.finished)

/-- Consuming frames changes no flag and does no handshake. -/
abbrev Inside (s t : Heap RecordingSession σ) : Prop := Quiet flags s t

theorem inside_trans (s t u : Heap RecordingSession σ) (h : Inside s t) (h' : Inside t u) : Inside s u :=
  Quiet.trans _ s t u h h'

theorem inside_checked {α : Type} (c : Checked α) : Keeps Inside (checked c : Py RecordingSession σ α) :=
  quiet_of_untouched flags (untouched_checked c)

theorem inside_consume (frame : Frame) : Keeps Inside (consume frame : Py RecordingSession σ Unit) := by
  unfold consume
  split
  · refine Keeps.bind inside_trans (inside_checked _) (fun event => ?_)
    split
    refine Keeps.bind inside_trans (quiet_of_untouched flags untouched_session) (fun s => ?_)
    refine Keeps.bind inside_trans (inside_checked _) (fun builder => ?_)
    exact quiet_updateSession flags (fun _ => rfl)
  split
  · exact quiet_raise flags _ _
  · exact Keeps.pure (Quiet.refl flags) _

theorem inside_consumeAll : ∀ frames, Keeps Inside (consumeAll frames : Py RecordingSession σ Unit)
  | [] => Keeps.pure (Quiet.refl flags) _
  | _ :: frames =>
    Keeps.bind inside_trans (inside_checked _)
      (fun _ => Keeps.bind inside_trans (inside_consume _) (fun _ => inside_consumeAll frames))

theorem inside_drainAll : Keeps Inside (drainAll : Py RecordingSession σ Unit) :=
  Keeps.bind inside_trans (quiet_of_untouched flags Transport.untouched_drainPendingFrames)
    (fun frames => Keeps.bind inside_trans (quiet_take flags frames) (fun _ => inside_consumeAll frames))

theorem inside_receiveAndConsume (timeout : Int) : Keeps Inside (receiveAndConsume L timeout) :=
  Keeps.bind inside_trans (quiet_of_untouched flags (Transport.untouched_receiveFrame L timeout))
    (fun frame => Keeps.bind inside_trans (quiet_note flags (fun _ => .took frame) (fun _ => rfl))
      (fun _ => Keeps.bind inside_trans (inside_checked _) (fun _ => inside_consume _)))

theorem wp_checkName {Q : Unit → Heap RecordingSession σ → Prop} {E : Exn → Heap RecordingSession σ → Prop}
    {s : Heap RecordingSession σ}
    (hok : (s.session.vacant store s.link).1 = .ok () → Q () { s with link := (s.session.vacant store s.link).2 })
    (herror : ∀ e, (s.session.vacant store s.link).1 = .error e →
      E e { s with link := (s.session.vacant store s.link).2 }) :
    wp (checkName store) Q E s := by
  unfold wp checkName
  cases hvacant : (s.session.vacant store s.link).1 with
  | ok u => exact hok hvacant
  | error e => exact herror e hvacant

theorem inside_checkName : Keeps Inside (checkName store) := fun _ =>
  wp_checkName store (fun _ => ⟨rfl, .refl _⟩) (fun _ _ => ⟨rfl, .refl _⟩)

theorem inside_storeSave (recording : Recording) : Keeps Inside (storeSave store recording) := fun s => by
  unfold wp storeSave
  cases (store.save recording s.link).1 with
  | ok b => exact ⟨rfl, .refl _⟩
  | error e => exact ⟨rfl, .refl _⟩

/-! ## The calls, by their flags and handshakes -/

theorem flags_eq {s t : RecordingSession} (h : flags s = flags t) :
    s.started = t.started ∧ s.finished = t.finished := by
  simpa [flags] using h

theorem enterRecord_spec (s : Heap RecordingSession σ) :
    wp (enterRecord L) (fun _ t => Shook MODE_RECORD s.history t.history)
      (fun _ t => flags t.session = flags s.session ∧ Missed MODE_RECORD s.history t.history) s := by
  unfold enterRecord
  rw [wp_bind, wp_session, wp_bind]
  refine wp_mono (Transport.setMode_spec L MODE_RECORD (.inr (.inl rfl)) _ s) ?_ ?_
  · rintro - t ⟨-, hd⟩
    exact hd.shook
  · rintro e t ⟨ht, hd⟩
    exact ⟨by rw [ht], hd.missed⟩

/-- `start` sets `started` only when its handshake has come to its answer. -/
theorem start_spec (s : Heap RecordingSession σ) :
    wp (start L store) (fun _ t => Shook MODE_RECORD s.history t.history)
      (fun _ t => Inside s t ∨ flags t.session = flags s.session ∧ Missed MODE_RECORD s.history t.history) s := by
  unfold start
  rw [wp_bind]
  refine wp_mono (inside_checkName store s) (fun _ t ht => ?_) (fun _ t ht => .inl ht)
  refine wp_mono (enterRecord_spec L t) (fun _ u hu => hu.before ht.2) (fun _ u hu => .inr ?_)
  exact ⟨hu.1.trans ht.1, hu.2.before ht.2⟩

/-- The `try` of `stop`, with its handler, which sets `finished` on most exceptions. -/
theorem stopHandshake_spec (s : Heap RecordingSession σ) :
    wp (catching
        (do
          Transport.setMode L MODE_PASS.toNat (← session).modeTimeout 1
          drainAll)
        exceptRecorder)
      (fun _ t => Shook MODE_PASS s.history t.history)
      (fun _ t => Shook MODE_PASS s.history t.history ∨ Missed MODE_PASS s.history t.history) s := by
  rw [wp_catching]
  have hbody : wp
      (do
        Transport.setMode L MODE_PASS.toNat (← session).modeTimeout 1
        drainAll)
      (fun _ t => Shook MODE_PASS s.history t.history)
      (fun _ t => Shook MODE_PASS s.history t.history ∨ Missed MODE_PASS s.history t.history) s := by
    rw [wp_bind, wp_session, wp_bind]
    refine wp_mono (Transport.setMode_spec L MODE_PASS (.inl rfl) _ s) ?_ ?_
    · rintro - t ⟨-, hd⟩
      refine wp_mono (inside_drainAll t) ?_ ?_
      · intro _ u hu
        exact hd.shook.after hu.2
      · intro e u hu
        exact .inl (hd.shook.after hu.2)
    · rintro e t ⟨-, hd⟩
      exact .inr hd.missed
  refine wp_mono hbody (fun _ t ht => ht) (fun e t ht => ?_)
  rcases e with ⟨kind, message⟩ | _
  · cases kind <;> exact ht
  · exact ht

/-- `stop` returns only from a handshake for PASS; it is made only by a session that was `started`. -/
theorem stop_spec (s : Heap RecordingSession σ) :
    wp (stop L store) (fun _ t => s.session.started = true ∧ Shook MODE_PASS s.history t.history)
      (fun _ t => Inside s t ∨ s.session.started = true ∧
        (Shook MODE_PASS s.history t.history ∨ Missed MODE_PASS s.history t.history)) s := by
  unfold stop
  rw [wp_bind, wp_session]
  by_cases hf : s.session.finished = true
  · rw [if_pos hf]
    exact .inl (Quiet.refl _ _)
  rw [if_neg hf, wp_bind, wp_session]
  by_cases hs : s.session.started = true
  · rw [if_neg (by simp [hs]), wp_bind]
    refine wp_mono (stopHandshake_spec L s) (fun _ t ht => ?_) (fun _ t ht => .inr ⟨hs, ht⟩)
    rw [wp_bind, wp_updateSession, wp_bind, wp_session, wp_bind]
    refine wp_mono (inside_storeSave store _ _) (fun _ u hu => ?_) (fun _ u hu => ?_)
    · exact ⟨hs, ht.after hu.2⟩
    · exact .inr ⟨hs, .inl (ht.after hu.2)⟩
  · rw [if_pos (by simpa using hs)]
    exact .inl (Quiet.refl _ _)

/-- **`abort` makes the handshake for PASS exactly when the session is not `finished`**, and comes back without an
exception only if that came to its answer. -/
theorem abort_spec (s : Heap RecordingSession σ) :
    wp (abort L)
      (fun report t => if s.session.finished = true then report = none ∧ t.history = s.history
        else Shook MODE_PASS s.history t.history ∨ Missed MODE_PASS s.history t.history ∧ report ≠ none)
      (fun e _ => e.leaves = false) s := by
  unfold abort
  rw [wp_bind, wp_session]
  by_cases hf : s.session.finished = true
  · rw [if_pos hf]
    simp only [if_pos hf]
    exact ⟨rfl, rfl⟩
  · rw [if_neg hf, wp_bind, wp_updateSession, wp_bind, wp_session, wp_bind, wp_attempt]
    simp only [if_neg hf]
    refine wp_mono (Transport.setMode_spec L MODE_PASS (.inl rfl) _ _) ?_ ?_
    · rintro - t ⟨-, hd⟩
      exact .inl hd.shook
    · rintro e t ⟨-, hd⟩
      cases e with
      | suspended => rfl
      | raised kind message => exact .inr ⟨hd.missed, by simp⟩

end RecordingSession
end PiZero
end PicoRecorder
