import PicoRecorder.Lib.Hoare
import PicoRecorder.PiZero.Codec
/-!
# Transport — `PicoTransport` (`transport.py`)

A Python call is a program over a `Heap`: the frames already read, the fields of the session that makes the call, and a
link with any behaviour at all.  Time is in microseconds.  `Heap.history` is a history variable, newest entry first.
Every loop of the source has `patience` turns; a call still waiting then is `suspended`.
-/
namespace PicoRecorder
namespace PiZero

open Lib
open Pico (Frame MsgType)

/-- What one `stream.read` comes to after the decoder: the frames it completed, a decoding error, or an `OSError`. -/
inductive ReadResult where
  | data (frames : List Frame)
  | invalid (detail : String)
  | osError (message : String)
  deriving DecidableEq

/-- `stream.write`: the count it returned, if any, or an `OSError`. -/
inductive WriteResult where
  | written (count : Option Nat)
  | osError (message : String)
  deriving DecidableEq

/-- The serial stream, the clock and the cancellation hook. -/
structure Link (σ : Type) where
  clock : σ → Int × σ
  cancelled : σ → Bool × σ
  read : σ → ReadResult × σ
  write : List UInt8 → σ → WriteResult × σ
  patience : Nat

/-- What the Zero did: a request written, whole or not, with the frames put aside at the time; the answer a MODE_SET was
given; a frame that a session took; and the waits for credit, with the frames pending when one begins. -/
inductive Act where
  | wrote (request : Request) (whole : Bool) (aside : List Frame)
  | answered (state reason : UInt8)
  | took (frame : Frame)
  | awaitsCredit (pending : List Frame)
  | credited (freeCapacity : Nat)
  deriving DecidableEq, Repr

/-- The acknowledgements of MODE_SET(RECORD) and of MODE_SET(PASS). -/
def recordAck : Frame := ⟨MsgType.modeChanged.byte, MODE_RECORD :: [REASON_OK]⟩

def passAck : Frame := ⟨MsgType.modeChanged.byte, MODE_PASS :: [REASON_OK]⟩

structure Heap (S σ : Type) where
  pending : List Frame
  session : S
  link : σ
  history : List Act

abbrev Py (S σ : Type) := EStateM Exn (Heap S σ)

def Exn.leaves : Exn → Bool
  | .raised _ _ => true
  | .suspended => false

variable {S σ α : Type}

def raise (kind : ErrorKind) (message : String) : Py S σ α := throw (.raised kind message)

def checked : Checked α → Py S σ α
  | .ok a => pure a
  | .error e => throw e

/-- A handler for `except TransportTimeout`, given the message. -/
def exceptTimeout (handler : String → Py S σ α) : Exn → Option (Py S σ α)
  | .raised .transportTimeout message => some (handler message)
  | _ => none

/-- `except Exception as error`: the call's value, or the exception that came out of it. -/
def attempt (m : Py S σ α) : Py S σ (Checked α) :=
  catching (do return .ok (← m)) (fun e => if e.leaves then some (pure (.error e)) else none)

/-- `str(error)`. -/
def Exn.message : Exn → String
  | .raised _ message => message
  | .suspended => ""

def session : Py S σ S := fun h => .ok h.session h

def updateSession (f : S → S) : Py S σ Unit := fun h => .ok () { h with session := f h.session }

/-- `_pending.extendleft(reversed(frames))`. -/
def Heap.putBack (frames : List Frame) (h : Heap S σ) : Heap S σ := { h with pending := frames ++ h.pending }

def Heap.note (act : Act) (h : Heap S σ) : Heap S σ := { h with history := act :: h.history }

/-- Some frames are taken, one after the other. -/
def Heap.take (frames : List Frame) (h : Heap S σ) : Heap S σ :=
  { h with history := (frames.map Act.took).reverse ++ h.history }

section Rules

variable {Q : α → Heap S σ → Prop} {E : Exn → Heap S σ → Prop} {s : Heap S σ}

@[simp] theorem wp_raise (kind : ErrorKind) (message : String) :
    wp (raise kind message : Py S σ α) Q E s ↔ E (.raised kind message) s := Iff.rfl

@[simp] theorem wp_session {Q : S → Heap S σ → Prop} : wp (session : Py S σ S) Q E s ↔ Q s.session s := Iff.rfl

@[simp] theorem wp_updateSession {Q : Unit → Heap S σ → Prop} (f : S → S) :
    wp (updateSession f) Q E s ↔ Q () { s with session := f s.session } := Iff.rfl

theorem wp_attempt {Q : Checked α → Heap S σ → Prop} {m : Py S σ α} :
    wp (attempt m) Q E s ↔
      wp m (fun a => Q (.ok a)) (fun e t => if e.leaves then Q (.error e) t else E e t) s := by
  unfold attempt
  rw [wp_catching, wp_bind]
  unfold wp
  cases m s with
  | ok a t => exact Iff.rfl
  | error e t => cases e <;> exact Iff.rfl

end Rules

section Io

variable (L : Link σ)

def clock : Py S σ Int := fun h => .ok (L.clock h.link).1 { h with link := (L.clock h.link).2 }

def cancelled : Py S σ Bool := fun h => .ok (L.cancelled h.link).1 { h with link := (L.cancelled h.link).2 }

def streamRead : Py S σ ReadResult := fun h => .ok (L.read h.link).1 { h with link := (L.read h.link).2 }

def WriteResult.whole (length : Nat) : WriteResult → Bool
  | .written none => true
  | .written (some count) => count = length
  | .osError _ => false

theorem WriteResult.whole_of_eq {count length : Nat} (h : count = length) :
    WriteResult.whole length (.written (some count)) = true := decide_eq_true h

theorem WriteResult.whole_of_ne {count length : Nat} (h : count ≠ length) :
    WriteResult.whole length (.written (some count)) = false := decide_eq_false h

def streamWrite (request : Request) (bytes : List UInt8) : Py S σ WriteResult := fun h =>
  let result := L.write bytes h.link
  .ok result.1 ({ h with link := result.2 }.note (.wrote request (result.1.whole bytes.length) h.pending))

theorem wp_streamRead {β : Type} {f : ReadResult → Py S σ β} {Q : β → Heap S σ → Prop} {E : Exn → Heap S σ → Prop}
    {s : Heap S σ} :
    wp (streamRead L >>= f) Q E s = wp (f (L.read s.link).1) Q E { s with link := (L.read s.link).2 } := rfl

theorem wp_streamWrite {β : Type} {request : Request} {bytes : List UInt8} {f : WriteResult → Py S σ β}
    {Q : β → Heap S σ → Prop} {E : Exn → Heap S σ → Prop} {s : Heap S σ} :
    wp (streamWrite L request bytes >>= f) Q E s = wp (f (L.write bytes s.link).1) Q E
      ({ s with link := (L.write bytes s.link).2 }.note
        (.wrote request ((L.write bytes s.link).1.whole bytes.length) s.pending)) := rfl

end Io

/-- `require_not_error`. -/
def requireNotError (frame : Frame) : Checked Frame :=
  if frame.type = MsgType.error.byte then .error (.raised .pico "Pico reported ERROR")
  else if frame.type = MsgType.picoStatus.byte then
    match validatePicoStatus frame with
    | .error e => .error e
    | .ok (state, faults) =>
      let labels := ["rx_overflow", "hardware_error", "invalid_frame", "tx_dropped"]
      let details := ((labels.zip faults).filter (·.2)).map (·.1)
      let details := if state = MODE_ERROR then "error_state" :: details else details
      if state = MODE_ERROR || faults.any id then
        .error (.raised .pico ("Pico status reported " ++ ", ".intercalate details))
      else .ok frame
  else if frame.type = MsgType.modeChanged.byte then
    match validateModeChanged frame with
    | .error e => .error e
    | .ok (state, reason) =>
      if state = MODE_ERROR then .error (.raised .pico s!"Pico entered ERROR state: reason={reason}")
      else .ok frame
  else .ok frame

namespace Transport

variable (L : Link σ)

/-- `_write` of an encoded request. -/
def write (request : Request) : Py S σ Unit := do
  let data ← checked request.build
  match ← streamWrite L request data with
  | .osError message => raise .protocol s!"could not write to Pico UART: {message}"
  | .written none => pure ()
  | .written (some count) =>
    if count ≠ data.length then raise .protocol s!"short Pico UART write: {count} of {data.length} bytes"
    else pure ()

/-- `_pending.popleft()`, if there is a frame. -/
def popPending : Py S σ (Option Frame) := fun h =>
  match h.pending with
  | [] => .ok none h
  | frame :: pending => .ok (some frame) { h with pending := pending }

/-- The loop of `receive_frame`. -/
def receiveLoop (deadline : Int) : Nat → Py S σ Frame
  | 0 => throw .suspended
  | n + 1 => do
    if ← cancelled L then raise .transportTimeout "cancelled"
    else
      match ← streamRead L with
      | .osError message => raise .protocol s!"could not read from Pico UART: {message}"
      | .invalid detail => raise .protocol s!"invalid UART frame: {detail}"
      | .data frames =>
        modify (fun h => { h with pending := h.pending ++ frames })
        match ← popPending with
        | some frame => pure frame
        | none =>
          if (← clock L) ≥ deadline then raise .transportTimeout "timed out waiting for Pico UART data"
          else receiveLoop deadline n

def receiveFrame (timeout : Int) : Py S σ Frame := do
  match ← popPending with
  | some frame => pure frame
  | none => receiveLoop L ((← clock L) + timeout) L.patience

/-- The loop of `_await`.  A frame of another type is deferred: it goes back to the front on every way out, so that the
frames deferred in one wait stand there in wire order. -/
def awaitLoop (type : MsgType) (deadline : Int) : Nat → Py S σ Frame
  | 0 => throw .suspended
  | n + 1 => do
    let remaining := deadline - (← clock L)
    if remaining ≤ 0 then raise .transportTimeout s!"timed out waiting for message {hex02 type.byte.toNat}"
    else
      let frame ← checked (requireNotError (← receiveFrame L remaining))
      if frame.type ≠ type.byte then ensuring Exn.leaves (Heap.putBack [frame]) (awaitLoop type deadline n)
      else pure frame

/-- `_await` and `await_frame`. -/
def awaitFrame (type : MsgType) (timeout : Int) : Py S σ Frame := do
  awaitLoop L type ((← clock L) + timeout) L.patience

def drainPendingFrames : Py S σ (List Frame) := fun h => .ok h.pending { h with pending := [] }

/-- The wait of one attempt of `set_mode`; `none` for `continue`. -/
def awaitAnswer (timeout : Int) (last : Bool) : Py S σ (Option Frame) :=
  catching (do return some (← awaitFrame L .modeChanged timeout))
    (exceptTimeout (fun message => if last then raise .transportTimeout message else pure none))

/-- The attempts of `set_mode`, so many of them. -/
def setModeAttempts (target : UInt8) (timeout : Int) : Nat → Py S σ Unit
  | 0 => pure ()
  | n + 1 => do
    write L (.modeSet target)
    match ← awaitAnswer L timeout (n = 0) with
    | none => setModeAttempts target timeout n
    | some frame =>
      let (state, reason) ← checked (validateModeChanged frame)
      modify (Heap.note (.answered state reason))
      if state = target ∧ reason = REASON_OK then pure ()
      else raise .modeRejected s!"Pico rejected MODE_SET({target}): state={state}, reason={reason}"

def setMode (target : Int) (timeout : Int) (retries : Int) : Py S σ Unit :=
  if target ≠ 0 ∧ target ≠ 1 ∧ target ≠ 2 then
    raise .protocol s!"MODE_SET target must be PASS, RECORD, or ARMED; got {target}"
  else if retries < 0 then raise .protocol "MODE_SET retries must not be negative"
  else setModeAttempts L (UInt8.ofNat target.toNat) timeout (retries + 1).toNat

end Transport

/-! ## What a wait leaves alone -/

section Frames

/-- The waits read and defer frames; they write nothing and leave the session alone. -/
def Untouched (s t : Heap S σ) : Prop := t.session = s.session ∧ t.history = s.history

theorem Untouched.refl (s : Heap S σ) : Untouched s s := ⟨rfl, rfl⟩

theorem Untouched.trans (s t u : Heap S σ) (h : Untouched s t) (h' : Untouched t u) : Untouched s u :=
  ⟨h'.1.trans h.1, h'.2.trans h.2⟩

theorem untouched_raise (kind : ErrorKind) (message : String) : Keeps Untouched (raise kind message : Py S σ α) :=
  Keeps.throw Untouched.refl _

theorem untouched_checked (c : Checked α) : Keeps Untouched (checked c : Py S σ α) := by
  cases c with
  | ok a => exact Keeps.pure Untouched.refl a
  | error e => exact Keeps.throw Untouched.refl e

theorem untouched_session : Keeps Untouched (session : Py S σ S) := fun s => Untouched.refl s

variable (L : Link σ)

theorem untouched_clock : Keeps Untouched (clock L : Py S σ Int) := fun _ => ⟨rfl, rfl⟩

namespace Transport

theorem untouched_popPending : Keeps Untouched (popPending : Py S σ (Option Frame)) := fun s => by
  unfold wp popPending
  cases s.pending <;> exact ⟨rfl, rfl⟩

theorem untouched_receiveLoop (deadline : Int) : ∀ n, Keeps Untouched (receiveLoop L deadline n : Py S σ Frame)
  | 0 => Keeps.throw Untouched.refl _
  | n + 1 => by
    unfold receiveLoop
    refine Keeps.bind Untouched.trans (fun _ => ⟨rfl, rfl⟩) (fun cancel => ?_)
    split
    · exact untouched_raise _ _
    refine Keeps.bind Untouched.trans (fun _ => ⟨rfl, rfl⟩) (fun result => ?_)
    cases result with
    | osError message => exact untouched_raise _ _
    | invalid detail => exact untouched_raise _ _
    | data frames =>
      refine Keeps.bind Untouched.trans (fun _ => ⟨rfl, rfl⟩) (fun _ => ?_)
      refine Keeps.bind Untouched.trans untouched_popPending (fun frame? => ?_)
      cases frame? with
      | some frame => exact Keeps.pure Untouched.refl _
      | none =>
        refine Keeps.bind Untouched.trans (untouched_clock L) (fun now => ?_)
        split
        · exact untouched_raise _ _
        · exact untouched_receiveLoop deadline n

theorem untouched_receiveFrame (timeout : Int) : Keeps Untouched (receiveFrame L timeout : Py S σ Frame) := by
  unfold receiveFrame
  refine Keeps.bind Untouched.trans untouched_popPending (fun frame? => ?_)
  cases frame? with
  | some frame => exact Keeps.pure Untouched.refl _
  | none => exact Keeps.bind Untouched.trans (untouched_clock L) (fun _ => untouched_receiveLoop L _ _)

theorem untouched_awaitLoop (type : MsgType) (deadline : Int) :
    ∀ n, Keeps Untouched (awaitLoop L type deadline n : Py S σ Frame)
  | 0 => Keeps.throw Untouched.refl _
  | n + 1 => by
    unfold awaitLoop
    refine Keeps.bind Untouched.trans (untouched_clock L) (fun now => ?_)
    dsimp only
    split
    · exact untouched_raise _ _
    refine Keeps.bind Untouched.trans (untouched_receiveFrame L _) (fun frame => ?_)
    refine Keeps.bind Untouched.trans (untouched_checked _) (fun frame => ?_)
    split
    · exact Keeps.ensuring Untouched.trans (untouched_awaitLoop type deadline n) (fun _ => ⟨rfl, rfl⟩)
    · exact Keeps.pure Untouched.refl _

theorem untouched_awaitFrame (type : MsgType) (timeout : Int) :
    Keeps Untouched (awaitFrame L type timeout : Py S σ Frame) :=
  Keeps.bind Untouched.trans (untouched_clock L) (fun _ => untouched_awaitLoop L _ _ _)

theorem untouched_drainPendingFrames : Keeps Untouched (drainPendingFrames : Py S σ (List Frame)) := fun _ => ⟨rfl, rfl⟩

theorem untouched_awaitAnswer (timeout : Int) (last : Bool) :
    Keeps Untouched (awaitAnswer L timeout last : Py S σ (Option Frame)) := by
  refine Keeps.catching Untouched.trans
    (Keeps.bind Untouched.trans (untouched_awaitFrame L _ _) (fun _ => Keeps.pure Untouched.refl _)) ?_
  rintro (⟨kind, message⟩ | _) h hh
  · cases kind <;> try cases hh
    split
    · exact untouched_raise _ _
    · exact Keeps.pure Untouched.refl _
  · cases hh

end Transport
end Frames

/-! ## What a handshake does -/

section Handshake

/-- The acts `set_mode` is made of. -/
def Act.handshake : Act → Bool
  | .wrote (.modeSet _) _ _ | .answered _ _ => true
  | .wrote _ _ _ | .took _ | .awaitsCredit _ | .credited _ => false

/-- The history grew by acts outside a handshake. -/
def QuietAfter (history history' : List Act) : Prop :=
  ∃ acts, history' = acts ++ history ∧ ∀ act ∈ acts, act.handshake = false

theorem QuietAfter.refl (history : List Act) : QuietAfter history history := ⟨[], rfl, fun _ h => by cases h⟩

theorem QuietAfter.trans {h h' h'' : List Act} (hq : QuietAfter h h') (hq' : QuietAfter h' h'') : QuietAfter h h'' := by
  obtain ⟨acts, hh, hq⟩ := hq
  obtain ⟨acts', hh', hq'⟩ := hq'
  refine ⟨acts' ++ acts, by rw [hh', hh, List.append_assoc], fun act hm => ?_⟩
  rcases List.mem_append.1 hm with hm | hm
  · exact hq' act hm
  · exact hq act hm

/-- Nothing of a handshake happened, and the given part of the session is as it was. -/
def Quiet {F : Type} (flags : S → F) (s t : Heap S σ) : Prop :=
  flags t.session = flags s.session ∧ QuietAfter s.history t.history

variable {F : Type} (flags : S → F)

theorem Quiet.refl (s : Heap S σ) : Quiet flags s s := ⟨rfl, .refl _⟩

theorem Quiet.trans (s t u : Heap S σ) (h : Quiet flags s t) (h' : Quiet flags t u) : Quiet flags s u :=
  ⟨h'.1.trans h.1, h.2.trans h'.2⟩

theorem Untouched.quiet {s t : Heap S σ} (h : Untouched s t) : Quiet flags s t :=
  ⟨by rw [h.1], by rw [h.2]; exact .refl _⟩

theorem quiet_of_untouched {m : Py S σ α} (h : Keeps Untouched m) : Keeps (Quiet flags) m :=
  h.mono (fun _ _ => Untouched.quiet flags)

theorem quiet_raise (kind : ErrorKind) (message : String) : Keeps (Quiet flags) (raise kind message : Py S σ α) :=
  quiet_of_untouched flags (untouched_raise _ _)

theorem quiet_updateSession {f : S → S} (hf : ∀ s, flags (f s) = flags s) :
    Keeps (Quiet flags) (updateSession f : Py S σ Unit) := fun s =>
  ⟨hf s.session, .refl _⟩

theorem quiet_note (act : Heap S σ → Act) (hact : ∀ h, (act h).handshake = false) :
    Keeps (Quiet flags) (modify (fun h => h.note (act h)) : Py S σ Unit) := fun s =>
  ⟨rfl, [act s], rfl, fun _ hm => List.mem_singleton.1 hm ▸ hact s⟩

theorem quiet_take (frames : List Frame) : Keeps (Quiet flags) (modify (Heap.take frames) : Py S σ Unit) := fun _ => by
  refine ⟨rfl, (frames.map Act.took).reverse, rfl, fun act hm => ?_⟩
  obtain ⟨frame, -, rfl⟩ := List.mem_map.1 (List.mem_reverse.1 hm)
  rfl

variable (L : Link σ)

theorem quiet_write {request : Request} (hr : ∀ target, request ≠ .modeSet target) :
    Keeps (Quiet flags) (Transport.write L request : Py S σ Unit) := by
  unfold Transport.write
  refine Keeps.bind (Quiet.trans flags) (quiet_of_untouched flags (untouched_checked _)) (fun data => ?_)
  refine Keeps.bind (Quiet.trans flags) (fun s => ?_) (fun result => ?_)
  · refine ⟨rfl, [_], rfl, fun act hm => ?_⟩
    rw [List.mem_singleton] at hm
    subst hm
    cases request <;> first | rfl | exact absurd rfl (hr _)
  · split
    · exact quiet_raise flags _ _
    · exact Keeps.pure (Quiet.refl flags) _
    · split
      · exact quiet_raise flags _ _
      · exact Keeps.pure (Quiet.refl flags) _

/-- Whole writes of one MODE_SET, newest first, by the frames put aside at each. -/
def tries (target : UInt8) (asides : List (List Frame)) : List Act := asides.map (.wrote (.modeSet target) true)

/-- A handshake that came to its answer: whole writes of the one request, then the answer to it. -/
def HandshakeDone (target : UInt8) (history history' : List Act) : Prop :=
  ∃ asides, asides ≠ [] ∧ history' = .answered target REASON_OK :: (tries target asides ++ history)

/-- One that raised: on a timeout, on a write, or on another answer. -/
def HandshakeFailed (target : UInt8) (history history' : List Act) : Prop :=
  ∃ asides, history' = tries target asides ++ history ∨
    (∃ aside, history' = .wrote (.modeSet target) false aside :: (tries target asides ++ history)) ∨
    ∃ state reason, ¬(state = target ∧ reason = REASON_OK) ∧ asides ≠ [] ∧
      history' = .answered state reason :: (tries target asides ++ history)

theorem tries_cons (target : UInt8) (aside : List Frame) (asides : List (List Frame)) :
    tries target (aside :: asides) = .wrote (.modeSet target) true aside :: tries target asides := rfl

theorem tries_append_cons (target : UInt8) (asides : List (List Frame)) (aside : List Frame) (history : List Act) :
    tries target asides ++ .wrote (.modeSet target) true aside :: history =
      tries target (asides ++ [aside]) ++ history := by
  simp [tries]

theorem HandshakeDone.after_write {target : UInt8} {aside : List Frame} {h h₁ h₂ : List Act}
    (hd : HandshakeDone target h₁ h₂) (hw : h₁ = .wrote (.modeSet target) true aside :: h) :
    HandshakeDone target h h₂ := by
  obtain ⟨asides, -, hk⟩ := hd
  exact ⟨asides ++ [aside], by simp, by rw [hk, hw, tries_append_cons]⟩

theorem HandshakeFailed.after_write {target : UInt8} {aside : List Frame} {h h₁ h₂ : List Act}
    (hd : HandshakeFailed target h₁ h₂) (hw : h₁ = .wrote (.modeSet target) true aside :: h) :
    HandshakeFailed target h h₂ := by
  obtain ⟨asides, hk | ⟨cut, hk⟩ | ⟨state, reason, ha, -, hk⟩⟩ := hd
  · exact ⟨asides ++ [aside], .inl (by rw [hk, hw, tries_append_cons])⟩
  · exact ⟨asides ++ [aside], .inr (.inl ⟨cut, by rw [hk, hw, tries_append_cons]⟩)⟩
  · exact ⟨asides ++ [aside], .inr (.inr ⟨state, reason, ha, by simp, by rw [hk, hw, tries_append_cons]⟩)⟩

/-- A handshake that came to its answer, among acts outside any. -/
def Shook (target : UInt8) (history history' : List Act) : Prop :=
  ∃ m m', QuietAfter history m ∧ HandshakeDone target m m' ∧ QuietAfter m' history'

/-- A handshake that raised, among acts outside any. -/
def Missed (target : UInt8) (history history' : List Act) : Prop :=
  ∃ m m', QuietAfter history m ∧ HandshakeFailed target m m' ∧ QuietAfter m' history'

theorem HandshakeDone.shook {target : UInt8} {h h' : List Act} (hd : HandshakeDone target h h') : Shook target h h' :=
  ⟨h, h', .refl _, hd, .refl _⟩

theorem HandshakeFailed.missed {target : UInt8} {h h' : List Act} (hd : HandshakeFailed target h h') :
    Missed target h h' := ⟨h, h', .refl _, hd, .refl _⟩

theorem Shook.before {target : UInt8} {h h₁ h₂ : List Act} (hq : QuietAfter h h₁) (hs : Shook target h₁ h₂) :
    Shook target h h₂ := by
  obtain ⟨m, m', hm, hd, hm'⟩ := hs
  exact ⟨m, m', hq.trans hm, hd, hm'⟩

theorem Shook.after {target : UInt8} {h h₁ h₂ : List Act} (hs : Shook target h h₁) (hq : QuietAfter h₁ h₂) :
    Shook target h h₂ := by
  obtain ⟨m, m', hm, hd, hm'⟩ := hs
  exact ⟨m, m', hm, hd, hm'.trans hq⟩

theorem Missed.before {target : UInt8} {h h₁ h₂ : List Act} (hq : QuietAfter h h₁) (hs : Missed target h₁ h₂) :
    Missed target h h₂ := by
  obtain ⟨m, m', hm, hd, hm'⟩ := hs
  exact ⟨m, m', hq.trans hm, hd, hm'⟩

namespace Transport

theorem write_modeSet (target : UInt8) (s : Heap S σ) :
    wp (write L (.modeSet target))
      (fun _ t => t.session = s.session ∧ t.history = .wrote (.modeSet target) true s.pending :: s.history)
      (fun _ t => t.session = s.session ∧ t.history = .wrote (.modeSet target) false s.pending :: s.history) s := by
  have hb : (Request.modeSet target).build = .ok (Pico.encode (Request.modeSet target).frame) :=
    Request.build_of_valid trivial
  unfold write
  rw [hb, wp_bind, checked, wp_pure, wp_bind]
  generalize Pico.encode (Request.modeSet target).frame = data
  refine wp_mono (m := streamWrite L (.modeSet target) data)
    (Q := fun result t => t.session = s.session ∧
      t.history = .wrote (.modeSet target) (result.whole data.length) s.pending :: s.history)
    (E := fun _ _ => False) ⟨rfl, rfl⟩ (fun result t ht => ?_) (fun _ _ h => h.elim)
  cases result with
  | osError message => exact ht
  | written count =>
    cases count with
    | none => exact ht
    | some count =>
      dsimp only
      by_cases hc : count = data.length
      · rw [if_neg (not_not.2 hc)]
        exact ⟨ht.1, by rw [ht.2, WriteResult.whole_of_eq hc]⟩
      · rw [if_pos hc]
        exact ⟨ht.1, by rw [ht.2, WriteResult.whole_of_ne hc]⟩

/-- Only the last attempt's timeout is raised. -/
theorem awaitAnswer_last (timeout : Int) (s : Heap S σ) :
    wp (awaitAnswer L timeout true : Py S σ (Option Frame)) (fun frame? _ => frame? ≠ none) (fun _ _ => True) s := by
  unfold awaitAnswer
  rw [wp_catching, wp_bind]
  refine wp_mono (m := awaitFrame L .modeChanged timeout) (Q := fun _ _ => True) (E := fun _ _ => True) ?_
    (fun frame t _ => by simp) (fun e t _ => ?_)
  · unfold wp
    split <;> trivial
  · rcases e with ⟨kind, message⟩ | _
    · cases kind <;> trivial
    · trivial

theorem answer_spec {aside : List Frame} {s t : Heap S σ} (target : UInt8) (frame : Frame) (hs : t.session = s.session)
    (hh : t.history = .wrote (.modeSet target) true aside :: s.history) :
    wp (do
        let (state, reason) ← checked (validateModeChanged frame)
        modify (Heap.note (.answered state reason))
        if state = target ∧ reason = REASON_OK then pure ()
        else raise .modeRejected s!"Pico rejected MODE_SET({target}): state={state}, reason={reason}")
      (fun _ u => u.session = s.session ∧ HandshakeDone target s.history u.history)
      (fun _ u => u.session = s.session ∧ HandshakeFailed target s.history u.history) t := by
  rw [wp_bind]
  cases validateModeChanged frame with
  | error e => exact ⟨hs, [aside], .inl hh⟩
  | ok answer =>
    obtain ⟨state, reason⟩ := answer
    rw [checked, wp_pure, wp_bind]
    show wp _ _ _ (t.note (.answered state reason))
    by_cases ha : state = target ∧ reason = REASON_OK
    · rw [if_pos ha]
      refine ⟨hs, [aside], by simp, ?_⟩
      rw [Heap.note, hh, ha.1, ha.2]
      rfl
    · rw [if_neg ha]
      refine ⟨hs, [aside], .inr (.inr ⟨state, reason, ha, by simp, ?_⟩)⟩
      rw [Heap.note, hh]
      rfl

/-- **What a handshake writes and is answered**, however it ends. -/
theorem setModeAttempts_spec (target : UInt8) (timeout : Int) : ∀ (n : Nat) (s : Heap S σ),
    wp (setModeAttempts L target timeout (n + 1))
      (fun _ t => t.session = s.session ∧ HandshakeDone target s.history t.history)
      (fun _ t => t.session = s.session ∧ HandshakeFailed target s.history t.history) s := by
  intro n
  induction n with
  | zero =>
    intro s
    unfold setModeAttempts
    rw [wp_bind]
    refine wp_mono (write_modeSet L target s) (fun _ t ht => ?_) (fun _ t ht => ⟨ht.1, [], .inr (.inl ⟨_, ht.2⟩)⟩)
    rw [wp_bind]
    refine wp_mono (wp_and (untouched_awaitAnswer L timeout true t) (awaitAnswer_last L timeout t)) ?_ ?_
    · rintro (_ | frame) u ⟨hu, hsome⟩
      · exact absurd rfl hsome
      · exact answer_spec target frame (hu.1.trans ht.1) (hu.2.trans ht.2)
    · rintro e u ⟨hu, -⟩
      exact ⟨hu.1.trans ht.1, [_], .inl (hu.2.trans ht.2)⟩
  | succ n ih =>
    intro s
    unfold setModeAttempts
    rw [wp_bind]
    refine wp_mono (write_modeSet L target s) (fun _ t ht => ?_) (fun _ t ht => ⟨ht.1, [], .inr (.inl ⟨_, ht.2⟩)⟩)
    rw [wp_bind]
    refine wp_mono (untouched_awaitAnswer L timeout _ t) ?_ ?_
    · rintro (_ | frame) u hu
      · refine wp_mono (ih u) (fun _ v hv => ?_) (fun _ v hv => ?_)
        · exact ⟨hv.1.trans (hu.1.trans ht.1), hv.2.after_write (hu.2.trans ht.2)⟩
        · exact ⟨hv.1.trans (hu.1.trans ht.1), hv.2.after_write (hu.2.trans ht.2)⟩
      · exact answer_spec target frame (hu.1.trans ht.1) (hu.2.trans ht.2)
    · intro e u hu
      exact ⟨hu.1.trans ht.1, [_], .inl (hu.2.trans ht.2)⟩

theorem setMode_spec (target : UInt8) (ht : target = MODE_PASS ∨ target = MODE_RECORD ∨ target = MODE_ARMED)
    (timeout : Int) (s : Heap S σ) :
    wp (setMode L target.toNat timeout 1)
      (fun _ t => t.session = s.session ∧ HandshakeDone target s.history t.history)
      (fun _ t => t.session = s.session ∧ HandshakeFailed target s.history t.history) s := by
  have hm : setMode (S := S) L target.toNat timeout 1 = setModeAttempts L target timeout 2 := by
    rcases ht with rfl | rfl | rfl <;> rfl
  rw [hm]
  exact setModeAttempts_spec L target timeout 1 s

end Transport
end Handshake

end PiZero
end PicoRecorder
