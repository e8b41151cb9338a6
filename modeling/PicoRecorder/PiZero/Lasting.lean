import PicoRecorder.PiZero.Sequence
/-!
# Lasting — what a playback cannot break

An invariant of what was written, of the frames read and not handed over, and of the link, that survives whatever the
link does, whatever frame is handed over and whatever request is written, holds throughout `play`; and where `play`
returns, a PLAY_FINISHED was handed over.
-/
namespace PicoRecorder
namespace PiZero
namespace Playback

open Lib
open Pico (Frame MsgType)

variable {σ : Type}

structure Lasting (L : Link σ) (I : List Request → List Frame → σ → Prop) : Prop where
  carries : ∀ requests, Carries L (I requests)
  take : ∀ {requests} {before : List Frame} {frame : Frame} {after : List Frame} {w},
    I requests (before ++ frame :: after) w → I requests (before ++ after) w
  write : ∀ {requests frames w} {r : Request}, r.Valid → I requests frames w →
    I (requests ++ [r]) frames (L.write (Pico.encode r.frame) w).2

def Holds (I : List Request → List Frame → σ → Prop) (s : Heap Playback σ) : Prop := I s.requests s.pending s.link

/-- With some frames: where a call raises, a frame may be missing. -/
def Held (I : List Request → List Frame → σ → Prop) (s : Heap Playback σ) : Prop := ∃ frames, I s.requests frames s.link

variable {L : Link σ} {I J : List Request → List Frame → σ → Prop} {α β : Type} {s t : Heap Playback σ}

theorem Holds.held (h : Holds I s) : Held I s := ⟨_, h⟩

theorem requests_untouched (h : Untouched s t) : t.requests = s.requests := by rw [Heap.requests, Heap.requests, h.2]

/-- The program keeps it. -/
def Lasts (I : List Request → List Frame → σ → Prop) (m : Py Playback σ α) : Prop :=
  ∀ s, Holds I s → wp m (fun _ => Holds I) (fun _ => Held I) s

theorem Lasts.bind {m : Py Playback σ β} {f : β → Py Playback σ α} (hm : Lasts I m) (hf : ∀ b, Lasts I (f b)) :
    Lasts I (m >>= f) := fun s hs => by
  rw [wp_bind]
  exact wp_mono (hm s hs) (fun b t ht => hf b t ht) (fun _ _ ht => ht)

theorem lasts_pure (a : α) : Lasts I (pure a : Py Playback σ α) := fun _ hs => hs

theorem lasts_throw (e : Exn) : Lasts I (throw e : Py Playback σ α) := fun _ hs => hs.held

theorem lasts_raise (kind : ErrorKind) (message : String) : Lasts I (raise kind message : Py Playback σ α) :=
  fun _ hs => hs.held

theorem lasts_checked (c : Checked α) : Lasts I (checked c : Py Playback σ α) := by
  cases c with
  | ok a => exact lasts_pure a
  | error e => exact lasts_throw e

theorem lasts_session : Lasts I (session : Py Playback σ Playback) := fun _ hs => hs

theorem lasts_update (f : Playback → Playback) : Lasts I (updateSession f : Py Playback σ Unit) := fun _ hs => hs

theorem lasts_note {act : Heap Playback σ → Act} (hact : ∀ h, (act h).request? = none) :
    Lasts I (modify (fun h => h.note (act h)) : Py Playback σ Unit) := fun s hs => by
  change I (Heap.requests (s.note (act s))) s.pending s.link
  have hrequests : Heap.requests (s.note (act s)) = s.requests := by simp [Heap.requests, Heap.note, hact]
  rw [hrequests]
  exact hs

theorem lasts_discard {m : Py Playback σ α} (h : Lasts I m) : Lasts I (discard m) := h.bind (fun _ => lasts_pure _)

section Calls

variable (hI : Lasting L I)
include hI

theorem lasts_write (request : Request) : Lasts I (Transport.write L request : Py Playback σ Unit) := fun s hs => by
  have hwrote : ∀ {t : Heap Playback σ}, Transport.Wrote L request s t → Holds I t := by
    rintro _ ⟨hvalid, whole, rfl⟩
    have hrequests : Heap.requests (⟨s.pending, s.session, (L.write (Pico.encode request.frame) s.link).2,
        .wrote request whole s.pending :: s.history⟩ : Heap Playback σ) = s.requests ++ [request] := by
      simp [Heap.requests, Act.request?]
    unfold Holds
    rw [hrequests]
    exact hI.write hvalid hs
  refine wp_mono (Transport.write_wrote request s) (fun _ t ht => hwrote ht) (fun e t ht => ?_)
  rcases ht.2 with rfl | ht
  · exact hs.held
  · exact (hwrote ht).held

theorem lasts_clock : Lasts I (clock L : Py Playback σ Int) := fun _ hs => (hI.carries _).clock hs

theorem lasts_remaining (timeout : Option Int) : Lasts I (remaining L timeout) := by
  unfold remaining
  cases timeout with
  | some timeout => exact lasts_pure _
  | none =>
    refine lasts_session.bind (fun p => (lasts_clock hI).bind (fun now => ?_))
    dsimp only
    split
    · exact lasts_raise _ _
    · exact lasts_pure _

/-- A frame that a wait took was there, and the others still are. -/
theorem awaitFrame_lasts (type : MsgType) (timeout : Int) (s : Heap Playback σ) (hs : Holds I s) :
    wp (Transport.awaitFrame L type timeout) (fun frame t => frame.type = type.byte ∧ Holds I t ∧
      ∃ before after, I t.requests (before ++ frame :: after) t.link)
      (fun e t => Held I t ∧ ((∃ message, e = .raised .transportTimeout message) → Holds I t)) s := by
  refine wp_mono (Transport.awaitFrame_carries (hI.carries s.requests) type timeout s hs) (fun frame t ht => ?_)
    (fun e t ht => ?_)
  · obtain ⟨before, after, hpending, -, hkept⟩ := ht.kept
    rw [← requests_untouched ht.untouched] at hkept
    refine ⟨ht.ofType, ?_, before, after, hkept⟩
    unfold Holds
    rw [hpending]
    exact hI.take hkept
  · obtain ⟨frames, hkept⟩ := ht.kept
    have htimeout := ht.timeout
    rw [← requests_untouched ht.untouched] at hkept htimeout
    exact ⟨⟨frames, hkept⟩, htimeout⟩

theorem lasts_awaitFrame (type : MsgType) (timeout : Int) :
    Lasts I (Transport.awaitFrame L type timeout : Py Playback σ Frame) := fun s hs =>
  wp_mono (awaitFrame_lasts hI type timeout s hs) (fun _ _ ht => ht.2.1) (fun _ _ ht => ht.1)

theorem lasts_awaitAnswer (timeout : Int) (last : Bool) :
    Lasts I (Transport.awaitAnswer L timeout last : Py Playback σ (Option Frame)) := fun s hs => by
  unfold Transport.awaitAnswer
  rw [wp_catching, wp_bind]
  refine wp_mono (awaitFrame_lasts hI .modeChanged timeout s hs) (fun frame t ht => ht.2.1) (fun e t ht => ?_)
  cases e with
  | suspended => exact ht.1
  | raised kind message =>
    cases kind
    case transportTimeout =>
      have hkept := ht.2 ⟨message, rfl⟩
      cases last with
      | true => exact hkept.held
      | false => exact hkept
    all_goals exact ht.1

theorem lasts_setModeAttempts (target : UInt8) (timeout : Int) : ∀ n,
    Lasts I (Transport.setModeAttempts L target timeout n : Py Playback σ Unit)
  | 0 => lasts_pure _
  | n + 1 => by
    unfold Transport.setModeAttempts
    refine (lasts_write hI _).bind (fun _ => (lasts_awaitAnswer hI timeout _).bind (fun answer => ?_))
    cases answer with
    | none => exact lasts_setModeAttempts target timeout n
    | some frame =>
      refine (lasts_checked _).bind (fun answer => (lasts_note (fun _ => rfl)).bind (fun _ => ?_))
      split
      · exact lasts_pure _
      · exact lasts_raise _ _

theorem lasts_setMode (target timeout retries : Int) :
    Lasts I (Transport.setMode L target timeout retries : Py Playback σ Unit) := by
  unfold Transport.setMode
  split
  · exact lasts_raise _ _
  split
  · exact lasts_raise _ _
  · exact lasts_setModeAttempts hI _ timeout _

/-- Frames put in front of the others stay there. -/
theorem Lasting.behind (deferred : List Frame) :
    Lasting L (fun requests frames w => I requests (deferred ++ frames) w) where
  carries requests := (hI.carries requests).behind deferred
  take h := by
    rw [← List.append_assoc] at h ⊢
    exact hI.take h
  write hvalid h := hI.write hvalid h

end Calls

theorem lasts_awaitCredit (expectedState : UInt8) :
    ∀ (n : Nat) {I : List Request → List Frame → σ → Prop}, Lasting L I → Lasts I (awaitCredit L expectedState n)
  | 0, _, _ => lasts_throw _
  | n + 1, I, hI => by
    intro s hs
    unfold awaitCredit
    rw [wp_bind]
    refine wp_mono (lasts_remaining hI none s hs) (fun timeout t ht => ?_) (fun _ _ he => he)
    rw [wp_bind]
    refine wp_mono (Transport.receiveFrame_carries (hI.carries t.requests) timeout t ht) (fun frame u hu => ?_)
      (fun e u hu => ?_)
    · have hframe : I u.requests ([] ++ frame :: u.pending) u.link := by
        rw [requests_untouched hu.1]
        exact hu.2
      have hrest : Holds I u := hI.take hframe
      have hagain := lasts_awaitCredit expectedState n hI
      rw [wp_bind]
      refine wp_checked (fun passed hpassed => ?_) (fun e _ => hrest.held)
      obtain rfl := requireNotError_self hpassed
      split
      · refine (lasts_checked _).bind (fun status => ?_) u hrest
        split
        split
        · exact lasts_raise _ _
        split
        · exact lasts_pure _
        · exact hagain
      split
      · refine (lasts_checked _).bind (fun underrun => ?_) u hrest
        split
        refine (lasts_update _).bind (fun _ => ?_)
        split
        · exact lasts_pure _
        · exact hagain
      · rw [wp_ensuring]
        refine wp_mono (lasts_awaitCredit expectedState n (hI.behind [passed]) u hframe) (fun _ v hv => hv)
          (fun e v hv => ?_)
        obtain ⟨frames, hkept⟩ := hv
        refine ⟨[passed] ++ frames, ?_⟩
        split <;> exact hkept
    · refine ⟨u.pending, ?_⟩
      rw [requests_untouched hu.untouched]
      exact hu.kept

section Session

variable (hI : Lasting L I)
include hI

theorem lasts_sendEvents : ∀ events, Lasts I (sendEvents L events)
  | [] => lasts_pure _
  | (_, _) :: events => (lasts_write hI _).bind (fun _ => lasts_sendEvents events)

theorem lasts_awaitAcks (expectedState : UInt8) : ∀ n, Lasts I (awaitAcks L expectedState n)
  | 0 => lasts_pure _
  | n + 1 => by
    unfold awaitAcks
    refine (lasts_remaining hI none).bind (fun _ => (lasts_awaitFrame hI _ _).bind (fun frame => ?_))
    refine (lasts_note (fun _ => rfl)).bind (fun _ => (lasts_checked _).bind (fun status => ?_))
    split
    split
    · exact lasts_raise _ _
    · exact (lasts_update _).bind (fun _ => lasts_awaitAcks expectedState n)

theorem lasts_refill (expectedState : UInt8) : Lasts I (refill L expectedState) := by
  unfold refill
  refine lasts_session.bind (fun p => ?_)
  split
  · refine (lasts_note (fun _ => rfl)).bind (fun _ => (lasts_awaitCredit expectedState _ hI).bind (fun _ => ?_))
    exact (lasts_note (fun _ => rfl)).bind (fun _ => lasts_update _)
  · exact lasts_pure _

theorem lasts_sendThrough (stop : Nat) (expectedState : UInt8) : ∀ n, Lasts I (sendThrough L stop expectedState n)
  | 0 => lasts_throw _
  | n + 1 => by
    unfold sendThrough
    refine lasts_session.bind (fun p => ?_)
    split
    · refine (lasts_refill hI expectedState).bind (fun _ => lasts_session.bind (fun p => ?_))
      refine (lasts_sendEvents hI _).bind (fun _ => (lasts_awaitAcks hI expectedState _).bind (fun _ => ?_))
      exact (lasts_update _).bind (fun _ => lasts_sendThrough stop expectedState n)
    · exact lasts_pure _

theorem lasts_awaitQueueAck (command : String) : Lasts I (awaitQueueAck L command) := by
  unfold awaitQueueAck
  refine (lasts_remaining hI none).bind (fun _ => (lasts_awaitFrame hI _ _).bind (fun frame => ?_))
  refine (lasts_checked _).bind (fun status => ?_)
  split
  split
  · exact lasts_raise _ _
  · exact lasts_update _

theorem lasts_closeSequence : Lasts I (closeSequence L) := by
  unfold closeSequence
  refine lasts_session.bind (fun p => ?_)
  split
  · refine (lasts_write hI _).bind (fun _ => (lasts_remaining hI none).bind (fun _ => ?_))
    exact (lasts_discard (lasts_awaitFrame hI _ _)).bind (fun _ => lasts_awaitQueueAck hI _)
  · exact lasts_pure _

theorem lasts_startRun : Lasts I (startRun L) := by
  unfold startRun
  refine (lasts_write hI _).bind (fun _ => (lasts_remaining hI none).bind (fun _ => ?_))
  refine (lasts_awaitFrame hI _ _).bind (fun frame => (lasts_checked _).bind (fun answer => ?_))
  split
  split
  · exact lasts_raise _ _
  · refine (lasts_remaining hI none).bind (fun _ => (lasts_awaitFrame hI _ _).bind (fun frame => ?_))
    exact lasts_checked _

theorem lasts_prepare : Lasts I (prepare L) := by
  unfold prepare
  refine (lasts_clock hI).bind (fun now => (lasts_update _).bind (fun _ => (lasts_write hI _).bind (fun _ => ?_)))
  refine (lasts_awaitQueueAck hI _).bind (fun _ => lasts_session.bind (fun p => ?_))
  split
  · exact lasts_raise _ _
  · refine (lasts_sendThrough hI _ _ _).bind (fun _ => (lasts_closeSequence hI).bind (fun _ => ?_))
    exact lasts_startRun hI

theorem lasts_start : Lasts I (start L) := by
  unfold start
  refine lasts_session.bind (fun p => lasts_session.bind (fun q => ?_))
  split
  · exact lasts_raise _ _
  · refine lasts_session.bind (fun p => (lasts_setMode hI _ _ _).bind (fun _ => (lasts_update _).bind (fun _ => ?_)))
    exact (lasts_prepare hI).bind (fun _ => (lasts_update _).bind (fun _ => lasts_pure _))

theorem lasts_feedRest : Lasts I (feedRest L) := by
  unfold feedRest
  refine lasts_session.bind (fun p => ?_)
  split
  · exact (lasts_sendThrough hI _ _ _).bind (fun _ => lasts_write hI _)
  · exact lasts_pure _

theorem lasts_drainPendingFrames : Lasts I (Transport.drainPendingFrames : Py Playback σ (List Frame)) := fun s hs => by
  have hnone : ∀ frames : List Frame, I s.requests frames s.link → I s.requests [] s.link := by
    intro frames
    induction frames with
    | nil => exact id
    | cons frame frames ih => exact fun h => ih (hI.take (show I s.requests ([] ++ frame :: frames) s.link from h))
  exact hnone s.pending hs

omit hI in
theorem lasts_collectFrame (frame : Frame) : Lasts I (collectFrame frame : Py Playback σ Unit) := by
  unfold collectFrame
  refine (lasts_checked _).bind (fun frame => ?_)
  split
  · exact (lasts_checked _).bind (fun _ => lasts_update _)
  split
  · exact lasts_discard (lasts_checked _)
  · exact lasts_pure _

omit hI in
theorem lasts_collectDiagnostics : ∀ frames, Lasts I (collectDiagnostics frames : Py Playback σ Unit)
  | [] => lasts_pure _
  | frame :: frames => (lasts_collectFrame frame).bind (fun _ => lasts_collectDiagnostics frames)

theorem lasts_returnPass (returnToPass : Bool) : Lasts I (returnPass L returnToPass) := by
  unfold returnPass
  split
  · exact lasts_session.bind (fun p => (lasts_setMode hI _ _ _).bind (fun _ => lasts_update _))
  · exact lasts_pure _

/-- **Where an outcome is returned, its frame was handed over.** -/
theorem awaitOutcome_lasts (hJ : Lasting L J) {outcomeType : MsgType}
    (houtcome : ∀ {requests before} {frame : Frame} {after w}, frame.type = outcomeType.byte →
      I requests (before ++ frame :: after) w → J requests (before ++ after) w)
    (expectedReason : UInt8) (outcome : String) (timeout : Option Int) (s : Heap Playback σ) (hs : Holds I s) :
    wp (awaitOutcome L outcomeType expectedReason outcome timeout) (fun _ => Holds J) (fun _ t => Held I t ∨ Held J t)
      s := by
  unfold awaitOutcome
  rw [wp_bind]
  refine wp_mono (lasts_remaining hI timeout s hs) (fun wait t ht => ?_) (fun _ _ he => .inl he)
  rw [wp_bind, wp_discard]
  refine wp_mono (Transport.awaitFrame_carries (hI.carries t.requests) outcomeType wait t ht) (fun frame u hu => ?_)
    (fun e u hu => ?_)
  · have houtcome : Holds J u := by
      obtain ⟨before, after, hpending, -, hkept⟩ := hu.kept
      unfold Holds
      rw [hpending, requests_untouched hu.untouched]
      exact houtcome hu.ofType hkept
    have hrest : ∀ {γ : Type} {m : Py Playback σ γ}, Lasts J m →
        wp m (fun _ => Holds J) (fun _ t => Held I t ∨ Held J t) u :=
      fun hm => wp_mono (hm u houtcome) (fun _ _ ht => ht) (fun _ _ ht => .inr ht)
    refine hrest ((lasts_remaining hJ timeout).bind (fun _ => (lasts_awaitFrame hJ _ _).bind (fun frame => ?_)))
    refine (lasts_checked _).bind (fun metrics => (lasts_remaining hJ timeout).bind (fun _ => ?_))
    refine (lasts_awaitFrame hJ _ _).bind (fun frame => (lasts_checked _).bind (fun answer => ?_))
    split
    split
    · exact lasts_raise _ _
    · refine (lasts_drainPendingFrames hJ).bind (fun frames => (lasts_collectDiagnostics frames).bind (fun _ => ?_))
      exact lasts_session.bind (fun _ => lasts_pure _)
  · obtain ⟨frames, hkept⟩ := hu.kept
    rw [← requests_untouched hu.untouched] at hkept
    exact .inl ⟨frames, hkept⟩

/-- **A playback that returns was told PLAY_FINISHED**, and breaks nothing that lasts, however it ends. -/
theorem play_lasts (hJ : Lasting L J)
    (hfinished : ∀ {requests before} {frame : Frame} {after w}, frame.type = MsgType.playFinished.byte →
      I requests (before ++ frame :: after) w → J requests (before ++ after) w)
    (returnToPass : Bool) (s : Heap Playback σ) (hs : Holds I s) :
    wp (play L returnToPass) (fun _ => Holds J) (fun _ t => Held I t ∨ Held J t) s := by
  have hkeeps : ∀ {γ : Type} {m : Py Playback σ γ} {f : γ → Py Playback σ PlaybackResult} {t : Heap Playback σ},
      Lasts I m → Holds I t → (∀ c u, Holds I u → wp (f c) (fun _ => Holds J) (fun _ t => Held I t ∨ Held J t) u) →
        wp (m >>= f) (fun _ => Holds J) (fun _ t => Held I t ∨ Held J t) t := by
    intro γ m f t hm ht hf
    rw [wp_bind]
    exact wp_mono (hm t ht) hf (fun _ _ he => .inl he)
  unfold play
  refine hkeeps (lasts_start hI) hs (fun _ t ht => ?_)
  unfold finish
  rw [wp_bind, wp_session]
  split
  · exact .inl ht.held
  split
  · exact .inl ht.held
  refine hkeeps (lasts_feedRest hI) ht (fun _ u hu => ?_)
  rw [wp_bind]
  refine wp_mono (awaitOutcome_lasts hI hJ hfinished _ _ _ u hu) (fun result v hv => ?_) (fun _ _ he => he)
  have hend : Lasts J (do
      updateSession (fun p => { p with playing := false, armed := true })
      returnPass L returnToPass
      updateSession (fun p => { p with finished := true })
      pure result) :=
    (lasts_update _).bind (fun _ =>
      (lasts_returnPass hJ _).bind (fun _ => (lasts_update _).bind (fun _ => lasts_pure _)))
  exact wp_mono (hend v hv) (fun _ _ ht => ht) (fun _ _ ht => .inr ht)

end Session

end Playback
end PiZero
end PicoRecorder
