import PicoRecorder.PiZero.Transport
/-!
# Waits — what an invariant of the stream survives

`Carries L I`: `I` holds of the frames that were read and not handed over, in wire order, and of the link, whatever the
link does next.  A wait takes one frame out of them; the frames it defers on the way stay where they were.
-/
namespace PicoRecorder
namespace PiZero

open Lib
open Pico (Frame MsgType)

variable {S σ α : Type} {L : Link σ}

def ReadResult.frames : ReadResult → List Frame
  | .data frames => frames
  | .invalid _ | .osError _ => []

structure Carries (L : Link σ) (I : List Frame → σ → Prop) : Prop where
  clock : ∀ {frames w}, I frames w → I frames (L.clock w).2
  cancelled : ∀ {frames w}, I frames w → I frames (L.cancelled w).2
  read : ∀ {frames w}, I frames w → I (frames ++ (L.read w).1.frames) (L.read w).2

variable {I : List Frame → σ → Prop}

/-- Frames in front of the others take no part in it. -/
theorem Carries.behind (hI : Carries L I) (deferred : List Frame) :
    Carries L (fun frames => I (deferred ++ frames)) where
  clock h := hI.clock h
  cancelled h := hI.cancelled h
  read h := by
    rw [← List.append_assoc]
    exact hI.read h

/-- How a wait raises: never as a rejection. -/
def Exn.Plain (e : Exn) : Prop := ∀ message, e ≠ .raised .modeRejected message

/-! ## The checks of a frame -/

/-- They raise a ProtocolError or a PicoError. -/
def Plain (c : Checked α) : Prop :=
  ∀ e, c = .error e → ∃ message, e = .raised .protocol message ∨ e = .raised .pico message

theorem plain_ok (a : α) : Plain (.ok a) := nofun

theorem plain_protocolError (message : String) : Plain (protocolError message : Checked α) := by
  rintro e ⟨⟩
  exact ⟨message, .inl rfl⟩

theorem plain_pico (message : String) : Plain (.error (.raised .pico message) : Checked α) := by
  rintro e ⟨⟩
  exact ⟨message, .inr rfl⟩

theorem plain_expectPayload (type : MsgType) (name : String) (length : Nat) (frame : Frame) :
    Plain (expectPayload type name length frame) := by
  unfold expectPayload
  split
  · exact plain_protocolError _
  split
  · exact plain_protocolError _
  · exact plain_ok _

theorem plain_bind {β : Type} {c : Checked α} {f : α → Checked β} (hc : Plain c) (hf : ∀ a, Plain (f a)) :
    Plain (c >>= f) := by
  cases c with
  | error e =>
    rintro e' ⟨⟩
    exact hc e rfl
  | ok a => exact hf a

theorem plain_validateModeChanged (frame : Frame) : Plain (validateModeChanged frame) := by
  refine plain_bind (plain_expectPayload _ _ _ _) (fun _ => ?_)
  dsimp only
  split
  · exact plain_protocolError _
  split
  · exact plain_protocolError _
  · exact plain_ok _

theorem plain_validatePicoStatus (frame : Frame) : Plain (validatePicoStatus frame) := by
  refine plain_bind (plain_expectPayload _ _ _ _) (fun _ => ?_)
  dsimp only
  split
  · exact plain_protocolError _
  split
  · exact plain_protocolError _
  · exact plain_ok _

theorem plain_requireNotError (frame : Frame) : Plain (requireNotError frame) := by
  unfold requireNotError
  split
  · exact plain_pico _
  split
  · cases hv : validatePicoStatus frame with
    | error e =>
      rintro e' ⟨⟩
      exact plain_validatePicoStatus frame e hv
    | ok status =>
      dsimp only
      split
      · exact plain_pico _
      · exact plain_ok _
  split
  · cases hv : validateModeChanged frame with
    | error e =>
      rintro e' ⟨⟩
      exact plain_validateModeChanged frame e hv
    | ok answer =>
      dsimp only
      split
      · exact plain_pico _
      · exact plain_ok _
  · exact plain_ok _

theorem plain_build (request : Request) : Plain request.build := by
  cases request with
  | queueEvent offsetUs report =>
    show Plain (encodeQueueEvent offsetUs report)
    unfold encodeQueueEvent encodeFrame
    split
    · exact plain_protocolError _
    split
    · exact plain_protocolError _
    split
    · exact plain_protocolError _
    split
    · exact plain_protocolError _
    · exact plain_ok _
  | queueClear => rw [Request.build_of_valid (r := .queueClear) trivial]; exact plain_ok _
  | queueEnd => rw [Request.build_of_valid (r := .queueEnd) trivial]; exact plain_ok _
  | playStart => rw [Request.build_of_valid (r := .playStart) trivial]; exact plain_ok _
  | playAbort => rw [Request.build_of_valid (r := .playAbort) trivial]; exact plain_ok _
  | modeSet target => rw [Request.build_of_valid (r := .modeSet target) trivial]; exact plain_ok _

theorem Plain.exn {c : Checked α} (hc : Plain c) {e : Exn} (he : c = .error e) :
    e.Plain ∧ ∀ message, e ≠ .raised .transportTimeout message := by
  obtain ⟨message, rfl | rfl⟩ := hc e he
  · exact ⟨nofun, nofun⟩
  · exact ⟨nofun, nofun⟩

theorem requireNotError_self {frame passed : Frame} (h : requireNotError frame = .ok passed) : passed = frame := by
  unfold requireNotError at h
  split at h
  · cases h
  split at h
  · cases hv : validatePicoStatus frame with
    | error e => rw [hv] at h; cases h
    | ok status =>
      rw [hv] at h
      dsimp only at h
      split at h <;> cases h
      rfl
  split at h
  · cases hv : validateModeChanged frame with
    | error e => rw [hv] at h; cases h
    | ok answer =>
      rw [hv] at h
      dsimp only at h
      split at h <;> cases h
      rfl
  · cases h
    rfl

theorem validateModeChanged_ok {frame : Frame} {answer : UInt8 × UInt8} (h : validateModeChanged frame = .ok answer) :
    answer = (frame.payload.getD 0 0, frame.payload.getD 1 0) := by
  unfold validateModeChanged at h
  cases hlength : expectPayload .modeChanged "MODE_CHANGED" 2 frame with
  | error e => rw [hlength] at h; cases h
  | ok _ =>
    rw [hlength] at h
    change (if _ then _ else if _ then _ else _ : Checked (UInt8 × UInt8)) = _ at h
    split at h
    · cases h
    split at h <;> cases h
    rfl

theorem wp_checked {c : Checked α} {Q : α → Heap S σ → Prop} {E : Exn → Heap S σ → Prop} {s : Heap S σ}
    (hok : ∀ a, c = .ok a → Q a s) (herror : ∀ e, c = .error e → E e s) : wp (checked c : Py S σ α) Q E s := by
  cases c with
  | ok a => exact hok a rfl
  | error e => exact herror e rfl

/-! ## The waits -/

/-- No frame was handed over, and none is missing. -/
structure Idled (I : List Frame → σ → Prop) (s : Heap S σ) (e : Exn) (t : Heap S σ) : Prop where
  untouched : Untouched s t
  plain : e.Plain
  kept : I t.pending t.link

/-- A frame of the given type was taken from behind frames of other types. -/
structure Taken (I : List Frame → σ → Prop) (type : MsgType) (s : Heap S σ) (frame : Frame) (t : Heap S σ) : Prop where
  untouched : Untouched s t
  passed : requireNotError frame = .ok frame
  ofType : frame.type = type.byte
  kept : ∃ deferred rest, t.pending = deferred ++ rest ∧ (∀ f ∈ deferred, f.type ≠ type.byte) ∧
    I (deferred ++ frame :: rest) t.link

/-- None was: after a timeout none is missing either. -/
structure Halted (I : List Frame → σ → Prop) (s : Heap S σ) (e : Exn) (t : Heap S σ) : Prop where
  untouched : Untouched s t
  plain : e.Plain
  kept : ∃ frames, I frames t.link
  timeout : (∃ message, e = .raised .transportTimeout message) → I t.pending t.link

theorem Idled.halted {s t : Heap S σ} {e : Exn} (h : Idled I s e t) : Halted I s e t :=
  ⟨h.untouched, h.plain, ⟨_, h.kept⟩, fun _ => h.kept⟩

variable (hI : Carries L I)
include hI

theorem clock_carries (s : Heap S σ) (h : I s.pending s.link) :
    wp (clock L) (fun _ t => Untouched s t ∧ I t.pending t.link) (fun _ _ => False) s := ⟨⟨rfl, rfl⟩, hI.clock h⟩

namespace Transport

omit hI in
theorem popPending_carries (s : Heap S σ) (h : I s.pending s.link) :
    wp (popPending : Py S σ (Option Frame)) (fun frame? t => Untouched s t ∧ I (frame?.toList ++ t.pending) t.link)
      (fun _ _ => False) s := by
  unfold wp popPending
  cases hpending : s.pending with
  | nil => exact ⟨⟨rfl, rfl⟩, by rw [hpending] at h ⊢; exact h⟩
  | cons frame pending =>
    rw [hpending] at h
    exact ⟨⟨rfl, rfl⟩, h⟩

theorem receiveLoop_carries (deadline : Int) : ∀ (k : Nat) (s : Heap S σ), I s.pending s.link →
    wp (receiveLoop L deadline k) (fun frame t => Untouched s t ∧ I (frame :: t.pending) t.link) (Idled I s) s
  | 0, s, h => ⟨.refl s, by rintro _ ⟨⟩, h⟩
  | k + 1, s, h => by
    unfold receiveLoop
    rw [wp_bind]
    show wp _ _ _ { s with link := (L.cancelled s.link).2 }
    split
    · exact ⟨⟨rfl, rfl⟩, by rintro _ ⟨⟩, hI.cancelled h⟩
    rw [wp_bind]
    show wp _ _ _ { s with link := (L.read (L.cancelled s.link).2).2 }
    have hread := hI.read (hI.cancelled h)
    cases hresult : (L.read (L.cancelled s.link).2).1 with
    | osError message =>
      rw [hresult, ReadResult.frames, List.append_nil] at hread
      exact ⟨⟨rfl, rfl⟩, by rintro _ ⟨⟩, hread⟩
    | invalid detail =>
      rw [hresult, ReadResult.frames, List.append_nil] at hread
      exact ⟨⟨rfl, rfl⟩, by rintro _ ⟨⟩, hread⟩
    | data frames =>
      rw [hresult] at hread
      dsimp only
      rw [wp_bind]
      show wp _ _ _ (Heap.mk (s.pending ++ frames) _ _ _)
      rw [wp_bind]
      refine wp_mono (popPending_carries ⟨s.pending ++ frames, s.session, _, s.history⟩ hread) ?_ (fun _ _ h => h.elim)
      rintro (_ | frame) t ⟨hu, ht⟩
      · dsimp only
        rw [wp_bind]
        refine wp_mono (clock_carries hI t ht) (fun now u hclock => ?_) (fun _ _ h => h.elim)
        have huntouched : Untouched s u := hu.trans _ _ _ hclock.1
        split
        · exact ⟨huntouched, by rintro _ ⟨⟩, hclock.2⟩
        · refine wp_mono (receiveLoop_carries deadline k u hclock.2) (fun frame v hv => ?_) (fun e v hv => ?_)
          · exact ⟨huntouched.trans _ _ _ hv.1, hv.2⟩
          · exact ⟨huntouched.trans _ _ _ hv.untouched, hv.plain, hv.kept⟩
      · exact ⟨hu, ht⟩

/-- **A frame is handed over from the front**, or none is missing. -/
theorem receiveFrame_carries (timeout : Int) (s : Heap S σ) (h : I s.pending s.link) :
    wp (receiveFrame L timeout) (fun frame t => Untouched s t ∧ I (frame :: t.pending) t.link) (Idled I s) s := by
  unfold receiveFrame
  rw [wp_bind]
  refine wp_mono (popPending_carries s h) ?_ nofun
  rintro (_ | frame) t ⟨hu, ht⟩
  · dsimp only
    rw [wp_bind]
    refine wp_mono (clock_carries hI t ht) (fun now u hclock => ?_) nofun
    have huntouched : Untouched s u := hu.trans _ _ _ hclock.1
    refine wp_mono (receiveLoop_carries hI _ _ u hclock.2) (fun frame v hv => ?_) (fun e v hv => ?_)
    · exact ⟨huntouched.trans _ _ _ hv.1, hv.2⟩
    · exact ⟨huntouched.trans _ _ _ hv.untouched, hv.plain, hv.kept⟩
  · exact ⟨hu, ht⟩

omit hI in
theorem awaitLoop_carries (type : MsgType) (deadline : Int) : ∀ {I : List Frame → σ → Prop}, Carries L I →
    ∀ (k : Nat) (s : Heap S σ), I s.pending s.link →
      wp (awaitLoop L type deadline k) (Taken I type s) (Halted I s) s
  | I, hI, 0, s, h => ⟨.refl s, by rintro _ ⟨⟩, ⟨_, h⟩, by rintro ⟨_, ⟨⟩⟩⟩
  | I, hI, k + 1, s, h => by
    unfold awaitLoop
    rw [wp_bind]
    refine wp_mono (clock_carries hI s h) (fun now t ht => ?_) (fun _ _ h => h.elim)
    dsimp only
    split
    · exact ⟨ht.1, by rintro _ ⟨⟩, ⟨_, ht.2⟩, fun _ => ht.2⟩
    rw [wp_bind]
    refine wp_mono (receiveFrame_carries hI _ t ht.2) (fun frame u hu => ?_) (fun e u hu => ?_)
    · have huntouched : Untouched s u := ht.1.trans _ _ _ hu.1
      rw [wp_bind]
      refine wp_checked (fun passed hpassed => ?_) (fun e he => ?_)
      · obtain rfl := requireNotError_self hpassed
        by_cases htype : passed.type = type.byte
        · rw [if_neg (not_not.2 htype)]
          exact ⟨huntouched, hpassed, htype, [], u.pending, rfl, by simp, hu.2⟩
        · rw [if_pos htype, wp_ensuring]
          refine wp_mono (awaitLoop_carries type deadline (hI.behind [passed]) k u hu.2) (fun frame v hv => ?_)
            (fun e v hv => ?_)
          · obtain ⟨deferred, rest, hpending, hdeferred, hkept⟩ := hv.kept
            refine ⟨huntouched.trans _ _ _ hv.untouched, hv.passed, hv.ofType, passed :: deferred, rest, ?_, ?_, hkept⟩
            · exact congrArg (passed :: ·) hpending
            · exact List.forall_mem_cons.2 ⟨htype, hdeferred⟩
          · obtain ⟨frames, hkept⟩ := hv.kept
            refine ⟨?_, hv.plain, ?_, fun htimeout => ?_⟩
            · have := huntouched.trans _ _ _ hv.untouched
              split <;> exact this
            · refine ⟨passed :: frames, ?_⟩
              split <;> exact hkept
            · have := hv.timeout htimeout
              obtain ⟨message, rfl⟩ := htimeout
              exact this
      · obtain ⟨hplain, htimeout⟩ := (plain_requireNotError frame).exn he
        refine ⟨huntouched, hplain, ⟨_, hu.2⟩, ?_⟩
        rintro ⟨message, hm⟩
        exact absurd hm (htimeout message)
    · have hhalted := hu.halted
      exact ⟨ht.1.trans _ _ _ hhalted.untouched, hhalted.plain, hhalted.kept, hhalted.timeout⟩

/-- **A wait for a type** takes the first frame of it. -/
theorem awaitFrame_carries (type : MsgType) (timeout : Int) (s : Heap S σ) (h : I s.pending s.link) :
    wp (awaitFrame L type timeout) (Taken I type s) (Halted I s) s := by
  unfold awaitFrame
  rw [wp_bind]
  refine wp_mono (clock_carries hI s h) (fun now t ht => ?_) nofun
  refine wp_mono (awaitLoop_carries type _ hI _ t ht.2) (fun frame u hu => ?_) (fun e u hu => ?_)
  · exact ⟨ht.1.trans _ _ _ hu.untouched, hu.passed, hu.ofType, hu.kept⟩
  · exact ⟨ht.1.trans _ _ _ hu.untouched, hu.plain, hu.kept, hu.timeout⟩

/-! ## Writing, and the handshake -/

omit hI in
/-- What a written request leaves behind. -/
def Wrote (L : Link σ) (request : Request) (s t : Heap S σ) : Prop :=
  request.Valid ∧ ∃ whole,
    t = ⟨s.pending, s.session, (L.write (Pico.encode request.frame) s.link).2,
      .wrote request whole s.pending :: s.history⟩

omit hI in
theorem write_wrote (request : Request) (s : Heap S σ) :
    wp (write L request) (fun _ t => Wrote L request s t)
      (fun e t => e.leaves = true ∧ (t = s ∨ Wrote L request s t)) s := by
  unfold write
  rw [wp_bind]
  refine wp_checked (fun data hdata => ?_) (fun e he => ?_)
  · have hvalid := Request.valid_of_build hdata
    obtain rfl := Except.ok.inj (hdata.symm.trans (Request.build_of_valid hvalid))
    rw [wp_bind]
    have hwrote : ∀ whole, Wrote L request s (Heap.mk s.pending s.session
        (L.write (Pico.encode request.frame) s.link).2 (.wrote request whole s.pending :: s.history)) :=
      fun whole => ⟨hvalid, whole, rfl⟩
    show wp _ _ _ (Heap.mk s.pending s.session (L.write (Pico.encode request.frame) s.link).2
      (.wrote request _ s.pending :: s.history))
    split
    · exact ⟨rfl, .inr (hwrote _)⟩
    · exact hwrote _
    · split
      · exact ⟨rfl, .inr (hwrote _)⟩
      · exact hwrote _
  · obtain ⟨message, rfl | rfl⟩ := plain_build request e he
    · exact ⟨rfl, .inl rfl⟩
    · exact ⟨rfl, .inl rfl⟩

/-- **A handshake keeps an invariant** that its requests keep and that does not depend on the MODE_CHANGEDs. -/
theorem setModeAttempts_carries (target : UInt8) (timeout : Int)
    (hwrite : ∀ {frames w}, I frames w → I frames (L.write (Pico.encode (Request.modeSet target).frame) w).2)
    (hdrop : ∀ {before : List Frame} {frame : Frame} {after : List Frame} {w},
      frame.type = MsgType.modeChanged.byte → I (before ++ frame :: after) w → I (before ++ after) w) :
    ∀ (n : Nat) (s : Heap S σ), I s.pending s.link →
      wp (setModeAttempts L target timeout n) (fun _ t => I t.pending t.link) (fun _ t => ∃ frames, I frames t.link) s
  | 0, s, h => h
  | n + 1, s, h => by
    unfold setModeAttempts
    rw [wp_bind]
    refine wp_mono (write_wrote (.modeSet target) s) (fun _ t ht => ?_) (fun e t ht => ?_)
    · obtain ⟨-, whole, rfl⟩ := ht
      rw [wp_bind]
      unfold awaitAnswer
      rw [wp_catching, wp_bind]
      refine wp_mono (awaitFrame_carries hI .modeChanged timeout _ (hwrite h)) (fun frame u hu => ?_) (fun e u hu => ?_)
      · obtain ⟨deferred, rest, hpending, -, hkept⟩ := hu.kept
        have hrest : I u.pending u.link := by
          rw [hpending]
          exact hdrop hu.ofType hkept
        rw [wp_pure, wp_bind]
        refine wp_checked (fun answer _ => ?_) (fun _ _ => ⟨_, hrest⟩)
        dsimp only
        rw [wp_bind]
        show wp _ _ _ (u.note _)
        split
        · exact hrest
        · exact ⟨_, hrest⟩
      · cases e with
        | suspended => exact hu.kept
        | raised kind message =>
          cases kind
          case transportTimeout =>
            show wp (if _ then _ else _) _ _ u
            split
            · exact hu.kept
            · exact setModeAttempts_carries target timeout hwrite hdrop n u (hu.timeout ⟨message, rfl⟩)
          all_goals exact hu.kept
    · rcases ht.2 with rfl | ⟨-, whole, rfl⟩
      · exact ⟨_, h⟩
      · exact ⟨_, hwrite h⟩

theorem setMode_carries (target : Int) (timeout retries : Int)
    (hwrite : ∀ {frames w}, I frames w →
      I frames (L.write (Pico.encode (Request.modeSet (UInt8.ofNat target.toNat)).frame) w).2)
    (hdrop : ∀ {before : List Frame} {frame : Frame} {after : List Frame} {w},
      frame.type = MsgType.modeChanged.byte → I (before ++ frame :: after) w → I (before ++ after) w)
    (s : Heap S σ) (h : I s.pending s.link) :
    wp (setMode L target timeout retries) (fun _ t => I t.pending t.link) (fun _ t => ∃ frames, I frames t.link) s := by
  unfold setMode
  split
  · exact ⟨_, h⟩
  split
  · exact ⟨_, h⟩
  · exact setModeAttempts_carries hI _ timeout hwrite hdrop _ s h

end Transport
end PiZero
end PicoRecorder
