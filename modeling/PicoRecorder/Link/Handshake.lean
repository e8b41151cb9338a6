import PicoRecorder.Pico.Firmware
import PicoRecorder.PiZero.Waits
/-!
# Handshake — `set_mode` against the Pico's mode machine

The two channels keep the order and lose nothing; how long they take, when the Pico runs and when it faults is a script,
one `Turn` for each time the Zero looks at its stream, its clock or its cancellation hook.  Every MODE_SET carries the
call that wrote it, as a history variable: the frames themselves carry nothing that tells one answer from another.
-/
namespace PicoRecorder
namespace Link

open Lib
open Pico (Mode Reason MsgType Frame)
open PiZero

/-- `pico_mode_state_handle_mode_set`, by the mode and the notification it comes to. -/
def modeSet (mode : Mode) (target : UInt8) : Bool × Mode × Reason :=
  if target > Mode.armed.byte then (false, mode, .invalidTarget)
  else if target = Mode.pass.byte then (true, .pass, .ok)
  else if target = mode.byte then (true, mode, .ok)
  else if (target = Mode.record.byte ∨ target = Mode.armed.byte) ∧ mode = .pass then (true, Pico.targetMode target, .ok)
  else (false, mode, .invalidTransition)

/-- The mode after `enter_error`. -/
def modeFault (mode : Mode) : Mode := if mode = .pass then .pass else .error

/-- It accepts what it answers with the target and OK. -/
theorem modeSet_accepted (mode : Mode) (target : UInt8) :
    (modeSet mode target).1 =
      decide ((modeSet mode target).2.1.byte = target ∧ (modeSet mode target).2.2.byte = REASON_OK) := by
  unfold modeSet
  split
  · exact (decide_eq_false (fun h => absurd h.2 (show ¬Reason.invalidTarget.byte = REASON_OK by decide))).symm
  split
  · rename_i h
    exact (decide_eq_true ⟨h.symm, rfl⟩).symm
  split
  · rename_i h
    exact (decide_eq_true ⟨h.symm, rfl⟩).symm
  split
  · rename_i h
    refine (decide_eq_true ⟨?_, rfl⟩).symm
    rcases h.1 with rfl | rfl <;> rfl
  · exact (decide_eq_false (fun h => absurd h.2 (show ¬Reason.invalidTransition.byte = REASON_OK by decide))).symm

theorem decode_modeSet (target : UInt8) :
    Pico.decodeFrame (Pico.encode (Request.modeSet target).frame) = .ok (Request.modeSet target).frame :=
  Pico.decodeFrame_frameBytes _ _ (by simp [Request.frame, Pico.protocolMaxPayload])

/-- The firmware's mode machine is this one: what it answers, the mode it is in, the frame it sends. -/
theorem handleModeSet_eq {β : Type} (d : Pico.Board β) (target : UInt8) (m : Pico.Fw β) :
    (Pico.handleModeSet d target m).1 = (modeSet m.rest.mode target).1 ∧
      (Pico.handleModeSet d target m).2.rest.mode = (modeSet m.rest.mode target).2.1 ∧
      ∃ queued, (Pico.handleModeSet d target m).2.rest.trace.head? =
        some (.frame (.modeChanged (modeSet m.rest.mode target).2.1 (modeSet m.rest.mode target).2.2) queued) := by
  unfold Pico.handleModeSet modeSet
  split
  · exact ⟨rfl, rfl, _, rfl⟩
  split
  · split
    · exact ⟨rfl, rfl, _, rfl⟩
    · rename_i hpass
      refine ⟨rfl, not_not.1 hpass, (m.rest.queueFrame d (.modeChanged m.rest.mode .ok)).1, ?_⟩
      rw [← not_not.1 hpass]
      rfl
  split
  · exact ⟨rfl, rfl, _, rfl⟩
  split
  · exact ⟨rfl, rfl, _, rfl⟩
  · exact ⟨rfl, rfl, _, rfl⟩

theorem enterError_eq {β : Type} (d : Pico.Board β) (reason : Reason) (m : Pico.Fw β) :
    (Pico.enterError d reason m).rest.mode = modeFault m.rest.mode ∧
      ∃ queued, (Pico.enterError d reason m).rest.trace.head? =
        some (.frame (.modeChanged (modeFault m.rest.mode) reason) queued) := by
  unfold Pico.enterError modeFault
  by_cases hpass : m.rest.mode = .pass
  · rw [if_neg (by simp [hpass]), if_pos hpass]
    refine ⟨hpass, (m.rest.queueFrame d (.modeChanged m.rest.mode reason)).1, ?_⟩
    rw [← hpass]
    rfl
  · rw [if_neg hpass]
    by_cases herror : m.rest.mode = .error
    · rw [if_neg (by simp [herror])]
      refine ⟨herror, (m.rest.queueFrame d (.modeChanged m.rest.mode reason)).1, ?_⟩
      rw [← herror]
      rfl
    · rw [if_pos ⟨hpass, herror⟩]
      exact ⟨rfl, _, rfl⟩

/-! ## The two parties and the channels -/

inductive PicoMove where
  /-- The next command arrives and is answered. -/
  | receive
  | fault (reason : Reason)
  /-- Any frame but a MODE_CHANGED. -/
  | send (frame : Frame)

/-- What happens before, and what is found, when the Zero turns to the world. -/
structure Turn where
  moves : List PicoMove
  now : Int
  cancel : Bool
  deliver : Nat

structure World where
  script : List Turn
  mode : Mode
  /-- On the way to the Pico, each with the call that wrote it, and on the way to the Zero. -/
  down : List (Nat × List UInt8)
  up : List Frame
  /-- History variables: the call under way, the MODE_SETs handled, with their calls; whether a MODE_CHANGED is on its
  way; whether in this call one came first that does not answer it. -/
  call : Nat
  handled : List (Nat × UInt8 × Bool)
  ahead : Bool
  strayed : Bool

namespace World

/-- A MODE_CHANGED, the answer to a MODE_SET of the call under way or not. -/
def say (own : Bool) (mode : Mode) (reason : Reason) (w : World) : World :=
  { w with
    up := w.up ++ [(Pico.PicoMsg.modeChanged mode reason).toFrame]
    ahead := true
    strayed := w.strayed || (!own && !w.ahead && mode ≠ .error) }

def move (w : World) : PicoMove → World
  | .receive =>
    match w.down with
    | [] => w
    | (call, bytes) :: down =>
      match Pico.decodeFrame bytes with
      | .error _ => { w with down := down }
      | .ok frame =>
        let target := frame.payload.getD 0 0
        let answer := modeSet w.mode target
        { w with down := down, mode := answer.2.1, handled := (call, target, answer.1) :: w.handled }.say
          (call = w.call) answer.2.1 answer.2.2
  | .fault reason =>
    if reason.isFault then { w with mode := modeFault w.mode }.say false (modeFault w.mode) reason else w
  | .send frame => if frame.type = MsgType.modeChanged.byte then w else { w with up := w.up ++ [frame] }

def turn (w : World) : Turn := w.script.headD ⟨[], 0, false, 0⟩

def next (w : World) : World := w.turn.moves.foldl move { w with script := w.script.tail }

end World

/-- The Zero's end. -/
def channels (patience : Nat) : PiZero.Link World where
  clock w := (w.turn.now, w.next)
  cancelled w := (w.turn.cancel, w.next)
  read w := (.data (w.next.up.take w.turn.deliver), { w.next with up := w.next.up.drop w.turn.deliver })
  write bytes w := (.written none, { w.next with down := w.next.down ++ [(w.next.call, bytes)] })
  patience := patience

@[simp] theorem channels_read (patience : Nat) (w : World) : (channels patience).read w =
    (.data (w.next.up.take w.turn.deliver), { w.next with up := w.next.up.drop w.turn.deliver }) := rfl

def answers (frames : List Frame) : List Frame := frames.filter (fun frame => frame.type = MsgType.modeChanged.byte)

/-- A MODE_CHANGED that `require_not_error` raises on. -/
def reportsError (frame : Frame) : Bool := frame.payload.getD 0 0 = MODE_ERROR

/-- A call begins, after what happened since the last one. -/
def beginCall (h : Heap Unit World) : Heap Unit World :=
  let w := h.link.next
  let first := (answers (h.pending ++ w.up)).head?
  { h with link := { w with call := w.call + 1, ahead := first.isSome, strayed := first.any (!reportsError ·) } }

structure Call where
  target : Int
  timeout : Int
  retries : Int
  deriving DecidableEq, Repr

variable (patience : Nat)

def Call.perform (call : Call) (h : Heap Unit World) : EStateM.Result Exn (Heap Unit World) Unit :=
  Transport.setMode (channels patience) call.target call.timeout call.retries (beginCall h)

/-- Some calls, one after the other; `none` where one does not come back. -/
def performAll : List Call → Heap Unit World → Option (Heap Unit World)
  | [], h => some h
  | call :: calls, h =>
    match call.perform patience h with
    | .ok _ t => performAll calls t
    | .error (.raised _ _) t => performAll calls t
    | .error .suspended _ => none

def opening (mode : Mode) (script : List Turn) : Heap Unit World :=
  ⟨[], (), ⟨script, mode, [], [], 0, [], false, false⟩, []⟩

/-! ## What is first on its way -/

/-- A MODE_CHANGED that reports ERROR, or that answers a MODE_SET of call `n`. -/
def Answers (n : Nat) (target : UInt8) (handled : List (Nat × UInt8 × Bool)) (frame : Frame) : Prop :=
  reportsError frame ∨
    (n, target, decide (frame.payload.getD 0 0 = target ∧ frame.payload.getD 1 0 = REASON_OK)) ∈ handled

/-- No call has written yet that has not begun. -/
def World.Tagged (w : World) : Prop := ∀ m ∈ w.down, m.1 ≤ w.call

/-- In call `n`: what was written for it is its MODE_SET, and unless one strayed, the first MODE_CHANGED on its way
answers it. -/
structure Waiting (n : Nat) (target : UInt8) (pending : List Frame) (w : World) : Prop where
  call : w.call = n
  tagged : w.Tagged
  down : ∀ m ∈ w.down, m.1 = n → m.2 = Pico.encode (Request.modeSet target).frame
  ahead : w.strayed = false → w.ahead = true → answers (pending ++ w.up) ≠ []
  first : w.strayed = false → ∀ frame, (answers (pending ++ w.up)).head? = some frame → Answers n target w.handled frame

section Waiting

variable {n : Nat} {target : UInt8} {pending pending' : List Frame} {w : World}

theorem answers_append (xs ys : List Frame) : answers (xs ++ ys) = answers xs ++ answers ys := List.filter_append ..

theorem answers_other {frame : Frame} (h : frame.type ≠ MsgType.modeChanged.byte) (frames : List Frame) :
    answers (frame :: frames) = answers frames := List.filter_cons_of_neg (by simpa using h)

theorem answers_cons {frame : Frame} (h : frame.type = MsgType.modeChanged.byte) (frames : List Frame) :
    answers (frame :: frames) = frame :: answers frames := List.filter_cons_of_pos (by simpa using h)

theorem Answers.mono {handled handled' : List (Nat × UInt8 × Bool)} {frame : Frame} (h : Answers n target handled frame)
    (hsub : ∀ entry ∈ handled, entry ∈ handled') : Answers n target handled' frame :=
  h.imp_right (hsub _)

/-- Only the MODE_CHANGEDs on their way matter. -/
theorem Waiting.congr (h : Waiting n target pending w)
    (hanswers : answers (pending' ++ w.up) = answers (pending ++ w.up)) :
    Waiting n target pending' w :=
  ⟨h.call, h.tagged, h.down, by rw [hanswers]; exact h.ahead, by rw [hanswers]; exact h.first⟩

/-- One more MODE_CHANGED: it is first on its way only if there is none, and then it is an answer, or it strayed. -/
theorem Waiting.say (h : Waiting n target pending w) (own : Bool) (mode : Mode) (reason : Reason)
    (hown : own = true → (n, target, decide (mode.byte = target ∧ reason.byte = REASON_OK)) ∈ w.handled) :
    Waiting n target pending (w.say own mode reason) := by
  have hup : answers (pending ++ (w.say own mode reason).up) =
      answers (pending ++ w.up) ++ [(Pico.PicoMsg.modeChanged mode reason).toFrame] := by
    show answers (pending ++ (w.up ++ [_])) = _
    rw [← List.append_assoc, answers_append (pending ++ w.up)]
    rfl
  have hstrayed : (w.say own mode reason).strayed = false →
      w.strayed = false ∧ (own = true ∨ w.ahead = true ∨ mode = .error) := by
    intro hs
    have hs : (w.strayed || (!own && !w.ahead && decide (mode ≠ .error))) = false := hs
    simp only [Bool.or_eq_false_iff, Bool.and_eq_false_iff, Bool.not_eq_false', decide_eq_false_iff_not, not_not] at hs
    exact ⟨hs.1, or_assoc.1 hs.2⟩
  refine ⟨h.call, h.tagged, h.down, fun _ _ => ?_, fun hs frame hframe => ?_⟩
  · rw [hup]
    simp
  · obtain ⟨hold, hwhy⟩ := hstrayed hs
    rw [hup] at hframe
    cases hlist : answers (pending ++ w.up) with
    | cons first rest =>
      rw [hlist] at hframe
      obtain rfl : first = frame := Option.some.inj hframe
      exact h.first hold first (by rw [hlist]; rfl)
    | nil =>
      rw [hlist] at hframe
      obtain rfl := Option.some.inj hframe
      rcases hwhy with hself | hahead | herror
      · exact .inr (hown hself)
      · exact absurd hlist (h.ahead hold hahead)
      · subst herror
        exact .inl rfl

theorem Waiting.move (h : Waiting n target pending w) (event : PicoMove) : Waiting n target pending (w.move event) := by
  cases event with
  | receive =>
    unfold World.move
    cases hdown : w.down with
    | nil => exact h
    | cons first down =>
      obtain ⟨call, bytes⟩ := first
      have hrest : ∀ m ∈ down, m.1 = n → m.2 = Pico.encode (Request.modeSet target).frame :=
        fun m hm => h.down m (by rw [hdown]; exact List.mem_cons_of_mem _ hm)
      have htags : ∀ m ∈ down, m.1 ≤ w.call := fun m hm => h.tagged m (by rw [hdown]; exact List.mem_cons_of_mem _ hm)
      dsimp only
      cases hdecode : Pico.decodeFrame bytes with
      | error e => exact ⟨h.call, htags, hrest, h.ahead, h.first⟩
      | ok frame =>
        have hnext : Waiting n target pending { w with
            down := down
            mode := (modeSet w.mode (frame.payload.getD 0 0)).2.1
            handled := (call, frame.payload.getD 0 0, (modeSet w.mode (frame.payload.getD 0 0)).1) :: w.handled } :=
          ⟨h.call, htags, hrest, h.ahead, fun hs f hf => (h.first hs f hf).mono (fun _ hm => List.mem_cons_of_mem _ hm)⟩
        refine hnext.say _ _ _ (fun hown => ?_)
        -- The MODE_SET is one of the call, so it asks for its target.
        have hcall : call = n := (of_decide_eq_true hown).trans h.call
        have hbytes : bytes = Pico.encode (Request.modeSet target).frame :=
          h.down (call, bytes) (by rw [hdown]; simp) hcall
        rw [hbytes, decode_modeSet] at hdecode
        obtain rfl := Except.ok.inj hdecode
        show (n, target, decide ((modeSet w.mode target).2.1.byte = target ∧ _)) ∈
          (call, target, (modeSet w.mode target).1) :: w.handled
        rw [hcall, modeSet_accepted]
        exact List.mem_cons_self ..
  | fault reason =>
    unfold World.move
    dsimp only
    split
    · exact Waiting.say (w := { w with mode := modeFault w.mode }) ⟨h.call, h.tagged, h.down, h.ahead, h.first⟩
        _ _ _ nofun
    · exact h
  | send frame =>
    unfold World.move
    dsimp only
    split
    · exact h
    · rename_i hother
      have hup : answers (pending ++ (w.up ++ [frame])) = answers (pending ++ w.up) := by
        rw [← List.append_assoc, answers_append (pending ++ w.up), answers_other hother]
        exact List.append_nil _
      exact ⟨h.call, h.tagged, h.down,
        fun hs ha => by rw [hup]; exact h.ahead hs ha, fun hs => by rw [hup]; exact h.first hs⟩

theorem Waiting.next (h : Waiting n target pending w) : Waiting n target pending w.next :=
  foldl_invariant (P := Waiting n target pending) (fun _ event hw => Waiting.move hw event) _
    { w with script := w.script.tail } ⟨h.call, h.tagged, h.down, h.ahead, h.first⟩

end Waiting

/-! ## The wait -/

section Wait

variable {n : Nat} {target : UInt8}

/-- Neither the timeout of a wait that found nothing, which leaves everything on its way, nor a rejection. -/
def Ended (n : Nat) (target : UInt8) (e : Exn) (t : Heap Unit World) : Prop :=
  (∀ message, e ≠ .raised .modeRejected message) ∧ t.link.Tagged ∧
    ((∃ message, e = .raised .transportTimeout message) → Waiting n target t.pending t.link)

/-- What was on its way and is read is pending, or handed over. -/
theorem Waiting.read {pending : List Frame} {w : World} (h : Waiting n target pending w) (count : Nat) :
    Waiting n target (pending ++ w.up.take count) { w with up := w.up.drop count } := by
  have hup : pending ++ w.up.take count ++ w.up.drop count = pending ++ w.up := by
    rw [List.append_assoc, List.take_append_drop]
  exact ⟨h.call, h.tagged, h.down, by show _ → _ → answers (_ ++ _ ++ _) ≠ []; rw [hup]; exact h.ahead,
    by show _ → ∀ frame, (answers (_ ++ _ ++ _)).head? = _ → _; rw [hup]; exact h.first⟩

theorem waiting_carries : Carries (channels patience) (Waiting n target) where
  clock h := h.next
  cancelled h := h.next
  read h := h.next.read _

/-- A MODE_CHANGED that passes does not report ERROR. -/
theorem requireNotError_reports {frame passed : Frame} (h : requireNotError frame = .ok passed)
    (htype : frame.type = MsgType.modeChanged.byte) : reportsError frame = false := by
  unfold requireNotError at h
  rw [if_neg (by rw [htype]; decide), if_neg (by rw [htype]; decide), if_pos htype] at h
  cases hv : validateModeChanged frame with
  | error e => rw [hv] at h; cases h
  | ok answer =>
    rw [hv] at h
    have hstate : answer.1 = frame.payload.getD 0 0 := by rw [validateModeChanged_ok hv]
    dsimp only at h
    split at h
    · cases h
    · rename_i hnot
      rw [reportsError, ← hstate]
      exact decide_eq_false hnot

/-- A MODE_CHANGED that does not report ERROR, in front of the rest. -/
def Answered (n : Nat) (target : UInt8) (frame : Frame) (t : Heap Unit World) : Prop :=
  frame.type = MsgType.modeChanged.byte ∧ reportsError frame = false ∧ Waiting n target (frame :: t.pending) t.link

theorem answered_of_taken {s t : Heap Unit World} {frame : Frame}
    (h : Taken (Waiting n target) .modeChanged s frame t) : Answered n target frame t := by
  obtain ⟨deferred, rest, hpending, hdeferred, hkept⟩ := h.kept
  refine ⟨h.ofType, requireNotError_reports h.passed h.ofType, hkept.congr ?_⟩
  -- The deferred frames are no MODE_CHANGEDs, so it makes no difference where they are.
  have hnone : answers deferred = [] := List.filter_eq_nil_iff.2 (by simpa using hdeferred)
  rw [hpending, List.cons_append, answers_cons h.ofType, List.append_assoc, List.append_assoc, answers_append deferred,
    answers_append deferred, hnone, List.nil_append, List.nil_append, List.cons_append, answers_cons h.ofType]

theorem ended_of_halted {s t : Heap Unit World} {e : Exn} (h : Halted (Waiting n target) s e t) :
    Ended n target e t := by
  obtain ⟨frames, hkept⟩ := h.kept
  exact ⟨h.plain, hkept.tagged, h.timeout⟩

theorem awaitAnswer_spec (timeout : Int) (last : Bool) (s : Heap Unit World) (h : Waiting n target s.pending s.link) :
    wp (Transport.awaitAnswer (channels patience) timeout last)
      (fun frame? t => (frame? = none → Waiting n target t.pending t.link) ∧
        ∀ frame, frame? = some frame → Answered n target frame t)
      (Ended n target) s := by
  unfold Transport.awaitAnswer
  rw [wp_catching, wp_bind]
  refine wp_mono (Transport.awaitFrame_carries (waiting_carries patience) .modeChanged timeout s h)
    (fun frame u hu => ?_) (fun e u hu => ?_)
  · refine ⟨nofun, fun frame' hframe => ?_⟩
    obtain rfl := Option.some.inj hframe
    exact answered_of_taken hu
  · have hended := ended_of_halted hu
    cases e with
    | suspended => exact hended
    | raised kind message =>
      cases kind
      case transportTimeout =>
        have hkept : Waiting n target u.pending u.link := hu.timeout ⟨message, rfl⟩
        cases last with
        | true => exact ⟨nofun, hkept.tagged, fun _ => hkept⟩
        | false => exact ⟨fun _ => hkept, nofun⟩
      all_goals exact hended

/-- Whole writes only: the MODE_SET is on its way to the Pico. -/
theorem write_spec (s : Heap Unit World) (h : Waiting n target s.pending s.link) :
    wp (Transport.write (channels patience) (.modeSet target)) (fun _ t => Waiting n target t.pending t.link)
      (fun _ _ => False) s := by
  have hbuild : (Request.modeSet target).build = .ok (Pico.encode (Request.modeSet target).frame) :=
    Request.build_of_valid trivial
  unfold Transport.write
  rw [hbuild, wp_bind, checked, wp_pure, wp_bind]
  have hnext := h.next
  refine ⟨hnext.call, fun m hm => ?_, fun m hm htag => ?_, hnext.ahead, hnext.first⟩
  · rcases List.mem_append.1 hm with hm | hm
    · exact hnext.tagged m hm
    · rw [List.mem_singleton.1 hm]
      exact le_refl s.link.next.call
  · rcases List.mem_append.1 hm with hm | hm
    · exact hnext.down m hm htag
    · rw [List.mem_singleton.1 hm]

/-- What a call comes to, when no MODE_CHANGED strayed: it returns after the Pico accepted its MODE_SET, and reports a
rejection after the Pico rejected it. -/
def Agreed (n : Nat) (target : UInt8) (e? : Option Exn) (w : World) : Prop :=
  w.strayed = false →
    (e? = none → (n, target, true) ∈ w.handled) ∧
      ∀ message, e? = some (.raised .modeRejected message) → (n, target, false) ∈ w.handled

theorem Ended.agreed {e : Exn} {t : Heap Unit World} (h : Ended n target e t) :
    Agreed n target (some e) t.link ∧ t.link.Tagged :=
  ⟨fun _ => ⟨nofun, fun message he => absurd (Option.some.inj he) (h.1 message)⟩, h.2.1⟩

theorem answer_agreed {frame : Frame} (s : Heap Unit World) (h : Answered n target frame s) :
    wp (do
        let (state, reason) ← checked (validateModeChanged frame)
        modify (Heap.note (.answered state reason))
        if state = target ∧ reason = REASON_OK then pure ()
        else raise .modeRejected s!"Pico rejected MODE_SET({target}): state={state}, reason={reason}")
      (fun _ t => Agreed n target none t.link ∧ t.link.Tagged)
      (fun e t => Agreed n target (some e) t.link ∧ t.link.Tagged) s := by
  obtain ⟨htype, hreports, hwaiting⟩ := h
  have hhead : (answers (frame :: s.pending ++ s.link.up)).head? = some frame := by
    rw [List.cons_append, answers_cons htype]
    rfl
  have hplain : ∀ e, validateModeChanged frame = .error e → Agreed n target (some e) s.link ∧ s.link.Tagged := by
    intro e he
    obtain ⟨hplain, htimeout⟩ := (plain_validateModeChanged frame).exn he
    have hended : Ended n target e s := ⟨hplain, hwaiting.tagged, fun ⟨message, hm⟩ => absurd hm (htimeout message)⟩
    exact hended.agreed
  rw [wp_bind]
  refine wp_checked (fun answer hanswer => ?_) hplain
  have hvalues := validateModeChanged_ok hanswer
  subst hvalues
  have hhandled : s.link.strayed = false →
      (n, target, decide (frame.payload.getD 0 0 = target ∧ frame.payload.getD 1 0 = REASON_OK)) ∈ s.link.handled := by
    intro hs
    rcases hwaiting.first hs frame hhead with hreported | hhandled
    · rw [hreports] at hreported
      cases hreported
    · exact hhandled
  dsimp only
  rw [wp_bind]
  show wp _ _ _ (s.note _)
  by_cases hanswered : frame.payload.getD 0 0 = target ∧ frame.payload.getD 1 0 = REASON_OK
  · rw [if_pos hanswered]
    refine ⟨fun hs => ⟨fun _ => ?_, nofun⟩, hwaiting.tagged⟩
    have haccepted := hhandled hs
    rwa [decide_eq_true hanswered] at haccepted
  · rw [if_neg hanswered]
    refine ⟨fun hs => ⟨nofun, fun _ _ => ?_⟩, hwaiting.tagged⟩
    have hrejected := hhandled hs
    rwa [decide_eq_false hanswered] at hrejected

theorem setModeAttempts_agreed (timeout : Int) : ∀ (k : Nat) (s : Heap Unit World), Waiting n target s.pending s.link →
    wp (Transport.setModeAttempts (channels patience) target timeout (k + 1))
      (fun _ t => Agreed n target none t.link ∧ t.link.Tagged)
      (fun e t => Agreed n target (some e) t.link ∧ t.link.Tagged) s := by
  intro k
  induction k with
  | zero =>
    intro s h
    unfold Transport.setModeAttempts
    rw [wp_bind]
    refine wp_mono (write_spec patience s h) (fun _ t ht => ?_) (fun _ _ h => h.elim)
    rw [wp_bind]
    -- The last attempt does not go on after a timeout.
    have hlast := Transport.awaitAnswer_last (channels patience) timeout t
    refine wp_mono (wp_and (awaitAnswer_spec patience timeout true t ht) hlast) ?_ (fun e u hu => hu.1.agreed)
    rintro (_ | frame) u ⟨hu, hsome⟩
    · exact absurd rfl hsome
    · exact answer_agreed u (hu.2 frame rfl)
  | succ k ih =>
    intro s h
    unfold Transport.setModeAttempts
    rw [wp_bind]
    refine wp_mono (write_spec patience s h) (fun _ t ht => ?_) (fun _ _ h => h.elim)
    rw [wp_bind]
    refine wp_mono (awaitAnswer_spec patience timeout _ t ht) ?_ (fun e u hu => hu.agreed)
    rintro (_ | frame) u hu
    · exact ih u (hu.1 rfl)
    · exact answer_agreed u (hu.2 frame rfl)

theorem setMode_agreed (call : Call) (s : Heap Unit World)
    (h : Waiting n (UInt8.ofNat call.target.toNat) s.pending s.link) :
    wp (Transport.setMode (channels patience) call.target call.timeout call.retries)
      (fun _ t => Agreed n (UInt8.ofNat call.target.toNat) none t.link ∧ t.link.Tagged)
      (fun e t => Agreed n (UInt8.ofNat call.target.toNat) (some e) t.link ∧ t.link.Tagged) s := by
  unfold Transport.setMode
  have hprotocol : ∀ message, Ended n (UInt8.ofNat call.target.toNat) (.raised .protocol message) s :=
    fun message => ⟨nofun, h.tagged, nofun⟩
  split
  · exact (hprotocol _).agreed
  split
  · exact (hprotocol _).agreed
  · rename_i hretries
    have hattempts : (call.retries + 1).toNat = call.retries.toNat + 1 := by omega
    rw [hattempts]
    exact setModeAttempts_agreed patience call.timeout _ s h

end Wait

/-! ## Calls, one after the other -/

theorem World.Tagged.move {w : World} (h : w.Tagged) (event : PicoMove) : (w.move event).Tagged := by
  cases event with
  | receive =>
    unfold World.move
    cases hdown : w.down with
    | nil => exact h
    | cons first down =>
      have hrest : ∀ m ∈ down, m.1 ≤ w.call := fun m hm => h m (by rw [hdown]; exact List.mem_cons_of_mem _ hm)
      dsimp only
      split <;> exact hrest
  | fault reason => unfold World.move; dsimp only; split <;> exact h
  | send frame => unfold World.move; dsimp only; split <;> exact h

theorem World.move_call (w : World) (event : PicoMove) : (w.move event).call = w.call := by
  cases event with
  | receive =>
    unfold World.move
    cases w.down with
    | nil => rfl
    | cons first down => dsimp only; split <;> rfl
  | fault reason => unfold World.move; dsimp only; split <;> rfl
  | send frame => unfold World.move; dsimp only; split <;> rfl

theorem World.Tagged.next {w : World} (h : w.Tagged) : w.next.Tagged ∧ w.next.call = w.call :=
  foldl_invariant (P := fun w' => w'.Tagged ∧ w'.call = w.call)
    (fun _ event hw => ⟨hw.1.move event, (World.move_call _ event).trans hw.2⟩) _ { w with script := w.script.tail }
    ⟨h, rfl⟩

/-- A call that begins finds itself waiting, if what is first on its way reports ERROR or there is nothing. -/
theorem beginCall_waiting (h : Heap Unit World) (htagged : h.link.Tagged) (target : UInt8) :
    Waiting (h.link.call + 1) target (beginCall h).pending (beginCall h).link := by
  obtain ⟨hnext, hcall⟩ := htagged.next
  refine ⟨congrArg (· + 1) hcall, fun m hm => Nat.le_succ_of_le (hnext m hm), fun m hm htag => ?_, fun _ hahead => ?_,
    fun hstrayed frame hframe => ?_⟩
  · -- Nothing on its way was written by a call that had not begun.
    have hold : m.1 ≤ h.link.next.call := hnext m hm
    omega
  · intro hempty
    change (answers (h.pending ++ h.link.next.up)).head?.isSome = true at hahead
    change answers (h.pending ++ h.link.next.up) = [] at hempty
    rw [hempty] at hahead
    cases hahead
  · change (answers (h.pending ++ h.link.next.up)).head?.any (!reportsError ·) = false at hstrayed
    change (answers (h.pending ++ h.link.next.up)).head? = some frame at hframe
    rw [hframe] at hstrayed
    exact .inl (by simpa using hstrayed)

theorem performAll_tagged : ∀ (calls : List Call) (h h' : Heap Unit World), h.link.Tagged →
    performAll patience calls h = some h' → h'.link.Tagged
  | [], h, h', ht, hrun => by
    cases hrun
    exact ht
  | call :: calls, h, h', ht, hrun => by
    have hstep := setMode_agreed patience call _ (beginCall_waiting h ht _)
    unfold performAll Call.perform at hrun
    unfold wp at hstep
    split at hrun
    · rename_i t heq
      rw [heq] at hstep
      exact performAll_tagged calls t h' hstep.2 hrun
    · rename_i kind message t heq
      rw [heq] at hstep
      exact performAll_tagged calls t h' hstep.2 hrun
    · cases hrun

/-- **Agreement of the mode handshake**, in any call after any calls, when no MODE_CHANGED came first that does not
answer it: `set_mode` returns only after the Pico accepted a MODE_SET this call wrote, and it reports a rejection only
after the Pico rejected one. -/
theorem handshake_agreement (mode : Mode) (script : List Turn) (calls : List Call) (call : Call) (h : Heap Unit World)
    (hrun : performAll patience calls (opening mode script) = some h) :
    wp (Transport.setMode (channels patience) call.target call.timeout call.retries)
      (fun _ t => t.link.strayed = false → (h.link.call + 1, UInt8.ofNat call.target.toNat, true) ∈ t.link.handled)
      (fun e t => ∀ message, e = .raised .modeRejected message → t.link.strayed = false →
        (h.link.call + 1, UInt8.ofNat call.target.toNat, false) ∈ t.link.handled)
      (beginCall h) := by
  have htagged : h.link.Tagged := performAll_tagged patience calls _ h (fun _ hm => by cases hm) hrun
  refine wp_mono (setMode_agreed patience call _ (beginCall_waiting h htagged _)) (fun _ t ht hs => ?_)
    (fun e t ht message he hs => ?_)
  · exact (ht.1 hs).1 rfl
  · exact (ht.1 hs).2 message (congrArg some he)

/-- The clock at 20, and nothing happens. -/
def idle : Turn := ⟨[], 20, false, 0⟩

/-- The Pico takes so many commands, and so many frames are read. -/
def exchange (commands frames : Nat) : Turn := ⟨List.replicate commands .receive, 20, false, frames⟩

/-- The first answer comes in time. -/
def prompt : List Turn := List.replicate 6 idle ++ exchange 1 1 :: List.replicate 6 idle ++ [exchange 1 1]

/-- The first attempt times out; its retry takes the first of the two answers. -/
def retried : List Turn :=
  [idle, idle, ⟨[], 0, false, 0⟩] ++ List.replicate 6 idle ++ exchange 2 1 :: List.replicate 6 idle ++ [exchange 0 1]

/-- Two calls, each answered while it waits. -/
theorem handshake_agreement_prompt :
    ∃ h, performAll 8 [⟨1, 10, 1⟩] (opening .pass prompt) = some h ∧
      wp (Transport.setMode (channels 8) 0 10 1) (fun _ t => (2, 0, true) ∈ t.link.handled) (fun _ _ => False)
        (beginCall h) := by
  have hclean : (performAll 8 [⟨1, 10, 1⟩] (opening .pass prompt)).any (fun h => h.link.call = 1 ∧
      wp (Transport.setMode (channels 8) 0 10 1) (fun _ t => t.link.strayed = false) (fun _ _ => False) (beginCall h)) =
      true := by decide +kernel
  obtain ⟨h, hrun, hclean⟩ := (Option.any_eq_true _ _).1 hclean
  obtain ⟨hcall, hclean⟩ := of_decide_eq_true hclean
  have hagreed := handshake_agreement 8 .pass prompt [⟨1, 10, 1⟩] ⟨0, 10, 1⟩ h hrun
  rw [hcall] at hagreed
  exact ⟨h, hrun, wp_mono (wp_and hclean hagreed) (fun _ t ht => ht.2 ht.1) (fun _ _ ht => ht.1)⟩

/-- After a retry the other answer is there for the next call: a request for PASS returns before the Pico has seen it,
and one for RECORD is rejected. -/
theorem handshake_leftover :
    ∃ h, performAll 8 [⟨0, 10, 1⟩] (opening .pass retried) = some h ∧
      wp (Transport.setMode (channels 8) 0 10 1) (fun _ t => ∀ accepted, (2, 0, accepted) ∉ t.link.handled)
        (fun _ _ => False) (beginCall h) ∧
      wp (Transport.setMode (channels 8) 1 10 1) (fun _ _ => False)
        (fun e t => e = .raised .modeRejected "Pico rejected MODE_SET(1): state=0, reason=0" ∧
          ∀ accepted, (2, 1, accepted) ∉ t.link.handled) (beginCall h) := by
  have hleft : (performAll 8 [⟨0, 10, 1⟩] (opening .pass retried)).any (fun h =>
      wp (Transport.setMode (channels 8) 0 10 1) (fun _ t => ∀ accepted, (2, 0, accepted) ∉ t.link.handled)
        (fun _ _ => False) (beginCall h) ∧
      wp (Transport.setMode (channels 8) 1 10 1) (fun _ _ => False)
        (fun e t => e = .raised .modeRejected "Pico rejected MODE_SET(1): state=0, reason=0" ∧
          ∀ accepted, (2, 1, accepted) ∉ t.link.handled) (beginCall h)) = true := by decide +kernel
  obtain ⟨h, hrun, hleft⟩ := (Option.any_eq_true _ _).1 hleft
  exact ⟨h, hrun, of_decide_eq_true hleft⟩

end Link
end PicoRecorder
