import PicoRecorder.Link.Rig
import PicoRecorder.Link.Telemetry
import PicoRecorder.Pico.Stall
import PicoRecorder.PiZero.Taped
/-!
# Transcript — what the keyboard said and what the Zero saves

The RECORD_EVENTs that the transmitter takes are told in one session, since RECORD is entered once (`Confined`).  The
cable loses none of them, and behind the acknowledgement of PASS there are none (`Reels`); so what a session saves is
what was told.
-/
namespace PicoRecorder
namespace Link

open Pico
open Relation (ReflTransGen)
open Lib (Preserved)
open PiZero (Tapes eventsOf recordAck passAck)

/-! ## One session -/

/-- The report of a RECORD_EVENT. -/
def reported? : PicoMsg → Option CaptureEvent
  | .recordEvent timestampUs report => some ⟨timestampUs, report⟩
  | _ => none

/-- The RECORD_EVENTs that the transmitter took, oldest first. -/
def told (obs : List Obs) : List CaptureEvent := (sent obs).filterMap reported?

/-- How often RECORD was entered. -/
def sessions (obs : List Obs) : Nat := obs.count (.entered .record)

theorem told_append (newer older : List Obs) : told (newer ++ older) = told older ++ told newer := by
  simp [told, sent_append]

theorem told_cons (o : Obs) (obs : List Obs) : told (o :: obs) = told obs ++ told [o] := told_append [o] obs

theorem sessions_append (newer older : List Obs) : sessions (newer ++ older) = sessions newer + sessions older :=
  List.count_append ..

theorem sessions_cons {o : Obs} (ho : o ≠ .entered .record) (obs : List Obs) : sessions (o :: obs) = sessions obs :=
  List.count_cons_of_ne ho

def isReport : Obs → Bool
  | .frame (.recordEvent ..) _ => true
  | _ => false

theorem told_other {o : Obs} (ho : isReport o = false) : told [o] = [] := by
  cases o with
  | frame msg queued => cases queued <;> cases msg <;> first | rfl | cases ho
  | _ => rfl

theorem told_others {obs : List Obs} (h : ∀ o ∈ obs, isReport o = false) : told obs = [] := by
  induction obs with
  | nil => rfl
  | cons o obs ih =>
    rw [told_cons, told_other (h o List.mem_cons_self), ih (fun k hk => h k (List.mem_cons_of_mem o hk))]
    rfl

/-- Every RECORD_EVENT that the transmitter took was sent. -/
theorem told_sublist : ∀ obs : List Obs, (told obs).Sublist (recordEvents obs)
  | [] => List.Sublist.refl _
  | o :: obs => by
    have ih := told_sublist obs
    rw [told_cons]
    cases o with
    | frame msg queued =>
      cases msg with
      | recordEvent timestampUs report =>
        refine ih.append ?_
        cases queued with
        | true => exact List.Sublist.refl _
        | false => exact List.nil_sublist _
      | _ => rw [told_other rfl, List.append_nil]; exact ih
    | _ => rw [told_other rfl, List.append_nil]; exact ih

theorem entry_append {mode : Mode} {base : List Obs} : ∀ {session : List Obs}, entry session = some mode →
    entry (session ++ base) = some mode ∧ sinceEntry (session ++ base) = sinceEntry session
  | [], h => by cases h
  | o :: session, h => by
    cases o with
    | entered target => exact ⟨h, rfl⟩
    | _ =>
      have ih : entry (session ++ base) = some mode ∧ sinceEntry (session ++ base) = sinceEntry session :=
        entry_append h
      exact ⟨ih.1, congrArg (_ :: ·) ih.2⟩

/-- All that was told was told in one session; while that goes on, it is the present one. -/
def OneSession (obs : List Obs) (mode : Mode) : Prop :=
  ∃ session, session <:+ obs ∧ entry session = some .record ∧ told obs = told (sinceEntry session) ∧
    (mode = .record → session = obs)

/-- Without a session nothing was told, and with one only in it. -/
structure Confined (base : List Obs) (v : View) : Prop where
  sunk : Sunk v
  since : ∃ obs, v.trace = obs ++ base ∧ (sessions obs = 0 → v.mode ≠ .record ∧ told obs = []) ∧
    (sessions obs = 1 → OneSession obs v.mode)

section Confined

variable {hears gated : Prop} {base : List Obs} {v v' : View}

/-- What is told is told in RECORD. -/
theorem Confined.advance (h : Confined base v) (hsunk : Sunk v') {o : Obs} (htrace : v'.trace = o :: v.trace)
    (ho : o.isEntered = false) (hmode : v'.mode = v.mode) (htold : v.mode = .record ∨ isReport o = false) :
    Confined base v' := by
  obtain ⟨obs, hobs, hnone, hone⟩ := h.since
  have hentered : o ≠ .entered .record := by rintro rfl; cases ho
  refine ⟨hsunk, o :: obs, by rw [htrace, hobs]; rfl, fun hsessions => ?_, fun hsessions => ?_⟩
  · rw [sessions_cons hentered] at hsessions
    obtain ⟨hrecord, hquiet⟩ := hnone hsessions
    rw [told_cons, hquiet, told_other (htold.resolve_left hrecord), hmode]
    exact ⟨hrecord, rfl⟩
  · rw [sessions_cons hentered] at hsessions
    obtain ⟨session, hsuffix, hentry, hall, hpresent⟩ := hone hsessions
    by_cases hrecord : v.mode = .record
    · obtain rfl := hpresent hrecord
      refine ⟨o :: session, List.suffix_refl _, (entry_cons ho session).trans hentry, ?_, fun _ => rfl⟩
      rw [sinceEntry_cons ho, told_cons, told_cons o (sinceEntry session), hall]
    · refine ⟨session, hsuffix.trans (List.suffix_cons _ _), hentry, ?_, fun hm => absurd (hmode ▸ hm) hrecord⟩
      rw [told_cons, told_other (htold.resolve_left hrecord), List.append_nil, hall]

/-- RECORD is entered for the first time, or the session is over. -/
theorem Confined.enter (h : Confined base v) {target : Mode} (hsunk : Sunk v') (hmode : v'.mode = target)
    (htrace : v'.trace = .entered target :: .allRelease :: v.trace) : Confined base v' := by
  obtain ⟨obs, hobs, hnone, hone⟩ := h.since
  have hrelease : sessions (.allRelease :: obs) = sessions obs := sessions_cons (by simp) obs
  have htold : told (.entered target :: .allRelease :: obs) = told obs := by
    rw [told_cons, told_cons .allRelease, told_other rfl, told_other rfl, List.append_nil, List.append_nil]
  refine ⟨hsunk, .entered target :: .allRelease :: obs, by rw [htrace, hobs]; rfl, ?_⟩
  rw [hmode, htold]
  by_cases htarget : target = .record
  · subst htarget
    have hcount : sessions (.entered .record :: .allRelease :: obs) = sessions obs + 1 := by
      rw [← hrelease]
      exact List.count_cons_self ..
    rw [hcount]
    refine ⟨fun hsessions => by omega, fun hsessions => ?_⟩
    refine ⟨_, List.suffix_refl _, rfl, ?_, fun _ => rfl⟩
    rw [htold, (hnone (by omega)).2]
    rfl
  · have hcount : sessions (.entered target :: .allRelease :: obs) = sessions obs := by
      rw [sessions_cons (by simpa using htarget), hrelease]
    rw [hcount]
    refine ⟨fun hsessions => ⟨htarget, (hnone hsessions).2⟩, fun hsessions => ?_⟩
    obtain ⟨session, hsuffix, hentry, hall, -⟩ := hone hsessions
    exact ⟨session, hsuffix.trans ⟨[_, _], rfl⟩, hentry, htold.trans hall, fun hm => absurd hm htarget⟩

theorem sink_confined : Preserved (Sink hears gated) (Confined base) := by
  intro v v' hstep h
  have hsunk := sink_sunk v v' hstep h.sunk
  cases hstep with
  | aside o idle =>
    refine h.advance hsunk rfl (isEntered_aside idle) rfl (.inr ?_)
    cases o with
    | frame msg queued => cases msg <;> first | rfl | cases idle
    | _ => rfl
  | push timestampUs report capture heard push => exact h.advance hsunk rfl rfl rfl (.inr rfl)
  | record event queued recording head fresh => exact h.advance hsunk rfl rfl rfl (.inl recording)
  | forward event head mode calm => exact h.advance hsunk rfl rfl rfl (.inr rfl)
  | release owed => exact h.advance hsunk rfl rfl rfl (.inr rfl)
  | play report playing => exact h.advance hsunk rfl rfl rfl (.inr rfl)
  | enter target => exact h.enter hsunk rfl rfl

end Confined

/-! ## The statements that are no command -/

/-- What is seen without a command: RECORD is not entered, PASS not acknowledged, and nothing told outside of RECORD. -/
def isUnprompted (mode : Mode) : Obs → Bool
  | .entered .record | .frame (.modeChanged .pass .ok) _ => false
  | .frame (.recordEvent ..) _ => mode = .record
  | _ => true

section Moves

variable {β : Type} {d : Board β} {m m' : Fw β} {stage stage' : Stage}

theorem sessions_unprompted {mode : Mode} {obs : List Obs} (h : ∀ o ∈ obs, isUnprompted mode o = true) :
    sessions obs = 0 :=
  List.count_eq_zero.2 (fun hmem => by cases h _ hmem)

theorem told_unprompted {mode : Mode} (hmode : mode ≠ .record) {obs : List Obs}
    (h : ∀ o ∈ obs, isUnprompted mode o = true) : told obs = [] := by
  refine told_others (fun o ho => ?_)
  have hkind := h o ho
  cases o with
  | frame msg queued => cases msg <;> first | rfl | exact absurd (of_decide_eq_true hkind) hmode
  | _ => rfl

theorem notify_unprompted {reason : Reason} (hreason : reason ≠ .ok) (m : Fw β) :
    Adds (isUnprompted m.rest.mode) m (notify d reason m) := by
  refine .one rfl ?_
  cases reason <;> first | exact absurd rfl hreason | (cases m.rest.mode <;> rfl)

theorem enterError_unprompted {reason : Reason} (hreason : reason ≠ .ok) (m : Fw β) :
    Adds (isUnprompted m.rest.mode) m (enterError d reason m) ∧
      ((enterError d reason m).rest.mode = m.rest.mode ∨
        m.rest.mode ≠ .pass ∧ (enterError d reason m).rest.mode = .error) := by
  unfold enterError
  split
  · rename_i hmode
    obtain ⟨outcome, queued, htrace, hstop⟩ := transition_trace d .error reason m
    refine ⟨⟨.frame (.modeChanged .error reason) queued :: .entered .error :: .allRelease :: outcome, htrace, ?_⟩,
      .inr ⟨hmode.1, rfl⟩⟩
    intro o ho
    simp only [List.mem_cons] at ho
    rcases ho with rfl | rfl | rfl | ho
    · rfl
    · rfl
    · rfl
    · rcases hstop with ⟨-, rfl⟩ | ⟨-, metrics, q₁, q₂, rfl⟩
      · cases ho
      · simp only [List.mem_cons, List.not_mem_nil, or_false] at ho
        rcases ho with rfl | rfl | rfl <;> rfl
  · exact ⟨notify_unprompted hreason m, .inl rfl⟩

theorem forward_unprompted (m : Fw β) : Adds (isUnprompted m.rest.mode) m (forward d m) := by
  by_cases hm : m.rest.mode = .record
  · refine (forward_adds m).mono (fun o ho => ?_)
    cases o with
    | frame msg queued => cases msg <;> first | exact decide_eq_true hm | cases ho
    | hid source report taken => rfl
    | _ => cases ho
  · refine (forward_hid hm).mono (fun o ho => ?_)
    cases o <;> first | rfl | cases ho

/-- **A statement that is no command** keeps the mode, or a fault ends it. -/
theorem Receiver.Moves.unprompted (h : Receiver.Moves d stage m stage' m') (hb : Boundary m)
    (hm : m.rest.mode ≠ .playing) :
    Adds (isUnprompted m.rest.mode) m m' ∧
      (m'.rest.mode = m.rest.mode ∨ m.rest.mode ≠ .pass ∧ m'.rest.mode = .error) := by
  cases h with
  | poll events =>
    obtain ⟨hadds, -, hsame⟩ := poll_same (d := d) events m
    exact ⟨hadds.mono (fun o ho => by cases o <;> first | rfl | cases ho), .inl hsame.1⟩
  | task =>
    have hmode := forward_mode (d := d) m
    have hforward : Boundary (forward d m) := (forward_reserved hb).2
    rw [task_idle (hforward.idle (hmode ▸ hm))]
    exact ⟨forward_unprompted m, .inl hmode⟩
  | flowControl =>
    unfold flowControlCheck
    split
    · exact enterError_unprompted (d := d) (by decide) { m with rest := { m.rest with flowControlFault := false } }
    · exact ⟨.refl m, .inl rfl⟩
  | watchdog =>
    have hwatchdog : watchdogCheck d m = m := by
      unfold watchdogCheck
      rw [if_pos hm]
    rw [hwatchdog]
    exact ⟨.same rfl, .inl rfl⟩

theorem Receiver.Moves.sink (h : Receiver.Moves d stage m stage' m') (hb : Boundary m) :
    ReflTransGen (Sink True True) m.rest.view m'.rest.view := by
  cases h with
  | poll events =>
    exact Lib.foldl_invariant (P := fun n : Fw β => ReflTransGen (Sink True True) m.rest.view n.rest.view)
      (fun n e h => h.trans (hostEvent_sink n e trivial)) events _ .refl
  | task => exact (output_sink m).trans (task_sink (forward_reserved hb).2)
  | flowControl => exact flowControlCheck_sink m
  | watchdog => exact watchdogCheck_sink m

end Moves

/-! ## The commands -/

section Commands

variable {β : Type} {d : Board β}

def modeSetTo (target : UInt8) : Frame := (PiZero.Request.modeSet target).frame

/-- What a MODE_SET adds: RECORD was entered so often, nothing was told, and PASS acknowledged only if `passes`. -/
def Turns (entered : Nat) (passes : Prop) (m m' : Fw β) : Prop :=
  ∃ obs, m'.rest.trace = obs ++ m.rest.trace ∧ sessions obs = entered ∧ told obs = [] ∧
    (.modeChanged .pass .ok ∈ sent obs → passes)

theorem Turns.mono {entered : Nat} {passes passes' : Prop} {m m' : Fw β} (h : Turns entered passes m m')
    (hpasses : passes → passes') : Turns entered passes' m m' := by
  obtain ⟨obs, htrace, hsessions, htold, hacked⟩ := h
  exact ⟨obs, htrace, hsessions, htold, fun hm => hpasses (hacked hm)⟩

theorem dispatch_modeSet_eq (d : Board β) (target : UInt8) (m : Fw β) :
    dispatchCommand d m (modeSetTo target) = { (handleModeSet d target m).2 with
      rest := (handleModeSet d target m).2.rest.note (.modeSet target (handleModeSet d target m).1) } := by
  unfold dispatchCommand
  rw [show MsgType.ofByte? (modeSetTo target).type = some .modeSet from MsgType.ofByte?_byte .modeSet]
  rfl

theorem Turns.handled {entered : Nat} {passes : Prop} {target : UInt8} {m : Fw β}
    (h : Turns entered passes m (handleModeSet d target m).2) :
    Turns entered passes m (dispatchCommand d m (modeSetTo target)) := by
  obtain ⟨obs, htrace, hsessions, htold, hpasses⟩ := h
  rw [dispatch_modeSet_eq]
  refine ⟨.modeSet target (handleModeSet d target m).1 :: obs, ?_, ?_, ?_, fun hm => hpasses ?_⟩
  · change Obs.modeSet target _ :: (handleModeSet d target m).2.rest.trace = _
    rw [htrace]
    rfl
  · rw [sessions_cons (by simp), hsessions]
  · rw [told_cons, htold, told_other rfl]
    rfl
  · rw [mem_sent] at hm ⊢
    simpa using hm

/-- A transition tells nothing. -/
theorem transition_turns (target : Mode) (reason : Reason) (m : Fw β) :
    Turns (if target = .record then 1 else 0) (target = .pass) m (transition d target reason m) := by
  obtain ⟨outcome, queued, htrace, hstop⟩ := transition_trace d target reason m
  have haside := stopped_aside hstop
  have hnone : sessions outcome = 0 := List.count_eq_zero.2 (fun hmem => by cases haside _ hmem)
  have hquiet : told outcome = [] := told_others (fun o ho => by
    have hkind := haside o ho
    cases o with
    | frame msg queued => cases msg <;> first | rfl | cases hkind
    | _ => rfl)
  have hsilent : .frame (.modeChanged .pass .ok) true ∉ outcome := by
    rcases hstop with ⟨-, rfl⟩ | ⟨-, metrics, q₁, q₂, rfl⟩ <;> simp
  refine ⟨.frame (.modeChanged target reason) queued :: .entered target :: .allRelease :: outcome, htrace, ?_, ?_,
    fun hm => ?_⟩
  · rw [sessions_cons (by simp)]
    by_cases htarget : target = .record
    · subst htarget
      have hone : sessions (.entered .record :: .allRelease :: outcome) = sessions (.allRelease :: outcome) + 1 :=
        List.count_cons_self ..
      rw [if_pos rfl, hone, sessions_cons (by simp), hnone]
    · rw [if_neg htarget, sessions_cons (by simpa using htarget), sessions_cons (by simp), hnone]
  · rw [told_cons, told_cons (.entered target), told_cons .allRelease, hquiet, told_other rfl, told_other rfl,
      told_other rfl]
    rfl
  · rw [mem_sent] at hm
    simp only [List.mem_cons, hsilent, Obs.frame.injEq, PicoMsg.modeChanged.injEq, reduceCtorEq, or_false] at hm
    exact hm.1.1.symm

theorem notify_turns (reason : Reason) (m : Fw β) : Turns 0 (m.rest.mode = .pass) m (notify d reason m) := by
  refine ⟨[.frame (.modeChanged m.rest.mode reason) _], rfl, sessions_cons (by simp) [], told_other rfl, fun hm => ?_⟩
  rw [mem_sent] at hm
  simp only [List.mem_cons, List.not_mem_nil, Obs.frame.injEq, PicoMsg.modeChanged.injEq, or_false] at hm
  exact hm.1.1.symm

/-- **MODE_SET(RECORD)** starts the session in PASS, and is answered everywhere else. -/
theorem dispatch_record (m : Fw β) :
    (m.rest.mode = .pass → (dispatchCommand d m (modeSetTo PiZero.MODE_RECORD)).rest.mode = .record ∧
      Turns 1 False m (dispatchCommand d m (modeSetTo PiZero.MODE_RECORD))) ∧
    (m.rest.mode ≠ .pass → (dispatchCommand d m (modeSetTo PiZero.MODE_RECORD)).rest.mode = m.rest.mode ∧
      Turns 0 False m (dispatchCommand d m (modeSetTo PiZero.MODE_RECORD))) := by
  refine ⟨fun hm => ?_, fun hm => ?_⟩
  · have hset : handleModeSet d PiZero.MODE_RECORD m = (true, transition d .record .ok m) := by
      unfold handleModeSet
      rw [if_neg (by decide), if_neg (by decide), if_neg (by rw [hm]; decide), if_pos ⟨.inl rfl, hm⟩]
      rfl
    refine ⟨?_, Turns.handled ?_⟩
    · rw [dispatch_modeSet_eq, hset]
      rfl
    · rw [hset]
      exact (transition_turns .record .ok m).mono nofun
  · obtain ⟨accepted, reason, hset⟩ : ∃ accepted reason,
        handleModeSet d PiZero.MODE_RECORD m = (accepted, notify d reason m) := by
      unfold handleModeSet
      rw [if_neg (by decide), if_neg (by decide)]
      by_cases hrecord : PiZero.MODE_RECORD = m.rest.mode.byte
      · rw [if_pos hrecord]
        exact ⟨_, _, rfl⟩
      · rw [if_neg hrecord, if_neg (fun h => hm h.2)]
        exact ⟨_, _, rfl⟩
    refine ⟨?_, Turns.handled ?_⟩
    · rw [dispatch_modeSet_eq, hset]
      rfl
    · rw [hset]
      exact (notify_turns reason m).mono hm

/-- **MODE_SET(PASS)** ends in PASS. -/
theorem dispatch_pass (m : Fw β) : (dispatchCommand d m (modeSetTo PiZero.MODE_PASS)).rest.mode = .pass ∧
    Turns 0 True m (dispatchCommand d m (modeSetTo PiZero.MODE_PASS)) := by
  by_cases hm : m.rest.mode = .pass
  · have hset : handleModeSet d PiZero.MODE_PASS m = (true, notify d .ok m) := by
      unfold handleModeSet
      rw [if_neg (by decide), if_pos (show PiZero.MODE_PASS = Mode.pass.byte from rfl), if_neg (not_not.2 hm)]
    refine ⟨?_, Turns.handled ?_⟩
    · rw [dispatch_modeSet_eq, hset]
      exact hm
    · rw [hset]
      exact (notify_turns .ok m).mono (fun _ => trivial)
  · have hset : handleModeSet d PiZero.MODE_PASS m = (true, transition d .pass .ok m) := by
      unfold handleModeSet
      rw [if_neg (by decide), if_pos (show PiZero.MODE_PASS = Mode.pass.byte from rfl), if_pos hm]
    refine ⟨?_, Turns.handled ?_⟩
    · rw [dispatch_modeSet_eq, hset]
      rfl
    · rw [hset]
      exact (transition_turns .pass .ok m).mono (fun _ => trivial)

end Commands

/-! ## The cable -/

/-- How far a session has come at the Pico. -/
inductive Reel where
  | blank | running | closed
  deriving DecidableEq

namespace Reel

def sessions : Reel → Nat
  | .blank => 0
  | .running | .closed => 1

def Fits : Reel → Mode → Prop
  | .blank, mode | .closed, mode => mode = .pass
  | .running, mode => mode ≠ .pass ∧ mode ≠ .playing

theorem Fits.quiet {reel : Reel} {mode : Mode} (h : reel.Fits mode) : mode ≠ .playing := by
  cases reel with
  | blank | closed => rw [show mode = .pass from h]; decide
  | running => exact h.2

/-- A fault ends no session but a running one. -/
theorem Fits.next {reel : Reel} {mode mode' : Mode} (h : reel.Fits mode)
    (hmode : mode' = mode ∨ mode ≠ .pass ∧ mode' = .error) : reel.Fits mode' := by
  rcases hmode with rfl | ⟨hpass, rfl⟩
  · exact h
  · cases reel with
    | blank | closed => exact absurd h hpass
    | running => exact ⟨nofun, nofun⟩

end Reel

/-- A RECORD_EVENT as the Zero reads it. -/
def onWire (e : CaptureEvent) : Nat × List UInt8 := (e.timestampUs.toNat, e.report.toList)

theorem eventsOf_sent : ∀ msgs : List PicoMsg,
    eventsOf (msgs.map PicoMsg.toFrame) = (msgs.filterMap reported?).map onWire
  | [] => rfl
  | msg :: msgs => by
    rw [List.map_cons]
    cases msg with
    | recordEvent timestampUs report =>
      have hvalue := PiZero.validateRecordEvent_value (read_recordEvent timestampUs report)
      rw [PiZero.eventsOf_cons_event rfl, eventsOf_sent msgs, ← hvalue]
      rfl
    | _ => rw [PiZero.eventsOf_cons_other (fun htype => by cases htype), eventsOf_sent msgs]; rfl

theorem toFrame_passAck {msg : PicoMsg} (h : msg.toFrame = passAck) : msg = .modeChanged .pass .ok := by
  cases msg with
  | modeChanged state reason =>
    have hpayload : [state.byte, reason.byte] = [PiZero.MODE_PASS, PiZero.REASON_OK] := congrArg Frame.payload h
    cases state <;> cases reason <;> first | rfl | exact absurd hpayload (by decide)
  | _ => cases congrArg Frame.type h

section Cable

variable {β : Type} {d : Board β} {base : List Obs} {taken : List (Nat × List UInt8)} {reel reel' : Reel}
  {stream : List Frame} {w : Receiver β} {fw : Fw β} {stage : Stage}

/-- The Pico, the frames on their way to the Zero, and the events the Zero has taken. -/
structure Reels (base : List Obs) (taken : List (Nat × List UInt8)) (reel : Reel) (stream : List Frame)
    (w : Receiver β) :
    Prop where
  boundary : Boundary w.fw
  fits : reel.Fits w.fw.rest.mode
  kept : Confined base w.fw.rest.view
  ledger : ∃ obs, w.fw.rest.trace = obs ++ base ∧ sessions obs = reel.sessions ∧
    (told obs).map onWire = taken ++ eventsOf stream
  quits : ∀ before after, stream = before ++ passAck :: after → reel = .closed ∧ eventsOf after = []

/-- The Pico goes on, and what it sends joins the frames on their way. -/
theorem Reels.goes (h : Reels base taken reel stream w) {v : Receiver β} (hfw : v.fw = w.fw) (hboundary : Boundary fw)
    (hfits : reel'.Fits fw.rest.mode) (hsink : ReflTransGen (Sink True True) w.fw.rest.view fw.rest.view)
    {obs : List Obs} (htrace : fw.rest.trace = obs ++ w.fw.rest.trace)
    (hsessions : sessions obs + reel.sessions = reel'.sessions)
    (hclosed : reel = .closed → reel' = .closed ∧ told obs = [])
    (hacked : .modeChanged .pass .ok ∈ sent obs → reel' = .closed ∧ told obs = []) :
    Reels base taken reel' (stream ++ (v.goes fw stage).2) (v.goes fw stage).1 := by
  obtain ⟨earlier, hearlier, hcount, hledger⟩ := h.ledger
  have hnew := eventsOf_sent (sent obs)
  rw [← hfw] at htrace
  rw [Receiver.goes_of_trace htrace]
  rw [hfw] at htrace
  dsimp only
  refine ⟨hboundary, hfits, sink_confined.run hsink h.kept, ⟨obs ++ earlier, ?_, ?_, ?_⟩,
    fun before after hstream => ?_⟩
  · change fw.rest.trace = _
    rw [htrace, hearlier, List.append_assoc]
  · rw [sessions_append, hcount, hsessions]
  · rw [told_append, List.map_append, hledger, PiZero.eventsOf_append, hnew, List.append_assoc]
    rfl
  · have hquiet : told obs = [] → eventsOf ((sent obs).map PicoMsg.toFrame) = [] := fun htold => by
      rw [hnew]
      exact congrArg (List.map onWire) htold
    have hsent : passAck ∈ (sent obs).map PicoMsg.toFrame → reel' = .closed ∧ told obs = [] := fun hmem => by
      obtain ⟨msg, hmsg, hframe⟩ := List.mem_map.1 hmem
      exact hacked (toFrame_passAck hframe ▸ hmsg)
    rcases List.append_eq_append_iff.1 hstream with ⟨between, -, hframes⟩ | ⟨between, hbefore, hframes⟩
    · obtain ⟨hreel, htold⟩ := hsent (by rw [hframes]; simp)
      have hnone := hquiet htold
      rw [hframes, PiZero.eventsOf_append, PiZero.eventsOf_cons_other (by decide)] at hnone
      exact ⟨hreel, (List.append_eq_nil_iff.1 hnone).2⟩
    · cases between with
      | nil =>
        have hframes : passAck :: after = (sent obs).map PicoMsg.toFrame := hframes
        obtain ⟨hreel, htold⟩ := hsent (by rw [← hframes]; simp)
        have hnone := hquiet htold
        rw [← hframes, PiZero.eventsOf_cons_other (by decide)] at hnone
        exact ⟨hreel, hnone⟩
      | cons frame between =>
        obtain ⟨rfl, htail⟩ := List.cons.inj hframes
        have hafter : after = between ++ (sent obs).map PicoMsg.toFrame := htail
        obtain ⟨hreel, hnone⟩ := h.quits before between hbefore
        obtain ⟨hreel', htold⟩ := hclosed hreel
        rw [hafter, PiZero.eventsOf_append, hnone, hquiet htold]
        exact ⟨hreel', rfl⟩

/-- What is on its way to the Pico changes nothing yet. -/
theorem Reels.asks (h : Reels base taken reel stream w) (down : List (List UInt8)) :
    Reels base taken reel stream { w with down := down } :=
  ⟨h.boundary, h.fits, h.kept, h.ledger, h.quits⟩

/-- What the Zero has asked for. -/
inductive Asked where
  | nothing | record | pass
  deriving DecidableEq

/-- How many MODE_SETs of RECORD and of PASS may be on their way. -/
def Asked.Allows : Asked → Reel → Nat → Nat → Prop
  | .nothing, reel, records, passes => reel = .blank ∧ records = 0 ∧ passes = 0
  | .record, reel, records, passes => reel ≠ .closed ∧ (reel = .blank → 0 < records) ∧ passes = 0
  | .pass, reel, records, _ => (reel = .blank → 0 < records) ∧ (reel = .closed → records = 0)

theorem Asked.Allows.record {asked : Asked} {records passes : Nat} (h : asked.Allows reel (records + 1) passes) :
    reel ≠ .closed ∧ asked.Allows .running records passes := by
  cases asked with
  | nothing => cases h.2.1
  | record => exact ⟨h.1, nofun, nofun, h.2.2⟩
  | pass => exact ⟨fun hclosed => (by cases h.2 hclosed), nofun, nofun⟩

theorem Asked.Allows.pass {asked : Asked} {passes : Nat} (h : asked.Allows reel 0 (passes + 1)) :
    reel ≠ .blank ∧ asked.Allows .closed 0 passes := by
  cases asked with
  | nothing => cases h.2.2
  | record => cases h.2.2
  | pass => exact ⟨fun hblank => absurd (h.1 hblank) (lt_irrefl 0), nofun, fun _ => rfl⟩

/-- A MODE_SET on its way. -/
def mark (target : UInt8) : List UInt8 := Pico.encode (modeSetTo target)

/-- The session's MODE_SETs on their way: those of RECORD, and behind them those of PASS. -/
def Carried (base : List Obs) (asked : Asked) (taken : List (Nat × List UInt8)) (stream : List Frame) (w : Receiver β) :
    Prop :=
  ∃ reel records passes, Reels base taken reel stream w ∧ asked.Allows reel records passes ∧
    w.down = List.replicate records (mark PiZero.MODE_RECORD) ++ List.replicate passes (mark PiZero.MODE_PASS)

variable {asked : Asked}

/-- A MODE_SET is executed. -/
theorem Reels.receive (h : Reels base taken reel stream w) {target : UInt8} {down : List (List UInt8)}
    (hdown : w.down = mark target :: down) {entered : Nat} {passes : Prop}
    (hturns : Turns entered passes w.fw (dispatchCommand d w.fw (modeSetTo target)))
    (hfits : reel'.Fits (dispatchCommand d w.fw (modeSetTo target)).rest.mode)
    (hsessions : entered + reel.sessions = reel'.sessions) (hclosed : reel = .closed → reel' = .closed)
    (hpasses : passes → reel' = .closed) :
    Reels base taken reel' (stream ++ (w.receive d).2) (w.receive d).1 ∧ (w.receive d).1.down = down := by
  obtain ⟨obs, htrace, hcount, htold, hacked⟩ := hturns
  have hbytes : Pico.decodeFrame (mark target) = .ok (modeSetTo target) := decode_request trivial
  rw [Receiver.receive_cons hdown hbytes]
  refine ⟨h.goes rfl (dispatchCommand_leads h.boundary _).2 hfits (dispatchCommand_sink h.boundary _) htrace ?_ ?_ ?_,
    rfl⟩
  · rw [hcount, hsessions]
  · exact fun hreel => ⟨hclosed hreel, htold⟩
  · exact fun hm => ⟨hpasses (hacked hm), htold⟩

theorem Carried.receive (h : Carried base asked taken stream w) :
    Carried base asked taken (stream ++ (w.receive d).2) (w.receive d).1 := by
  obtain ⟨reel, records, passes, hreels, hallows, hdown⟩ := h
  cases records with
  | succ records =>
    obtain ⟨hopen, hnext⟩ := hallows.record
    obtain ⟨hfresh, hagain⟩ := dispatch_record (d := d) w.fw
    have hdown : w.down = mark PiZero.MODE_RECORD :: _ := hdown
    cases reel with
    | blank =>
      obtain ⟨hmode, hturns⟩ := hfresh hreels.fits
      have hfits : Reel.running.Fits (dispatchCommand d w.fw (modeSetTo PiZero.MODE_RECORD)).rest.mode := by
        rw [hmode]
        exact ⟨nofun, nofun⟩
      obtain ⟨hreels', hdown'⟩ := hreels.receive hdown hturns hfits rfl nofun nofun
      exact ⟨.running, records, passes, hreels', hnext, hdown'⟩
    | running =>
      obtain ⟨hmode, hturns⟩ := hagain hreels.fits.1
      have hfits : Reel.running.Fits (dispatchCommand d w.fw (modeSetTo PiZero.MODE_RECORD)).rest.mode := by
        rw [hmode]
        exact hreels.fits
      obtain ⟨hreels', hdown'⟩ := hreels.receive hdown hturns hfits rfl nofun nofun
      exact ⟨.running, records, passes, hreels', hnext, hdown'⟩
    | closed => exact absurd rfl hopen
  | zero =>
    cases passes with
    | succ passes =>
      obtain ⟨hbegun, hnext⟩ := hallows.pass
      obtain ⟨hmode, hturns⟩ := dispatch_pass (d := d) w.fw
      have hdown : w.down = mark PiZero.MODE_PASS :: _ := hdown
      have hsessions : 0 + reel.sessions = Reel.closed.sessions := by
        cases reel with
        | blank => exact absurd rfl hbegun
        | running | closed => rfl
      have hfits : Reel.closed.Fits (dispatchCommand d w.fw (modeSetTo PiZero.MODE_PASS)).rest.mode := hmode
      obtain ⟨hreels', hdown'⟩ := hreels.receive hdown hturns hfits hsessions (fun _ => rfl) (fun _ => rfl)
      exact ⟨.closed, 0, passes, hreels', hnext, hdown'⟩
    | zero =>
      rw [Receiver.receive_nil hdown, List.append_nil]
      exact ⟨reel, 0, 0, hreels, hallows, hdown⟩

/-- **Every statement of the main loop keeps the account.** -/
theorem steady_carried : Steady d (Carried base asked taken) := by
  intro stream w s h
  rcases Receiver.step_cases d w s with hs | ⟨fw, stage, hmoves, hs⟩ | ⟨-, hs⟩
  · rw [hs, List.append_nil]
    exact h
  · rw [hs]
    obtain ⟨reel, records, passes, hreels, hallows, hdown⟩ := h
    obtain ⟨⟨obs, htrace, hkind⟩, hmode⟩ := hmoves.unprompted hreels.boundary hreels.fits.quiet
    refine ⟨reel, records, passes, hreels.goes rfl (hmoves.reserved hreels.boundary).2 (hreels.fits.next hmode)
      (hmoves.sink hreels.boundary) htrace ?_ ?_ ?_, hallows, hdown⟩
    · rw [sessions_unprompted hkind, Nat.zero_add]
    · rintro rfl
      have hpass : w.fw.rest.mode = .pass := hreels.fits
      exact ⟨rfl, told_unprompted (by rw [hpass]; decide) hkind⟩
    · intro hm
      cases hkind _ (mem_sent.1 hm)
  · rw [hs]
    exact h.receive

/-! ## What the Zero does -/

theorem Carried.asksRecord (h : Carried base asked taken stream w) (hasked : asked ≠ .pass) :
    Carried base .record taken stream { w with down := w.down ++ [mark PiZero.MODE_RECORD] } := by
  obtain ⟨reel, records, passes, hreels, hallows, hdown⟩ := h
  have hnone : reel ≠ .closed ∧ passes = 0 := by
    cases asked with
    | nothing => exact ⟨by rw [hallows.1]; decide, hallows.2.2⟩
    | record => exact ⟨hallows.1, hallows.2.2⟩
    | pass => exact absurd rfl hasked
  obtain ⟨hopen, rfl⟩ := hnone
  refine ⟨reel, records + 1, 0, hreels.asks _, ⟨hopen, fun _ => Nat.succ_pos _, rfl⟩, ?_⟩
  change w.down ++ _ = _
  rw [hdown, List.replicate_succ']
  simp

theorem Carried.asksPass (h : Carried base asked taken stream w) (hasked : asked ≠ .nothing) :
    Carried base .pass taken stream { w with down := w.down ++ [mark PiZero.MODE_PASS] } := by
  obtain ⟨reel, records, passes, hreels, hallows, hdown⟩ := h
  have hnext : Asked.pass.Allows reel records (passes + 1) := by
    cases asked with
    | nothing => exact absurd rfl hasked
    | record => exact ⟨hallows.2.1, fun hclosed => absurd hclosed hallows.1⟩
    | pass => exact hallows
  refine ⟨reel, records, passes + 1, hreels.asks _, hnext, ?_⟩
  change w.down ++ _ = _
  rw [hdown, List.replicate_succ', List.append_assoc]

/-- The acknowledgement of RECORD is taken out of the frames. -/
theorem Carried.answered {before after : List Frame} (h : Carried base .record taken (before ++ recordAck :: after) w) :
    Carried base .record taken (before ++ after) w := by
  obtain ⟨reel, records, passes, hreels, hallows, hdown⟩ := h
  have hunsaid : passAck ∉ before ++ recordAck :: after := fun hmem => by
    obtain ⟨front, behind, hsplit⟩ := List.append_of_mem hmem
    exact hallows.1 (hreels.quits front behind hsplit).1
  obtain ⟨obs, htrace, hsessions, hledger⟩ := hreels.ledger
  refine ⟨reel, records, passes, ⟨hreels.boundary, hreels.fits, hreels.kept, ⟨obs, htrace, hsessions, ?_⟩,
    fun front behind hsplit => absurd ?_ hunsaid⟩, hallows, hdown⟩
  · rw [hledger, PiZero.eventsOf_append, PiZero.eventsOf_append, PiZero.eventsOf_cons_other (by decide)]
  · have hmem : passAck ∈ before ++ after := by rw [hsplit]; simp
    simp only [List.mem_append, List.mem_cons] at hmem ⊢
    exact hmem.imp id .inr

/-- A frame is handed over, and its event taken. -/
theorem Carried.consumed {frame : Frame} {frames : List Frame} (h : Carried base asked taken (frame :: frames) w) :
    Carried base asked (taken ++ eventsOf [frame]) frames w := by
  obtain ⟨reel, records, passes, hreels, hallows, hdown⟩ := h
  obtain ⟨obs, htrace, hsessions, hledger⟩ := hreels.ledger
  refine ⟨reel, records, passes, ⟨hreels.boundary, hreels.fits, hreels.kept, ⟨obs, htrace, hsessions, ?_⟩,
    fun front behind hsplit => hreels.quits (frame :: front) behind (by rw [hsplit]; rfl)⟩, hallows, hdown⟩
  rw [hledger, show frame :: frames = [frame] ++ frames from rfl, PiZero.eventsOf_append, List.append_assoc]

/-- RECORD was entered once, and what was taken is what was told: in that session, in the order in which its reports
were captured. -/
def Transcribes (base : List Obs) (taken : List (Nat × List UInt8)) (m : Fw β) : Prop :=
  ∃ obs session, m.rest.trace = obs ++ base ∧ sessions obs = 1 ∧ session <:+ obs ∧ entry session = some .record ∧
    taken = (told obs).map onWire ∧ told obs = told (sinceEntry session) ∧
    (told (sinceEntry session)).Sublist (recordEvents (sinceEntry session)) ∧
    recordEvents (sinceEntry session) <+: accepted (sinceEntry session)

/-- **Behind the acknowledgement of PASS there is nothing to take.** -/
theorem Carried.finish {before after up : List Frame}
    (h : Carried base .pass taken (before ++ passAck :: after ++ up) w) :
    Transcribes base (taken ++ eventsOf (before ++ after)) w.fw := by
  obtain ⟨reel, records, passes, hreels, -, -⟩ := h
  obtain ⟨rfl, hnone⟩ := hreels.quits before (after ++ up) (by simp)
  obtain ⟨obs, htrace, hsessions, hledger⟩ := hreels.ledger
  obtain ⟨obs', htrace', -, hone⟩ := hreels.kept.since
  obtain rfl : obs' = obs := List.append_cancel_right (htrace'.symm.trans htrace)
  obtain ⟨session, hsuffix, hentry, htold, -⟩ := hone hsessions
  have hinside : entry (session ++ base) = some .record ∧ sinceEntry (session ++ base) = sinceEntry session :=
    entry_append hentry
  have hpast : session ++ base <:+ w.fw.rest.view.trace := by
    change _ <:+ w.fw.rest.trace
    rw [htrace]
    obtain ⟨later, rfl⟩ := hsuffix
    exact ⟨later, (List.append_assoc ..).symm⟩
  have hstep := (hreels.kept.sunk.past _ hpast hinside.1).1
  rw [hinside.2] at hstep
  refine ⟨obs', session, htrace, hsessions, hsuffix, hentry, ?_, htold, told_sublist _, hstep⟩
  rw [PiZero.eventsOf_append] at hnone
  rw [hledger, List.append_assoc, List.cons_append, PiZero.eventsOf_append, PiZero.eventsOf_append,
    PiZero.eventsOf_cons_other (by decide), PiZero.eventsOf_append, (List.append_eq_nil_iff.1 hnone).1,
    (List.append_eq_nil_iff.1 hnone).2]
  rfl

theorem cable_tapes (d : Board β) (base : List Obs) (patience : Nat) :
    Tapes (cable d patience) (fun frames w => Carried base .nothing [] (frames ++ w.up) w.pico)
      (fun taken frames w => Carried base .record taken (frames ++ w.up) w.pico)
      (fun taken frames w => Carried base .pass taken (frames ++ w.up) w.pico)
      (fun taken w => Transcribes base taken w.pico.fw) where
  runs _ := steady_carried.carries patience
  stops _ := steady_carried.carries patience
  record h := steady_carried.write patience _ (fun _ _ h => h.asksRecord (by decide)) h
  again h := steady_carried.write patience _ (fun _ _ h => h.asksRecord (by decide)) h
  answered h := by
    rw [List.append_assoc] at h ⊢
    exact h.answered
  consumed h := h.consumed
  pass h := steady_carried.write patience _ (fun _ _ h => h.asksPass (by decide)) h
  passAgain h := steady_carried.write patience _ (fun _ _ h => h.asksPass (by decide)) h
  finish h := h.finish

theorem exec_sunk {m : Fw β} (h : Boundary m ∧ Sunk m.rest.view) (s : Pico.Statement) :
    Boundary (exec d m s) ∧ Sunk (exec d m s).rest.view := by
  have hsteps : ReflTransGen (Sink True True) m.rest.view (exec d m s).rest.view := exec_sink h.1 s (fun _ _ => trivial)
  exact ⟨exec_boundary h.1 s, sink_sunk.run hsteps h.2⟩

theorem run_sunk (d : Board β) (board : β) (inputs : List LoopInput) :
    Boundary (Pico.run d board inputs) ∧ Sunk (Pico.run d board inputs).rest.view := by
  rw [run_exec]
  exact Lib.foldl_invariant (f := exec d) (P := fun m : Fw β => Boundary m ∧ Sunk m.rest.view)
    (fun m s h => exec_sunk h s) (inputs.flatMap LoopInput.statements) (boot board)
    ⟨boot_boundary board, boot_sunk board⟩

/-- In PASS, and with nothing on the cable, nothing is told yet. -/
theorem opening_carried (d : Board β) (board : β) (inputs : List LoopInput) (script : List Moment)
    (hpass : (Pico.run d board inputs).rest.mode = .pass) :
    Carried (Pico.run d board inputs).rest.trace .nothing [] [] (Rig.opening d board inputs script).pico := by
  obtain ⟨hboundary, hsunk⟩ := run_sunk d board inputs
  have hkept : Confined (Pico.run d board inputs).rest.trace (Pico.run d board inputs).rest.view := by
    refine ⟨hsunk, [], rfl, fun _ => ⟨?_, rfl⟩, nofun⟩
    change (Pico.run d board inputs).rest.mode ≠ .record
    rw [hpass]
    decide
  exact ⟨.blank, 0, 0, ⟨hboundary, hpass, hkept, ⟨[], rfl, rfl, rfl⟩, by simp⟩, ⟨rfl, rfl, rfl⟩, rfl⟩

/-- **A recording is what the keyboard said.**  A session over the cable, started while the Pico passes through, with
any number of polls, either returns a recording or raises.  If it returns one, RECORD was entered once, and the
recording holds the RECORD_EVENTs that the Pico's transmitter took since, all of them, each once and in order, with the
differences of their timestamps: they are reports that were captured in that session, in the order of the capture.  It
is then on disk under its name, which was free, and loads back; and if the session raises nothing on disk has
changed. -/
theorem record_transcribes (d : Board β) (board : β) (inputs : List LoopInput) (script : List Moment) (patience : Nat)
    (E : PiZero.Env (Rig β)) (repr : Lib.Json → String) (decodeError : String → String) (name : String)
    (modeTimeout : Int) (timeouts : List Int) (files : PiZero.Files)
    (hpass : (Pico.run d board inputs).rest.mode = .pass) :
    let disk := ({ E with link := cable d patience } : PiZero.Env (Rig β)).onDisk repr decodeError
    Lib.wp (do
        PiZero.RecordingSession.start disk.link disk.store
        PiZero.RecordingSession.polls disk.link timeouts
        PiZero.RecordingSession.stop disk.link disk.store)
      (fun recording t => ∃ taken, Transcribes (Pico.run d board inputs).rest.trace taken t.link.1.pico.fw ∧
        PiZero.RecordingSession.Saved repr decodeError name files taken recording t.link.2)
      (fun _ t => t.link.2 = files) ⟨[], .create name modeTimeout, (Rig.opening d board inputs script, files), []⟩ :=
  PiZero.RecordingSession.session_tapes (E := { E with link := cable d patience })
    (cable_tapes d (Pico.run d board inputs).rest.trace patience) modeTimeout timeouts
    (Rig.opening d board inputs script) (opening_carried d board inputs script hpass)

end Cable

/-- A Controller's environment on the bench; of it a session has the link. -/
def benchEnv : PiZero.Env (Rig Bool) where
  link := cable Pico.benchBoard 100
  store := ⟨fun _ w => (.ok false, w), fun _ w => (.ok (), w)⟩
  load _ w := (.error .suspended, w)
  rename _ _ w := (.error .suspended, w)
  delete _ w := (.error .suspended, w)
  setup _ _ := .error .suspended
  modeTimeout := 2000000
  recordPollInterval := 0

/-- The Pico goes round its loop once whenever the Zero looks; at the fifth time a key goes down, at the sixth it is
up. -/
def benchKeys : List Moment :=
  let look (events : List HostEvent) : Moment :=
    ⟨[.poll events, .command, .command, .task, .flowControl, .watchdog], 0, false, 100⟩
  List.replicate 4 (look []) ++ look [.reportReceived 1 0 [0, 0, 4, 0, 0, 0, 0, 0]] ::
    look [.reportReceived 1 0 [0, 0, 0, 0, 0, 0, 0, 0]] :: List.replicate 30 (look [])

def benchRecording (E : PiZero.Env (Rig Bool)) :
    PiZero.Py PiZero.RecordingSession (Rig Bool × PiZero.Files) PiZero.Recording := do
  let disk := E.onDisk (fun _ => "") (fun _ => "")
  PiZero.RecordingSession.start disk.link disk.store
  PiZero.RecordingSession.polls disk.link [0, 0, 0]
  PiZero.RecordingSession.stop disk.link disk.store

/-- A keyboard is mounted, and the cable is empty. -/
def benchMounted : List LoopInput := [⟨[.mount 1 0 true], false, []⟩]

def benchOpening (script : List Moment) : PiZero.Heap PiZero.RecordingSession (Rig Bool × PiZero.Files) :=
  ⟨[], .create "tap" 2000000, (Rig.opening Pico.benchBoard true benchMounted script, fun _ => none), []⟩

/-- The events of the recording, if there is one. -/
def recordedEvents (script : List Moment) : Option (List PiZero.RecordingEvent) :=
  match benchRecording benchEnv (benchOpening script) with
  | .ok recording _ => some recording.events
  | .error _ _ => none

theorem ok_of_recordedEvents {script : List Moment} {events : List PiZero.RecordingEvent}
    (h : recordedEvents script = some events) :
    ∃ recording t, benchRecording benchEnv (benchOpening script) = .ok recording t ∧ recording.events = events := by
  unfold recordedEvents at h
  cases hrun : benchRecording benchEnv (benchOpening script) with
  | ok recording t =>
    rw [hrun] at h
    cases h
    exact ⟨recording, t, rfl, rfl⟩
  | error e t =>
    rw [hrun] at h
    cases h

theorem record_transcribes_tap : ∃ recording t, benchRecording benchEnv (benchOpening benchKeys) = .ok recording t ∧
    recording.events = [⟨0, [0, 0, 4, 0, 0, 0, 0, 0]⟩, ⟨0, [0, 0, 0, 0, 0, 0, 0, 0]⟩] ∧
    ∃ taken, Transcribes (Pico.run Pico.benchBoard true benchMounted).rest.trace taken t.link.1.pico.fw ∧
      PiZero.RecordingSession.Saved (fun _ => "") (fun _ => "") "tap" (fun _ => none) taken recording t.link.2 := by
  have hevents : recordedEvents benchKeys = some [⟨0, [0, 0, 4, 0, 0, 0, 0, 0]⟩, ⟨0, [0, 0, 0, 0, 0, 0, 0, 0]⟩] := by
    decide +kernel
  have hpass : (Pico.run Pico.benchBoard true benchMounted).rest.mode = .pass := by decide +kernel
  generalize benchKeys = script at hevents ⊢
  obtain ⟨recording, t, hrun, hevents⟩ := ok_of_recordedEvents hevents
  have htranscribes := record_transcribes Pico.benchBoard true benchMounted script 100 benchEnv (fun _ => "")
    (fun _ => "") "tap" 2000000 [0, 0, 0] (fun _ => none) hpass
  exact ⟨recording, t, hrun, hevents, Lib.wp_of_ok hrun htranscribes⟩

end Link
end PicoRecorder
