import PicoRecorder.PiZero.Recorded
/-!
# Taped — a saved recording and the frames behind it

A session on a link that vouches for what there is to record (`Tapes`): what was taken, and the events of the frames not
handed over.  Every frame is polled, passed over by a wait or drained, so a session that stops has taken the events of
all of them; and what it saves is what it has taken.
-/
namespace PicoRecorder
namespace PiZero

open Lib
open Lib (Json)
open Pico (Frame MsgType leNat)

/-! ## The answer to a MODE_SET -/

/-- The acknowledgement of a mode. -/
def ackOf (target : UInt8) : Frame := ⟨MsgType.modeChanged.byte, [target, REASON_OK]⟩

/-- What is read of a MODE_CHANGED is all of it. -/
theorem validateModeChanged_frame {frame : Frame} {answer : UInt8 × UInt8}
    (h : validateModeChanged frame = .ok answer) :
    frame = ⟨MsgType.modeChanged.byte, [answer.1, answer.2]⟩ := by
  obtain rfl := validateModeChanged_ok h
  obtain ⟨type, payload⟩ := frame
  unfold validateModeChanged at h
  obtain ⟨value, hpayload, -⟩ := bind_ok h
  unfold expectPayload at hpayload
  split at hpayload
  · cases hpayload
  rename_i htype
  split at hpayload
  · cases hpayload
  rename_i hlength
  have hbyte : type = MsgType.modeChanged.byte := not_not.1 htype
  obtain ⟨state, reason, rfl⟩ := List.length_eq_two.1 (not_not.1 hlength)
  rw [hbyte]
  rfl

section Answered

variable {S σ : Type} {L : Link σ} {J : List Frame → σ → Prop}

namespace Transport

/-- **A handshake that succeeds took the acknowledgement**, and every other frame is still there. -/
theorem setModeAttempts_answered (hJ : Carries L J) (target : UInt8) (timeout : Int) (session : S)
    (hagain : ∀ {frames w}, J frames w → J frames (L.write (Pico.encode (Request.modeSet target).frame) w).2) :
    ∀ (n : Nat) (s : Heap S σ), s.session = session →
      J s.pending (L.write (Pico.encode (Request.modeSet target).frame) s.link).2 →
        wp (setModeAttempts L target timeout (n + 1))
          (fun _ t => t.session = session ∧
            ∃ before after, t.pending = before ++ after ∧ J (before ++ ackOf target :: after) t.link)
          (fun _ _ => True) s := by
  intro n
  induction n with
  | zero | succ n ih =>
    rintro s rfl hs
    unfold setModeAttempts
    rw [wp_bind]
    refine wp_mono (write_wrote (.modeSet target) s) (fun _ t ht => ?_) (fun _ _ _ => trivial)
    obtain ⟨-, whole, rfl⟩ := ht
    rw [wp_bind]
    unfold awaitAnswer
    rw [wp_catching, wp_bind]
    refine wp_mono (awaitFrame_carries hJ .modeChanged timeout _ hs) (fun frame u hu => ?_) (fun e u hu => ?_)
    · obtain ⟨before, after, hpending, -, hkept⟩ := hu.kept
      rw [wp_pure, wp_bind]
      refine wp_checked (fun answer hanswer => ?_) (fun _ _ => trivial)
      obtain ⟨state, reason⟩ := answer
      dsimp only
      rw [wp_bind]
      show wp _ _ _ (u.note (.answered state reason))
      split
      · rename_i hright
        obtain ⟨rfl, rfl⟩ := hright
        obtain rfl := validateModeChanged_frame hanswer
        exact ⟨hu.untouched.1, before, after, hpending, hkept⟩
      · trivial
    · cases e with
      | suspended => trivial
      | raised kind message =>
        cases kind
        case transportTimeout =>
          show wp (if _ then _ else _) _ _ u
          split
          · trivial
          · first
              | exact absurd rfl ‹_›
              | exact ih u hu.untouched.1 (hagain (hu.timeout ⟨message, rfl⟩))
        all_goals trivial

end Transport
end Answered

/-! ## What a builder holds -/

theorem validateRecordEvent_value {frame : Frame} {event : Nat × List UInt8}
    (h : validateRecordEvent frame = .ok event) :
    event = (leNat (frame.payload.take 8), frame.payload.drop 9) := by
  unfold validateRecordEvent at h
  obtain ⟨value, -, h⟩ := bind_ok h
  dsimp only at h
  split at h
  · cases h
  · cases h
    rfl

namespace RecordingBuilder

variable {name : String} {taken : List (Nat × List UInt8)} {b b' : RecordingBuilder}

/-- The builder holds these events, in the order of their timestamps. -/
structure Holds (name : String) (taken : List (Nat × List UInt8)) (b : RecordingBuilder) : Prop where
  lists : b.Lists name taken
  ordered : (taken.map Prod.fst).Pairwise (· ≤ ·)

theorem holds_create (name : String) : Holds name [] (create name) := ⟨lists_create name, .nil⟩

/-- What `add` accepts is not earlier than the last event. -/
theorem add_forward {timestampUs : Nat} {report : List UInt8} (hadd : b.add timestampUs report = .ok b') :
    ∀ last ∈ b.lastTimestamp, last ≤ timestampUs := by
  intro last hlast
  unfold add at hadd
  rw [Option.mem_def.1 hlast] at hadd
  dsimp only at hadd
  by_cases hback : timestampUs < last
  · rw [if_pos hback] at hadd
    cases hadd
  · exact not_lt.1 hback

/-- So it is not earlier than any. -/
theorem Holds.add (h : Holds name taken b) {timestampUs : Nat} {report : List UInt8}
    (hadd : b.add timestampUs report = .ok b') : Holds name (taken ++ [(timestampUs, report)]) b' := by
  have hlast := add_forward hadd
  rw [h.lists.last] at hlast
  have hordered : ((taken ++ [(timestampUs, report)]).map Prod.fst).Pairwise (· ≤ ·) := by
    rw [List.map_append, List.pairwise_append]
    refine ⟨h.ordered, by simp, fun earlier hearlier later hlater => ?_⟩
    rw [List.map_singleton, List.mem_singleton] at hlater
    rw [hlater]
    rcases List.eq_nil_or_concat' taken with rfl | ⟨before, last, rfl⟩
    · cases hearlier
    · have hle : last.1 ≤ timestampUs := hlast last.1 (by simp)
      have hbefore := h.ordered
      rw [List.map_append, List.pairwise_append] at hbefore
      rw [List.map_append, List.mem_append, List.map_singleton, List.mem_singleton] at hearlier
      rcases hearlier with hold | rfl
      · exact (hbefore.2.2 earlier hold last.1 (by simp)).trans hle
      · exact hle
  obtain ⟨b'', hadd', hlists⟩ := h.lists.add hordered
  rw [hadd] at hadd'
  cases hadd'
  exact ⟨hlists, hordered⟩

/-- **What is taken is held.** -/
theorem Holds.takes {frames : List Frame} (htakes : Takes b frames b') : ∀ {taken : List (Nat × List UInt8)},
    Holds name taken b → Holds name (taken ++ eventsOf frames) b' := by
  induction htakes with
  | nil b =>
    intro taken h
    simpa [eventsOf] using h
  | event timestampUs report type valid added rest ih =>
    intro taken h
    obtain ⟨rfl, rfl⟩ := Prod.mk.inj (validateRecordEvent_value valid)
    rw [eventsOf_cons_event type, List.append_cons]
    exact ih (h.add added)
  | other type unchanged fine rest ih =>
    intro taken h
    rw [eventsOf_cons_other type]
    exact ih h

end RecordingBuilder

/-! ## A link that knows what there is to record -/

/-- The invariants of a session: before MODE_SET(RECORD) is written, until MODE_SET(PASS) is, and until that is
acknowledged; the last two with what was taken.  `stopped` says that there is nothing else to take. -/
structure Tapes {σ : Type} (L : Link σ) (idle : List Frame → σ → Prop)
    (running stopping : List (Nat × List UInt8) → List Frame → σ → Prop)
    (stopped : List (Nat × List UInt8) → σ → Prop) :
    Prop where
  runs : ∀ taken, Carries L (running taken)
  stops : ∀ taken, Carries L (stopping taken)
  record : ∀ {frames w}, idle frames w →
    running [] frames (L.write (Pico.encode (Request.modeSet MODE_RECORD).frame) w).2
  again : ∀ {taken frames w}, running taken frames w →
    running taken frames (L.write (Pico.encode (Request.modeSet MODE_RECORD).frame) w).2
  answered : ∀ {taken before after w}, running taken (before ++ recordAck :: after) w →
    running taken (before ++ after) w
  /-- A frame is handed over, and its event is taken. -/
  consumed : ∀ {taken frame frames w}, running taken (frame :: frames) w → running (taken ++ eventsOf [frame]) frames w
  pass : ∀ {taken frames w}, running taken frames w →
    stopping taken frames (L.write (Pico.encode (Request.modeSet MODE_PASS).frame) w).2
  passAgain : ∀ {taken frames w}, stopping taken frames w →
    stopping taken frames (L.write (Pico.encode (Request.modeSet MODE_PASS).frame) w).2
  finish : ∀ {taken before after w}, stopping taken (before ++ passAck :: after) w →
    stopped (taken ++ eventsOf (before ++ after)) w

/-- What does not look at the rest of the world is carried beside it. -/
theorem Carries.beside {σ φ : Type} {L : Link σ} {I : List Frame → σ → Prop} (h : Carries L I) :
    Carries (L.beside φ) (fun frames w => I frames w.1) where
  clock hI := h.clock hI
  cancelled hI := h.cancelled hI
  read hI := h.read hI

namespace RecordingSession

section Session

variable {ω : Type} {E : Env ω} {repr : Json → String} {decodeError : String → String} {idle : List Frame → ω → Prop}
  {running stopping : List (Nat × List UInt8) → List Frame → ω → Prop} {stopped : List (Nat × List UInt8) → ω → Prop}
  {name : String} {files : Files}

/-- A session that has started and goes on, with its name free. -/
structure Taping (running : List (Nat × List UInt8) → List Frame → ω → Prop) (name : String) (files : Files)
    (s : Heap RecordingSession (ω × Files)) : Prop where
  started : s.session.started = true
  fresh : s.session.Fresh
  holds : ∃ taken, s.session.builder.Holds name taken ∧ running taken s.pending s.link.1
  unchanged : s.link.2 = files
  free : files (RecordingStore.pathFor name) = none

/-- **A session that starts** has its name free; one that does not leaves the directory alone. -/
theorem start_tapes (hT : Tapes E.link idle running stopping stopped) (modeTimeout : Int) (world : ω)
    (hidle : idle [] world) :
    wp (start (E.onDisk repr decodeError).link (E.onDisk repr decodeError).store)
      (fun _ t => Taping running name files t) (fun _ t => t.link.2 = files)
      ⟨[], .create name modeTimeout, (world, files), []⟩ := by
  obtain ⟨hworld, hvacant⟩ := vacant_disk E repr decodeError (create name modeTimeout) (world, files)
  unfold start
  rw [wp_bind]
  refine wp_checkName _ (fun hok => ?_) (fun e _ => congrArg Prod.snd hworld)
  obtain ⟨hname, hfile⟩ := hvacant.1 hok
  change wp (enterRecord (E.link.beside Files)) _ _
    ⟨[], create name modeTimeout, ((create name modeTimeout).vacant _ _).2, []⟩
  rw [hworld]
  unfold enterRecord
  rw [wp_bind, wp_session, wp_bind]
  refine wp_mono (wp_and (Transport.sameBeside_setMode E.link MODE_RECORD.toNat modeTimeout 1 _)
    (Transport.setModeAttempts_answered (hT.runs []).beside MODE_RECORD modeTimeout (.create name modeTimeout)
      (fun h => hT.again h) 1 _ rfl (hT.record hidle))) (fun _ u hu => ?_) (fun _ _ h => h.1)
  obtain ⟨hbeside, hsession, before, after, hpending, hkept⟩ := hu
  obtain ⟨pending, session, link, requests⟩ := u
  obtain rfl : session = .create name modeTimeout := hsession
  obtain rfl : pending = before ++ after := hpending
  have hfresh := fresh_create hname modeTimeout
  rw [wp_updateSession]
  exact ⟨rfl, ⟨hfresh.name, hfresh.finished, hfresh.builder, hfresh.sound⟩,
    ⟨[], RecordingBuilder.holds_create name, hT.answered hkept⟩, hbeside, hfile⟩

/-- **A frame that is polled is taken**, and after a timeout none is missing. -/
theorem receiveAndConsume_tapes (hT : Tapes E.link idle running stopping stopped) (timeout : Int)
    {s : Heap RecordingSession (ω × Files)} (h : Taping running name files s) :
    wp (receiveAndConsume (E.onDisk repr decodeError).link timeout) (fun _ t => Taping running name files t)
      (fun e t => t.link.2 = files ∧
        ((∃ message, e = .raised .transportTimeout message) → Taping running name files t)) s := by
  obtain ⟨taken, hholds, hrunning⟩ := h.holds
  unfold receiveAndConsume
  rw [wp_bind]
  refine wp_mono (wp_and (Transport.sameBeside_receiveFrame E.link timeout s)
    (Transport.receiveFrame_carries (hT.runs taken).beside timeout s hrunning)) ?_ ?_
  · rintro frame t ⟨hbeside, huntouched, hkept⟩
    have hfiles : t.link.2 = files := Eq.trans hbeside h.unchanged
    rw [wp_bind]
    change wp _ _ _ (t.note (.took frame))
    rw [wp_bind]
    refine wp_checked (fun passed hpassed => ?_) (fun e he => ⟨hfiles, fun ⟨message, hmessage⟩ => ?_⟩)
    · obtain rfl := requireNotError_self hpassed
      refine wp_mono (consume_takes passed (t.note (.took passed)) hpassed) ?_ ?_
      · rintro - u ⟨b, htakes, rfl⟩
        change RecordingBuilder.Takes t.session.builder [passed] b at htakes
        rw [huntouched.1] at htakes
        refine ⟨?_, ?_, ⟨_, hholds.takes htakes, hT.consumed hkept⟩, hfiles, h.free⟩
        · show t.session.started = true
          rw [huntouched.1]
          exact h.started
        · show (t.session.taking b).Fresh
          rw [huntouched.1]
          exact h.fresh.taking htakes
      · rintro e u ⟨rfl, htimely, -⟩
        exact ⟨hfiles, fun ⟨message, hmessage⟩ => absurd hmessage (htimely message)⟩
    · exact absurd hmessage (((plain_requireNotError frame).exn he).2 message)
  · rintro e t ⟨hbeside, hidled⟩
    have hfiles : t.link.2 = files := Eq.trans hbeside h.unchanged
    have hsession := hidled.untouched.1
    exact ⟨hfiles, fun _ => ⟨by rw [hsession]; exact h.started, by rw [hsession]; exact h.fresh,
      ⟨taken, by rw [hsession]; exact hholds, hidled.kept⟩, hfiles, h.free⟩⟩

theorem polls_tapes (hT : Tapes E.link idle running stopping stopped) : ∀ (timeouts : List Int)
    (s : Heap RecordingSession (ω × Files)), Taping running name files s →
      wp (polls (E.onDisk repr decodeError).link timeouts) (fun _ t => Taping running name files t)
        (fun _ t => t.link.2 = files) s
  | [], s, h => h
  | timeout :: timeouts, s, h => by
    unfold polls
    rw [wp_bind, wp_catching]
    refine wp_mono (receiveAndConsume_tapes hT timeout h) (fun _ t ht => polls_tapes hT timeouts t ht)
      (fun e t ht => ?_)
    cases e with
    | suspended => exact ht.1
    | raised kind message =>
      cases kind
      case transportTimeout => exact polls_tapes hT timeouts t (ht.2 ⟨message, rfl⟩)
      all_goals exact ht.1

/-- Frames that are consumed are taken, one after another. -/
theorem consumeAll_consumed {σ : Type} : ∀ (frames : List Frame) (s : Heap RecordingSession σ),
    wp (consumeAll frames)
      (fun _ t => ∃ b, RecordingBuilder.Takes s.session.builder frames b ∧ t = { s with session := s.session.taking b })
      (fun _ t => t.link = s.link) s
  | [], s => ⟨s.session.builder, .nil _, rfl⟩
  | frame :: frames, s => by
    unfold consumeAll
    rw [wp_bind]
    refine wp_checked (fun passed hpassed => ?_) (fun _ _ => rfl)
    obtain rfl := requireNotError_self hpassed
    rw [wp_bind]
    refine wp_mono (consume_takes passed s hpassed) ?_ ?_
    · rintro - t ⟨b, htakes, rfl⟩
      refine wp_mono (consumeAll_consumed frames _) ?_ (fun _ _ h => h)
      rintro - u ⟨b', htakes', rfl⟩
      exact ⟨b', htakes.append htakes', rfl⟩
    · rintro e t ⟨rfl, -⟩
      rfl

theorem storeSave_world (recording : Recording) (s : Heap RecordingSession (ω × Files)) :
    wp (storeSave (E.onDisk repr decodeError).store recording) (fun _ t => t.link.1 = s.link.1) (fun _ _ => True)
    s := by
  unfold storeSave
  exact wp_checked (fun _ _ => rfl) (fun _ _ => trivial)

/-- What is on disk after a session: the recording of what was taken, under its name. -/
structure Saved (repr : Json → String) (decodeError : String → String) (name : String) (files : Files)
    (taken : List (Nat × List UInt8)) (recording : Recording) (after : Files) : Prop where
  named : recording.name = name
  events : recording.events = deltasFrom none taken
  ordered : (taken.map Prod.fst).Pairwise (· ≤ ·)
  free : files (RecordingStore.pathFor name) = none
  written : after = Function.update files (RecordingStore.pathFor name) (some recording.text)
  loads : RecordingStore.loadText repr decodeError name recording.text = .ok recording

/-- The handshake of `stop`, and what it drains. -/
theorem passHandshake_tapes (hT : Tapes E.link idle running stopping stopped) {s : Heap RecordingSession (ω × Files)}
    (h : Taping running name files s) :
    wp (do
        Transport.setMode (E.onDisk repr decodeError).link MODE_PASS.toNat (← session).modeTimeout 1
        drainAll)
      (fun _ t => t.link.2 = files ∧ t.session.Fresh ∧
        ∃ taken, t.session.builder.Holds name taken ∧ stopped taken t.link.1)
      (fun _ t => t.link.2 = files) s := by
  obtain ⟨taken, hholds, hrunning⟩ := h.holds
  rw [wp_bind, wp_session, wp_bind]
  refine wp_mono (wp_and (Transport.sameBeside_setMode E.link MODE_PASS.toNat s.session.modeTimeout 1 s)
    (Transport.setModeAttempts_answered (hT.stops taken).beside MODE_PASS s.session.modeTimeout s.session
      (fun h => hT.passAgain h) 1 s rfl (hT.pass hrunning))) ?_ (fun _ t ht => Eq.trans ht.1 h.unchanged)
  rintro - t ⟨hbeside, hsession, before, after, hpending, hkept⟩
  have hfiles : t.link.2 = files := Eq.trans hbeside h.unchanged
  show wp (consumeAll t.pending) _ _ (Heap.take t.pending { t with pending := [] })
  refine wp_mono (consumeAll_consumed t.pending _) ?_ (fun _ u hu => (congrArg Prod.snd hu).trans hfiles)
  rintro - u ⟨b, htakes, rfl⟩
  have htakes : RecordingBuilder.Takes s.session.builder t.pending b := by rw [← hsession]; exact htakes
  refine ⟨hfiles, ?_, taken ++ eventsOf t.pending, hholds.takes htakes, ?_⟩
  · show (t.session.taking b).Fresh
    rw [hsession]
    exact h.fresh.taking htakes
  · rw [hpending]
    exact hT.finish hkept

/-- **A session that stops has saved what was taken**, and there was nothing else to take; one that does not leaves the
directory alone. -/
theorem stop_tapes (hT : Tapes E.link idle running stopping stopped) {s : Heap RecordingSession (ω × Files)}
    (h : Taping running name files s) :
    wp (stop (E.onDisk repr decodeError).link (E.onDisk repr decodeError).store)
      (fun recording t => ∃ taken, stopped taken t.link.1 ∧ Saved repr decodeError name files taken recording t.link.2)
      (fun _ t => t.link.2 = files) s := by
  unfold stop
  rw [wp_bind, wp_session, if_neg (by simp [h.fresh.finished]), wp_bind, wp_session, if_neg (by simp [h.started]),
    wp_bind, wp_catching]
  refine wp_mono (passHandshake_tapes hT h) ?_ (fun e t ht => ?_)
  · rintro - t ⟨hfiles, hfresh, taken, hholds, hstopped⟩
    rw [wp_bind, wp_updateSession, wp_bind, wp_session, wp_bind]
    have hname : t.session.builder.build.name = name := hholds.lists.name
    have hevents : t.session.builder.build.events = deltasFrom none taken := hholds.lists.events
    have hvalid : t.session.builder.build.Valid := hfresh.sound.build (by rw [hfresh.builder]; exact hfresh.name)
    have hloads := RecordingStore.loadText_text repr decodeError hvalid
    have hsave : RecordingStore.save t.session.builder.build t.link.2 =
        (.ok (RecordingStore.pathFor name),
          Function.update files (RecordingStore.pathFor name) (some t.session.builder.build.text)) := by
      unfold RecordingStore.save
      rw [hname, hfiles, h.free]
    rw [hname] at hloads
    generalize t.session.builder.build = recording at *
    refine wp_mono (wp_and (storeSave_disk hsave rfl) (storeSave_world recording _)) ?_
      (fun _ _ hfalse => hfalse.1.elim)
    rintro - u ⟨⟨hafter, -⟩, hworld⟩
    rw [wp_pure]
    refine ⟨taken, ?_, hname, hevents, hholds.ordered, h.free, hafter, hloads⟩
    rw [hworld]
    exact hstopped
  · unfold exceptRecorder
    split
    · exact ht
    · rename_i handler hhandler
      split at hhandler
      · cases hhandler
      · cases hhandler
      · cases hhandler
        exact ht

/-- **A whole session**, with any number of polls, saves what was taken when there was nothing else to take; or it
raises, and the directory is as it was. -/
theorem session_tapes (hT : Tapes E.link idle running stopping stopped) (modeTimeout : Int) (timeouts : List Int)
    (world : ω) (hidle : idle [] world) :
    wp (do
        start (E.onDisk repr decodeError).link (E.onDisk repr decodeError).store
        polls (E.onDisk repr decodeError).link timeouts
        stop (E.onDisk repr decodeError).link (E.onDisk repr decodeError).store)
      (fun recording t => ∃ taken, stopped taken t.link.1 ∧ Saved repr decodeError name files taken recording t.link.2)
      (fun _ t => t.link.2 = files) ⟨[], .create name modeTimeout, (world, files), []⟩ := by
  rw [wp_bind]
  refine wp_mono (start_tapes hT modeTimeout world hidle) (fun _ t ht => ?_) (fun _ _ h => h)
  rw [wp_bind]
  exact wp_mono (polls_tapes hT timeouts t ht) (fun _ u hu => stop_tapes hT hu) (fun _ _ h => h)

end Session
end RecordingSession

end PiZero
end PicoRecorder
