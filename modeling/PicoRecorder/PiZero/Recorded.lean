import PicoRecorder.PiZero.Capture
import PicoRecorder.PiZero.Deliveries
import PicoRecorder.PiZero.InTime
/-!
# Recorded — a recording holds what was on the wire

A session starts, polls any number of times and stops.  While the stream is as it should be (`Described`), the builder,
the pending frames and the stream always agree (`Logged`): what was consumed and what is pending are the stream's
events, in wire order.  `stop` drains what was read with the acknowledgement, so the recording is the events of all that
was read.
-/
namespace PicoRecorder
namespace PiZero

open Lib
open Pico (Frame MsgType leNat)
open Reading (protocolScanner)

/-! ## The frames of a stream -/

def isMode (frame : Frame) : Bool := frame.type = MsgType.modeChanged.byte

def isEvent (frame : Frame) : Bool := frame.type = MsgType.recordEvent.byte

def modesOf (frames : List Frame) : List Frame := frames.filter isMode

/-- The RECORD_EVENTs among some frames, with their timestamps. -/
def eventsOf (frames : List Frame) : List (Nat × List UInt8) :=
  (frames.filter isEvent).map (fun frame => (leNat (frame.payload.take 8), frame.payload.drop 9))

/-- Events with the differences of their timestamps; the first has no predecessor. -/
def deltasFrom : Option Nat → List (Nat × List UInt8) → List RecordingEvent
  | _, [] => []
  | last, (timestampUs, report) :: events =>
    ⟨timestampUs - last.getD timestampUs, report⟩ :: deltasFrom (some timestampUs) events

@[simp] theorem modesOf_append (frames more : List Frame) : modesOf (frames ++ more) = modesOf frames ++ modesOf more :=
  List.filter_append ..

@[simp] theorem eventsOf_append (frames more : List Frame) :
    eventsOf (frames ++ more) = eventsOf frames ++ eventsOf more := by
  simp [eventsOf]

theorem modesOf_cons_mode {frame : Frame} (h : frame.type = MsgType.modeChanged.byte) (frames : List Frame) :
    modesOf (frame :: frames) = frame :: modesOf frames := by
  simp [modesOf, isMode, h]

theorem modesOf_cons_other {frame : Frame} (h : frame.type ≠ MsgType.modeChanged.byte) (frames : List Frame) :
    modesOf (frame :: frames) = modesOf frames := by
  simp [modesOf, isMode, h]

theorem eventsOf_cons_event {frame : Frame} (h : frame.type = MsgType.recordEvent.byte) (frames : List Frame) :
    eventsOf (frame :: frames) = (leNat (frame.payload.take 8), frame.payload.drop 9) :: eventsOf frames := by
  simp [eventsOf, isEvent, h]

theorem eventsOf_cons_other {frame : Frame} (h : frame.type ≠ MsgType.recordEvent.byte) (frames : List Frame) :
    eventsOf (frame :: frames) = eventsOf frames := by
  simp [eventsOf, isEvent, h]

theorem mode_not_event {frame : Frame} (h : frame.type = MsgType.modeChanged.byte) :
    frame.type ≠ MsgType.recordEvent.byte := by
  rw [h]
  decide

theorem modesOf_eq_nil {frames : List Frame} (h : ∀ frame ∈ frames, frame.type ≠ MsgType.modeChanged.byte) :
    modesOf frames = [] := by
  simpa [modesOf, isMode] using h

theorem mem_modesOf {frame : Frame} (h : frame.type = MsgType.modeChanged.byte) {frames : List Frame} :
    frame ∈ modesOf frames ↔ frame ∈ frames := by
  simp [modesOf, isMode, h]

theorem deltasFrom_append (timestampUs : Nat) (report : List UInt8) :
    ∀ (events : List (Nat × List UInt8)) (last : Option Nat),
      deltasFrom last (events ++ [(timestampUs, report)]) = deltasFrom last events ++
        [⟨timestampUs - ((events.getLast?.map Prod.fst).or last).getD timestampUs, report⟩]
  | [], last => by simp [deltasFrom]
  | (timestamp, first) :: events, last => by
    rw [List.cons_append, deltasFrom, deltasFrom, deltasFrom_append timestampUs report events]
    cases events <;> simp [List.getLast?_cons]

/-- The stream of a session: valid frames and no fault, an acknowledgement of RECORD and then one of PASS, and
timestamps that do not decrease.  It is a condition on every stretch of the stream from its beginning. -/
structure Described (bytes : List UInt8) : Prop where
  clean : Clean bytes
  modes : modesOf (framesIn bytes) <+: [recordAck, passAck]
  ordered : ((eventsOf (framesIn bytes)).map Prod.fst).Pairwise (· ≤ ·)

theorem framesIn_append (bytes more : List UInt8) : ∃ new, framesIn (bytes ++ more) = framesIn bytes ++ new := by
  unfold framesIn
  rw [Scanner.scan_append, IncrementalDecoder.framesOf_append]
  exact ⟨_, rfl⟩

theorem Described.of_append {bytes more : List UInt8} (h : Described (bytes ++ more)) : Described bytes := by
  obtain ⟨new, hframes⟩ := framesIn_append bytes more
  obtain ⟨hclean, hmodes, hordered⟩ := h
  rw [hframes] at hmodes hordered
  simp only [modesOf_append, eventsOf_append, List.map_append] at hmodes hordered
  exact ⟨hclean.of_append, (List.prefix_append _ _).trans hmodes, (List.pairwise_append.1 hordered).1⟩

/-- What the decoder delivers is deliverable. -/
theorem deliverable_of_mem {bytes : List UInt8} {frame : Frame} (h : frame ∈ framesIn bytes) :
    IncrementalDecoder.Deliverable frame := by
  obtain ⟨p, hp, hframe⟩ := List.mem_filterMap.1 h
  obtain ⟨tail, hlook⟩ := Scanner.look_of_mem bytes p hp
  exact (Reading.look_delivered hlook hframe).2

/-- A RECORD_EVENT that was delivered is valid. -/
theorem validateRecordEvent_of_mem {bytes : List UInt8} {frame : Frame} (h : frame ∈ framesIn bytes)
    (htype : frame.type = MsgType.recordEvent.byte) :
    validateRecordEvent frame = .ok (leNat (frame.payload.take 8), frame.payload.drop 9) := by
  have hvalid := (deliverable_of_mem h).2
  rw [picoPayloadIsValid, if_pos htype, Bool.and_eq_true, beq_iff_eq, beq_iff_eq] at hvalid
  obtain ⟨hlength, hreport⟩ := hvalid
  have hpayload : expectPayload .recordEvent "RECORD_EVENT" 17 frame = .ok () := by
    simp [expectPayload, htype, hlength]
  unfold validateRecordEvent
  rw [hpayload]
  show (if frame.payload.getD 8 0 ≠ 8 then _ else _) = _
  rw [if_neg (not_not.2 hreport)]

/-! ## The builder -/

namespace RecordingBuilder

/-- The builder holds these events. -/
structure Lists (name : String) (taken : List (Nat × List UInt8)) (b : RecordingBuilder) : Prop where
  name : b.name = name
  events : b.events = deltasFrom none taken
  last : b.lastTimestamp = taken.getLast?.map Prod.fst

theorem lists_create (name : String) : Lists name [] (create name) := ⟨rfl, rfl, rfl⟩

/-- An event that is not earlier than the last is added to them. -/
theorem Lists.add {name : String} {taken : List (Nat × List UInt8)} {b : RecordingBuilder} (h : Lists name taken b)
    {event : Nat × List UInt8} (hordered : ((taken ++ [event]).map Prod.fst).Pairwise (· ≤ ·)) :
    ∃ b', b.add event.1 event.2 = .ok b' ∧ Lists name (taken ++ [event]) b' := by
  obtain ⟨timestampUs, report⟩ := event
  have hevents := deltasFrom_append timestampUs report taken none
  unfold RecordingBuilder.add
  rw [h.last]
  cases hlast : taken.getLast? with
  | none =>
    refine ⟨_, rfl, h.name, ?_, by simp⟩
    rw [hevents, hlast, h.events]
    simp
  | some last =>
    have hle : last.1 ≤ timestampUs := by
      rw [List.map_append, List.pairwise_append] at hordered
      exact hordered.2.2 last.1 (List.mem_map_of_mem (List.mem_of_getLast? hlast)) timestampUs (by simp)
    dsimp only [Option.map]
    rw [if_neg (Nat.not_lt.2 hle)]
    refine ⟨_, rfl, h.name, ?_, by simp⟩
    rw [hevents, hlast, h.events]
    simp

end RecordingBuilder

/-! ## The invariant -/

section Logging

variable {σ : Type} (P : Serial σ) {name : String} {answered : List Frame} {b : RecordingBuilder}

/-- While the stream is as described: what the builder holds and the events of the frames not handed over are the events
of the stream, and so are the answers that were taken and the modes of those frames. -/
def Logged (name : String) (answered : List Frame) (b : RecordingBuilder) (frames : List Frame) (w : Port σ) : Prop :=
  w.Synced ∧ (Described w.received → ∃ taken, b.Lists name taken ∧
    eventsOf (framesIn w.received) = taken ++ eventsOf frames ∧
    modesOf (framesIn w.received) = answered ++ modesOf frames ∧ frames.Sublist (framesIn w.received))

theorem Serial.read_received (w : Port σ) : ∃ data, (P.link.read w).2.received = w.received ++ data := by
  simp only [Serial.link]
  split
  · exact ⟨[], (List.append_nil _).symm⟩
  · exact ⟨[], (List.append_nil _).symm⟩
  · rename_i byte data world _
    exact ⟨byte :: data, rfl⟩

theorem logged_read {frames : List Frame} {w : Port σ} (h : Logged name answered b frames w) :
    Logged name answered b (frames ++ (P.link.read w).1.frames) (P.link.read w).2 := by
  obtain ⟨hsynced, hlogged⟩ := h
  obtain ⟨hsynced', hgrows⟩ := P.read_grows hsynced
  refine ⟨hsynced', fun hdescribed => ?_⟩
  obtain ⟨data, hreceived⟩ := P.read_received w
  obtain ⟨-, hframes⟩ := hgrows hdescribed.clean
  rw [hreceived] at hdescribed
  obtain ⟨taken, hlists, hevents, hmodes, hsub⟩ := hlogged hdescribed.of_append
  rw [hframes]
  refine ⟨taken, hlists, ?_, ?_, hsub.append (List.Sublist.refl _)⟩
  · rw [eventsOf_append, eventsOf_append, hevents, List.append_assoc]
  · rw [modesOf_append, modesOf_append, hmodes, List.append_assoc]

theorem logged_carries : Carries P.link (Logged name answered b) where
  clock h := h
  cancelled h := h
  read h := logged_read P h

/-- In a stream as described no frame is rejected. -/
theorem Logged.fine {frames : List Frame} {w : Port σ} (h : Logged name answered b frames w)
    (hd : Described w.received) :
    ∀ frame ∈ frames, requireNotError frame = .ok frame := by
  obtain ⟨taken, -, -, -, hsub⟩ := h.2 hd
  exact fun frame hframe => hd.clean.2 frame (hsub.subset hframe)

theorem logged_spares : Spares (Logged name answered b : List Frame → Port σ → Prop) := by
  rintro before frame after w e he h
  refine ⟨h.1, fun hd => ?_⟩
  have hfine := h.fine hd frame (List.mem_append_right _ List.mem_cons_self)
  rw [he] at hfine
  cases hfine

/-- The first frame of a mode that is not yet taken. -/
theorem Logged.answer {deferred rest : List Frame} {frame : Frame} {w : Port σ}
    (h : Logged name answered b (deferred ++ frame :: rest) w)
    (hdeferred : ∀ f ∈ deferred, f.type ≠ MsgType.modeChanged.byte) (htype : frame.type = MsgType.modeChanged.byte)
    (hd : Described w.received) : answered ++ frame :: modesOf rest <+: [recordAck, passAck] := by
  obtain ⟨taken, -, -, hmodes, -⟩ := h.2 hd
  rw [modesOf_append, modesOf_eq_nil hdeferred, modesOf_cons_mode htype, List.nil_append] at hmodes
  rw [← hmodes]
  exact hd.modes

/-- An answer is taken out of the frames. -/
theorem Logged.taken {deferred rest : List Frame} {frame : Frame} {w : Port σ}
    (h : Logged name answered b (deferred ++ frame :: rest) w)
    (hdeferred : ∀ f ∈ deferred, f.type ≠ MsgType.modeChanged.byte) (htype : frame.type = MsgType.modeChanged.byte) :
    Logged name (answered ++ [frame]) b (deferred ++ rest) w := by
  refine ⟨h.1, fun hd => ?_⟩
  obtain ⟨taken, hlists, hevents, hmodes, hsub⟩ := h.2 hd
  refine ⟨taken, hlists, ?_, ?_, ?_⟩
  · rw [hevents, eventsOf_append, eventsOf_append, eventsOf_cons_other (mode_not_event htype)]
  · rw [hmodes, modesOf_append, modesOf_append, modesOf_eq_nil hdeferred, modesOf_cons_mode htype]
    simp
  · exact ((List.Sublist.refl deferred).append (List.sublist_cons_self frame rest)).trans hsub

end Logging

/-! ## How a wait raises -/

section Raises

variable {S σ : Type} {P : Serial σ}

/-- The line does not fail: reads and writes succeed, and the clock does not go back. -/
structure Serial.Healthy (P : Serial σ) : Prop where
  read : ∀ w message, (P.read w).1 ≠ .error message
  write : ∀ bytes w, (P.write bytes w).1.whole bytes.length = true
  clock : ∀ w, (P.clock w).1 ≤ (P.clock (P.clock w).2).1

/-- Nothing came in time, or the call is still waiting. -/
def Exn.Late (e : Exn) : Prop := e = .suspended ∨ ∃ message, e = .raised .transportTimeout message

/-- What is read of a described stream is frames. -/
theorem Serial.Healthy.read_data (hP : P.Healthy) {w : Port σ} (h : w.Synced)
    (hd : Described (P.link.read w).2.received) :
    (P.link.read w).1 = .data (P.link.read w).1.frames := by
  simp only [Serial.link] at hd ⊢
  split
  · rename_i message world hread
    exact absurd (congrArg Prod.fst hread) (hP.read w.world message)
  · rfl
  · rename_i byte data world hread
    rw [hread] at hd
    dsimp only at hd
    rw [Port.feed_eq h] at hd ⊢
    have hdetails := hd.clean.1
    dsimp only at hdetails ⊢
    rw [Scanner.scan_append, IncrementalDecoder.detailsOf_append] at hdetails
    rw [(List.append_eq_nil_iff.1 hdetails).2]
    rfl

/-- The frames not handed over, while the stream is as described. -/
def Fine (frames : List Frame) (w : Port σ) : Prop :=
  w.Synced ∧ (Described w.received → ∀ frame ∈ frames, requireNotError frame = .ok frame)

theorem fine_carries (P : Serial σ) : Carries P.link (Fine : List Frame → Port σ → Prop) where
  clock h := h
  cancelled h := h
  read := by
    rintro frames w ⟨hsynced, hfine⟩
    obtain ⟨hsynced', hgrows⟩ := P.read_grows hsynced
    refine ⟨hsynced', fun hd frame hframe => ?_⟩
    rcases List.mem_append.1 hframe with hold | hnew
    · obtain ⟨data, hreceived⟩ := P.read_received w
      rw [hreceived] at hd
      exact hfine hd.of_append frame hold
    · obtain ⟨-, hframes⟩ := hgrows hd.clean
      exact hd.clean.2 frame (hframes ▸ List.mem_append_right _ hnew)

theorem Logged.isFine {name : String} {answered : List Frame} {b : RecordingBuilder} {frames : List Frame} {w : Port σ}
    (h : Logged name answered b frames w) : Fine frames w := ⟨h.1, h.fine⟩

namespace Transport

variable (hP : P.Healthy)
include hP

theorem receiveLoop_late (deadline : Int) : ∀ (k : Nat) (s : Heap S (Port σ)), Fine s.pending s.link →
    wp (receiveLoop P.link deadline k) (fun _ _ => True) (fun e t => Described t.link.received → e.Late) s
  | 0, s, _ => fun _ => .inl rfl
  | k + 1, s, h => by
    unfold receiveLoop
    rw [wp_bind]
    show wp _ _ _ { s with link := (P.link.cancelled s.link).2 }
    split
    · exact fun _ => .inr ⟨_, rfl⟩
    rw [wp_bind]
    show wp _ _ _ { s with link := (P.link.read (P.link.cancelled s.link).2).2 }
    have hread := (fine_carries P).read ((fine_carries P).cancelled h)
    have hdata := fun hd => hP.read_data (w := (P.link.cancelled s.link).2) h.1 hd
    cases hresult : (P.link.read (P.link.cancelled s.link).2).1 with
    | osError message =>
      intro hd
      have := hdata hd
      rw [hresult] at this
      cases this
    | invalid detail =>
      intro hd
      have := hdata hd
      rw [hresult] at this
      cases this
    | data frames =>
      rw [hresult] at hread
      dsimp only
      rw [wp_bind]
      show wp _ _ _ (Heap.mk (s.pending ++ frames) _ _ _)
      rw [wp_bind]
      refine wp_mono (popPending_carries ⟨s.pending ++ frames, s.session, _, s.history⟩ hread) ?_ (fun _ _ h => h.elim)
      rintro (_ | frame) t ⟨-, ht⟩
      · dsimp only
        rw [wp_bind]
        refine wp_mono (clock_carries (fine_carries P) t ht) (fun now u hclock => ?_) (fun _ _ h => h.elim)
        split
        · exact fun _ => .inr ⟨_, rfl⟩
        · exact receiveLoop_late deadline k u hclock.2
      · trivial

theorem receiveFrame_late (timeout : Int) (s : Heap S (Port σ)) (h : Fine s.pending s.link) :
    wp (receiveFrame P.link timeout) (fun _ _ => True) (fun e t => Described t.link.received → e.Late) s := by
  unfold receiveFrame
  rw [wp_bind]
  refine wp_mono (popPending_carries s h) ?_ nofun
  rintro (_ | frame) t ⟨-, ht⟩
  · dsimp only
    rw [wp_bind]
    refine wp_mono (clock_carries (fine_carries P) t ht) (fun now u hclock => ?_) nofun
    exact receiveLoop_late hP _ _ u hclock.2
  · trivial

theorem awaitLoop_late (type : MsgType) (deadline : Int) : ∀ (k : Nat) (s : Heap S (Port σ)), Fine s.pending s.link →
    wp (awaitLoop P.link type deadline k) (fun _ _ => True) (fun e t => Described t.link.received → e.Late) s
  | 0, s, _ => fun _ => .inl rfl
  | k + 1, s, h => by
    unfold awaitLoop
    rw [wp_bind]
    refine wp_mono (clock_carries (fine_carries P) s h) (fun now t ht => ?_) (fun _ _ h => h.elim)
    dsimp only
    split
    · exact fun _ => .inr ⟨_, rfl⟩
    rw [wp_bind]
    refine wp_mono (wp_and (receiveFrame_carries (fine_carries P) _ t ht.2) (receiveFrame_late hP _ t ht.2)) ?_
      (fun e u hu => hu.2)
    rintro frame u ⟨⟨-, hu⟩, -⟩
    rw [wp_bind]
    refine wp_checked (fun passed hpassed => ?_) (fun e he hd => ?_)
    · split
      · rw [wp_ensuring]
        refine wp_mono (awaitLoop_late type deadline k u ⟨hu.1, fun hd => (List.forall_mem_cons.1 (hu.2 hd)).2⟩)
          (fun _ _ _ => trivial) (fun e v hv => ?_)
        split <;> exact hv
      · trivial
    · have hfine := hu.2 hd frame List.mem_cons_self
      rw [he] at hfine
      cases hfine

/-- **A wait on a described stream** raises only because nothing came in time. -/
theorem awaitFrame_late (type : MsgType) (timeout : Int) (s : Heap S (Port σ)) (h : Fine s.pending s.link) :
    wp (awaitFrame P.link type timeout) (fun _ _ => True) (fun e t => Described t.link.received → e.Late) s := by
  unfold awaitFrame
  rw [wp_bind]
  exact wp_mono (clock_carries (fine_carries P) s h) (fun now t ht => awaitLoop_late hP type _ _ t ht.2) nofun

end Transport
end Raises

/-! ## Start and polls -/

section Session

variable {σ : Type} {P : Serial σ} (store : Store σ)

/-- The store beside the decoder. -/
def Store.atPort : Store (Port σ) where
  contains name w := ((store.contains name w.world).1, { w with world := (store.contains name w.world).2 })
  save recording w := ((store.save recording w.world).1, { w with world := (store.save recording w.world).2 })

namespace Transport

theorem write_healthy {S : Type} (hP : P.Healthy) (target : UInt8) (s : Heap S (Port σ)) :
    wp (write P.link (.modeSet target)) (fun _ t => Wrote P.link (.modeSet target) s t) (fun _ _ => False) s := by
  have hbuild : (Request.modeSet target).build = .ok (Pico.encode (Request.modeSet target).frame) :=
    Request.build_of_valid trivial
  have hwrote := hP.write (Pico.encode (Request.modeSet target).frame) s.link.world
  unfold write
  rw [hbuild, checked, wp_bind, wp_pure, wp_streamWrite,
    show (P.link.write _ s.link).1 = (P.write (Pico.encode (Request.modeSet target).frame) s.link.world).1 from rfl]
  cases hresult : (P.write (Pico.encode (Request.modeSet target).frame) s.link.world).1 with
  | osError message => rw [hresult] at hwrote; cases hwrote
  | written count =>
    cases count with
    | none => exact ⟨trivial, _, rfl⟩
    | some count =>
      rw [hresult] at hwrote
      dsimp only
      rw [if_neg (not_not.2 (of_decide_eq_true hwrote))]
      exact ⟨trivial, _, rfl⟩

/-- The answer that accepts a target is accepted. -/
theorem answer_accepted {S : Type} {target : UInt8} (htarget : validMode target = true) (frame : Frame)
    (u : Heap S (Port σ)) :
    wp (do
        let (state, reason) ← checked (validateModeChanged frame)
        modify (Heap.note (.answered state reason))
        if state = target ∧ reason = REASON_OK then pure ()
        else raise .modeRejected s!"Pico rejected MODE_SET({target}): state={state}, reason={reason}")
      (fun _ v => v.session = u.session ∧ v.pending = u.pending ∧ v.link = u.link)
      (fun _ v => v.link = u.link ∧ frame ≠ ⟨MsgType.modeChanged.byte, [target, REASON_OK]⟩) u := by
  have hack : validateModeChanged ⟨MsgType.modeChanged.byte, [target, REASON_OK]⟩ = .ok (target, REASON_OK) := by
    show (if !validMode target then _ else if !validReason REASON_OK then _ else _) = _
    rw [htarget]
    rfl
  rw [wp_bind]
  refine wp_checked (fun answer hanswer => ?_) (fun e he => ⟨rfl, ?_⟩)
  · obtain ⟨state, reason⟩ := answer
    dsimp only
    rw [wp_bind]
    show wp _ _ _ (u.note (.answered state reason))
    by_cases haccepted : state = target ∧ reason = REASON_OK
    · rw [if_pos haccepted]
      exact ⟨rfl, rfl, rfl⟩
    · rw [if_neg haccepted]
      refine ⟨rfl, ?_⟩
      rintro rfl
      rw [hack] at hanswer
      cases hanswer
      exact haccepted ⟨rfl, rfl⟩
  · rintro rfl
    rw [hack] at he
    cases he

/-- **The handshake for RECORD** takes the acknowledgement of RECORD. -/
theorem setModeAttempts_records {S : Type} (hP : P.Healthy) {name : String} {b : RecordingBuilder} (timeout : Int)
    (session : S) : ∀ (n : Nat) (s : Heap S (Port σ)), s.session = session → Logged name [] b s.pending s.link →
      wp (setModeAttempts P.link MODE_RECORD timeout (n + 1))
        (fun _ t => t.session = session ∧ Logged name [recordAck] b t.pending t.link)
        (fun e t => Described t.link.received → e.Late) s := by
  intro n
  induction n with
  | zero | succ n ih =>
    rintro s rfl h
    unfold setModeAttempts
    rw [wp_bind]
    refine wp_mono (write_healthy hP MODE_RECORD s) (fun _ t ht => ?_) (fun _ _ hfalse => hfalse.elim)
    obtain ⟨-, whole, rfl⟩ := ht
    rw [wp_bind]
    unfold awaitAnswer
    rw [wp_catching, wp_bind]
    refine wp_mono (wp_and (awaitFrame_carries (logged_carries P) .modeChanged timeout _ h)
      (wp_and (awaitFrame_hands (logged_carries P) logged_spares .modeChanged timeout _ h)
        (awaitFrame_late hP .modeChanged timeout _ h.isFine))) ?_ ?_
    · rintro frame u ⟨htaken, -⟩
      obtain ⟨deferred, rest, hpending, hdeferred, hkept⟩ := htaken.kept
      have hframe : Described u.link.received → frame = recordAck := fun hd => by
        obtain ⟨more, hmore⟩ := hkept.answer hdeferred htaken.ofType hd
        exact (List.cons.inj hmore).1
      rw [wp_pure]
      refine wp_mono (answer_accepted (show validMode MODE_RECORD = true from rfl) frame u) ?_ ?_
      · rintro - v ⟨hsession, hpend, hlink⟩
        refine ⟨hsession.trans htaken.untouched.1, ?_⟩
        rw [hpend, hlink, hpending]
        have hlogged := hkept.taken hdeferred htaken.ofType
        exact ⟨hlogged.1, fun hd => hframe hd ▸ hlogged.2 hd⟩
      · rintro e v ⟨hlink, hframe'⟩ hd
        exact absurd (hframe (hlink ▸ hd)) hframe'
    · rintro e u ⟨hhalted, hkept, hlate⟩
      cases e with
      | suspended => exact hlate
      | raised kind message =>
        cases kind
        case transportTimeout =>
          show wp (if _ then _ else _) _ _ u
          split
          · exact hlate
          · first
              | exact absurd rfl ‹_›
              | exact ih u hhalted.untouched.1 (hkept rfl)
        all_goals exact hlate

end Transport

namespace RecordingSession

/-- A session that has started and goes on. -/
structure Listening (name : String) (s : Heap RecordingSession (Port σ)) : Prop where
  started : s.session.started = true
  unfinished : s.session.finished = false
  logged : Logged name [recordAck] s.session.builder s.pending s.link

theorem start_listens (hP : P.Healthy) {name : String} (hfree : ∀ w, (store.contains name w).1 = .ok false)
    (modeTimeout : Int) (world : σ) :
    wp (start P.link store.atPort) (fun _ t => Listening name t) (fun e t => Described t.link.received → e.Late)
      ⟨[], .create name modeTimeout, .opened world, []⟩ := by
  have hopened : Logged name [] (.create name) ([] : List Frame)
      ⟨(store.contains name world).2, .create, []⟩ := by
    have hframes : framesIn [] = [] := by
      show IncrementalDecoder.framesOf (protocolScanner.scan []).1 = []
      rw [Scanner.scan_wait rfl]
      rfl
    refine ⟨Port.synced_opened (store.contains name world).2, fun _ => ⟨[], RecordingBuilder.lists_create name, ?_⟩⟩
    show eventsOf (framesIn []) = _ ∧ modesOf (framesIn []) = _ ∧ ([] : List Frame).Sublist (framesIn [])
    rw [hframes]
    exact ⟨rfl, rfl, List.Sublist.refl _⟩
  have hvacant : (create name modeTimeout).vacant store.atPort (.opened world) =
      (.ok (), ⟨(store.contains name world).2, .create, []⟩) :=
    vacant_free store.atPort (hfree world)
  unfold start
  rw [wp_bind]
  refine wp_checkName store.atPort (fun _ => ?_) (fun e he => ?_)
  swap
  · rw [hvacant] at he
    cases he
  rw [hvacant]
  unfold enterRecord
  rw [wp_bind, wp_session, wp_bind]
  refine wp_mono (Transport.setModeAttempts_records hP modeTimeout (.create name modeTimeout) 1 _ rfl hopened) ?_
    (fun _ _ he => he)
  rintro - t ⟨hsession, ht⟩
  rw [wp_updateSession]
  refine ⟨rfl, ?_, ?_⟩
  · rw [hsession]
    rfl
  · show Logged name [recordAck] t.session.builder t.pending t.link
    rw [hsession]
    exact ht

/-- The polls of a caller that goes on after a timeout. -/
def polls (L : Link σ) : List Int → Py RecordingSession σ Unit
  | [] => pure ()
  | timeout :: timeouts => do
    catching (receiveAndConsume L timeout) (exceptTimeout (fun _ => pure ()))
    polls L timeouts

/-- Nothing but events and diagnostics after the acknowledgement of RECORD. -/
def Steady (bytes : List UInt8) : Prop := Described bytes ∧ passAck ∉ framesIn bytes

/-- **A frame is consumed**: an event is added, a diagnostic changes nothing. -/
theorem consume_logged {name : String} (frame : Frame) (s : Heap RecordingSession (Port σ))
    (hstarted : s.session.started = true) (hunfinished : s.session.finished = false)
    (h : Logged name [recordAck] s.session.builder (frame :: s.pending) s.link) :
    wp (consume frame) (fun _ t => Listening name t)
      (fun e t => (∀ message, e ≠ .raised .transportTimeout message) ∧ ¬Steady t.link.received) s := by
  unfold consume
  by_cases hevent : frame.type = MsgType.recordEvent.byte
  · rw [if_pos hevent, wp_bind]
    -- Of a described stream the event is valid and not earlier than the last one.
    have hadd : Described s.link.received → ∃ timestampUs report b,
        validateRecordEvent frame = .ok (timestampUs, report) ∧ s.session.builder.add timestampUs report = .ok b ∧
        Logged name [recordAck] b s.pending s.link := by
      intro hd
      obtain ⟨taken, hlists, hevents, hmodes, hsub⟩ := h.2 hd
      have hvalid := validateRecordEvent_of_mem (hsub.subset List.mem_cons_self) hevent
      rw [eventsOf_cons_event hevent, List.append_cons] at hevents
      have hordered := hd.ordered
      rw [hevents, List.map_append] at hordered
      obtain ⟨b, hb, hlists'⟩ := hlists.add (List.pairwise_append.1 hordered).1
      refine ⟨_, _, b, hvalid, hb, h.1, fun _ => ⟨_, hlists', hevents, ?_, (List.sublist_cons_self _ _).trans hsub⟩⟩
      rw [hmodes, modesOf_cons_other (fun hmode => mode_not_event hmode hevent)]
    refine wp_checked (fun event hvalid => ?_)
      (fun e he => ⟨((plain_validateRecordEvent frame).exn he).2, fun hsteady => ?_⟩)
    · obtain ⟨timestampUs, report⟩ := event
      dsimp only
      rw [wp_bind, wp_session, wp_bind]
      refine wp_checked (fun b hb => ?_) (fun e he => ⟨add_raises he, fun hsteady => ?_⟩)
      · rw [wp_updateSession]
        refine ⟨hstarted, hunfinished, h.1, fun hd => ?_⟩
        obtain ⟨timestamp, report', b', hvalid', hb', hlogged⟩ := hadd hd
        rw [hvalid] at hvalid'
        cases hvalid'
        rw [hb] at hb'
        cases hb'
        exact hlogged.2 hd
      · obtain ⟨timestamp, report', b', hvalid', hb', -⟩ := hadd hsteady.1
        rw [hvalid] at hvalid'
        cases hvalid'
        rw [he] at hb'
        cases hb'
    · obtain ⟨timestamp, report, b, hvalid, -⟩ := hadd hsteady.1
      rw [he] at hvalid
      cases hvalid
  · rw [if_neg hevent]
    by_cases hmode : frame.type = MsgType.modeChanged.byte
    · rw [if_pos hmode]
      refine ⟨nofun, fun hsteady => ?_⟩
      obtain ⟨taken, -, -, hmodes, hsub⟩ := h.2 hsteady.1
      have hahead : Logged name [recordAck] s.session.builder ([] ++ frame :: s.pending) s.link := h
      obtain ⟨more, hmore⟩ := hahead.answer nofun hmode hsteady.1
      obtain ⟨-, htail⟩ := List.cons.inj hmore
      have hpass : frame = passAck := (List.cons.inj htail).1
      exact hsteady.2 (hpass ▸ hsub.subset List.mem_cons_self)
    · rw [if_neg hmode, wp_pure]
      refine ⟨hstarted, hunfinished, h.1, fun hd => ?_⟩
      obtain ⟨taken, hlists, hevents, hmodes, hsub⟩ := h.2 hd
      rw [eventsOf_cons_other hevent] at hevents
      rw [modesOf_cons_other hmode] at hmodes
      exact ⟨taken, hlists, hevents, hmodes, (List.sublist_cons_self _ _).trans hsub⟩

/-- A poll consumes a frame or times out. -/
theorem receiveAndConsume_listens (hP : P.Healthy) {name : String} (timeout : Int) (s : Heap RecordingSession (Port σ))
    (h : Listening name s) :
    wp (receiveAndConsume P.link timeout) (fun _ t => Listening name t)
      (fun e t => ((∃ message, e = .raised .transportTimeout message) → Listening name t) ∧
        (Steady t.link.received → e.Late)) s := by
  unfold receiveAndConsume
  rw [wp_bind]
  refine wp_mono (wp_and (Transport.receiveFrame_carries (logged_carries P) timeout s h.logged)
    (Transport.receiveFrame_late hP timeout s h.logged.isFine)) ?_ ?_
  · rintro frame t ⟨⟨huntouched, ht⟩, -⟩
    rw [← huntouched.1] at ht
    rw [wp_bind]
    change wp _ _ _ (t.note (.took frame))
    rw [wp_bind]
    refine wp_checked (fun passed hpassed => ?_) (fun e he => ⟨fun ⟨message, hmessage⟩ => ?_, fun hsteady => ?_⟩)
    · obtain rfl := requireNotError_self hpassed
      refine wp_mono (consume_logged passed (t.note (.took passed)) (huntouched.1 ▸ h.started)
        (huntouched.1 ▸ h.unfinished) ht) (fun _ _ hu => hu)
        (fun e u hu => ⟨fun ⟨message, hmessage⟩ => ?_, fun hsteady => absurd hsteady hu.2⟩)
      exact absurd hmessage (hu.1 message)
    · exact absurd hmessage (((plain_requireNotError frame).exn he).2 message)
    · have hfine := ht.fine hsteady.1 frame List.mem_cons_self
      rw [he] at hfine
      cases hfine
  · rintro e t ⟨hidled, hlate⟩
    refine ⟨fun _ => ⟨?_, ?_, ?_⟩, fun hsteady => hlate hsteady.1⟩
    · rw [hidled.untouched.1]; exact h.started
    · rw [hidled.untouched.1]; exact h.unfinished
    · rw [hidled.untouched.1]; exact hidled.kept

theorem polls_listens (hP : P.Healthy) {name : String} : ∀ (timeouts : List Int) (s : Heap RecordingSession (Port σ)),
    Listening name s →
      wp (polls P.link timeouts) (fun _ t => Listening name t) (fun e t => Steady t.link.received → e.Late) s
  | [], s, h => h
  | timeout :: timeouts, s, h => by
    unfold polls
    rw [wp_bind, wp_catching]
    refine wp_mono (receiveAndConsume_listens hP timeout s h) (fun _ t ht => polls_listens hP timeouts t ht)
      (fun e t ht => ?_)
    cases e with
    | suspended => exact ht.2
    | raised kind message =>
      cases kind
      case transportTimeout => exact polls_listens hP timeouts t (ht.1 ⟨message, rfl⟩)
      all_goals exact ht.2

/-! ## Stop -/

/-- The link was looked at, with so many reads among it. -/
inductive Looked (L : Link σ) : Nat → σ → σ → Prop
  | refl (w : σ) : Looked L 0 w w
  | clock {k : Nat} {w v : σ} : Looked L k w v → Looked L k w (L.clock v).2
  | cancelled {k : Nat} {w v : σ} : Looked L k w v → Looked L k w (L.cancelled v).2
  | read {k : Nat} {w v : σ} : Looked L k w v → Looked L (k + 1) w (L.read v).2

/-- More reads bring more bytes. -/
theorem Looked.extend {k : Nat} {w v : Port σ} (h : Looked P.link k w v) :
    ∀ n, ∃ v' more, Looked P.link (k + n) w v' ∧ v'.received = v.received ++ more
  | 0 => ⟨v, [], h, (List.append_nil _).symm⟩
  | n + 1 => by
    obtain ⟨v', more, hlooked, hreceived⟩ := h.extend n
    obtain ⟨data, hdata⟩ := P.read_received v'
    exact ⟨_, more ++ data, hlooked.read, by rw [hdata, hreceived, List.append_assoc]⟩

/-- The port once MODE_SET(PASS) is written. -/
def afterPass (P : Serial σ) (w : Port σ) : Port σ := (P.link.write (Pico.encode (Request.modeSet MODE_PASS).frame) w).2

/-- The acknowledgement of PASS comes after the MODE_SET(PASS) of `stop`, with the last of so many reads, before that
attempt times out; and the wait has more turns than there are reads and frames. -/
structure Acknowledged (P : Serial σ) (s : Heap RecordingSession (Port σ)) (reads : Nat) : Prop where
  unsent : passAck ∉ framesIn s.link.received
  prompt : ∀ {k v}, k ≤ reads → Looked P.link k (afterPass P s.link) v →
    (P.link.clock v).1 < (P.link.clock (afterPass P s.link)).1 + s.session.modeTimeout ∧ (P.link.cancelled v).1 = false
  arrives : ∀ {v}, Looked P.link reads (afterPass P s.link) v →
    Described v.received ∧ passAck ∈ framesIn v.received ∧ reads + (framesIn v.received).length < P.patience

/-- Where the wait for the acknowledgement stands; `n` reads are still to come. -/
structure Awaiting (P : Serial σ) (name : String) (b : RecordingBuilder) (reads : Nat) (start : Port σ) (n : Nat)
    (frames : List Frame) (w : Port σ) : Prop where
  looked : ∃ k, k + n = reads ∧ Looked P.link k start w
  logged : Logged name [recordAck] b frames w
  /-- The read that brought the acknowledgement was the last one. -/
  fresh : passAck ∈ framesIn w.received → ∃ k v, Looked P.link k start v ∧ passAck ∉ framesIn v.received ∧
    w.received = (P.link.read v).2.received

/-- What is said of the last read holds of the stream before it. -/
theorem Acknowledged.described {s : Heap RecordingSession (Port σ)} {reads k n : Nat} (h : Acknowledged P s reads)
    (hreads : k + n = reads) {v : Port σ} (hlooked : Looked P.link k (afterPass P s.link) v) :
    Described v.received ∧ n + (framesIn v.received).length < P.patience := by
  obtain ⟨v', more, hlooked', hreceived⟩ := hlooked.extend n
  rw [hreads] at hlooked'
  obtain ⟨hdescribed, -, hturns⟩ := h.arrives hlooked'
  obtain ⟨new, hframes⟩ := framesIn_append v.received more
  rw [hreceived] at hdescribed hturns
  rw [hframes, List.length_append] at hturns
  exact ⟨hdescribed.of_append, by omega⟩

theorem awaiting_inTime (hP : P.Healthy) {name : String} {s : Heap RecordingSession (Port σ)} {reads : Nat}
    (h : Acknowledged P s reads) :
    InTime P.link .modeChanged ((P.link.clock (afterPass P s.link)).1 + s.session.modeTimeout)
      (Awaiting P name s.session.builder reads (afterPass P s.link)) where
  before ha := by
    obtain ⟨k, hk, hlooked⟩ := ha.looked
    exact (h.prompt (by omega) hlooked).1
  steady _ := hP.clock _
  clock ha := by
    obtain ⟨k, hk, hlooked⟩ := ha.looked
    exact ⟨⟨k, hk, hlooked.clock⟩, ha.logged, ha.fresh⟩
  uncancelled ha := by
    obtain ⟨k, hk, hlooked⟩ := ha.looked
    exact (h.prompt (by omega) hlooked).2
  cancelled ha := by
    obtain ⟨k, hk, hlooked⟩ := ha.looked
    exact ⟨⟨k, hk, hlooked.cancelled⟩, ha.logged, ha.fresh⟩
  read := by
    intro n frames w ha hframes
    obtain ⟨k, hk, hlooked⟩ := ha.looked
    have hnext : k + 1 + n = reads := by omega
    have hdescribed := (h.described hk hlooked).1
    refine ⟨(P.link.read w).1.frames, hP.read_data ha.logged.1 (h.described hnext hlooked.read).1,
      ⟨k + 1, hnext, hlooked.read⟩, logged_read P ha.logged, fun _ => ⟨k, w, hlooked, fun hmem => ?_, rfl⟩⟩
    obtain ⟨taken, -, -, hmodes, -⟩ := ha.logged.2 hdescribed
    rw [modesOf_eq_nil hframes] at hmodes
    have hpass := (mem_modesOf rfl).2 hmem
    rw [hmodes] at hpass
    exact absurd hpass (by decide)
  answered := by
    intro frames w ha
    obtain ⟨k, hk, hlooked⟩ := ha.looked
    obtain rfl : k = reads := hk
    obtain ⟨hdescribed, hmem, -⟩ := h.arrives hlooked
    obtain ⟨taken, -, -, hmodes, -⟩ := ha.logged.2 hdescribed
    have hpass := (mem_modesOf rfl).2 hmem
    rw [hmodes] at hpass
    rcases List.mem_append.1 hpass with hrecord | hpass
    · exact absurd hrecord (by decide)
    · exact ⟨passAck, (mem_modesOf rfl).1 hpass, rfl⟩
  fine ha := by
    obtain ⟨k, hk, hlooked⟩ := ha.looked
    exact ha.logged.fine (h.described hk hlooked).1
  turns ha := by
    obtain ⟨k, hk, hlooked⟩ := ha.looked
    obtain ⟨hdescribed, hturns⟩ := h.described hk hlooked
    obtain ⟨taken, -, -, -, hsub⟩ := ha.logged.2 hdescribed
    have hlength := hsub.length_le
    show _ < P.patience
    omega

/-- Frames of a described stream are consumed, all of them. -/
theorem takes_of_ordered {name : String} {bytes : List UInt8} :
    ∀ (frames : List Frame) (taken : List (Nat × List UInt8)) (b : RecordingBuilder), b.Lists name taken →
    (∀ frame ∈ frames, frame ∈ framesIn bytes) →
      (∀ frame ∈ frames, requireNotError frame = .ok frame) → modesOf frames = [] →
        ((taken ++ eventsOf frames).map Prod.fst).Pairwise (· ≤ ·) →
          ∃ b', RecordingBuilder.Takes b frames b' ∧ b'.Lists name (taken ++ eventsOf frames)
  | [], taken, b, h, _, _, _, _ => ⟨b, .nil b, by simpa [eventsOf] using h⟩
  | frame :: frames, taken, b, h, hmem, hfine, hmodes, hordered => by
    obtain ⟨hframe, hmem⟩ := List.forall_mem_cons.1 hmem
    obtain ⟨hpasses, hfine⟩ := List.forall_mem_cons.1 hfine
    by_cases hmode : frame.type = MsgType.modeChanged.byte
    · rw [modesOf_cons_mode hmode] at hmodes
      cases hmodes
    rw [modesOf_cons_other hmode] at hmodes
    by_cases hevent : frame.type = MsgType.recordEvent.byte
    · rw [eventsOf_cons_event hevent, List.append_cons] at hordered ⊢
      have hfirst := hordered
      rw [List.map_append] at hfirst
      obtain ⟨b', hb, hlists⟩ := h.add (List.pairwise_append.1 hfirst).1
      obtain ⟨b'', htakes, hall⟩ := takes_of_ordered frames _ b' hlists hmem hfine hmodes hordered
      exact ⟨b'', .event _ _ hevent (validateRecordEvent_of_mem hframe hevent) hb htakes, hall⟩
    · rw [eventsOf_cons_other hevent] at hordered ⊢
      obtain ⟨b', htakes, hall⟩ := takes_of_ordered frames taken b h hmem hfine hmodes hordered
      exact ⟨b', .other hevent hmode hpasses htakes, hall⟩

/-- What `stop` has saved: the events in front of the acknowledgement of PASS, and those behind it in the read that
brought it. -/
structure Recorded (P : Serial σ) (store : Store σ) (name : String) (s : Heap RecordingSession (Port σ))
    (recording : Recording) (t : Heap RecordingSession (Port σ)) (before behind : List Frame) : Prop where
  described : Described t.link.received
  stream : framesIn t.link.received = before ++ passAck :: behind
  together : ∃ k w, Looked P.link k (afterPass P s.link) w ∧ passAck ∉ framesIn w.received ∧
    t.link.received = (P.link.read w).2.received
  name : recording.name = name
  events : recording.events = deltasFrom none (eventsOf (before ++ behind))
  saved : ∃ w, t.link.world = (store.save recording w).2

/-- The handshake of `stop` takes the acknowledgement, and what is pending then goes to the builder. -/
theorem passHandshake_takes (hP : P.Healthy) {name : String} {s : Heap RecordingSession (Port σ)} {reads : Nat}
    (hs : Listening name s) (ha : Acknowledged P s reads) :
    wp (do
        Transport.setMode P.link MODE_PASS.toNat (← session).modeTimeout 1
        drainAll)
      (fun _ t => Described t.link.received ∧ passAck ∈ framesIn t.link.received ∧
        t.session.builder.Lists name (eventsOf (framesIn t.link.received)) ∧
        ∃ k w, Looked P.link k (afterPass P s.link) w ∧ passAck ∉ framesIn w.received ∧
          t.link.received = (P.link.read w).2.received)
      (fun _ _ => False) s := by
  rw [wp_bind, wp_session, wp_bind]
  show wp (Transport.setModeAttempts P.link MODE_PASS s.session.modeTimeout 2) _ _ s
  unfold Transport.setModeAttempts
  rw [wp_bind]
  refine wp_mono (Transport.write_healthy hP MODE_PASS s) (fun _ t ht => ?_) (fun _ _ hfalse => hfalse)
  obtain ⟨-, whole, rfl⟩ := ht
  have hstart : Awaiting P name s.session.builder reads (afterPass P s.link) reads s.pending (afterPass P s.link) :=
    ⟨⟨0, Nat.zero_add reads, .refl _⟩, hs.logged, fun hmem => absurd hmem ha.unsent⟩
  rw [wp_bind]
  unfold Transport.awaitAnswer
  rw [wp_catching, wp_bind]
  refine wp_mono (Transport.awaitFrame_inTime (awaiting_inTime hP ha) _ rfl hstart) ?_ (fun _ _ hfalse => hfalse.elim)
  rintro frame u ⟨huntouched, htype, m, skipped, rest, hpending, hskipped, hu⟩
  obtain ⟨k, hk, hlooked⟩ := hu.looked
  have hdescribed := (ha.described hk hlooked).1
  obtain ⟨more, hmore⟩ := hu.logged.answer hskipped htype hdescribed
  obtain ⟨-, htail⟩ := List.cons.inj hmore
  obtain ⟨rfl, hrest⟩ := List.cons.inj htail
  have hmodes : modesOf (skipped ++ rest) = [] := by
    rw [modesOf_append, modesOf_eq_nil hskipped]
    exact (List.append_eq_nil_iff.1 hrest).1
  have htaken := hu.logged.taken hskipped htype
  obtain ⟨taken, hlists, hevents, -, hsub⟩ := htaken.2 hdescribed
  obtain ⟨takenModes, -, -, -, hall⟩ := hu.logged.2 hdescribed
  rw [wp_pure]
  refine wp_mono (Transport.answer_accepted (show validMode MODE_PASS = true from rfl) passAck u) ?_
    (fun _ _ hv => absurd rfl hv.2)
  rintro - v ⟨hsession, hpend, hlink⟩
  have hordered := hdescribed.ordered
  rw [hevents] at hordered
  obtain ⟨b', htakes, hlists'⟩ := takes_of_ordered (skipped ++ rest) taken s.session.builder hlists
    (fun f hf => hsub.subset hf) (htaken.fine hdescribed) hmodes hordered
  show wp (consumeAll v.pending) _ _ (Heap.take v.pending { v with pending := [] })
  rw [hpend, hpending]
  refine wp_mono (consumeAll_takes htakes _ ?_) ?_ (fun _ _ hfalse => hfalse)
  · show v.session.builder = _
    rw [hsession, huntouched.1]
  · rintro - t rfl
    show Described v.link.received ∧ passAck ∈ framesIn v.link.received ∧
      b'.Lists name (eventsOf (framesIn v.link.received)) ∧ _
    rw [hlink]
    have hmem : passAck ∈ framesIn u.link.received :=
      hall.subset (List.mem_append_right _ List.mem_cons_self)
    exact ⟨hdescribed, hmem, hevents ▸ hlists', hu.fresh hmem⟩

/-- **`stop` publishes what was on the wire.** -/
theorem stop_records (hP : P.Healthy) {name : String} {s : Heap RecordingSession (Port σ)} {reads : Nat}
    (hsave : ∀ recording w, (store.save recording w).1 = .ok ()) (hs : Listening name s) (ha : Acknowledged P s reads) :
    wp (stop P.link store.atPort) (fun recording t => ∃ before behind,
      Recorded P store name s recording t before behind) (fun _ _ => False) s := by
  unfold stop
  rw [wp_bind, wp_session, hs.unfinished, if_neg (by decide), wp_bind, wp_session, hs.started, if_neg (by decide),
    wp_bind, wp_catching]
  refine wp_mono (passHandshake_takes hP hs ha) ?_ (fun _ _ hfalse => hfalse.elim)
  rintro - t ⟨hdescribed, hmem, hlists, htogether⟩
  rw [wp_bind, wp_updateSession, wp_bind, wp_session, wp_bind]
  unfold storeSave
  show wp (checked (store.save t.session.builder.build t.link.world).1) _ _ _
  rw [hsave, checked, wp_pure, wp_pure]
  obtain ⟨before, behind, hstream⟩ := List.append_of_mem hmem
  refine ⟨before, behind, hdescribed, hstream, htogether, hlists.name, ?_, t.link.world, rfl⟩
  show t.session.builder.events = _
  rw [hlists.events, hstream, eventsOf_append, eventsOf_append, eventsOf_cons_other (by decide)]

/-- **A recording holds what was on the wire.**  On a line that does not fail, with the name free and a store that
saves: a session that has started, with any number of polls of which any may time out, raises only for want of an answer
while the stream is as described; and whenever it is stopped then, and PASS is acknowledged in time, `stop` returns and
saves the events in front of the acknowledgement, and those behind it in the read that brought it, each once, in wire
order, with the differences of their timestamps. -/
theorem recording_holds_wire (hP : P.Healthy) {name : String} (hfree : ∀ w, (store.contains name w).1 = .ok false)
    (hsave : ∀ recording w, (store.save recording w).1 = .ok ()) (modeTimeout : Int) (timeouts : List Int) (world : σ) :
    wp (do
        start P.link store.atPort
        polls P.link timeouts)
      (fun _ s => ∀ reads, Acknowledged P s reads →
        wp (stop P.link store.atPort)
          (fun recording t => ∃ before behind, Recorded P store name s recording t before behind ∧
            (eventsOf behind = [] → recording.events = deltasFrom none (eventsOf before)))
          (fun _ _ => False) s)
      (fun e t => Steady t.link.received → e.Late) ⟨[], .create name modeTimeout, .opened world, []⟩ := by
  rw [wp_bind]
  refine wp_mono (start_listens store hP hfree modeTimeout world) (fun _ t ht => ?_)
    (fun e t he hsteady => he hsteady.1)
  refine wp_mono (polls_listens hP timeouts t ht) (fun _ s hs reads ha => ?_) (fun _ _ he => he)
  refine wp_mono (stop_records store hP hsave hs ha) ?_ (fun _ _ hfalse => hfalse)
  rintro recording u ⟨before, behind, hrecorded⟩
  refine ⟨before, behind, hrecorded, fun hbehind => ?_⟩
  rw [hrecorded.events, eventsOf_append, hbehind, List.append_nil]

/-! ## Two recordings -/

/-- The reads follow a script and bring nothing after it, and no time passes. -/
def scriptedSerial : Serial (List (List UInt8)) where
  clock reads := (0, reads)
  cancelled reads := (false, reads)
  read reads := (.ok (reads.headD []), reads.tail)
  write _ reads := (.written none, reads)
  patience := 16

/-- A store in which every name is free. -/
def scriptedStore : Store (List (List UInt8)) where
  contains _ reads := (.ok false, reads)
  save _ reads := (.ok (), reads)

theorem scriptedSerial_healthy : scriptedSerial.Healthy where
  read _ _ := nofun
  write _ _ := rfl
  clock _ := le_refl _

/-- Looking at it changes nothing but by the reads. -/
theorem looked_scripted {k : Nat} {w v : Port (List (List UInt8))} (h : Looked scriptedSerial.link k w v) :
    v = (fun w => (scriptedSerial.link.read w).2)^[k] w := by
  induction h with
  | refl w => rfl
  | clock _ ih => exact ih
  | cancelled _ ih => exact ih
  | read _ ih => rw [Function.iterate_succ_apply', ← ih]

/-- One read that brings the acknowledgement of PASS, behind some frames. -/
theorem acknowledged_scripted {s : Heap RecordingSession (Port (List (List UInt8)))} {seen more : List Frame}
    {rest : List (List UInt8)} (hreceived : s.link.received = seen.flatMap Pico.encode)
    (hworld : s.link.world = more.flatMap Pico.encode :: rest) (hne : more.flatMap Pico.encode ≠ [])
    (hvalid : ∀ frame ∈ seen ++ more, IncrementalDecoder.Deliverable frame)
    (hfine : ∀ frame ∈ seen ++ more, requireNotError frame = .ok frame)
    (hmodes : modesOf (seen ++ more) = [recordAck, passAck])
    (hordered : ((eventsOf (seen ++ more)).map Prod.fst).Pairwise (· ≤ ·)) (hunsent : passAck ∉ seen)
    (hlength : 1 + (seen ++ more).length < 16) (htimeout : 0 < s.session.modeTimeout) :
    Acknowledged scriptedSerial s 1 where
  unsent := by
    rw [hreceived, framesIn_encoded (fun frame hframe => hvalid frame (List.mem_append_left _ hframe))]
    exact hunsent
  prompt _ _ := ⟨by show (0 : Int) < 0 + _; omega, rfl⟩
  arrives := by
    intro v hlooked
    obtain ⟨byte, data, hdata⟩ := List.exists_cons_of_ne_nil hne
    rw [hdata] at hworld
    have hv : v.received = (seen ++ more).flatMap Pico.encode := by
      rw [looked_scripted hlooked]
      show (scriptedSerial.link.read (afterPass scriptedSerial s.link)).2.received = _
      have hread : scriptedSerial.read (afterPass scriptedSerial s.link).world = (.ok (byte :: data), rest) := by
        show (Except.ok (s.link.world.headD []), s.link.world.tail) = _
        rw [hworld]
        rfl
      simp only [Serial.link, hread, Port.feed]
      show s.link.received ++ _ = _
      rw [hreceived, ← hdata, List.flatMap_append]
    rw [hv]
    have hframes := framesIn_encoded hvalid
    refine ⟨⟨clean_encoded hvalid hfine, ?_, ?_⟩, ?_, ?_⟩
    · simp only [hframes, hmodes, List.prefix_refl]
    · rw [hframes]
      exact hordered
    · rw [hframes, ← mem_modesOf (by rfl), hmodes]
      simp
    · rw [hframes]
      exact hlength

/-- A key pressed, and a later one released. -/
def pressed : Frame := ⟨MsgType.recordEvent.byte, [100, 0, 0, 0, 0, 0, 0, 0, 8, 0, 0, 4, 0, 0, 0, 0, 0]⟩

def released : Frame := ⟨MsgType.recordEvent.byte, [140, 0, 0, 0, 0, 0, 0, 0, 8, 0, 0, 0, 0, 0, 0, 0, 0]⟩

/-- The key is pressed in front of the acknowledgement of RECORD and released in front of that of PASS. -/
theorem recording_holds_wire_taps :
    ∃ s, (do
        start scriptedSerial.link scriptedStore.atPort
        polls scriptedSerial.link [1, 0])
        ⟨[], .create "first" 2000000, .opened [[pressed, recordAck].flatMap Pico.encode, [],
          [released, passAck].flatMap Pico.encode], []⟩ = .ok () s ∧
      Acknowledged scriptedSerial s 1 ∧
      wp (stop scriptedSerial.link scriptedStore.atPort)
        (fun recording t => ∃ before behind, Recorded scriptedSerial scriptedStore "first" s recording t before behind)
        (fun _ _ => False) s := by
  have hbegins : wp (do
        start scriptedSerial.link scriptedStore.atPort
        polls scriptedSerial.link [1, 0])
      (fun _ s => s.link.received = [pressed, recordAck].flatMap Pico.encode ∧
        s.link.world = [[released, passAck].flatMap Pico.encode] ∧ s.session.modeTimeout = 2000000) (fun _ _ => False)
      ⟨[], .create "first" 2000000, .opened [[pressed, recordAck].flatMap Pico.encode, [],
        [released, passAck].flatMap Pico.encode], []⟩ := by
    decide +kernel
  obtain ⟨⟨⟩, s, hrun, ⟨hreceived, hworld, htimeout⟩, hstop⟩ := ok_of_wp (wp_mono (wp_and hbegins
    (recording_holds_wire scriptedStore scriptedSerial_healthy (fun _ => rfl) (fun _ _ => rfl) 2000000 [1, 0] _))
    (fun _ _ h => h) (fun _ _ h => h.1))
  have ha : Acknowledged scriptedSerial s 1 :=
    acknowledged_scripted hreceived hworld (by decide) (by decide) (by decide) (by decide) (by decide) (by decide)
      (by decide) (by omega)
  refine ⟨s, hrun, ha, wp_mono (hstop 1 ha) ?_ (fun _ _ hfalse => hfalse)⟩
  rintro recording t ⟨before, behind, hrecorded, -⟩
  exact ⟨before, behind, hrecorded⟩

/-- **An event behind the acknowledgement of PASS**, read with it, is recorded too. -/
theorem recording_takes_later :
    ∃ s recording t, (do
        start scriptedSerial.link scriptedStore.atPort
        polls scriptedSerial.link [])
        ⟨[], .create "first" 2000000,
          .opened [[recordAck].flatMap Pico.encode, [passAck, released].flatMap Pico.encode], []⟩ = .ok () s ∧
      Acknowledged scriptedSerial s 1 ∧ stop scriptedSerial.link scriptedStore.atPort s = .ok recording t ∧
      framesIn t.link.received = [recordAck] ++ passAck :: [released] ∧
      recording.events ≠ deltasFrom none (eventsOf [recordAck]) := by
  have hbegins : wp (do
        start scriptedSerial.link scriptedStore.atPort
        polls scriptedSerial.link [])
      (fun _ s => s.link.received = [recordAck].flatMap Pico.encode ∧
        s.link.world = [[passAck, released].flatMap Pico.encode] ∧ s.session.modeTimeout = 2000000 ∧
        wp (stop scriptedSerial.link scriptedStore.atPort)
          (fun recording t => t.link.received = ([recordAck] ++ passAck :: [released]).flatMap Pico.encode ∧
            recording.events = [⟨0, [0, 0, 0, 0, 0, 0, 0, 0]⟩]) (fun _ _ => False) s) (fun _ _ => False)
      ⟨[], .create "first" 2000000, .opened [[recordAck].flatMap Pico.encode,
        [passAck, released].flatMap Pico.encode], []⟩ := by
    decide +kernel
  obtain ⟨⟨⟩, s, hrun, hreceived, hworld, htimeout, hstop⟩ := ok_of_wp hbegins
  obtain ⟨recording, t, hstopped, hstream, hevents⟩ := ok_of_wp hstop
  have ha : Acknowledged scriptedSerial s 1 :=
    acknowledged_scripted hreceived hworld (by decide) (by decide) (by decide) (by decide) (by decide) (by decide)
      (by decide) (by omega)
  refine ⟨s, recording, t, hrun, ha, hstopped, ?_, ?_⟩
  · rw [hstream, framesIn_encoded (by decide)]
  · rw [hevents]
    decide

end RecordingSession
end Session
end PiZero
end PicoRecorder
