import PicoRecorder.PiZero.Ownership
import PicoRecorder.PiZero.RecordingStore
import PicoRecorder.PiZero.Waits
/-!
# Capture — a capture that was accepted is published

The Controller with its recordings on disk, no other writer and no failure there.  `start_recording` looks for the name
once, before its handshake; from then on until it is published the name must stay free.  The Controller keeps it so but
for one call.  What a capture has received is in the history: the frames taken since RECORD was asked for.
-/
namespace PicoRecorder
namespace PiZero

open Lib
open Lib (Json)
open Pico (Frame MsgType leBytes leNat leNat_lt)

/-! ## The directory beside the link -/

/-- The link, beside something it does not touch. -/
def Link.beside {ω : Type} (L : Link ω) (φ : Type) : Link (ω × φ) where
  clock w := ((L.clock w.1).1, (L.clock w.1).2, w.2)
  cancelled w := ((L.cancelled w.1).1, (L.cancelled w.1).2, w.2)
  read w := ((L.read w.1).1, (L.read w.1).2, w.2)
  write data w := ((L.write data w.1).1, (L.write data w.1).2, w.2)
  patience := L.patience

/-- The `RecordingStore` of a Controller. -/
def Env.onDisk {ω : Type} (E : Env ω) (repr : Json → String) (decodeError : String → String) : Env (ω × Files) where
  link := E.link.beside Files
  store :=
    { contains := fun name w => (RecordingStore.exists_ name w.2, w)
      save := fun recording w =>
        let saved := RecordingStore.save recording w.2
        (saved.1.map (fun _ => ()), w.1, saved.2) }
  load name w := (RecordingStore.load repr decodeError name w.2 (.works "" 0), w)
  rename old new w :=
    let renamed := RecordingStore.rename repr decodeError old new w.2
    (renamed.1, w.1, renamed.2)
  delete name w :=
    let deleted := RecordingStore.delete name w.2 (.works "" 0)
    (deleted.1, w.1, deleted.2)
  setup := E.setup
  modeTimeout := E.modeTimeout
  recordPollInterval := E.recordPollInterval

section Disk

variable {S ω φ α : Type} (L : Link ω)

/-- What is beside the link is as it was. -/
def SameBeside (s t : Heap S (ω × φ)) : Prop := t.link.2 = s.link.2

theorem SameBeside.refl (s : Heap S (ω × φ)) : SameBeside s s := rfl

theorem SameBeside.trans (s t u : Heap S (ω × φ)) (h : SameBeside s t) (h' : SameBeside t u) : SameBeside s u :=
  Eq.trans h' h

theorem sameBeside_checked (c : Checked α) : Keeps SameBeside (checked c : Py S (ω × φ) α) := by
  cases c with
  | ok a => exact Keeps.pure SameBeside.refl a
  | error e => exact Keeps.throw SameBeside.refl e

theorem sameBeside_raise (kind : ErrorKind) (message : String) :
    Keeps SameBeside (raise kind message : Py S (ω × φ) α) := Keeps.throw SameBeside.refl _

theorem sameBeside_clock : Keeps SameBeside (clock (L.beside φ) : Py S (ω × φ) Int) := fun _ => rfl

namespace Transport

theorem sameBeside_popPending : Keeps SameBeside (popPending : Py S (ω × φ) (Option Frame)) := fun s => by
  unfold wp popPending
  cases s.pending <;> rfl

theorem sameBeside_receiveLoop (deadline : Int) :
    ∀ n, Keeps SameBeside (receiveLoop (L.beside φ) deadline n : Py S (ω × φ) Frame)
  | 0 => Keeps.throw SameBeside.refl _
  | n + 1 => by
    unfold receiveLoop
    refine Keeps.bind SameBeside.trans (fun _ => rfl) (fun cancel => ?_)
    split
    · exact sameBeside_raise _ _
    refine Keeps.bind SameBeside.trans (fun _ => rfl) (fun result => ?_)
    cases result with
    | osError message => exact sameBeside_raise _ _
    | invalid detail => exact sameBeside_raise _ _
    | data frames =>
      refine Keeps.bind SameBeside.trans (fun _ => rfl) (fun _ => ?_)
      refine Keeps.bind SameBeside.trans sameBeside_popPending (fun frame? => ?_)
      cases frame? with
      | some frame => exact Keeps.pure SameBeside.refl _
      | none =>
        refine Keeps.bind SameBeside.trans (sameBeside_clock L) (fun now => ?_)
        split
        · exact sameBeside_raise _ _
        · exact sameBeside_receiveLoop deadline n

theorem sameBeside_receiveFrame (timeout : Int) :
    Keeps SameBeside (receiveFrame (L.beside φ) timeout : Py S (ω × φ) Frame) := by
  unfold receiveFrame
  refine Keeps.bind SameBeside.trans sameBeside_popPending (fun frame? => ?_)
  cases frame? with
  | some frame => exact Keeps.pure SameBeside.refl _
  | none => exact Keeps.bind SameBeside.trans (sameBeside_clock L) (fun _ => sameBeside_receiveLoop L _ _)

theorem sameBeside_awaitLoop (type : MsgType) (deadline : Int) :
    ∀ n, Keeps SameBeside (awaitLoop (L.beside φ) type deadline n : Py S (ω × φ) Frame)
  | 0 => Keeps.throw SameBeside.refl _
  | n + 1 => by
    unfold awaitLoop
    refine Keeps.bind SameBeside.trans (sameBeside_clock L) (fun now => ?_)
    dsimp only
    split
    · exact sameBeside_raise _ _
    refine Keeps.bind SameBeside.trans (sameBeside_receiveFrame L _) (fun frame => ?_)
    refine Keeps.bind SameBeside.trans (sameBeside_checked _) (fun frame => ?_)
    split
    · exact Keeps.ensuring SameBeside.trans (sameBeside_awaitLoop type deadline n) (fun _ => rfl)
    · exact Keeps.pure SameBeside.refl _

theorem sameBeside_awaitAnswer (timeout : Int) (last : Bool) :
    Keeps SameBeside (awaitAnswer (L.beside φ) timeout last : Py S (ω × φ) (Option Frame)) := by
  have hawait : Keeps SameBeside (awaitFrame (L.beside φ) .modeChanged timeout : Py S (ω × φ) Frame) :=
    Keeps.bind SameBeside.trans (sameBeside_clock L) (fun _ => sameBeside_awaitLoop L _ _ _)
  refine Keeps.catching SameBeside.trans
    (Keeps.bind SameBeside.trans hawait (fun _ => Keeps.pure SameBeside.refl _)) ?_
  rintro (⟨kind, message⟩ | _) h hh
  · cases kind <;> try cases hh
    split
    · exact sameBeside_raise _ _
    · exact Keeps.pure SameBeside.refl _
  · cases hh

theorem sameBeside_write (request : Request) : Keeps SameBeside (write (L.beside φ) request : Py S (ω × φ) Unit) := by
  unfold write
  refine Keeps.bind SameBeside.trans (sameBeside_checked _) (fun data => ?_)
  refine Keeps.bind SameBeside.trans (fun _ => rfl) (fun result => ?_)
  cases result with
  | osError message => exact sameBeside_raise _ _
  | written count =>
    cases count with
    | none => exact Keeps.pure SameBeside.refl _
    | some count =>
      dsimp only
      split
      · exact sameBeside_raise _ _
      · exact Keeps.pure SameBeside.refl _

theorem sameBeside_setModeAttempts (target : UInt8) (timeout : Int) :
    ∀ n, Keeps SameBeside (setModeAttempts (L.beside φ) target timeout n : Py S (ω × φ) Unit)
  | 0 => Keeps.pure SameBeside.refl _
  | n + 1 => by
    unfold setModeAttempts
    refine Keeps.bind SameBeside.trans (sameBeside_write L _) (fun _ => ?_)
    refine Keeps.bind SameBeside.trans (sameBeside_awaitAnswer L _ _) (fun frame? => ?_)
    cases frame? with
    | none => exact sameBeside_setModeAttempts target timeout n
    | some frame =>
      refine Keeps.bind SameBeside.trans (sameBeside_checked _) (fun answer => ?_)
      refine Keeps.bind SameBeside.trans (fun _ => rfl) (fun _ => ?_)
      split
      · exact Keeps.pure SameBeside.refl _
      · exact sameBeside_raise _ _

theorem sameBeside_setMode (target timeout retries : Int) :
    Keeps SameBeside (setMode (L.beside φ) target timeout retries : Py S (ω × φ) Unit) := by
  unfold setMode
  split
  · exact sameBeside_raise _ _
  · split
    · exact sameBeside_raise _ _
    · exact sameBeside_setModeAttempts L _ _ _

end Transport
end Disk

/-! ## What a session takes -/

namespace RecordingBuilder

variable {b b' : RecordingBuilder}

/-- What has been added so far makes a recording. -/
structure Sound (b : RecordingBuilder) : Prop where
  first : ∀ event ∈ b.events.head?, event.dtUs = 0
  reports : ∀ event ∈ b.events, event.report.length = 8
  span : match b.epoch, b.lastTimestamp with
    | none, none => b.events = []
    | some epoch, some last => epoch ≤ last ∧ last ≤ maxU64 ∧ (b.events.map RecordingEvent.dtUs).sum = last - epoch ∧
        b.events ≠ []
    | _, _ => False

theorem sound_create (name : String) : Sound (create name) := ⟨nofun, nofun, rfl⟩

theorem add_name {timestampUs : Nat} {report : List UInt8} (h : b.add timestampUs report = .ok b') :
    b'.name = b.name := by
  unfold add at h
  split at h
  · cases h
    rfl
  · split at h <;> cases h
    rfl

/-- One more event, with the report. -/
theorem add_events {timestampUs : Nat} {report : List UInt8} (h : b.add timestampUs report = .ok b') :
    b'.events.map RecordingEvent.report = b.events.map RecordingEvent.report ++ [report] := by
  unfold add at h
  split at h
  · cases h
    simp
  · split at h <;> cases h
    simp

theorem Sound.add {timestampUs : Nat} {report : List UInt8} (hb : b.Sound) (ht : timestampUs ≤ maxU64)
    (hr : report.length = 8) (h : b.add timestampUs report = .ok b') : b'.Sound := by
  obtain ⟨hfirst, hreports, hspan⟩ := hb
  unfold RecordingBuilder.add at h
  split at h
  · rename_i hlast
    cases h
    have hempty : b.events = [] := by
      rw [hlast] at hspan
      cases hepoch : b.epoch with
      | none => simpa [hepoch] using hspan
      | some epoch => simp [hepoch] at hspan
    refine ⟨?_, ?_, ?_⟩ <;> simp [hempty, hr, ht]
  · rename_i last hlast
    split at h
    · cases h
    rename_i hforward
    cases h
    rw [hlast] at hspan
    cases hepoch : b.epoch with
    | none => simp [hepoch] at hspan
    | some epoch =>
      simp only [hepoch] at hspan
      obtain ⟨hle, -, hsum, hne⟩ := hspan
      refine ⟨?_, ?_, ?_⟩
      · intro event hevent
        rw [List.head?_append_of_ne_nil _ hne] at hevent
        exact hfirst event hevent
      · intro event hevent
        rcases List.mem_append.1 hevent with hold | hnew
        · exact hreports event hold
        · rw [List.mem_singleton.1 hnew]
          exact hr
      · simp only [List.map_append, List.sum_append, hsum]
        refine ⟨by omega, ht, ?_, by simp⟩
        simp
        omega

/-- **What is built is a valid recording.** -/
theorem Sound.build (hb : b.Sound) (hname : matchesName b.name = true) : b.build.Valid := by
  obtain ⟨hfirst, hreports, hspan⟩ := hb
  cases hepoch : b.epoch with
  | none =>
    cases hlast : b.lastTimestamp with
    | none =>
      have hempty : b.events = [] := by simpa [hepoch, hlast] using hspan
      constructor <;> simp [RecordingBuilder.build, hepoch, hempty, hname]
    | some last => simp [hepoch, hlast] at hspan
  | some epoch =>
    cases hlast : b.lastTimestamp with
    | none => simp [hepoch, hlast] at hspan
    | some last =>
      simp only [hepoch, hlast] at hspan
      refine ⟨hname, hfirst, ?_, ?_, hreports⟩
      · simpa [RecordingBuilder.build, hepoch, hlast] using hspan.2.2.1
      · simp only [RecordingBuilder.build, hepoch, hlast]
        omega

/-- The frames are events that a session takes one after another, and others that are no fault: what it has then. -/
inductive Takes : RecordingBuilder → List Frame → RecordingBuilder → Prop where
  | nil (b : RecordingBuilder) : Takes b [] b
  | event {b b' b'' : RecordingBuilder} {frame : Frame} {frames : List Frame} (timestampUs : Nat) (report : List UInt8)
    (type : frame.type = MsgType.recordEvent.byte) (valid : validateRecordEvent frame = .ok (timestampUs, report))
    (added : b.add timestampUs report = .ok b') (rest : Takes b' frames b'') : Takes b (frame :: frames) b''
  | other {b b' : RecordingBuilder} {frame : Frame} {frames : List Frame} (type : frame.type ≠ MsgType.recordEvent.byte)
    (unchanged : frame.type ≠ MsgType.modeChanged.byte) (fine : requireNotError frame = .ok frame)
    (rest : Takes b frames b') : Takes b (frame :: frames) b'

theorem Takes.append {frames later : List Frame} (h : Takes b frames b')
    {b'' : RecordingBuilder} (h' : Takes b' later b'') :
    Takes b (frames ++ later) b'' := by
  induction h with
  | nil => exact h'
  | event timestampUs report type valid added rest ih => exact .event timestampUs report type valid added (ih h')
  | other type unchanged fine rest ih => exact .other type unchanged fine (ih h')

/-- The reports of the events among the frames. -/
def reports (frames : List Frame) : List (List UInt8) :=
  (frames.filter (fun frame => frame.type = MsgType.recordEvent.byte)).map (fun frame => frame.payload.drop 9)

theorem validateRecordEvent_ok {frame : Frame} {timestampUs : Nat} {report : List UInt8}
    (h : validateRecordEvent frame = .ok (timestampUs, report)) :
    timestampUs ≤ maxU64 ∧ report.length = 8 ∧ report = frame.payload.drop 9 := by
  unfold validateRecordEvent at h
  obtain ⟨value, hpayload, h⟩ := bind_ok h
  have hlength : frame.payload.length = 17 := by
    unfold expectPayload at hpayload
    split at hpayload
    · cases hpayload
    · split at hpayload
      · cases hpayload
      · exact not_not.1 ‹_›
  dsimp only at h
  split at h
  · cases h
  · cases h
    refine ⟨?_, by simp [hlength], rfl⟩
    have hlt : leNat (frame.payload.take 8) < 256 ^ 8 := by
      simpa [hlength] using leNat_lt (frame.payload.take 8)
    unfold maxU64
    omega

theorem Takes.name {frames : List Frame} (h : Takes b frames b') : b'.name = b.name := by
  induction h with
  | nil => rfl
  | event timestampUs report type valid added rest ih => rw [ih, add_name added]
  | other type unchanged fine rest ih => exact ih

theorem Takes.sound {frames : List Frame} (h : Takes b frames b') (hb : b.Sound) : b'.Sound := by
  induction h with
  | nil => exact hb
  | event timestampUs report type valid added rest ih =>
    obtain ⟨ht, hr, -⟩ := validateRecordEvent_ok valid
    exact ih (hb.add ht hr added)
  | other type unchanged fine rest ih => exact ih hb

/-- **Every event is taken**, in the order of the frames. -/
theorem Takes.events {frames : List Frame} (h : Takes b frames b') :
    b'.events.map RecordingEvent.report = b.events.map RecordingEvent.report ++ reports frames := by
  induction h with
  | nil => simp [reports]
  | event timestampUs report type valid added rest ih =>
    obtain ⟨-, -, rfl⟩ := validateRecordEvent_ok valid
    rw [ih, add_events added, List.append_assoc]
    simp [reports, type]
  | other type unchanged fine rest ih =>
    rw [ih]
    simp [reports, type]

end RecordingBuilder

/-- The frames that were taken since RECORD was asked for, in the order they came in. -/
def received : List Act → List Frame
  | [] => []
  | .wrote (.modeSet target) _ _ :: history => if target = MODE_RECORD then [] else received history
  | .took frame :: history => received history ++ [frame]
  | _ :: history => received history

theorem received_take (frames : List Frame) (history : List Act) :
    received ((frames.map Act.took).reverse ++ history) = received history ++ frames := by
  induction frames generalizing history with
  | nil => simp
  | cons frame frames ih =>
    rw [List.map_cons, List.reverse_cons, List.append_assoc, ih]
    simp [received]

theorem HandshakeDone.received_record {h h' : List Act} (hd : HandshakeDone MODE_RECORD h h') : received h' = [] := by
  obtain ⟨asides, hne, rfl⟩ := hd
  cases asides with
  | nil => exact absurd rfl hne
  | cons aside asides => rfl

theorem HandshakeDone.received_pass {h h' : List Act} (hd : HandshakeDone MODE_PASS h h') :
    received h' = received h := by
  obtain ⟨asides, -, rfl⟩ := hd
  change received (tries MODE_PASS asides ++ h) = received h
  induction asides with
  | nil => rfl
  | cons aside asides ih => exact (if_neg (by decide)).trans ih

namespace RecordingSession

variable {ω : Type} {L : Link ω}

/-- The session with what it has taken. -/
def taking (s : RecordingSession) (b : RecordingBuilder) : RecordingSession := { s with builder := b }

theorem plain_validateRecordEvent (frame : Frame) : Plain (validateRecordEvent frame) := by
  refine plain_bind (plain_expectPayload _ _ _ _) (fun _ => ?_)
  dsimp only
  split
  · exact plain_protocolError _
  · exact plain_ok _

theorem add_raises {b : RecordingBuilder} {timestampUs : Nat} {report : List UInt8} {e : Exn}
    (h : b.add timestampUs report = .error e) : ∀ message, e ≠ .raised .transportTimeout message := by
  unfold RecordingBuilder.add at h
  split at h
  · cases h
  · split at h <;> cases h
    exact nofun

/-- A frame that is consumed is taken; one that cannot be taken changes nothing, and what it raises is no timeout. -/
theorem consume_takes {σ : Type} (frame : Frame) (s : Heap RecordingSession σ)
    (hfine : requireNotError frame = .ok frame) :
    wp (consume frame)
      (fun _ t => ∃ b, RecordingBuilder.Takes s.session.builder [frame] b ∧
        t = { s with session := s.session.taking b })
      (fun e t => t = s ∧ (∀ message, e ≠ .raised .transportTimeout message) ∧
        ∀ b, ¬RecordingBuilder.Takes s.session.builder [frame] b) s := by
  unfold consume
  by_cases hevent : frame.type = MsgType.recordEvent.byte
  · rw [if_pos hevent, wp_bind]
    refine wp_checked (fun event hvalid => ?_)
      (fun e he => ⟨rfl, ((plain_validateRecordEvent frame).exn he).2, fun b htakes => ?_⟩)
    · obtain ⟨timestampUs, report⟩ := event
      rw [wp_bind, wp_session, wp_bind]
      refine wp_checked (fun b hadd => ?_) (fun e he => ⟨rfl, add_raises he, fun b htakes => ?_⟩)
      · rw [wp_updateSession]
        exact ⟨b, .event timestampUs report hevent hvalid hadd (.nil b), rfl⟩
      · cases htakes with
        | event timestampUs' report' type valid added rest =>
          rw [hvalid] at valid
          cases valid
          rw [he] at added
          cases added
        | other type unchanged fine rest => exact type hevent
    · cases htakes with
      | event timestampUs report type valid added rest =>
        rw [he] at valid
        cases valid
      | other type unchanged fine rest => exact type hevent
  · rw [if_neg hevent]
    by_cases hmode : frame.type = MsgType.modeChanged.byte
    · rw [if_pos hmode]
      refine ⟨rfl, nofun, fun b htakes => ?_⟩
      cases htakes with
      | event timestampUs report type valid added rest => exact hevent type
      | other type unchanged fine rest => exact unchanged hmode
    · rw [if_neg hmode, wp_pure]
      exact ⟨s.session.builder, .other hevent hmode hfine (.nil _), rfl⟩

theorem requireNotError_event {frame : Frame} (h : frame.type = MsgType.recordEvent.byte) :
    requireNotError frame = .ok frame := by
  unfold requireNotError
  rw [h, if_neg (by decide), if_neg (by decide), if_neg (by decide)]

/-- A poll that received a frame takes it, if it can be taken, and otherwise raises no timeout; one that received none
raises what the transport raised. -/
theorem receiveAndConsume_takes (timeout : Int) (s : Heap RecordingSession (ω × Files)) :
    wp (receiveAndConsume (L.beside Files) timeout)
      (fun _ t => SameBeside s t ∧ ∃ frame u, Transport.receiveFrame (L.beside Files) timeout s = .ok frame u ∧
        t.history = .took frame :: s.history ∧
        ∃ b, RecordingBuilder.Takes s.session.builder [frame] b ∧ t.session = s.session.taking b)
      (fun e t => SameBeside s t ∧ t.session = s.session ∧
        ((∃ u, Transport.receiveFrame (L.beside Files) timeout s = .error e u ∧ t.history = s.history) ∨
          ∃ frame u, Transport.receiveFrame (L.beside Files) timeout s = .ok frame u ∧
            t.history = .took frame :: s.history ∧ (∀ message, e ≠ .raised .transportTimeout message) ∧
            ∀ b, ¬RecordingBuilder.Takes s.session.builder [frame] b)) s := by
  unfold receiveAndConsume
  rw [wp_bind]
  refine wp_mono
    (wp_and (wp_and (Transport.sameBeside_receiveFrame L timeout s)
      (Transport.untouched_receiveFrame (L.beside Files) timeout s)) (wp_run _ s))
    (fun frame t ht => ?_) (fun e t ht => ?_)
  · obtain ⟨⟨hbeside, hsession, hhistory⟩, hreceived⟩ := ht
    have hnoted : (t.note (.took frame)).history = .took frame :: s.history := congrArg (Act.took frame :: ·) hhistory
    rw [wp_bind]
    change wp _ _ _ (t.note (.took frame))
    rw [wp_bind]
    refine wp_checked (fun passed hpassed => ?_) (fun e he => ?_)
    · obtain rfl := requireNotError_self hpassed
      refine wp_mono (consume_takes passed (t.note (.took passed)) hpassed) (fun _ u hu => ?_) (fun e u hu => ?_)
      · obtain ⟨b, htakes, rfl⟩ := hu
        change RecordingBuilder.Takes t.session.builder [passed] b at htakes
        rw [hsession] at htakes
        exact ⟨hbeside, passed, t, hreceived, hnoted, b, htakes, congrArg (taking · b) hsession⟩
      · obtain ⟨rfl, htimely, hnot⟩ := hu
        refine ⟨hbeside, hsession, .inr ⟨passed, t, hreceived, hnoted, htimely, fun b htakes => hnot b ?_⟩⟩
        change RecordingBuilder.Takes t.session.builder [passed] b
        rw [hsession]
        exact htakes
    · refine ⟨hbeside, hsession, .inr ⟨frame, t, hreceived, hnoted, ((plain_requireNotError frame).exn he).2, ?_⟩⟩
      intro b htakes
      cases htakes with
      | event timestampUs report type valid added rest =>
        rw [requireNotError_event type] at he
        cases he
      | other type unchanged fine rest =>
        rw [fine] at he
        cases he
  · obtain ⟨⟨hbeside, hsession, hhistory⟩, hreceived⟩ := ht
    exact ⟨hbeside, hsession, .inl ⟨t, hreceived, hhistory⟩⟩

/-- Frames to take are consumed without an exception. -/
theorem consumeAll_takes {σ : Type} {b b' : RecordingBuilder} {frames : List Frame}
    (h : RecordingBuilder.Takes b frames b') :
    ∀ s : Heap RecordingSession σ, s.session.builder = b →
      wp (consumeAll frames) (fun _ t => t = { s with session := s.session.taking b' }) (fun _ _ => False) s := by
  induction h with
  | nil b =>
    rintro s rfl
    rfl
  | event timestampUs report type valid added rest ih =>
    rintro s rfl
    unfold consumeAll consume
    rw [wp_bind, requireNotError_event type, checked, wp_pure, wp_bind, if_pos type, wp_bind, valid, checked, wp_pure,
      wp_bind, wp_session, wp_bind, added, checked, wp_pure, wp_updateSession]
    exact ih _ rfl
  | other type unchanged fine rest ih =>
    rintro s rfl
    unfold consumeAll consume
    rw [wp_bind, fine, checked, wp_pure, wp_bind, if_neg type, if_neg unchanged, wp_pure]
    exact ih s rfl

/-- The session can publish what it takes. -/
structure Fresh (s : RecordingSession) : Prop where
  name : matchesName s.name = true
  finished : s.finished = false
  builder : s.builder.name = s.name
  sound : s.builder.Sound

theorem fresh_create {name : String} (h : matchesName name = true) (modeTimeout : Int) :
    (create name modeTimeout).Fresh :=
  ⟨h, rfl, rfl, RecordingBuilder.sound_create name⟩

theorem Fresh.taking {s : RecordingSession} {frames : List Frame} {b : RecordingBuilder} (h : s.Fresh)
    (htakes : RecordingBuilder.Takes s.builder frames b) : (s.taking b).Fresh :=
  ⟨h.name, h.finished, htakes.name.trans h.builder, htakes.sound h.sound⟩

variable {E : Env ω} {repr : Json → String} {decodeError : String → String}

/-- The session captures: it has taken what was received, and its name is free. -/
structure Capturing (s : RecordingSession) (files : Files) (history : List Act) : Prop where
  fresh : s.Fresh
  started : s.started = true
  takes : RecordingBuilder.Takes (.create s.name) (received history) s.builder
  free : files (RecordingStore.pathFor s.name) = none

/-- A name is vacant when it is one, and there is no recording of it. -/
theorem vacant_disk (E : Env ω) (repr : Json → String) (decodeError : String → String) (s : RecordingSession)
    (w : ω × Files) :
    (s.vacant (E.onDisk repr decodeError).store w).2 = w ∧
      ((s.vacant (E.onDisk repr decodeError).store w).1 = .ok () ↔
        matchesName s.name = true ∧ w.2 (RecordingStore.pathFor s.name) = none) := by
  have hcontains : (E.onDisk repr decodeError).store.contains s.name w = (RecordingStore.exists_ s.name w.2, w) := rfl
  by_cases hname : matchesName s.name = true
  · have hexists : RecordingStore.exists_ s.name w.2 = .ok (w.2 (RecordingStore.pathFor s.name)).isSome := by
      unfold RecordingStore.exists_
      rw [show validateName (.str s.name) = .ok s.name from if_pos hname]
      rfl
    unfold vacant
    rw [hcontains, hexists]
    cases hfile : w.2 (RecordingStore.pathFor s.name) with
    | none => exact ⟨rfl, iff_of_true rfl ⟨hname, rfl⟩⟩
    | some text => exact ⟨rfl, iff_of_false nofun nofun⟩
  · obtain ⟨e, hexists⟩ : ∃ e, RecordingStore.exists_ s.name w.2 = .error e := by
      unfold RecordingStore.exists_
      rw [show validateName (.str s.name) = _ from if_neg hname]
      exact ⟨_, rfl⟩
    unfold vacant
    rw [hcontains, hexists]
    exact ⟨rfl, iff_of_false nofun (fun h => hname h.1)⟩

/-- A session captures once RECORD is acknowledged, with nothing received yet. -/
theorem enterRecord_captures {s : Heap RecordingSession (ω × Files)} (hfresh : s.session.Fresh)
    (hbuilder : s.session.builder = .create s.session.name)
    (hfree : s.link.2 (RecordingStore.pathFor s.session.name) = none) :
    wp (enterRecord (L.beside Files)) (fun _ t => t.session.Capturing t.link.2 t.history) (fun _ _ => True) s := by
  unfold enterRecord
  rw [wp_bind, wp_session, wp_bind]
  refine wp_mono (wp_and (Transport.sameBeside_setMode L MODE_RECORD.toNat s.session.modeTimeout 1 s)
    (Transport.setMode_spec (L.beside Files) MODE_RECORD (.inr (.inl rfl)) s.session.modeTimeout s))
    (fun _ u hu => ?_) (fun _ _ _ => trivial)
  obtain ⟨hbeside, hsession, hdone⟩ := hu
  rw [wp_updateSession]
  rw [← hsession] at hfresh hbuilder hfree
  refine ⟨⟨hfresh.name, hfresh.finished, hfresh.builder, hfresh.sound⟩, rfl, ?_, ?_⟩
  · change RecordingBuilder.Takes (.create u.session.name) (received u.history) u.session.builder
    rw [hdone.received_record, hbuilder]
    exact .nil _
  · change u.link.2 (RecordingStore.pathFor u.session.name) = none
    rw [hbeside]
    exact hfree

theorem storeSave_disk {recording : Recording} {files after : Files} {path : String}
    (h : RecordingStore.save recording files = (.ok path, after)) {s : Heap RecordingSession (ω × Files)}
    (hs : s.link.2 = files) :
    wp (storeSave (E.onDisk repr decodeError).store recording) (fun _ t => t.link.2 = after ∧ t.history = s.history)
      (fun _ _ => False) s := by
  have hsaved : (E.onDisk repr decodeError).store.save recording s.link = (.ok (), s.link.1, after) := by
    change ((RecordingStore.save recording s.link.2).1.map (fun _ => ()), s.link.1,
      (RecordingStore.save recording s.link.2).2) = _
    rw [hs, h]
    rfl
  unfold wp storeSave
  rw [hsaved]
  exact ⟨rfl, rfl⟩

/-- **A session that stops publishes what was received**, if its MODE_SET(PASS) is acknowledged and what is pending then
can be taken. -/
theorem stop_publishes {s t : Heap RecordingSession (ω × Files)} {b : RecordingBuilder}
    (hs : s.session.Capturing s.link.2 s.history)
    (hpass : Transport.setMode (E.link.beside Files) MODE_PASS.toNat s.session.modeTimeout 1 s = .ok () t)
    (htakes : RecordingBuilder.Takes s.session.builder t.pending b) :
    wp (stop (E.onDisk repr decodeError).link (E.onDisk repr decodeError).store)
      (fun recording u => recording = b.build ∧ u.link.2 (RecordingStore.pathFor s.session.name) = some b.build.text ∧
        received u.history = received s.history ++ t.pending)
      (fun _ _ => False) s := by
  have hmode : wp (Transport.setMode (E.link.beside Files) MODE_PASS.toNat s.session.modeTimeout 1)
      (fun _ u => u = t) (fun _ _ => False) s := by
    unfold wp
    rw [hpass]
  obtain ⟨hbeside, hsession, hdone⟩ := wp_of_ok hpass
    (wp_and (Transport.sameBeside_setMode E.link MODE_PASS.toNat s.session.modeTimeout 1 s)
      (Transport.setMode_spec (E.link.beside Files) MODE_PASS (.inl rfl) s.session.modeTimeout s))
  have hname : b.name = s.session.name := htakes.name.trans hs.fresh.builder
  unfold stop
  rw [wp_bind, wp_session, if_neg (by simp [hs.fresh.finished]), wp_bind, wp_session, if_neg (by simp [hs.started]),
    wp_bind, wp_catching, wp_bind, wp_session, wp_bind]
  refine wp_mono hmode (fun _ u hu => ?_) (fun _ _ h => h.elim)
  subst hu
  change wp (consumeAll u.pending) _ _ (Heap.take u.pending { u with pending := [] })
  refine wp_mono
    (consumeAll_takes htakes (Heap.take u.pending { u with pending := [] }) (by simp [Heap.take, hsession]))
    (fun _ v hv => ?_) (fun _ _ h => h.elim)
  subst hv
  rw [wp_bind, wp_updateSession, wp_bind, wp_session, wp_bind]
  have hsave : RecordingStore.save b.build u.link.2 =
      (.ok (RecordingStore.pathFor b.build.name),
        Function.update u.link.2 (RecordingStore.pathFor b.build.name) (some b.build.text)) := by
    unfold RecordingStore.save
    rw [show b.build.name = s.session.name from hname, hbeside, hs.free]
  refine wp_mono (storeSave_disk hsave rfl) (fun _ w hw => ?_) (fun _ _ h => h.elim)
  rw [wp_pure]
  refine ⟨rfl, ?_, ?_⟩
  · rw [hw.1, ← hname]
    exact Function.update_self ..
  · rw [hw.2]
    exact (received_take u.pending u.history).trans (congrArg (· ++ u.pending) hdone.received_pass)

end RecordingSession

/-! ## The Controller's calls and the directory -/

/-- The session of a recording that has found its name vacant and is not yet published. -/
def Job.capturing : Job → Option RecordingSession
  | .recordingHandshake session | .recordingLaunch session | .recordingRespond session _ | .recordingSpawn session _
  | .runRecording session _ | .recordingStop session _ => some session
  | _ => none

/-- What holds of a recording at its place: nothing is taken before its handshake, and from its check on its name is
free. -/
def Job.Ready (files : Files) (history : List Act) : Job → Prop
  | .recordingCreate name => matchesName name = true
  | .recordingStart session => session.Fresh ∧ session.builder = .create session.name
  | .recordingHandshake session =>
    session.Fresh ∧ session.builder = .create session.name ∧ files (RecordingStore.pathFor session.name) = none
  | .recordingLaunch session | .recordingRespond session _ | .recordingSpawn session _ | .runRecording session _
  | .recordingStop session _ => session.Capturing files history
  | _ => True

/-- A change of the directory that leaves the name of a capture free, and none of the history under a capture. -/
theorem Job.Ready.frame {job : Job} {files files' : Files} {history history' : List Act} (h : job.Ready files history)
    (hfree : ∀ session, job.capturing = some session → files (RecordingStore.pathFor session.name) = none →
      files' (RecordingStore.pathFor session.name) = none)
    (hhistory : job.capturing.isSome → history' = history) : job.Ready files' history' := by
  cases job with
  | recordingHandshake session => exact ⟨h.1, h.2.1, hfree session rfl h.2.2⟩
  | recordingLaunch session | recordingRespond session _ | recordingSpawn session _ | runRecording session _
  | recordingStop session _ =>
    obtain ⟨hfresh, hstarted, htakes, hname⟩ := h
    rw [← hhistory rfl] at htakes
    exact ⟨hfresh, hstarted, htakes, hfree session rfl hname⟩
  | _ => exact h

namespace Ctl

variable {ω : Type} {E : Env ω} {repr : Json → String} {decodeError : String → String} {c d : Ctl (ω × Files)}
  {thread : Nat} {job : Job} {moved : Job × Ctl (ω × Files)}

theorem Closed.ready {moved : Job × Ctl (ω × Files)} (h : Closed c moved) (files : Files) (history : List Act) :
    moved.1.Ready files history := by
  obtain ⟨job, completed, rfl, ⟨outcome, rfl⟩ | rfl⟩ := h <;> trivial

/-- What a thread does to the directory outside of its calls. -/
theorem advance_files (h : c.advance (E.onDisk repr decodeError) thread job = some moved) :
    moved.2.link.2 = c.link.2 ∨
      (∃ old new, job = .renameRecording old new ∧
        moved.2.link.2 = (RecordingStore.rename repr decodeError old new c.link.2).2) ∨
      ∃ name, job = .deleteRecording name ∧ moved.2.link.2 = (RecordingStore.delete name c.link.2 (.works "" 0)).2 := by
  have hvacant : ∀ session : RecordingSession, (session.vacant (E.onDisk repr decodeError).store c.link).2.2 =
      c.link.2 :=
    fun session => congrArg Prod.snd (RecordingSession.vacant_disk E repr decodeError session c.link).1
  revert h
  fun_cases advance (E.onDisk repr decodeError) thread c job <;> intro h <;> cases h
  all_goals first
    | exact .inl rfl
    | exact .inl (hvacant _)
    | (obtain ⟨-, rfl⟩ := begin_spec ‹_›; exact .inl rfl)
    | exact .inl (congrArg Prod.snd (stopRaises_closed _ _ _).frame.2.2.1)
    | exact .inl (congrArg Prod.snd (stopReturns_closed _ _).frame.2.2.1)
    | exact .inr (.inl ⟨_, _, rfl, rfl⟩)
    | exact .inr (.inr ⟨_, rfl, rfl⟩)

/-- A recording that goes on is ready at its next place. -/
theorem advance_ready (h : c.advance (E.onDisk repr decodeError) thread job = some moved)
    (hready : job.Ready c.link.2 c.history) : moved.1.Ready moved.2.link.2 moved.2.history := by
  revert h hready
  fun_cases advance (E.onDisk repr decodeError) thread c job <;> intro h hready <;> cases h
  all_goals first
    | trivial
    | exact hready
    | exact (stopRaises_closed _ _ _).ready _ _
    | exact (stopReturns_closed _ _).ready _ _
    | skip
  case case3.refl hname _ _ => exact (validateName_ok hname).1
  case case4.refl => exact ⟨RecordingSession.fresh_create hready E.modeTimeout, rfl⟩
  case case6.refl session _ _ hvacant =>
    obtain ⟨hworld, hfree⟩ := RecordingSession.vacant_disk E repr decodeError session c.link
    refine ⟨hready.1, hready.2, ?_⟩
    change (session.vacant (E.onDisk repr decodeError).store c.link).2.2 (RecordingStore.pathFor session.name) = none
    rw [hworld]
    exact (hfree.1 hvacant).2

/-- So is the worker it starts. -/
theorem ready_of_spawns {worker : Job} {files : Files} {history : List Act} (h : job.Ready files history)
    (hspawns : Job.spawns job = some worker) : worker.Ready files history := by
  cases job <;> cases hspawns <;> exact h

/-- What came back of a call, by its specification. -/
theorem call_spec {σ S α : Type} {c d : Ctl σ} {session s' : S} {m : Py S σ α} {result : Checked α}
    {Q : α → Heap S σ → Prop} {X : Exn → Heap S σ → Prop} (h : c.call session m = some (result, s', d))
    (hm : wp m Q X ⟨c.pending, session, c.link, c.history⟩) :
    (∃ a t, result = .ok a ∧ Q a t ∧ t.session = s' ∧ t.link = d.link ∧ t.history = d.history) ∨
      ∃ e t, result = .error e ∧ X e t ∧ t.session = s' ∧ t.link = d.link ∧ t.history = d.history := by
  unfold call at h
  unfold wp at hm
  cases hrun : m ⟨c.pending, session, c.link, c.history⟩ with
  | ok a t =>
    rw [hrun] at hm h
    cases h
    exact .inl ⟨a, t, rfl, hm, rfl, rfl, rfl⟩
  | error e t =>
    rw [hrun] at hm h
    dsimp only at h
    split at h <;> cases h
    exact .inr ⟨e, t, rfl, hm, rfl, rfl, rfl⟩

theorem returns_ready (h : c.returns (E.onDisk repr decodeError) job = some moved)
    (hready : job.Ready c.link.2 c.history) : moved.1.Ready moved.2.link.2 moved.2.history := by
  cases job with
  | recordingHandshake session =>
    obtain ⟨⟨result, s', d⟩, hcall, rfl⟩ := Option.map_eq_some_iff.1 h
    rcases call_spec hcall (RecordingSession.enterRecord_captures (L := E.link) hready.1 hready.2.1 hready.2.2) with
      ⟨a, t, rfl, hcaptures, rfl, hlink, hhistory⟩ | ⟨e, t, rfl, -⟩
    · rw [hlink, hhistory] at hcaptures
      exact hcaptures
    · exact trivial
  | runRecording session event =>
    obtain ⟨hfresh, hstarted, htaken, hfree⟩ := hready
    obtain ⟨⟨result, s', d⟩, hcall, rfl⟩ := Option.map_eq_some_iff.1 h
    rcases call_spec hcall (RecordingSession.receiveAndConsume_takes (L := E.link) E.recordPollInterval
        ⟨c.pending, session, c.link, c.history⟩) with
      ⟨a, t, rfl, ⟨hbeside, frame, u, -, hnoted, b, htakes, hsession⟩, rfl, hlink, hhistory⟩ |
        ⟨e, t, rfl, ⟨hbeside, hsession, hreceived⟩, rfl, hlink, hhistory⟩
    · have hnext : (session.taking b).Capturing c.link.2 (.took frame :: c.history) :=
        ⟨hfresh.taking htakes, hstarted, htaken.append htakes, hfree⟩
      rw [← show t.session = session.taking b from hsession, ← show t.link.2 = c.link.2 from hbeside,
        ← show t.history = .took frame :: c.history from hnoted, hlink, hhistory] at hnext
      exact hnext
    · -- Only a poll that received nothing goes on.
      have hnext : (∃ message, e = .raised .transportTimeout message) → t.session.Capturing d.link.2 d.history := by
        rintro ⟨message, rfl⟩
        rcases hreceived with ⟨u, -, hsame⟩ | ⟨frame, u, -, -, htimely, -⟩
        · rw [hsession, ← hlink, ← hhistory, show t.link.2 = c.link.2 from hbeside, hsame]
          exact ⟨hfresh, hstarted, htaken, hfree⟩
        · exact absurd rfl (htimely message)
      rcases e with ⟨kind, message⟩ | _
      · cases kind <;> first | exact hnext ⟨message, rfl⟩ | exact trivial
      · exact trivial
  | runPlayback session event =>
    obtain ⟨⟨result, s', d⟩, -, rfl⟩ := Option.map_eq_some_iff.1 h
    rcases result with (⟨kind, message⟩ | _) | value
    · cases kind <;> dsimp only
      case transportTimeout => split <;> exact trivial
      all_goals exact trivial
    · exact trivial
    · exact trivial
  | recordingStop _ _ | playbackStart _ | playbackAbort _ _ | safeStopHandshake =>
    obtain ⟨⟨result, s', d⟩, -, rfl⟩ := Option.map_eq_some_iff.1 h
    cases result <;> exact trivial
  | recordingFailed _ _ | recordingCleanup _ _ _ | playbackFailed _ _ | playbackCleanup _ _ _ =>
    obtain ⟨⟨result, s', d⟩, -, rfl⟩ := Option.map_eq_some_iff.1 h
    exact trivial
  | _ => cases h

/-! ## Every state of every run -/

/-- A recording is renamed to the name of a capture that has found it vacant and is not yet published. -/
def clashes (repr : Json → String) (decodeError : String → String) (c : Ctl (ω × Files)) : Move → Bool
  | .advance thread =>
    match c.threads[thread]? with
    | some ⟨.renameRecording old new, .outside⟩ =>
      c.metaLock.isNone && (RecordingStore.renamed repr decodeError old new c.link.2 (.works "" 0)).toBool &&
        c.threads.any (fun t => t.job.capturing.any (fun session => session.name == new))
    | _ => false
  | _ => false

theorem delete_free {deleted name : String} {files : Files} {turn : Turn}
    (hname : files (RecordingStore.pathFor name) = none) :
    (RecordingStore.delete deleted files turn).2 (RecordingStore.pathFor name) = none := by
  cases hdelete : RecordingStore.delete deleted files turn with
  | mk outcome after =>
    cases outcome with
    | error e =>
      rw [RecordingStore.delete_error hdelete]
      exact hname
    | ok value =>
      rw [RecordingStore.delete_ok hdelete]
      by_cases hsame : RecordingStore.pathFor name = RecordingStore.pathFor deleted
      · rw [hsame]
        exact Directory.remove_self
      · exact (Directory.remove_of_ne hsame).trans hname

/-- A `rename` leaves every other free name free. -/
theorem rename_free {old new name : String} {files : Files} (hname : files (RecordingStore.pathFor name) = none)
    (hnew : (RecordingStore.renamed repr decodeError old new files (.works "" 0)).toBool = true → name ≠ new) :
    (RecordingStore.rename repr decodeError old new files).2 (RecordingStore.pathFor name) = none := by
  unfold RecordingStore.rename
  split
  · exact hname
  · rename_i recording hrenamed
    have hne : RecordingStore.pathFor name ≠ RecordingStore.pathFor recording.name := by
      rw [(RecordingStore.renamed_ok hrenamed).2.1]
      exact fun heq => hnew (by rw [hrenamed]; rfl) (RecordingStore.pathFor_inj.1 heq)
    cases hfile : files (RecordingStore.pathFor recording.name) with
    | some text =>
      rw [RecordingStore.save, hfile]
      exact hname
    | none =>
      rw [RecordingStore.save, hfile]
      exact delete_free ((Function.update_of_ne hne ..).trans hname)

/-- Every recording is at a place where it should be. -/
def Ready (c : Ctl (ω × Files)) : Prop := ∀ t ∈ c.threads, t.job.Ready c.link.2 c.history

theorem owns_of_capturing {job : Job} (h : job.capturing.isSome) : job.owns := by
  cases job <;> first | rfl | cases h

/-- What another thread does to the directory leaves the names of the captures free, and nothing is taken but by the one
that owns the transport. -/
theorem ready_stays {move : Move} {i : Nat} {t : Thread} (howned : Owned c)
    (hclear : c.clashes repr decodeError move = false) (h : c.step (E.onDisk repr decodeError) move = some d)
    (ht : c.threads[i]? = some t) (hreturns : move ≠ .returns i) (hready : t.job.Ready c.link.2 c.history) :
    t.job.Ready d.link.2 d.history := by
  cases stepped h with
  | status | call | enter => exact hready
  | advance thread job moved comes goes =>
    refine hready.frame (fun session hsession hfree => ?_) (fun _ => advance_history goes)
    change moved.2.link.2 (RecordingStore.pathFor session.name) = none
    rcases advance_files goes with hsame | ⟨old, new, rfl, hfiles⟩ | ⟨name, rfl, hfiles⟩
    · rw [hsame]
      exact hfree
    · rw [hfiles]
      refine rename_free hfree (fun hrenamed hname => ?_)
      obtain ⟨t', moved', ht', -, hlock, -⟩ := advances h
      rw [comes] at ht'
      cases ht'
      have hunlocked : c.metaLock.isNone = true := by simpa [takesLock, Job.thread] using hlock
      have hnone : ∀ u ∈ c.threads, u.job.capturing.any (fun session => session.name == new) = false := by
        simpa [clashes, comes, Job.thread, hrenamed, hunlocked] using hclear
      simpa [hsession, hname] using hnone t (List.mem_of_getElem? ht)
    · rw [hfiles]
      exact delete_free hfree
  | returns thread u moved comes calling goes =>
    have hidle : t.job.capturing.isSome = false := by
      by_contra hcapturing
      have hself : c.Owns i := ⟨t, ht, owns_of_capturing (eq_true_of_ne_false hcapturing)⟩
      exact hreturns (by rw [howned.tracks.unique hself ⟨u, comes, (returns_effect goes).before⟩])
    refine hready.frame (fun session hsession _ => ?_) (fun hcapturing => ?_)
    · rw [hsession] at hidle
      cases hidle
    · rw [hcapturing] at hidle
      cases hidle
  | joinTimeout thread job moved comes goes =>
    obtain ⟨job', completed, rfl, -⟩ := joinTimeout_closed goes
    exact hready

theorem ready_step {move : Move} (howned : Owned c) (hc : c.Ready) (hclear : c.clashes repr decodeError move = false)
    (h : c.step (E.onDisk repr decodeError) move = some d) : d.Ready := by
  intro u hu
  obtain ⟨j, hj⟩ := List.mem_iff_getElem?.1 hu
  have hstepped := stepped h
  have harrives := hstepped.arrives hj
  have hstays : ∀ {i : Nat} {t : Thread}, c.threads[i]? = some t → move ≠ .returns i → t.job.Ready d.link.2 d.history :=
    fun ht hreturns => ready_stays howned hclear h ht hreturns (hc _ (List.mem_of_getElem? ht))
  generalize u.job = job at harrives ⊢
  cases harrives with
  | stays v old still waits => exact hstays old waits
  | called job new call isCall => cases job <;> first | exact trivial | cases isCall
  | spawned thread job worker new spawner advance spawns =>
    exact ready_of_spawns (hstays spawner (by rw [advance]; simp)) spawns
  | advanced job moved old advance goes =>
    subst advance
    rw [hstepped.advanced old goes]
    exact advance_ready goes (hc _ (List.mem_of_getElem? old))
  | returned t moved old returns calling goes =>
    subst returns
    rw [hstepped.of_returns old goes]
    exact returns_ready goes (hc _ (List.mem_of_getElem? old))
  | timedOut job moved old timeout goes => exact (joinTimeout_closed goes).ready _ _

/-- A capture that stops is published: once its MODE_SET(PASS) is acknowledged, and with events and no faults pending,
the session ends in PASS, and what can be loaded under its name is made of all the frames received since RECORD was
asked for. -/
def Publishes (E : Env ω) (repr : Json → String) (decodeError : String → String) (c : Ctl (ω × Files)) : Prop :=
  ∀ (thread : Nat) (session : RecordingSession) (event : Nat) t b,
    c.threads[thread]? = some ⟨.recordingStop session event, .calling⟩ →
    Transport.setMode (E.link.beside Files) MODE_PASS.toNat session.modeTimeout 1
      ⟨c.pending, session, c.link, c.history⟩ = .ok () t →
    RecordingBuilder.Takes session.builder t.pending b →
      ∃ d, c.returns (E.onDisk repr decodeError) (.recordingStop session event) =
          some (.ending .pass none (some (.recording b.build)) (.exits event), d) ∧
        (∃ text, d.link.2 (RecordingStore.pathFor session.name) = some text ∧
          RecordingStore.loadText repr decodeError session.name text = .ok b.build) ∧
        received d.history = received c.history ++ t.pending ∧
        RecordingBuilder.Takes (.create session.name) (received d.history) b ∧
        b.build.events.map RecordingEvent.report = RecordingBuilder.reports (received d.history)

/-- A poll that receives a frame takes it, if it can be taken, and otherwise the capture is over; one that times out
leaves all as it is; and one that fails ends the capture too. -/
def Polls (E : Env ω) (repr : Json → String) (decodeError : String → String) (c : Ctl (ω × Files)) : Prop :=
  ∀ (thread : Nat) (session : RecordingSession) (event : Nat) moved,
    c.threads[thread]? = some ⟨.runRecording session event, .calling⟩ →
    c.returns (E.onDisk repr decodeError) (.runRecording session event) = some moved →
      match Transport.receiveFrame (E.link.beside Files) E.recordPollInterval
        ⟨c.pending, session, c.link, c.history⟩ with
      | .ok frame _ =>
        received moved.2.history = received c.history ++ [frame] ∧
          ((∃ b, RecordingBuilder.Takes session.builder [frame] b ∧ moved.1 = .runRecording (session.taking b) event) ∨
            (∀ b, ¬RecordingBuilder.Takes session.builder [frame] b) ∧ ∃ e, moved.1 = .recordingCleanup session event e)
      | .error (.raised .transportTimeout _) _ => moved.2.history = c.history ∧ moved.1 = .runRecording session event
      | .error e _ => moved.2.history = c.history ∧ moved.1 = .recordingCleanup session event e

theorem polls (c : Ctl (ω × Files)) : Polls E repr decodeError c := by
  intro thread session event moved _ hreturns
  obtain ⟨⟨result, session', d⟩, hcall, rfl⟩ := Option.map_eq_some_iff.1 hreturns
  rcases call_spec hcall (RecordingSession.receiveAndConsume_takes (L := E.link) E.recordPollInterval
      ⟨c.pending, session, c.link, c.history⟩) with
    ⟨a, t, rfl, ⟨-, frame, u, hframe, hnoted, b, htakes, hsession⟩, rfl, -, hhistory⟩ |
      ⟨e, t, rfl, ⟨-, hsession, hreceived⟩, rfl, -, hhistory⟩
  · rw [hframe]
    refine ⟨?_, .inl ⟨b, htakes, congrArg (Job.runRecording · event) hsession⟩⟩
    change received d.history = _
    rw [← hhistory, hnoted]
    rfl
  · rcases hreceived with ⟨u, hframe, hsame⟩ | ⟨frame, u, hframe, hnoted, htimely, hnot⟩
    · rw [hframe]
      have hkept : d.history = c.history := hhistory.symm.trans hsame
      rcases e with ⟨kind, message⟩ | _
      · cases kind
        case transportTimeout => exact ⟨hkept, congrArg (Job.runRecording · event) hsession⟩
        all_goals exact ⟨hkept, congrArg (Job.recordingCleanup · event _) hsession⟩
      · exact ⟨hkept, congrArg (Job.recordingCleanup · event _) hsession⟩
    · rw [hframe]
      have hgrew : received d.history = received c.history ++ [frame] := by
        rw [← hhistory, hnoted]
        rfl
      rcases e with ⟨kind, message⟩ | _
      · cases kind
        case transportTimeout => exact absurd rfl (htimely message)
        all_goals exact ⟨hgrew, .inr ⟨hnot, _, congrArg (Job.recordingCleanup · event _) hsession⟩⟩
      · exact ⟨hgrew, .inr ⟨hnot, _, congrArg (Job.recordingCleanup · event _) hsession⟩⟩

theorem publishes (hc : Ready c) : Publishes E repr decodeError c := by
  intro thread session event t b hthread hpass htakes
  have hcaptures : session.Capturing c.link.2 c.history := hc _ (List.mem_of_getElem? hthread)
  have hspec : wp (RecordingSession.stop (E.onDisk repr decodeError).link (E.onDisk repr decodeError).store) _ _
      ⟨c.pending, session, c.link, c.history⟩ :=
    RecordingSession.stop_publishes hcaptures hpass htakes
  obtain ⟨recording, u, hstop, rfl, hfile, hreceived⟩ := ok_of_wp hspec
  have htaken : RecordingBuilder.Takes (.create session.name) (received u.history) b := by
    rw [hreceived]
    exact hcaptures.takes.append htakes
  have hvalid : b.build.Valid :=
    (htaken.sound (RecordingBuilder.sound_create _)).build (by rw [htaken.name]; exact hcaptures.fresh.name)
  have hname : b.build.name = session.name := htaken.name
  refine ⟨{ c with pending := u.pending, link := u.link, history := u.history }, ?_, ⟨_, hfile, ?_⟩, hreceived, htaken,
    htaken.events⟩
  · change (c.call session (RecordingSession.stop (E.onDisk repr decodeError).link
      (E.onDisk repr decodeError).store)).map _ = _
    rw [call, hstop]
    rfl
  · rw [← hname]
    exact RecordingStore.loadText_text repr decodeError hvalid

/-- One recording on disk. -/
def spareFiles : Files := fun name =>
  if name = "spare.json" then some (Recording.text ⟨"spare", 0, []⟩) else none

def keyDown : List UInt8 := [0, 0, 4, 0, 0, 0, 0, 0]

def keyUp : List UInt8 := List.replicate 8 0

def recordEventAt (timestampUs : Nat) (report : List UInt8) : Frame :=
  ⟨MsgType.recordEvent.byte, leBytes 8 timestampUs ++ 8 :: report⟩

/-- A key goes down, and it comes up before the acknowledgement of PASS. -/
def captureWorld : (Int × List ReadResult) × Files :=
  ((0, [acknowledges .record, .data [recordEventAt 1000 keyDown], .data [recordEventAt 1500 keyUp, passAck]]),
    spareFiles)

/-- `start_recording`, up to the worker, with the calls of `meanwhile`; one poll; and a `stop_recording`, up to the
worker's `stop`. -/
def captureMoves (meanwhile : List Move) : List Move :=
  [.call (.startRecording "take"), .call (.renameRecording "spare" "take"), .call (.renameRecording "spare" "other"),
    .advance 0, .advance 0, .advance 0, .begins 0, .returns 0, .advance 0, .advance 0, .advance 0] ++ meanwhile ++
    [.begins 3, .returns 3, .call (.requestStop .record false 10), .advance 4, .advance 4, .advance 3, .begins 3]

def captured (meanwhile : List Move) : Ctl ((Int × List ReadResult) × Files) :=
  (Ctl.init captureWorld).run (scriptedEnv.onDisk (fun _ => "") (fun _ => "")) (captureMoves meanwhile)

def takeSession : RecordingSession where
  name := "take"
  modeTimeout := 2000000
  builder := ⟨"take", some 1000, some 1000, [⟨0, keyDown⟩]⟩
  started := true
  finished := false

/-- What the session has taken when it stops. -/
def takeBuilder : RecordingBuilder := ⟨"take", some 1000, some 1500, [⟨0, keyDown⟩, ⟨500, keyUp⟩]⟩

/-- The worker stands before its `stop`, whose handshake is answered behind one more event. -/
theorem captured_stops : ∀ meanwhile ∈ [[.advance 2], [.advance 1]],
    (captured meanwhile).threads[3]? = some ⟨.recordingStop takeSession 1, .calling⟩ ∧
      ∃ t, Transport.setMode (scriptedEnv.link.beside Files) MODE_PASS.toNat takeSession.modeTimeout 1
        ⟨(captured meanwhile).pending, takeSession, (captured meanwhile).link, (captured meanwhile).history⟩ =
          .ok () t ∧ t.pending = [recordEventAt 1500 keyUp] := by
  have hanswered : ∀ meanwhile ∈ [[.advance 2], [.advance 1]],
      (captured meanwhile).threads[3]? = some ⟨.recordingStop takeSession 1, .calling⟩ ∧
        wp (Transport.setMode (scriptedEnv.link.beside Files) MODE_PASS.toNat takeSession.modeTimeout 1)
          (fun _ t => t.pending = [recordEventAt 1500 keyUp]) (fun _ _ => False)
          ⟨(captured meanwhile).pending, takeSession, (captured meanwhile).link, (captured meanwhile).history⟩ := by
    decide +kernel
  intro meanwhile hmem
  obtain ⟨hthread, hmode⟩ := hanswered meanwhile hmem
  obtain ⟨a, t, hpass, hpending⟩ := ok_of_wp hmode
  exact ⟨hthread, t, hpass, hpending⟩

theorem takes_keyUp : RecordingBuilder.Takes takeSession.builder [recordEventAt 1500 keyUp] takeBuilder :=
  .event 1500 keyUp rfl (by decide) (by decide) (.nil _)

end Ctl

end PiZero
end PicoRecorder
