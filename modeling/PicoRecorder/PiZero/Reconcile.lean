import PicoRecorder.PiZero.Playback
import PicoRecorder.PiZero.Service
/-!
# Reconcile — what a failed session leaves behind

A `Ledger` reads off a session's history what it owes the Pico: a MODE_SET(PASS) after its last other MODE_SET, and the
acknowledgement of it.  The cleanups pay it exactly when the session's flags at that moment say that there is something
to pay; two paths leave with the flags wrong.
-/
namespace PicoRecorder
namespace PiZero

open Lib

/-- What a history of MODE_SETs and answers owes. -/
inductive Ledger where
  /-- No MODE_SET to another mode than PASS was written. -/
  | idle
  /-- One was, and no MODE_SET(PASS) after it. -/
  | owed
  /-- A MODE_SET(PASS) was written after it. -/
  | requested
  /-- And answered with MODE_CHANGED(PASS, OK). -/
  | settled
  deriving DecidableEq, Repr

def Ledger.next (l : Ledger) : Act → Ledger
  | .wrote (.modeSet target) true _ => if target = MODE_PASS then if l = .owed then .requested else l else .owed
  | .answered state reason => if l = .requested ∧ state = MODE_PASS ∧ reason = REASON_OK then .settled else l
  | .wrote _ _ _ | .took _ | .awaitsCredit _ | .credited _ => l

def ledger : List Act → Ledger
  | [] => .idle
  | act :: history => (ledger history).next act

/-- The Pico was brought back to PASS, or never taken out of it. -/
def Reconciled (history : List Act) : Prop := ledger history = .settled ∨ ledger history = .idle

instance (history : List Act) : Decidable (Reconciled history) := inferInstanceAs (Decidable (_ ∨ _))

/-- What the cleanup of a session is to achieve: PASS was acknowledged after the last MODE_SET to another mode, or the
cleanup says that it was not. -/
def Accounted (report : Option Exn) (history : List Act) : Prop := report ≠ none ∨ Reconciled history

instance (report : Option Exn) (history : List Act) : Decidable (Accounted report history) :=
  inferInstanceAs (Decidable (_ ∨ _))

theorem Ledger.next_quiet {act : Act} (h : act.handshake = false) (l : Ledger) : l.next act = l := by
  cases act with
  | wrote request whole aside => cases request <;> first | rfl | cases h
  | answered state reason => cases h
  | took frame => rfl
  | awaitsCredit pending => rfl
  | credited freeCapacity => rfl

theorem ledger_acts : ∀ {acts : List Act} (history : List Act), (∀ act ∈ acts, act.handshake = false) →
    ledger (acts ++ history) = ledger history
  | [], _, _ => rfl
  | act :: acts, history, h => by
    rw [List.cons_append, ledger, ledger_acts history (fun a ha => h a (List.mem_cons_of_mem _ ha)),
      Ledger.next_quiet (h act (by simp))]

theorem QuietAfter.ledger {h h' : List Act} (hq : QuietAfter h h') : ledger h' = ledger h := by
  obtain ⟨acts, rfl, hq⟩ := hq
  exact ledger_acts h hq

/-! ## The ledger across a handshake -/

/-- Once PASS is requested, so many more times make no difference. -/
theorem ledger_passes (history : List Act) : ∀ {asides : List (List Pico.Frame)}, asides ≠ [] →
    ledger (tries MODE_PASS asides ++ history) = if ledger history = .owed then .requested else ledger history
  | [], h => absurd rfl h
  | [_], _ => rfl
  | _ :: aside :: asides, _ => by
    rw [tries_cons, List.cons_append, ledger, ledger_passes history (List.cons_ne_nil aside asides)]
    by_cases h : ledger history = .owed
    · rw [if_pos h]; rfl
    · rw [if_neg h]
      show (if ledger history = .owed then _ else _) = _
      rw [if_neg h]

theorem ledger_others {target : UInt8} (ht : target ≠ MODE_PASS) (history : List Act) {asides : List (List Pico.Frame)}
    (h : asides ≠ []) : ledger (tries target asides ++ history) = .owed := by
  cases asides with
  | nil => exact absurd rfl h
  | cons aside asides => exact if_neg ht

/-- MODE_SET(PASS) acknowledged settles whatever there was. -/
theorem Shook.ledger_pass {h h' : List Act} (hs : Shook MODE_PASS h h') :
    ledger h' = if ledger h = .idle then .idle else .settled := by
  obtain ⟨m, m', hm, ⟨asides, hne, rfl⟩, hm'⟩ := hs
  rw [hm'.ledger, ledger, ledger_passes m hne, hm.ledger]
  cases ledger h <;> rfl

theorem Missed.ledger_pass {h h' : List Act} (hs : Missed MODE_PASS h h') :
    ledger h' = ledger h ∨ ledger h = .owed ∧ ledger h' = .requested := by
  obtain ⟨m, m', hm, hd, hm'⟩ := hs
  rw [hm'.ledger, ← hm.ledger]
  have passes : ∀ asides, ledger (tries MODE_PASS asides ++ m) = ledger m ∨
      ledger m = .owed ∧ ledger (tries MODE_PASS asides ++ m) = .requested := fun asides => by
    cases asides with
    | nil => exact .inl rfl
    | cons aside asides =>
      rw [ledger_passes m (List.cons_ne_nil aside asides)]
      by_cases ho : ledger m = .owed
      · rw [if_pos ho]; exact .inr ⟨ho, rfl⟩
      · rw [if_neg ho]; exact .inl rfl
  obtain ⟨asides, rfl | ⟨_, rfl⟩ | ⟨state, reason, ha, -, rfl⟩⟩ := hd
  · exact passes asides
  · exact passes asides
  · rw [ledger, Ledger.next, if_neg (fun hc => ha hc.2)]
    exact passes asides

theorem Shook.ledger_other {target : UInt8} (ht : target ≠ MODE_PASS) {h h' : List Act} (hs : Shook target h h') :
    ledger h' = .owed := by
  obtain ⟨m, m', -, ⟨asides, hne, rfl⟩, hm'⟩ := hs
  rw [hm'.ledger, ledger, ledger_others ht m hne]
  rfl

theorem Missed.ledger_other {target : UInt8} (ht : target ≠ MODE_PASS) {h h' : List Act} (hs : Missed target h h') :
    ledger h' = ledger h ∨ ledger h' = .owed := by
  obtain ⟨m, m', hm, hd, hm'⟩ := hs
  rw [hm'.ledger, ← hm.ledger]
  have others : ∀ asides, ledger (tries target asides ++ m) = ledger m ∨
      ledger (tries target asides ++ m) = .owed := fun asides => by
    cases asides with
    | nil => exact .inl rfl
    | cons aside asides => exact .inr (ledger_others ht m (List.cons_ne_nil aside asides))
  obtain ⟨asides, rfl | ⟨_, rfl⟩ | ⟨state, reason, -, hne, rfl⟩⟩ := hd
  · exact others asides
  · exact others asides
  · rw [ledger, ledger_others ht m hne]
    exact .inr rfl

/-- A handshake for PASS empties no ledger. -/
theorem not_idle_of_pass {h h' : List Act} (hs : Shook MODE_PASS h h' ∨ Missed MODE_PASS h h') (hi : ledger h ≠ .idle) :
    ledger h' ≠ .idle := by
  rcases hs with hs | hs
  · rw [hs.ledger_pass, if_neg hi]; decide
  · rcases hs.ledger_pass with hl | ⟨-, hl⟩
    · rw [hl]; exact hi
    · rw [hl]; decide

theorem Shook.reconciled {h h' : List Act} (hs : Shook MODE_PASS h h') : Reconciled h' := by
  unfold Reconciled
  rw [hs.ledger_pass]
  split
  · exact .inr rfl
  · exact .inl rfl

/-! ## Runs of calls -/

/-- The heap a call leaves, by a value or by an exception. -/
def leave {S σ α : Type} (m : Py S σ α) (s : Heap S σ) : Option (Heap S σ) :=
  match m s with
  | .ok _ t => some t
  | .error e t => if e.leaves then some t else none

theorem leave_of_wp {S σ α : Type} {m : Py S σ α} {P : Heap S σ → Prop} {s t : Heap S σ} (hr : leave m s = some t)
    (h : wp m (fun _ => P) (fun _ => P) s) : P t := by
  unfold leave at hr
  unfold wp at h
  cases hm : m s with
  | ok a u =>
    rw [hm] at hr h
    obtain rfl := Option.some.inj hr
    exact h
  | error e u =>
    rw [hm] at hr h
    dsimp only at hr
    split at hr
    · obtain rfl := Option.some.inj hr
      exact h
    · cases hr

def runAll {C H : Type} (run : C → H → Option H) : List C → H → Option H
  | [], s => some s
  | c :: cs, s => (run c s).bind (runAll run cs)

/-! ## Playback -/

namespace Playback

variable {σ : Type} (L : Link σ)

/-- How the flags stand to the ledger between two calls. -/
structure Booked (h : Heap Playback σ) : Prop where
  finished : h.session.finished = true → ledger h.history = .settled
  bare : h.session.finished = false → h.session.playing = false → h.session.armed = false →
    ledger h.history = .idle ∨ ledger h.history = .owed
  written : h.session.started = true ∨ h.session.armed = true → ledger h.history ≠ .idle

theorem Booked.inside {s t : Heap Playback σ} (h : Booked s) (hi : Inside s t) : Booked t := by
  obtain ⟨hs, hp, hf, ha⟩ := flags_eq hi.1
  have hl := hi.2.ledger
  exact ⟨by rw [hf, hl]; exact h.finished, by rw [hf, hp, ha, hl]; exact h.bare,
    by rw [hs, ha, hl]; exact h.written⟩

theorem start_booked {s : Heap Playback σ} (h : Booked s) : wp (start L) (fun _ => Booked) (fun _ => Booked) s := by
  have hm : MODE_ARMED ≠ MODE_PASS := by decide
  -- Armed, and not finished: only `written` has something to say.
  have armed : ∀ {t : Heap Playback σ} {started playing : Bool}, flags t.session = (started, playing, false, true) →
      Shook MODE_ARMED s.history t.history → Booked t := fun {t started playing} hf hd => by
    obtain ⟨-, -, hfin, ha⟩ : t.session.started = started ∧ t.session.playing = playing ∧ t.session.finished = false ∧
      t.session.armed = true := by simpa [flags] using hf
    have hl := hd.ledger_other hm
    refine ⟨fun hc => ?_, fun _ _ hc => ?_, fun _ => ?_⟩
    · rw [hfin] at hc; cases hc
    · rw [ha] at hc; cases hc
    · rw [hl]; decide
  refine wp_mono (start_spec L s) (fun _ t ht => armed ht.1 ht.2) (fun e t ht => ?_)
  rcases ht with hi | ⟨hfin, hf, hd⟩ | ⟨hf, hd⟩
  · exact h.inside hi
  · obtain ⟨hs, hp, hfin', ha⟩ := flags_eq hf
    refine ⟨fun hc => ?_, fun _ hp' ha' => ?_, fun hw => ?_⟩
    · rw [hfin', hfin] at hc; cases hc
    · rw [hp] at hp'
      rw [ha] at ha'
      rcases hd.ledger_other hm with hl | hl
      · rw [hl]; exact h.bare hfin hp' ha'
      · exact .inr hl
    · rw [hs, ha] at hw
      rcases hd.ledger_other hm with hl | hl
      · rw [hl]; exact h.written hw
      · rw [hl]; decide
  · exact armed hf hd

theorem finish_booked {s : Heap Playback σ} (h : Booked s) :
    wp (finish L true) (fun _ => Booked) (fun _ => Booked) s := by
  refine wp_mono (finish_spec L s) ?_ ?_
  · rintro _ t ⟨hs, hf, hd⟩
    obtain ⟨-, -, hfin, -⟩ : t.session.started = true ∧ t.session.playing = false ∧ t.session.finished = true ∧
      t.session.armed = false := by simpa [flags] using hf
    have hl : ledger t.history = .settled := by rw [hd.ledger_pass, if_neg (h.written (.inl hs))]
    refine ⟨fun _ => hl, fun hc => ?_, fun _ => by rw [hl]; decide⟩
    rw [hfin] at hc; cases hc
  · rintro e t (hi | ⟨hs, hf, hd⟩)
    · exact h.inside hi
    · obtain ⟨-, -, hfin, ha⟩ : t.session.started = true ∧ t.session.playing = false ∧ t.session.finished = false ∧
        t.session.armed = true := by simpa [flags] using hf
      refine ⟨fun hc => ?_, fun _ _ hc => ?_, fun _ => not_idle_of_pass (.inr hd) (h.written (.inl hs))⟩
      · rw [hfin] at hc; cases hc
      · rw [ha] at hc; cases hc

theorem flagged_iff {p : Playback} : flagged p = true ↔ p.finished = false ∧ (p.playing = true ∨ p.armed = true) := by
  simp [flagged]

/-- **The cleanup of a playback session accounts for the Pico's mode exactly when a flag tells it to**, or when there is
nothing to account for. -/
theorem abortBestEffort_accounted {s : Heap Playback σ} (h : Booked s) :
    wp (abortBestEffort L)
      (fun report t => Accounted report t.history ↔
        s.session.finished = true ∨ s.session.playing = true ∨ s.session.armed = true ∨ ledger s.history = .idle)
      (fun e _ => e.leaves = false) s := by
  refine wp_mono (abortBestEffort_spec L s) (fun report t ht => ?_) (fun _ _ he => he)
  by_cases hflag : flagged s.session = true
  · rw [if_pos hflag] at ht
    have hright : s.session.playing = true ∨ s.session.armed = true := (flagged_iff.1 hflag).2
    refine ⟨fun _ => .inr (hright.imp_right .inl), fun _ => ?_⟩
    rcases ht with hd | ⟨-, hr⟩
    · exact .inr hd.reconciled
    · exact .inl hr
  · -- Nothing was sent, and nothing is reported.
    rw [if_neg hflag] at ht
    obtain ⟨rfl, hh⟩ := ht
    unfold Accounted
    rw [hh]
    by_cases hf : s.session.finished = true
    · exact ⟨fun _ => .inl hf, fun _ => .inr (.inl (h.finished hf))⟩
    have hf' : s.session.finished = false := by simpa using hf
    have hp : s.session.playing = false := by
      simpa using fun hc => hflag (flagged_iff.2 ⟨hf', .inl hc⟩)
    have ha : s.session.armed = false := by
      simpa using fun hc => hflag (flagged_iff.2 ⟨hf', .inr hc⟩)
    constructor
    · rintro (hc | hc | hc)
      · exact absurd rfl hc
      · rcases h.bare hf' hp ha with hb | hb <;> rw [hb] at hc <;> cases hc
      · exact .inr (.inr (.inr hc))
    · rintro (hc | hc | hc | hc)
      · exact absurd hc hf
      · rw [hp] at hc; cases hc
      · rw [ha] at hc; cases hc
      · exact .inr (.inr hc)

/-! ### The calls before the cleanup -/

/-- A call of the session by the Controller or the CLI, whether it returns or raises. -/
inductive Call where
  | start
  | finish
  deriving DecidableEq, Repr

def Call.run : Call → Heap Playback σ → Option (Heap Playback σ)
  | .start => leave (Playback.start L)
  | .finish => leave (Playback.finish L true)

theorem Call.run_booked {c : Call} {s t : Heap Playback σ} (hr : c.run L s = some t) (h : Booked s) : Booked t := by
  cases c with
  | start => exact leave_of_wp hr (start_booked L h)
  | finish => exact leave_of_wp hr (finish_booked L h)

/-- A new session has done nothing. -/
def fresh (p : Playback) : Prop := flags p = (false, false, false, false)

theorem booked_fresh {s : Heap Playback σ} (hf : fresh s.session) (hh : s.history = []) : Booked s := by
  obtain ⟨hs, hp, hfin, ha⟩ := flags_eq (p := s.session) (q := Playback.create [] 0 0 none) hf
  refine ⟨fun h => ?_, fun _ _ _ => .inl (by rw [hh]; rfl), fun h => ?_⟩
  · rw [hfin] at h; cases h
  · rw [hs, ha] at h; rcases h with h | h <;> cases h

theorem runCalls_booked : ∀ (calls : List Call) {s t : Heap Playback σ}, runAll (Call.run L) calls s = some t →
    Booked s → Booked t
  | [], _, _, hr, h => by cases hr; exact h
  | c :: calls, s, t, hr, h => by
    obtain ⟨u, hu, hr⟩ := Option.bind_eq_some_iff.1 hr
    exact runCalls_booked calls hr (Call.run_booked L hu h)

end Playback

/-! ## Recording -/

namespace RecordingSession

variable {σ : Type} (L : Link σ) (store : Store σ)

/-- A session that was `started` or `finished` has taken the Pico out of PASS. -/
def Booked (h : Heap RecordingSession σ) : Prop :=
  h.session.started = true ∨ h.session.finished = true → ledger h.history ≠ .idle

theorem Booked.inside {s t : Heap RecordingSession σ} (h : Booked s) (hi : Inside s t) : Booked t := by
  obtain ⟨hs, hf⟩ := flags_eq hi.1
  unfold Booked
  rw [hs, hf, hi.2.ledger]
  exact h

theorem start_booked {s : Heap RecordingSession σ} (h : Booked s) :
    wp (start L store) (fun _ => Booked) (fun _ => Booked) s := by
  have hm : MODE_RECORD ≠ MODE_PASS := by decide
  refine wp_mono (start_spec L store s) (fun _ t hd _ => ?_) (fun e t ht => ?_)
  · rw [hd.ledger_other hm]; decide
  · rcases ht with hi | ⟨hf, hd⟩
    · exact h.inside hi
    · intro hw
      obtain ⟨hs, hfin⟩ := flags_eq hf
      rw [hs, hfin] at hw
      rcases hd.ledger_other hm with hl | hl
      · rw [hl]; exact h hw
      · rw [hl]; decide

theorem stop_booked {s : Heap RecordingSession σ} (h : Booked s) :
    wp (stop L store) (fun _ => Booked) (fun _ => Booked) s := by
  refine wp_mono (stop_spec L store s) (fun _ t ht _ => ?_) (fun e t ht => ?_)
  · exact not_idle_of_pass (.inl ht.2) (h (.inl ht.1))
  · rcases ht with hi | ⟨hs, hd⟩
    · exact h.inside hi
    · exact fun _ => not_idle_of_pass hd (h (.inl hs))

/-- **The cleanup of a recording session accounts for the Pico's mode exactly when the session was not `finished`**, or
was finished with PASS acknowledged. -/
theorem abort_accounted {s : Heap RecordingSession σ} (h : Booked s) :
    wp (abort L)
      (fun report t => Accounted report t.history ↔ s.session.finished = false ∨ ledger s.history = .settled)
      (fun e _ => e.leaves = false) s := by
  refine wp_mono (abort_spec L s) (fun report t ht => ?_) (fun _ _ he => he)
  by_cases hf : s.session.finished = true
  · rw [if_pos hf] at ht
    obtain ⟨rfl, hh⟩ := ht
    unfold Accounted
    rw [hh]
    constructor
    · rintro (hc | hc | hc)
      · exact absurd rfl hc
      · exact .inr hc
      · exact absurd hc (h (.inr hf))
    · rintro (hc | hc)
      · rw [hf] at hc; cases hc
      · exact .inr (.inl hc)
  · rw [if_neg hf] at ht
    refine ⟨fun _ => .inl (by simpa using hf), fun _ => ?_⟩
    rcases ht with hd | ⟨-, hr⟩
    · exact .inr hd.reconciled
    · exact .inl hr

/-- A call of the session by the Controller or the CLI, whether it returns or raises. -/
inductive Call where
  | start
  | receiveAndConsume (timeout : Int)
  | stop
  deriving DecidableEq, Repr

def Call.run : Call → Heap RecordingSession σ → Option (Heap RecordingSession σ)
  | .start => leave (RecordingSession.start L store)
  | .receiveAndConsume timeout => leave (RecordingSession.receiveAndConsume L timeout)
  | .stop => leave (RecordingSession.stop L store)

theorem Call.run_booked {c : Call} {s t : Heap RecordingSession σ} (hr : c.run L store s = some t) (h : Booked s) :
    Booked t := by
  cases c with
  | start => exact leave_of_wp hr (start_booked L store h)
  | receiveAndConsume timeout =>
    exact leave_of_wp hr (wp_mono (inside_receiveAndConsume L timeout s) (fun _ _ => h.inside) (fun _ _ => h.inside))
  | stop => exact leave_of_wp hr (stop_booked L store h)

theorem runCalls_booked : ∀ (calls : List Call) {s t : Heap RecordingSession σ},
    runAll (Call.run L store) calls s = some t → Booked s → Booked t
  | [], _, _, hr, h => by cases hr; exact h
  | c :: calls, s, t, hr, h => by
    obtain ⟨u, hu, hr⟩ := Option.bind_eq_some_iff.1 hr
    exact runCalls_booked calls hr (Call.run_booked L store hu h)

end RecordingSession

/-! ## Both sessions -/

section Cleanup

variable {σ : Type} (L : Link σ) (store : Store σ)

/-- **When a cleanup accounts for the Pico's mode.**  Whatever the link does and whatever calls of the session returned
or raised before it, a playback cleanup that comes back has PASS acknowledged or reports an error if and only if it
found a flag set or no MODE_SET but PASS written; a recording cleanup if and only if it found the session not finished
or PASS already acknowledged. -/
theorem cleanup_accounts :
    (∀ (s t u : Heap Playback σ) (calls : List Playback.Call) (report : Option Exn),
      Playback.fresh s.session → s.history = [] → runAll (Playback.Call.run L) calls s = some t →
      Playback.abortBestEffort L t = .ok report u →
        (Accounted report u.history ↔ t.session.finished = true ∨ t.session.playing = true ∨ t.session.armed = true ∨
          ledger t.history = .idle)) ∧
    ∀ (s t u : Heap RecordingSession σ) (calls : List RecordingSession.Call) (report : Option Exn),
      s.session.started = false → s.session.finished = false → s.history = [] →
      runAll (RecordingSession.Call.run L store) calls s = some t → RecordingSession.abort L t = .ok report u →
        (Accounted report u.history ↔ t.session.finished = false ∨ ledger t.history = .settled) := by
  constructor
  · intro s t u calls report hfresh hh hcalls hrun
    have hspec := Playback.abortBestEffort_accounted L
      (Playback.runCalls_booked L calls hcalls (Playback.booked_fresh hfresh hh))
    unfold wp at hspec
    rw [hrun] at hspec
    exact hspec
  · intro s t u calls report hs hf hh hcalls hrun
    have hbooked : RecordingSession.Booked s := fun hc => by
      rw [hs, hf] at hc
      rcases hc with hc | hc <;> cases hc
    have hspec := RecordingSession.abort_accounted L (RecordingSession.runCalls_booked L store calls hcalls hbooked)
    unfold wp at hspec
    rw [hrun] at hspec
    exact hspec

end Cleanup

/-! ### A line that falls silent -/

/-- Every write is taken, the reads follow a script and are empty after it, and the clock advances by half a second each
time it is read. -/
def scriptedLink : Link (Int × List ReadResult) where
  clock w := (w.1 + 500000, (w.1 + 500000, w.2))
  cancelled w := (false, w)
  read w :=
    match w.2 with
    | [] => (.data [], w)
    | result :: script => (result, (w.1, script))
  write _ w := (.written none, w)
  patience := 32

def emptyStore : Store (Int × List ReadResult) where
  contains _ w := (.ok false, w)
  save _ w := (.ok (), w)

def acknowledges (mode : Pico.Mode) : ReadResult := .data [(Pico.PicoMsg.modeChanged mode .ok).toFrame]

def newPlayback (script : List ReadResult) : Heap Playback (Int × List ReadResult) :=
  ⟨[], Playback.create [] 500000 2000000 none, (0, script), []⟩

def newRecording (script : List ReadResult) : Heap RecordingSession (Int × List ReadResult) :=
  ⟨[], RecordingSession.create "first" 2000000, (0, script), []⟩

theorem leave_of_error {S σ α : Type} {m : Py S σ α} {s t : Heap S σ} {e : Exn} (h : m s = .error e t)
    (he : e.leaves = true) : leave m s = some t := by
  unfold leave
  rw [h]
  exact if_pos he

theorem leave_of_ok {S σ α : Type} {m : Py S σ α} {s t : Heap S σ} {a : α} (h : m s = .ok a t) :
    leave m s = some t := by
  unfold leave
  rw [h]

/-- A run of `start` that raises, and the cleanup after it; the premise is evaluated, so it is an equation. -/
theorem start_cleanup {σ : Type} (L : Link σ) (s : Heap Playback σ) (P : Option Exn → List Act → Prop)
    [∀ report history, Decidable (P report history)]
    (h : decide (wp (Playback.start L) (fun _ _ => False)
      (fun e t => e.leaves = true ∧
        wp (Playback.abortBestEffort L) (fun report u => P report u.history) (fun _ _ => False) t) s) = true) :
    ∃ e t report u, Playback.start L s = .error e t ∧ runAll (Playback.Call.run L) [.start] s = some t ∧
      Playback.abortBestEffort L t = .ok report u ∧ P report u.history := by
  obtain ⟨e, t, hs, he, ha⟩ := error_of_wp (of_decide_eq_true h)
  obtain ⟨report, u, ha, hP⟩ := ok_of_wp ha
  have hcalls : runAll (Playback.Call.run L) [.start] s = some t :=
    Option.bind_eq_some_iff.2 ⟨t, leave_of_error hs he, rfl⟩
  exact ⟨e, t, report, u, hs, hcalls, ha, hP⟩

set_option synthInstance.maxSize 512 in
/-- A recording that starts, a `stop` that raises, and the cleanup after it. -/
theorem stop_cleanup {σ : Type} (L : Link σ) (store : Store σ) (r : Heap RecordingSession σ)
    (P : Option Exn → List Act → Prop) [∀ report history, Decidable (P report history)]
    (h : decide (wp (RecordingSession.start L store)
      (fun _ s => wp (RecordingSession.stop L store) (fun _ _ => False)
        (fun e t => e.leaves = true ∧
          wp (RecordingSession.abort L) (fun report u => P report u.history) (fun _ _ => False) t) s)
      (fun _ _ => False) r) = true) :
    ∃ s e t report u, RecordingSession.start L store r = .ok () s ∧ RecordingSession.stop L store s = .error e t ∧
      runAll (RecordingSession.Call.run L store) [.start, .stop] r = some t ∧
      RecordingSession.abort L t = .ok report u ∧ P report u.history := by
  obtain ⟨_, s, hs, h⟩ := ok_of_wp (of_decide_eq_true h)
  obtain ⟨e, t, ht, he, ha⟩ := error_of_wp h
  obtain ⟨report, u, ha, hP⟩ := ok_of_wp ha
  have hcalls : runAll (RecordingSession.Call.run L store) [.start, .stop] r = some t :=
    Option.bind_eq_some_iff.2 ⟨s, leave_of_ok hs, Option.bind_eq_some_iff.2 ⟨t, leave_of_error ht he, rfl⟩⟩
  exact ⟨s, e, t, report, u, hs, ht, hcalls, ha, hP⟩

/-- Both cleanups where there is something to do: the Pico acknowledges ARMED, or RECORD, and is not heard again. -/
theorem cleanup_accounts_silent :
    (∃ t report u, runAll (Playback.Call.run scriptedLink) [.start] (newPlayback [acknowledges .armed]) = some t ∧
      Playback.abortBestEffort scriptedLink t = .ok report u ∧
        (Accounted report u.history ↔ t.session.finished = true ∨ t.session.playing = true ∨ t.session.armed = true ∨
          ledger t.history = .idle)) ∧
    ∃ t report u, runAll (RecordingSession.Call.run scriptedLink emptyStore) [.start, .stop]
        (newRecording [acknowledges .record]) = some t ∧
      RecordingSession.abort scriptedLink t = .ok report u ∧
        (Accounted report u.history ↔ t.session.finished = false ∨ ledger t.history = .settled) := by
  obtain ⟨hplayback, hrecording⟩ := cleanup_accounts scriptedLink emptyStore
  constructor
  · obtain ⟨e, t, report, u, -, hcalls, ha, -⟩ :=
      start_cleanup scriptedLink (newPlayback [acknowledges .armed]) (fun _ _ => True) (by decide +kernel)
    exact ⟨t, report, u, hcalls, ha,
      hplayback (newPlayback [acknowledges .armed]) t u [.start] report rfl rfl hcalls ha⟩
  · obtain ⟨s, e, t, report, u, -, -, hcalls, ha, -⟩ :=
      stop_cleanup scriptedLink emptyStore (newRecording [acknowledges .record]) (fun _ _ => True) (by decide +kernel)
    exact ⟨t, report, u, hcalls, ha, hrecording _ t u [.start, .stop] report rfl rfl rfl hcalls ha⟩

/-- **Two cleanups that neither reconcile nor report**: a `start` whose MODE_SET(ARMED) is never answered leaves
`_armed` unset, and a `stop` whose MODE_SET(PASS) is never answered leaves `finished` set. -/
theorem cleanup_skips :
    (∃ e t report u, Playback.start scriptedLink (newPlayback []) = .error e t ∧
      runAll (Playback.Call.run scriptedLink) [.start] (newPlayback []) = some t ∧
      Playback.abortBestEffort scriptedLink t = .ok report u ∧ ¬Accounted report u.history) ∧
    ∃ s e t report u, RecordingSession.start scriptedLink emptyStore (newRecording [acknowledges .record]) = .ok () s ∧
      RecordingSession.stop scriptedLink emptyStore s = .error e t ∧
      runAll (RecordingSession.Call.run scriptedLink emptyStore) [.start, .stop]
        (newRecording [acknowledges .record]) = some t ∧
      RecordingSession.abort scriptedLink t = .ok report u ∧ ¬Accounted report u.history :=
  ⟨start_cleanup scriptedLink (newPlayback []) (fun report history => ¬Accounted report history) (by decide +kernel),
    stop_cleanup scriptedLink emptyStore (newRecording [acknowledges .record])
      (fun report history => ¬Accounted report history) (by decide +kernel)⟩

end PiZero
end PicoRecorder
