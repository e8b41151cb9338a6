import PicoRecorder.PiZero.Ownership
/-!
# Honesty — what a reported PASS rests on

A Controller that reports PASS and no active session should have the acknowledgement of a MODE_SET(PASS), its last
MODE_SET, since it last reported ERROR.  Every `_end` in PASS comes from a handshake that was answered, except after a
cleanup that made none; and the handshake of a `safe_stop`, whose claim the status does not show, leaves the last report
standing meanwhile.  The run is followed by the one thread that owns the transport: the others change neither the
history nor the state.
-/
namespace PicoRecorder
namespace PiZero

open Lib

/-- A MODE_SET(PASS) written while an acknowledgement of one is put aside already: it will be taken for the answer. -/
def Act.stale : Act → Bool
  | .wrote (.modeSet target) _ aside => target = MODE_PASS && aside.contains passAck
  | _ => false

/-- The last MODE_SET asked for PASS, with no acknowledgement put aside. -/
def askedPass : List Act → Bool
  | [] => false
  | .wrote (.modeSet target) _ aside :: _ => target = MODE_PASS && !aside.contains passAck
  | _ :: history => askedPass history

/-- The last MODE_SET asked for PASS, and its MODE_CHANGED(PASS, OK) was received. -/
def acknowledged : List Act → Bool
  | [] => false
  | .answered state reason :: history => state = MODE_PASS && reason = REASON_OK && askedPass history
  | .wrote (.modeSet _) _ _ :: _ => false
  | .wrote _ _ _ :: history | .took _ :: history | .awaitsCredit _ :: history | .credited _ :: history =>
    acknowledged history

theorem acknowledged_quiet : ∀ {acts : List Act} (history : List Act), (∀ act ∈ acts, act.handshake = false) →
    acknowledged (acts ++ history) = acknowledged history
  | [], _, _ => rfl
  | act :: acts, history, h => by
    rw [← acknowledged_quiet history (fun a ha => h a (List.mem_cons_of_mem _ ha)), List.cons_append]
    have hact := h act (by simp)
    cases act with
    | wrote request whole aside => cases request <;> first | rfl | cases hact
    | answered state reason => cases hact
    | took | awaitsCredit | credited => rfl

/-- A handshake for PASS that came to its answer, behind whatever there was. -/
theorem Shook.acknowledged {h h' : List Act} (hs : Shook MODE_PASS h h') (hfresh : ∀ act ∈ h', act.stale = false) :
    ∃ acts, h' = acts ++ h ∧ ∀ history, acknowledged (acts ++ history) = true := by
  obtain ⟨m, m', ⟨before, rfl, -⟩, ⟨asides, hne, rfl⟩, ⟨after, rfl, hafter⟩⟩ := hs
  cases asides with
  | nil => exact absurd rfl hne
  | cons aside asides =>
    refine ⟨after ++ .answered MODE_PASS REASON_OK :: (tries MODE_PASS (aside :: asides) ++ before), by simp,
      fun history => ?_⟩
    have hlast := hfresh (.wrote (.modeSet MODE_PASS) true aside) (by simp [tries_cons])
    rw [List.append_assoc, acknowledged_quiet _ hafter]
    simpa [PiZero.acknowledged, tries_cons, askedPass, Act.stale] using hlast

/-- A history that grew. -/
def Grew (h h' : List Act) : Prop := ∃ acts, h' = acts ++ h

theorem QuietAfter.grew {h h' : List Act} (hq : QuietAfter h h') : Grew h h' := by
  obtain ⟨acts, hacts, -⟩ := hq
  exact ⟨acts, hacts⟩

theorem Shook.grew {target : UInt8} {h h' : List Act} (hs : Shook target h h') : Grew h h' := by
  obtain ⟨m, m', ⟨before, rfl, -⟩, ⟨asides, -, rfl⟩, ⟨after, rfl, -⟩⟩ := hs
  exact ⟨after ++ .answered target REASON_OK :: (tries target asides ++ before), by simp⟩

theorem Missed.grew {target : UInt8} {h h' : List Act} (hs : Missed target h h') : Grew h h' := by
  obtain ⟨m, m', ⟨before, rfl, -⟩, ⟨asides, hk⟩, ⟨after, rfl, -⟩⟩ := hs
  rcases hk with rfl | ⟨aside, rfl⟩ | ⟨state, reason, -, -, rfl⟩
  · exact ⟨after ++ (tries target asides ++ before), by simp⟩
  · exact ⟨after ++ .wrote (.modeSet target) false aside :: (tries target asides ++ before), by simp⟩
  · exact ⟨after ++ .answered state reason :: (tries target asides ++ before), by simp⟩

theorem Grew.refl (h : List Act) : Grew h h := ⟨[], rfl⟩

theorem Grew.length_le {h h' : List Act} (hg : Grew h h') : h.length ≤ h'.length := by
  obtain ⟨acts, rfl⟩ := hg
  simp

/-- A thread about to report PASS. -/
def Job.passes : Job → Bool
  | .ending .pass _ _ _ => true
  | _ => false

/-- A stop that found a session active when it looked, and a `safe_stop` behind one or behind its own `_end`. -/
def Job.stops : Job → Bool
  | .requestStop _ true _ | .stopping _ _ _ _ _ _ | .joining _ _ _ _ _ | .safeStopStatus => true
  | _ => false

/-- The kind of session a stop asks for. -/
def Job.asks : Job → Option Kind
  | .requestStop kind _ _ => some kind
  | _ => none

theorem Job.owns_of_passes {job : Job} (h : job.passes) : job.owns := by
  cases job <;> first | rfl | cases h

/-- The place of a recording or a playback. -/
def Job.InSession (job : Job) : Prop := job.kind = some .record ∨ job.kind = some .playback

namespace Ctl

variable {σ : Type} {E : Env σ} {c d : Ctl σ} {thread : Nat} {job : Job} {moved : Job × Ctl σ}

def inSession (c : Ctl σ) : Prop := c.activeKind = some .record ∨ c.activeKind = some .playback

instance (c : Ctl σ) : Decidable c.inSession := inferInstanceAs (Decidable (_ ∨ _))

/-- What the transport did since ERROR was last reported. -/
def sinceError (c : Ctl σ) (history : List Act) : List Act := history.take (history.length - c.errorMark)

def vouched (c : Ctl σ) : Bool := acknowledged (c.sinceError c.history)

variable (E) in
/-- All that the handshake of a `safe_stop` will have done, also if it does not come back. -/
def handshake (c : Ctl σ) : List Act :=
  match Transport.setMode (S := Unit) E.link MODE_PASS.toNat E.modeTimeout 1 ⟨c.pending, (), c.link, c.history⟩ with
  | .ok _ h | .error _ h => h.history

variable (E) in
/-- What the transport has done at some moment: what came back, and a beginning of what a `safe_stop` does in its
handshake.  The other calls are made by sessions, which the status shows. -/
inductive Moment (c : Ctl σ) : List Act → Prop where
  | between : Moment c c.history
  | within (thread : Nat) (t : Thread) (history : List Act) (comes : c.threads[thread]? = some t)
    (place : t.job = .safeStopHandshake) (calling : t.phase ≠ .outside) (since : c.history <:+ history)
    (soFar : history <:+ c.handshake E) : Moment c history

variable (E) in
/-- **The reported state is honest** at every moment: once a call has completed, a Controller that reports PASS and no
active session has it acknowledged. -/
def Honest (c : Ctl σ) : Prop := ∀ history, Moment E c history →
  c.completed → c.status.active = none → c.status.state = .pass → acknowledged (c.sinceError history)

variable (E) in
/-- `PlaybackSession.__init__` raises: there is no session to clean up after. -/
def unbuilt : Job → Bool
  | .playbackCreate recording args => match E.setup recording args with | .error _ => true | .ok _ => false
  | _ => false

/-- The cleanup finds nothing to do by the flags of its session, and makes no handshake. -/
def skips : Job → Bool
  | .recordingFailed session _ | .recordingCleanup session _ _ => session.finished
  | .playbackFailed session _ | .playbackAbort session _ | .playbackCleanup session _ _ => !Playback.flagged session
  | _ => false

variable (E) in
/-- The call completes without having claimed the Controller. -/
def refuses (c : Ctl σ) : Job → Bool
  | .startRecording name => !matchesName name || c.activeKind.isSome
  | .startPlayback name _ => match (E.load name c.link).1 with | .error _ => true | .ok _ => false
  | .playbackBegin _ _ _ => c.activeKind.isSome
  | .requestStop kind safe _ => !safe && c.activeKind ≠ some kind
  | .renameRecording _ _ | .deleteRecording _ => true
  | _ => false

variable (E) in
/-- A cleanup without a handshake finds PASS acknowledged; a Controller that has no session and of which no operation
has ended yet refuses nothing; and no MODE_SET(PASS) is written while an acknowledgement of one is put aside. -/
def grounded (c : Ctl σ) : Move → Bool
  | .advance thread =>
    match c.threads[thread]? with
    | some ⟨job, .outside⟩ => (!unbuilt E job || c.vouched) && (!c.refuses E job || c.ended || c.inSession)
    | _ => true
  | .returns thread =>
    match c.threads[thread]? with
    | some ⟨job, .calling⟩ =>
      (!skips job || c.vouched) && (c.step E (.returns thread)).all (fun d => d.history.all (!·.stale))
    | _ => true
  | _ => true

/-- No `safe_stop` begins its handshake while PASS is reported. -/
def calm (c : Ctl σ) : Move → Bool
  | .begins thread =>
    match c.threads[thread]? with
    | some ⟨.safeStopHandshake, .outside⟩ => !(c.ended && c.state = .pass)
    | _ => true
  | _ => true

variable (E) in
/-- Both. -/
def proper (c : Ctl σ) (move : Move) : Bool := c.grounded E move && c.calm move

/-! ## The calls of the sessions -/

theorem vouched_of_shook {h h' : List Act} (hs : Shook MODE_PASS h h') (hfresh : ∀ act ∈ h', act.stale = false)
    {mark : Nat} (hmark : mark ≤ h.length) : acknowledged (h'.take (h'.length - mark)) = true := by
  obtain ⟨acts, rfl, hack⟩ := hs.acknowledged hfresh
  have hlen : (acts ++ h).length - mark = acts.length + (h.length - mark) := by
    rw [List.length_append]
    omega
  rw [hlen, List.take_length_add_append]
  exact hack _

/-- What a call that came back leaves. -/
def left {S : Type} (c : Ctl σ) (t : Heap S σ) : Ctl σ :=
  { c with pending := t.pending, link := t.link, history := t.history }

/-- A call that came back left the Controller's fields alone, and what it did was added to the history; if the thread is
about to report PASS, then on the acknowledgement of it or after a cleanup that made no handshake. -/
structure Came (c : Ctl σ) (job : Job) (moved : Job × Ctl σ) : Prop where
  state : moved.2.state = c.state
  completed : moved.2.completed = c.completed
  ended : moved.2.ended = c.ended
  mark : moved.2.errorMark = c.errorMark
  grew : Grew c.history moved.2.history
  stops : moved.1.stops = false
  passes : moved.1.passes → Shook MODE_PASS c.history moved.2.history ∨ skips job ∧ moved.2.history = c.history

/-- By the specification of the call. -/
theorem came_of {S α : Type} {session : S} {m : Py S σ α} {next : Checked α × S × Ctl σ → Job × Ctl σ}
    {Q : α → Heap S σ → Prop} {X : Exn → Heap S σ → Prop} (h : (c.call session m).map next = some moved)
    (hm : wp m Q X ⟨c.pending, session, c.link, c.history⟩)
    (hok : ∀ a t, Q a t → Came c job (next (.ok a, t.session, c.left t)))
    (herror : ∀ e t, e.leaves = true → X e t → Came c job (next (.error e, t.session, c.left t))) :
    Came c job moved := by
  obtain ⟨returned, hcall, rfl⟩ := Option.map_eq_some_iff.1 h
  unfold call at hcall
  unfold wp at hm
  cases hrun : m ⟨c.pending, session, c.link, c.history⟩ with
  | ok a t =>
    rw [hrun] at hm hcall
    cases hcall
    exact hok a t hm
  | error e t =>
    rw [hrun] at hm hcall
    dsimp only at hcall
    split at hcall <;> cases hcall
    exact herror e t ‹_› hm

/-- A thread that goes on without reporting PASS. -/
theorem came_grew {d : Ctl σ} {job' : Job} (hd : (d.state, d.completed, d.ended, d.errorMark) =
      (c.state, c.completed, c.ended, c.errorMark)) (hg : Grew c.history d.history) (hstops : job'.stops = false)
    (hpasses : job'.passes = false) : Came c job (job', d) := by
  simp only [Prod.mk.injEq] at hd
  exact ⟨hd.1, hd.2.1, hd.2.2.1, hd.2.2.2, hg, hstops, fun hp => by rw [hpasses] at hp; cases hp⟩

/-- A thread that goes on, or reports PASS on its acknowledgement. -/
theorem came_shook {d : Ctl σ} {job' : Job} (hd : (d.state, d.completed, d.ended, d.errorMark) =
      (c.state, c.completed, c.ended, c.errorMark)) (hs : Shook MODE_PASS c.history d.history)
      (hstops : job'.stops = false) :
    Came c job (job', d) := by
  simp only [Prod.mk.injEq] at hd
  exact ⟨hd.1, hd.2.1, hd.2.2.1, hd.2.2.2, hs.grew, hstops, fun _ => .inl hs⟩

/-- The end after a cleanup: in PASS only if the cleanup reports nothing. -/
theorem came_cleanup {d : Ctl σ} {report : Option Exn} {error : Option Exn} {next : After}
    (hd : (d.state, d.completed, d.ended, d.errorMark) = (c.state, c.completed, c.ended, c.errorMark))
    (hdid : if skips job then report = none ∧ d.history = c.history
      else Shook MODE_PASS c.history d.history ∨ Missed MODE_PASS c.history d.history ∧ report ≠ none) :
    Came c job (.ending (cleanupState (.ok report)) error none next, d) := by
  by_cases hskip : skips job = true
  · rw [if_pos hskip] at hdid
    simp only [Prod.mk.injEq] at hd
    exact ⟨hd.1, hd.2.1, hd.2.2.1, hd.2.2.2, hdid.2 ▸ Grew.refl _, rfl, fun _ => .inr ⟨hskip, hdid.2⟩⟩
  · rw [if_neg hskip] at hdid
    rcases hdid with hs | ⟨hmissed, hreport⟩
    · exact came_shook hd hs rfl
    · cases report with
      | none => exact absurd rfl hreport
      | some e => exact came_grew hd hmissed.grew rfl rfl

theorem returns_came (h : c.returns E job = some moved) : Came c job moved := by
  cases job with
  | recordingHandshake session =>
    refine came_of h (RecordingSession.enterRecord_spec E.link _) (fun _ t ht => ?_) (fun e t _ ht => ?_)
    · exact came_grew rfl ht.grew rfl rfl
    · exact came_grew rfl ht.2.grew rfl rfl
  | recordingFailed session error =>
    refine came_of h (RecordingSession.abort_spec E.link _) (fun report t ht => ?_) (fun e t hl he => ?_)
    · exact came_cleanup rfl ht
    · rw [he] at hl
      cases hl
  | runRecording session event =>
    refine came_of h (RecordingSession.inside_receiveAndConsume E.link E.recordPollInterval _) (fun _ t ht => ?_)
      (fun e t _ ht => ?_)
    · exact came_grew rfl ht.2.grew rfl rfl
    · rcases e with ⟨kind, message⟩ | _
      · cases kind <;> exact came_grew rfl ht.2.grew rfl rfl
      · exact came_grew rfl ht.2.grew rfl rfl
  | recordingStop session event =>
    refine came_of h (RecordingSession.stop_spec E.link E.store _) (fun _ t ht => ?_) (fun e t _ ht => ?_)
    · exact came_shook rfl ht.2 rfl
    · rcases ht with hi | ⟨-, hd | hd⟩
      · exact came_grew rfl hi.2.grew rfl rfl
      · exact came_grew rfl hd.grew rfl rfl
      · exact came_grew rfl hd.grew rfl rfl
  | recordingCleanup session event error =>
    refine came_of h (RecordingSession.abort_spec E.link _) (fun report t ht => ?_) (fun e t hl he => ?_)
    · exact came_cleanup rfl ht
    · rw [he] at hl
      cases hl
  | playbackStart session =>
    refine came_of h (Playback.start_spec E.link _) (fun _ t ht => ?_) (fun e t _ ht => ?_)
    · exact came_grew rfl ht.2.grew rfl rfl
    · rcases ht with hi | ⟨-, -, hd⟩ | ⟨-, hd⟩
      · exact came_grew rfl hi.2.grew rfl rfl
      · exact came_grew rfl hd.grew rfl rfl
      · exact came_grew rfl hd.grew rfl rfl
  | playbackFailed session error =>
    refine came_of h (Playback.abortBestEffort_spec E.link _) (fun report t ht => ?_) (fun e t hl he => ?_)
    · refine came_cleanup rfl ?_
      simpa [skips, left] using ht
    · rw [he] at hl
      cases hl
  | runPlayback session event =>
    refine came_of h (Playback.finish_spec E.link _) (fun _ t ht => ?_) (fun e t _ ht => ?_)
    · exact came_shook rfl ht.2.2 rfl
    · have hgrew : Grew c.history t.history := by
        rcases ht with hi | ⟨-, -, hd⟩
        · exact hi.2.grew
        · exact hd.grew
      rcases e with ⟨kind, message⟩ | _
      · cases kind <;> dsimp only
        case transportTimeout => split <;> exact came_grew rfl hgrew rfl rfl
        all_goals exact came_grew rfl hgrew rfl rfl
      · exact came_grew rfl hgrew rfl rfl
  | playbackAbort session event =>
    refine came_of h (Playback.abort_spec E.link _) (fun aborted t ht => ?_) (fun e t hl ht => ?_)
    · by_cases hflag : Playback.flagged session = true
      · rw [if_pos hflag] at ht
        exact came_shook rfl ht rfl
      · rw [if_neg hflag] at ht
        have hskip : skips (.playbackAbort session event) = true := by simpa [skips] using hflag
        exact ⟨rfl, rfl, rfl, rfl, ⟨[], ht⟩, rfl, fun _ => .inr ⟨hskip, ht⟩⟩
    · rcases (ht hl).2 with hd | hd
      · exact came_grew rfl hd.grew rfl rfl
      · exact came_grew rfl hd.grew rfl rfl
  | playbackCleanup session event error =>
    refine came_of h (Playback.abortBestEffort_spec E.link _) (fun report t ht => ?_) (fun e t hl he => ?_)
    · refine came_cleanup rfl ?_
      simpa [skips, left] using ht
    · rw [he] at hl
      cases hl
  | safeStopHandshake =>
    refine came_of h (Transport.setMode_spec E.link MODE_PASS (.inl rfl) E.modeTimeout _) (fun _ t ht => ?_)
      (fun e t _ ht => ?_)
    · exact came_shook rfl ht.2.shook rfl
    · exact came_grew rfl ht.2.missed.grew rfl rfl
  | _ => cases h

/-! ## The moves outside of the calls -/

variable (E) in
/-- A move of a thread that is not about to call `_end`. -/
structure Went (c : Ctl σ) (job : Job) (moved : Job × Ctl σ) : Prop where
  history : moved.2.history = c.history
  mark : moved.2.errorMark = c.errorMark
  ended : moved.2.ended = c.ended
  state : ¬job.InSession → moved.2.state = c.state
  passes : moved.1.passes → unbuilt E job
  stops : moved.1.stops → job.stops ∨ c.inSession
  completed : moved.2.completed → c.completed ∨ c.refuses E job ∨ job.stops ∨ job.InSession ∨ c.inSession

/-- A call that completes. -/
theorem went_complete {d : Ctl σ} (outcome : Checked (Option Outcome))
    (hd : (d.history, d.errorMark, d.ended, d.state) = (c.history, c.errorMark, c.ended, c.state))
    (hwhy : c.refuses E job ∨ job.stops ∨ job.InSession ∨ c.inSession) : Went E c job (d.complete outcome) := by
  simp only [Prod.mk.injEq] at hd
  exact ⟨hd.1, hd.2.1, hd.2.2.1, fun _ => hd.2.2.2, fun hp => (by cases hp), fun hs => (by cases hs),
    fun _ => .inr hwhy⟩

/-- A stop that goes on to its status, or completes. -/
theorem went_closed (hclosed : Closed c moved) (hwhy : job.stops ∨ c.inSession) : Went E c job moved := by
  obtain ⟨job', completed, rfl, hjob⟩ := hclosed
  refine ⟨rfl, rfl, rfl, fun _ => rfl, fun hp => ?_, fun _ => hwhy, fun _ => .inr (.inr (hwhy.imp_right .inr))⟩
  rcases hjob with ⟨outcome, rfl⟩ | rfl <;> cases hp

/-- A thread that goes on. -/
theorem went_on {d : Ctl σ} {job' : Job}
    (hd : (d.history, d.errorMark, d.ended, d.completed) = (c.history, c.errorMark, c.ended, c.completed))
    (hstate : job.InSession ∨ d.state = c.state) (hpasses : job'.passes = false)
    (hstops : job'.stops → job.stops ∨ c.inSession) : Went E c job (job', d) := by
  simp only [Prod.mk.injEq] at hd
  refine ⟨hd.1, hd.2.1, hd.2.2.1, hstate.resolve_left, fun hp => ?_, hstops, fun hdone => .inl (hd.2.2.2 ▸ hdone)⟩
  rw [show (job', d).1 = job' from rfl, hpasses] at hp
  cases hp

theorem begin_frame {kind : Kind} {name : String} (h : c.begin_ thread kind name = some d) :
    (d.history, d.errorMark, d.ended, d.completed) = (c.history, c.errorMark, c.ended, c.completed) ∧
    d.state = c.state := by
  obtain ⟨-, rfl⟩ := begin_spec h
  exact ⟨rfl, rfl⟩

theorem begin_eq_none {kind : Kind} {name : String} (h : c.begin_ thread kind name = none) : c.activeKind.isSome := by
  unfold begin_ at h
  by_cases hactive : c.activeKind.isSome
  · exact hactive
  · rw [if_neg hactive] at h
    cases h

theorem advance_went (h : c.advance E thread job = some moved) (hasks : job.asks ≠ some .idle)
    (hending : ∀ state error result next, job ≠ .ending state error result next) : Went E c job moved := by
  cases job with
  | startRecording name =>
    simp only [advance] at h
    split at h
    · rename_i hname
      cases h
      exact went_complete _ rfl (.inl (by simp [refuses, validateName_error hname]))
    · split at h
      · rename_i hname _ hbegin
        cases h
        exact went_complete _ rfl (.inl (by simp [refuses, begin_eq_none hbegin]))
      · rename_i hbegin
        cases h
        exact went_on (begin_frame hbegin).1 (.inr (begin_frame hbegin).2) rfl (fun hs => by cases hs)
  | recordingCreate _ | recordingLaunch _ | playbackLaunch _ | recordingRespond _ _ | playbackRespond _ _ =>
    cases h
    exact went_on rfl (.inl (by simp [Job.InSession, Job.kind])) rfl (fun hs => by cases hs)
  | recordingStart session =>
    simp only [advance] at h
    split at h <;> cases h <;> exact went_on rfl (.inr rfl) rfl (fun hs => by cases hs)
  | recordingSpawn session event => cases h; exact went_complete _ rfl (.inr (.inr (.inl (.inl rfl))))
  | playbackSpawn session event => cases h; exact went_complete _ rfl (.inr (.inr (.inl (.inr rfl))))
  | runRecording session event =>
    simp only [advance] at h
    split at h
    · cases h
      exact went_on rfl (.inr rfl) rfl (fun hs => by cases hs)
    · cases h
  | startPlayback name args =>
    simp only [advance] at h
    split at h
    · rename_i hload
      cases h
      exact went_complete _ rfl (.inl (by simp [refuses, hload]))
    · cases h
      exact went_on rfl (.inr rfl) rfl (fun hs => by cases hs)
  | playbackBegin name recording args =>
    simp only [advance] at h
    split at h
    · rename_i hbegin
      cases h
      exact went_complete _ rfl (.inl (begin_eq_none hbegin))
    · rename_i hbegin
      cases h
      exact went_on (begin_frame hbegin).1 (.inr (begin_frame hbegin).2) rfl (fun hs => by cases hs)
  | playbackCreate recording args =>
    simp only [advance] at h
    split at h
    · rename_i hsetup
      cases h
      exact ⟨rfl, rfl, rfl, fun _ => rfl, fun _ => by simp [unbuilt, hsetup], fun hs => (by cases hs), .inl⟩
    · cases h
      exact went_on rfl (.inl (.inr rfl)) rfl (fun hs => by cases hs)
  | requestStop kind safe timeout =>
    simp only [advance] at h
    split at h
    · rename_i hkind
      cases h
      cases safe with
      | false => exact went_complete _ rfl (.inl (by simpa [refuses] using hkind))
      | true => exact went_closed (stopRaises_closed _ _ _) (.inl rfl)
    · rename_i hkind
      have hactive : c.inSession := by
        rw [inSession, not_not.1 hkind]
        cases kind <;> simp [Job.asks] at hasks ⊢
      split at h
      · cases h
        exact went_on rfl (.inr rfl) rfl (fun _ => .inr hactive)
      · cases h
        exact went_closed (stopRaises_closed _ _ _) (.inr hactive)
  | stopping kind safe timeout event worker generation =>
    cases h
    exact went_on rfl (.inr rfl) rfl (fun _ => .inl rfl)
  | joining kind safe timeout worker generation =>
    simp only [advance] at h
    split at h
    · cases h
      exact went_closed (stopRaises_closed _ _ _) (.inl rfl)
    · split at h
      · cases h
      · split at h
        · cases h
          exact went_closed (stopRaises_closed _ _ _) (.inl rfl)
        · split at h <;> cases h
          · exact went_closed (stopRaises_closed _ _ _) (.inl rfl)
          · exact went_closed (stopReturns_closed _ _) (.inl rfl)
  | renameRecording old new =>
    simp only [advance] at h
    split at h <;> cases h <;> exact went_complete _ rfl (.inl rfl)
  | deleteRecording name =>
    simp only [advance] at h
    split at h <;> cases h <;> exact went_complete _ rfl (.inl rfl)
  | safeStop timeout =>
    simp only [advance] at h
    split at h <;> cases h
    · exact went_on rfl (.inr rfl) rfl (fun _ => .inr (.inl ‹_›))
    · exact went_on rfl (.inr rfl) rfl (fun _ => .inr (.inr ‹_›))
    · exact went_on rfl (.inr rfl) rfl (fun hs => by cases hs)
  | safeStopClaim =>
    simp only [advance] at h
    split at h <;> cases h <;> exact went_on rfl (.inr rfl) rfl (fun hs => by cases hs)
  | safeStopStatus =>
    cases h
    exact went_complete _ rfl (.inr (.inl rfl))
  | ending state error result next => exact absurd rfl (hending state error result next)
  | recordingHandshake _ | recordingFailed _ _ | recordingStop _ _ | recordingCleanup _ _ _ | playbackStart _
  | playbackFailed _ _ | runPlayback _ _ | playbackAbort _ _ | playbackCleanup _ _ _ | safeStopHandshake | statusLocked
  | done _ | exited _ => cases h

theorem joinTimeout_went (h : c.joinTimeout job = some moved) : Went E c job moved := by
  have hclosed := joinTimeout_closed h
  cases job with
  | joining kind safe timeout worker generation => exact went_closed hclosed (.inl rfl)
  | _ => cases h

theorem joinTimeout_joins (h : c.joinTimeout job = some moved) : job.owns = false ∧
    ∀ (E : Env σ) (c : Ctl σ), unbuilt E job = false ∧ c.refuses E job = false := by
  cases job <;> first | exact ⟨rfl, fun _ _ => ⟨rfl, rfl⟩⟩ | cases h

/-! ## The run -/

/-- What holds in every state of a run that is grounded, and more if it is calm: while a `safe_stop` is in its handshake
PASS is not reported, and it is acknowledged also then. -/
structure Vouches (calm : Prop) (c : Ctl σ) : Prop where
  owned : Owned c
  mark : c.errorMark ≤ c.history.length
  fresh : ∀ act ∈ c.history, act.stale = false
  asks : ∀ t ∈ c.threads, t.job.asks ≠ some .idle
  passes : ∀ t ∈ c.threads, t.job.passes → c.vouched
  idle : c.activeKind = none ∨ calm ∧ ¬c.inSession → c.state = .pass → c.ended → c.vouched
  first : ¬c.inSession → c.completed → c.ended
  stops : ∀ t ∈ c.threads, t.job.stops → c.ended ∨ c.inSession
  still : calm → ∀ t ∈ c.threads, t.job = .safeStopHandshake → t.phase ≠ .outside → c.state = .pass → c.ended = false

variable {calm : Prop}

theorem vouches_init (link : σ) : Vouches calm (Ctl.init link) :=
  ⟨owned_init link, Nat.le_refl _, by simp [Ctl.init], by simp [Ctl.init], by simp [Ctl.init], by simp [Ctl.init],
    by simp [Ctl.init], by simp [Ctl.init], by simp [Ctl.init]⟩

theorem not_inSession_of_free (hfree : c.activeKind = none) : ¬c.inSession := by
  simp [inSession, hfree]

theorem vouched_eq (hhistory : d.history = c.history) (hmark : d.errorMark = c.errorMark) : d.vouched = c.vouched := by
  unfold vouched sinceError
  rw [hhistory, hmark]

theorem inSession_eq (h : d.activeKind = c.activeKind) : d.inSession ↔ c.inSession := by
  rw [inSession, inSession, h]

/-- Whoever is at an owner's place has the claim. -/
theorem Owned.active (hc : Owned c) {t : Thread} (ht : t ∈ c.threads) (hjob : t.job.owns) : c.activeKind.isSome := by
  obtain ⟨i, hi⟩ := List.mem_iff_getElem?.1 ht
  exact hc.tracks.held_of (i := i) ⟨t, hi, hjob⟩

/-- And at a place of a session, that of a session. -/
theorem Owned.inSession (hc : Owned c) {t : Thread} (ht : t ∈ c.threads) (hjob : t.job.InSession) : c.inSession := by
  rcases hc.kinds t ht with hkind | hkind
  · rcases hjob with hjob | hjob <;> rw [hjob] at hkind <;> cases hkind
  · exact hjob.imp (hkind.symm.trans ·) (hkind.symm.trans ·)

theorem Owned.not_inSession (hc : Owned c) {t : Thread} (ht : t ∈ c.threads) (hjob : t.job = .safeStopHandshake) :
    ¬c.inSession := by
  have hkind : some Kind.idle = c.activeKind := (hjob ▸ hc.kinds t ht).resolve_left nofun
  simp [Ctl.inSession, ← hkind]

/-- The threads after a move: the old ones, the one that moved, and a worker it started. -/
theorem mem_place {t : Thread} (heffect : Effect thread c t.job moved) {u : Thread}
    (hu : u ∈ (place thread moved).threads) :
    u ∈ c.threads ∨ u = moved.1.thread ∨
      u.phase = .outside ∧ u.job.passes = false ∧ u.job.stops = false ∧ u.job.asks = none := by
  rcases List.mem_or_eq_of_mem_set hu with hold | hnew
  · cases heffect with
    | keep _ hthreads _ _ _ => exact .inl (hthreads ▸ hold)
    | take _ _ hthreads _ _ _ _ => exact .inl (hthreads ▸ hold)
    | drop _ _ _ hthreads _ _ => exact .inl (hthreads ▸ hold)
    | hand worker _ _ _ _ hworking hthreads _ _ =>
      rw [hthreads] at hold
      rcases List.mem_append.1 hold with hold | hnew
      · exact .inl hold
      · rw [List.mem_singleton.1 hnew]
        exact .inr (.inr (by cases worker <;> first | exact ⟨rfl, rfl, rfl, rfl⟩ | exact absurd rfl hworking))
  · exact .inr (.inl hnew)

/-- A `safe_stop` asks for the kind of session that it has found. -/
theorem advance_asks (h : c.advance E thread job = some moved) : moved.1.asks ≠ some .idle := by
  have hclosed : ∀ {moved : Job × Ctl σ}, Closed c moved → moved.1.asks ≠ some .idle := by
    rintro moved ⟨job, completed, rfl, ⟨outcome, rfl⟩ | rfl⟩ hasks <;> cases hasks
  revert h
  fun_cases advance E thread c job <;> intro h <;> cases h
  all_goals first
    | exact hclosed (stopRaises_closed _ _ _)
    | exact hclosed (stopReturns_closed _ _)
    | (intro hasks; cases hasks)

theorem joinTimeout_asks (h : c.joinTimeout job = some moved) : moved.1.asks ≠ some .idle := by
  obtain ⟨job', completed, rfl, ⟨outcome, rfl⟩ | rfl⟩ := joinTimeout_closed h <;> nofun

/-- A thread outside of its calls that is not about to call `_end`. -/
theorem vouches_went {t : Thread} (hc : Vouches calm c) (ht : c.threads[thread]? = some t)
    (howned : Owned (place thread moved)) (heffect : Effect thread c t.job moved) (hwent : Went E c t.job moved)
    (hasks : moved.1.asks ≠ some .idle) (hending : ∀ state error result next, t.job ≠ .ending state error result next)
    (hunbuilt : unbuilt E t.job → c.vouched) (hrefuses : c.refuses E t.job → c.ended ∨ c.inSession) :
    Vouches calm (place thread moved) := by
  have hmem := List.mem_of_getElem? ht
  have hvouched : (place thread moved).vouched = c.vouched := vouched_eq hwent.history hwent.mark
  have hended : (place thread moved).ended = c.ended := hwent.ended
  -- A session that was active is active still.
  have hactive : c.inSession → (place thread moved).inSession := by
    intro hsession
    cases heffect with
    | keep _ _ hkind _ _ => exact (inSession_eq hkind).2 hsession
    | take _ _ _ hfree _ _ _ => rcases hsession with hkind | hkind <;> rw [hkind] at hfree <;> cases hfree
    | hand _ _ _ _ _ _ _ hkind _ => exact (inSession_eq hkind).2 hsession
    | drop hbefore hworks _ _ _ _ =>
      obtain ⟨state, error, result, next, hjob⟩ := Job.ending_of_owns hbefore hworks
      exact absurd hjob (hending state error result next)
  have hfree : (place thread moved).activeKind = none → c.activeKind = none := by
    intro hnone
    cases heffect with
    | keep _ _ hkind _ _ => exact hkind.symm.trans hnone
    | take _ _ _ _ hkind _ _ => exact absurd hnone (Option.isSome_iff_ne_none.1 hkind)
    | hand _ _ _ _ _ _ _ hkind _ => exact hkind.symm.trans hnone
    | drop hbefore hworks _ _ _ _ =>
      obtain ⟨state, error, result, next, hjob⟩ := Job.ending_of_owns hbefore hworks
      exact absurd hjob (hending state error result next)
  have hstop : c.ended ∨ c.inSession → (place thread moved).ended ∨ (place thread moved).inSession := by
    rw [hended]
    exact Or.imp_right hactive
  refine ⟨howned, ?_, ?_, fun u hu => ?_, fun u hu hpasses => ?_, fun hidle hpass hend => ?_, fun hnone hdone => ?_,
    fun u hu hstops => ?_, fun hcalm u hu hjob hphase hpass => ?_⟩
  · show moved.2.errorMark ≤ moved.2.history.length
    rw [hwent.mark, hwent.history]
    exact hc.mark
  · rw [show (place thread moved).history = c.history from hwent.history]
    exact hc.fresh
  · rcases mem_place heffect hu with hold | rfl | ⟨-, -, -, hnone⟩
    · exact hc.asks u hold
    · exact hasks
    · rw [hnone]
      nofun
  · rw [hvouched]
    rcases mem_place heffect hu with hold | rfl | ⟨-, hnot, -⟩
    · exact hc.passes u hold hpasses
    · exact hunbuilt (hwent.passes hpasses)
    · rw [hnot] at hpasses
      cases hpasses
  · rw [hvouched]
    have hidle' : c.activeKind = none ∨ calm ∧ ¬c.inSession :=
      hidle.imp hfree (And.imp_right (fun hnone hsession => hnone (hactive hsession)))
    have hnone : ¬c.inSession := hidle'.elim not_inSession_of_free And.right
    have hstate := hwent.state (fun hjob => hnone (hc.owned.inSession hmem hjob))
    exact hc.idle hidle' (hstate.symm.trans hpass) (hended ▸ hend)
  · have hnone' : ¬c.inSession := fun hsession => hnone (hactive hsession)
    rw [hended]
    rcases hwent.completed hdone with hold | hrefused | hstops | hjob | hsession
    · exact hc.first hnone' hold
    · exact (hrefuses hrefused).resolve_right hnone'
    · exact (hc.stops t hmem hstops).resolve_right hnone'
    · exact absurd (hc.owned.inSession hmem hjob) hnone'
    · exact absurd hsession hnone'
  · rcases mem_place heffect hu with hold | rfl | ⟨-, -, hnot, -⟩
    · exact hstop (hc.stops u hold hstops)
    · exact hstop ((hwent.stops hstops).elim (hc.stops t hmem) .inr)
    · rw [hnot] at hstops
      cases hstops
  · rw [hended]
    rcases mem_place heffect hu with hold | rfl | ⟨hout, -⟩
    · -- The state is not that of a session, for the claim is that of the handshake.
      have hnone := hc.owned.not_inSession hold hjob
      have hstate := hwent.state (fun hsession => hnone (hc.owned.inSession hmem hsession))
      exact hc.still hcalm u hold hjob hphase (hstate.symm.trans hpass)
    · exact absurd rfl hphase
    · exact absurd hout hphase

/-- `_end`. -/
theorem vouches_ending {t : Thread} {state : CtlState} {job' : Job}
    (hc : Vouches calm c) (ht : c.threads[thread]? = some t) (howned : Owned (place thread (job', d)))
    (hthreads : d.threads = c.threads) (hhistory : d.history = c.history) (hkind : d.activeKind = none)
    (hended : d.ended = true) (hstate : d.state = state)
    (hmark : d.errorMark = if state = .error then c.history.length else c.errorMark)
    (hjob : t.job.passes ↔ state = .pass) (hasks : job'.asks = none) :
    Vouches calm (place thread (job', d)) := by
  have hmem := List.mem_of_getElem? ht
  -- Nobody owns the claim any more.
  have hnobody : ∀ u ∈ (place thread (job', d)).threads, u.job.owns → False := by
    intro u hu howns
    have hheld := howned.active hu howns
    rw [show (place thread (job', d)).activeKind = none from hkind] at hheld
    cases hheld
  refine ⟨howned, ?_, ?_, fun u hu => ?_, fun u hu hpasses => absurd (Job.owns_of_passes hpasses) (hnobody u hu),
    fun _ hpass _ => ?_, fun _ _ => hended, fun _ _ _ => .inl hended, fun _ u hu hjob => ?_⟩
  · show d.errorMark ≤ d.history.length
    rw [hmark, hhistory]
    split
    · exact Nat.le_refl _
    · exact hc.mark
  · rw [show (place thread (job', d)).history = c.history from hhistory]
    exact hc.fresh
  · rcases List.mem_or_eq_of_mem_set hu with hold | rfl
    · exact hc.asks u (hthreads ▸ hold)
    · rw [show (Job.thread job').job = job' from rfl, hasks]
      nofun
  · have hpass' : state = .pass := hstate.symm.trans hpass
    have hmark' : d.errorMark = c.errorMark := by
      rw [hmark, hpass']
      rfl
    rw [show (place thread (job', d)).vouched = c.vouched from vouched_eq hhistory hmark']
    exact hc.passes t hmem (hjob.2 hpass')
  · exact absurd (by rw [hjob]; rfl) (hnobody u hu)

/-- A call that is made at an owner's place is made by a session, or is the handshake of a `safe_stop`. -/
theorem calls_of {job : Job} (h : c.returns E job = some moved) : job.InSession ∨ job = .safeStopHandshake := by
  cases job <;> first | exact .inl (.inl rfl) | exact .inl (.inr rfl) | exact .inr rfl | cases h

/-- A call comes back. -/
theorem vouches_came {t : Thread} (hc : Vouches calm c) (ht : c.threads[thread]? = some t) (hphase : t.phase = .calling)
    (howned : Owned (place thread moved)) (hreturned : Returned c t.job moved) (hcame : Came c t.job moved)
    (hcalls : t.job.InSession ∨ t.job = .safeStopHandshake) (hfresh : ∀ act ∈ moved.2.history, act.stale = false)
    (hskips : skips t.job → c.vouched) : Vouches calm (place thread moved) := by
  have hmem := List.mem_of_getElem? ht
  have hsession : (place thread moved).inSession ↔ c.inSession := inSession_eq hreturned.kind
  have hlt : thread < moved.2.threads.length := by
    rw [hreturned.threads]
    exact (List.getElem?_eq_some_iff.1 ht).1
  -- The one at an owner's place is the thread that came back.
  have hself : ∀ u ∈ (place thread moved).threads, u.job.owns → u = moved.1.thread := by
    intro u hu howns
    obtain ⟨i, hi⟩ := List.mem_iff_getElem?.1 hu
    obtain rfl := howned.tracks.unique ⟨u, hi, howns⟩
      ⟨moved.1.thread, List.getElem?_set_self hlt, hreturned.after⟩
    exact (Option.some.inj ((List.getElem?_set_self hlt).symm.trans hi)).symm
  refine ⟨howned, ?_, hfresh, fun u hu => ?_, fun u hu hpasses => ?_, fun hidle hpass hend => ?_, fun hnone hdone => ?_,
    fun u hu hstops => ?_, fun _ u hu hjob hphase => ?_⟩
  · show moved.2.errorMark ≤ moved.2.history.length
    rw [hcame.mark]
    exact Nat.le_trans hc.mark hcame.grew.length_le
  · rcases List.mem_or_eq_of_mem_set hu with hold | rfl
    · exact hc.asks u (hreturned.threads ▸ hold)
    · have hafter := hreturned.after
      intro hasks
      cases hjob : moved.1 <;> rw [show (Job.thread moved.1).job = moved.1 from rfl, hjob] at hasks <;> try cases hasks
      rw [hjob] at hafter
      cases hafter
  · rw [hself u hu (Job.owns_of_passes hpasses)] at hpasses
    rcases hcame.passes hpasses with hshook | ⟨hskip, hhistory⟩
    · show acknowledged (moved.2.history.take (moved.2.history.length - moved.2.errorMark)) = true
      rw [hcame.mark]
      exact vouched_of_shook hshook hfresh hc.mark
    · rw [show (place thread moved).vouched = c.vouched from vouched_eq hhistory hcame.mark]
      exact hskips hskip
  · rcases hidle with hfree | ⟨hcalm, hnone⟩
    · have hheld := hc.owned.active hmem hreturned.before
      rw [hreturned.kind.symm.trans hfree] at hheld
      cases hheld
    rcases hcalls with hjob | hjob
    · exact absurd (hsession.2 (hc.owned.inSession hmem hjob)) hnone
    · -- The handshake of a `safe_stop` does not begin while PASS is reported.
      have hnot := hc.still hcalm t hmem hjob (by simp [hphase]) (hcame.state.symm.trans hpass)
      rw [show (place thread moved).ended = c.ended from hcame.ended, hnot] at hend
      cases hend
  · rw [show (place thread moved).ended = c.ended from hcame.ended]
    exact hc.first (fun h => hnone (hsession.2 h)) (hcame.completed ▸ hdone)
  · rw [show (place thread moved).ended = c.ended from hcame.ended, hsession]
    rcases List.mem_or_eq_of_mem_set hu with hold | rfl
    · exact hc.stops u (hreturned.threads ▸ hold) hstops
    · rw [show (Job.thread moved.1).job = moved.1 from rfl, hcame.stops] at hstops
      cases hstops
  · rw [hself u hu (by rw [hjob]; rfl)] at hphase
    exact absurd rfl hphase

/-- A thread goes into a call, or in and out of the transport. -/
theorem vouches_enter {t : Thread} {phase : Phase} {cancel : Option Nat} (hc : Vouches calm c)
    (ht : c.threads[thread]? = some t) (howned : Owned ({ c with cancelEvent := cancel }.enter thread t.job phase))
    (hstill : calm → t.job = .safeStopHandshake → c.state = .pass → c.ended = false) :
    Vouches calm ({ c with cancelEvent := cancel }.enter thread t.job phase) := by
  have hmem : ∀ u ∈ ({ c with cancelEvent := cancel }.enter thread t.job phase).threads,
      u ∈ c.threads ∨ u.job = t.job := by
    intro u hu
    rcases List.mem_or_eq_of_mem_set hu with hold | rfl
    · exact .inl hold
    · exact .inr rfl
  have ht' := List.mem_of_getElem? ht
  refine ⟨howned, hc.mark, hc.fresh, fun u hu => ?_, fun u hu hpasses => ?_, hc.idle, hc.first, fun u hu hstops => ?_,
    fun hcalm u hu hjob hphase => ?_⟩ <;> rcases hmem u hu with hold | hsame
  · exact hc.asks u hold
  · exact hsame ▸ hc.asks t ht'
  · exact hc.passes u hold hpasses
  · exact hc.passes t ht' (hsame ▸ hpasses)
  · exact hc.stops u hold hstops
  · exact hc.stops t ht' (hsame ▸ hstops)
  · exact hc.still hcalm u hold hjob hphase
  · exact hstill hcalm (hsame ▸ hjob)

theorem vouches_call (hc : Vouches calm c) (hcall : job.isCall)
    (howned : Owned { c with threads := c.threads ++ [job.thread] }) :
    Vouches calm { c with threads := c.threads ++ [job.thread] } := by
  have hnot : job.passes = false ∧ job.stops = false ∧ job.asks ≠ some .idle := by
    cases job <;> first | exact ⟨rfl, rfl, nofun⟩ | skip
    case requestStop kind safe timeout =>
      cases safe <;> cases kind <;> first | cases hcall; done | exact ⟨rfl, rfl, by simp [Job.asks]⟩
    all_goals cases hcall
  have hmem : ∀ u ∈ c.threads ++ [job.thread], u ∈ c.threads ∨ u = job.thread := by simp
  refine ⟨howned, hc.mark, hc.fresh, fun u hu => ?_, fun u hu hpasses => ?_, hc.idle, hc.first, fun u hu hstops => ?_,
    fun hcalm u hu hjob hphase => ?_⟩ <;> rcases hmem u hu with hold | rfl
  · exact hc.asks u hold
  · exact hnot.2.2
  · exact hc.passes u hold hpasses
  · rw [show (Job.thread job).job = job from rfl, hnot.1] at hpasses
    cases hpasses
  · exact hc.stops u hold hstops
  · rw [show (Job.thread job).job = job from rfl, hnot.2.1] at hstops
    cases hstops
  · exact hc.still hcalm u hold hjob hphase
  · exact absurd rfl hphase

/-- **One move that meets the condition.** -/
theorem vouches_step {move : Move} (hc : Vouches calm c) (hgrounded : c.grounded E move) (hcalm : calm → c.calm move)
    (h : c.step E move = some d) : Vouches calm d := by
  have howned : Owned d := owned_step hc.owned h
  cases stepped h with
  | status => exact hc
  | call job isCall => exact vouches_call hc isCall howned
  | enter move thread t phase cancel comes silent =>
    refine vouches_enter hc comes howned (fun hyes hjob hpass => ?_)
    have hmem := List.mem_of_getElem? comes
    by_cases hphase : t.phase = .outside
    · obtain ⟨job, phase⟩ := t
      dsimp only at hphase hjob
      subst hphase hjob
      rcases silent with rfl | rfl | rfl
      · have hbegins := hcalm hyes
        simp only [Ctl.calm, comes] at hbegins
        simpa [hpass] using hbegins
      · rw [step] at h
        obtain ⟨u, hu, hcalling, -⟩ := act_eq_some h
        obtain rfl := Option.some.inj (comes.symm.trans hu)
        cases hcalling
      · rw [step] at h
        obtain ⟨u, hu, hcalling, -⟩ := act_eq_some h
        obtain rfl := Option.some.inj (comes.symm.trans hu)
        cases hcalling
    · exact hc.still hyes t hmem hjob hphase hpass
  | advance thread job moved comes goes =>
    by_cases hending : ∃ state error result next, job = .ending state error result next
    · obtain ⟨state, error, result, next, rfl⟩ := hending
      have hpasses : (Job.ending state error result next).passes ↔ state = .pass := by
        cases state <;> simp [Job.passes]
      cases next <;> cases goes <;>
        exact vouches_ending hc comes howned rfl rfl rfl rfl rfl rfl hpasses rfl
    · have hnot : ∀ state error result next, job ≠ .ending state error result next :=
        fun state error result next hjob => hending ⟨state, error, result, next, hjob⟩
      have hasks := hc.asks _ (List.mem_of_getElem? comes)
      simp only [grounded, comes, Job.thread, Bool.and_eq_true, Bool.or_eq_true, Bool.not_eq_true', decide_eq_true_eq]
        at hgrounded
      refine vouches_went (t := job.thread) hc comes howned (advance_effect goes) (advance_went goes hasks hnot)
        (advance_asks goes) hnot (fun hu => ?_) (fun hr => ?_)
      · exact hgrounded.1.resolve_left (by rw [show unbuilt E job = true from hu]; decide)
      · exact (or_assoc.1 hgrounded.2).resolve_left (by rw [show c.refuses E job = true from hr]; decide)
  | returns thread t moved comes calling goes =>
    obtain ⟨job, phase⟩ := t
    dsimp only at calling
    subst calling
    simp only [grounded, comes, h, Option.all_some, Bool.and_eq_true, Bool.or_eq_true, Bool.not_eq_true',
      List.all_eq_true] at hgrounded
    refine vouches_came (t := ⟨job, .calling⟩) hc comes rfl howned (returns_effect goes) (returns_came goes)
      (calls_of goes) hgrounded.2 (fun hskips => ?_)
    exact hgrounded.1.resolve_left (by rw [show skips job = true from hskips]; decide)
  | joinTimeout thread job moved comes goes =>
    have hjoins := joinTimeout_joins goes
    exact vouches_went (t := job.thread) (E := E) hc comes howned (joinTimeout_effect goes) (joinTimeout_went goes)
      (joinTimeout_asks goes) (fun state error result next hjob => by
        rw [show job = .ending state error result next from hjob] at hjoins; cases hjoins.1)
      (fun hu => by rw [show (job.thread).job = job from rfl, (hjoins.2 E c).1] at hu; cases hu)
      (fun hr => by rw [show (job.thread).job = job from rfl, (hjoins.2 E c).2] at hr; cases hr)

/-- A beginning of a handshake is under way only while PASS is not reported, or nothing has completed. -/
theorem Vouches.honest (hc : Vouches True c) : Honest E c := by
  intro history hmoment hcompleted hactive hpass
  have hnone : ¬c.inSession := by
    rintro (hkind | hkind) <;> simp [status, hkind] at hactive
  have hended := hc.first hnone hcompleted
  cases hmoment with
  | between => exact hc.idle (.inr ⟨trivial, hnone⟩) hpass hended
  | within thread t history comes place calling since soFar =>
    have hnot := hc.still trivial t (List.mem_of_getElem? comes) place calling hpass
    rw [hended] at hnot
    cases hnot

/-- **An idle Controller that reports PASS has it acknowledged**, also in a run in which a `safe_stop` begins its
handshake while PASS is reported. -/
theorem idle_honest (E : Env σ) (link : σ) (moves : List Move)
    (hmoves : throughout (Ctl.step E) (Ctl.grounded E) (Ctl.init link) moves) :
    let c := (Ctl.init link).run E moves
    c.completed → c.activeKind = none → c.status.state = .pass → c.vouched := by
  intro c hcompleted hfree hpass
  have hvouches : Vouches False c :=
    throughout_invariant (fun _ _ _ hc hgrounded hstep => vouches_step hc hgrounded nofun hstep)
      moves (vouches_init link) hmoves
  exact hvouches.idle (.inl hfree) hpass (hvouches.first (not_inSession_of_free hfree) hcompleted)

/-- `start_playback` after `safeStopMoves`, up to the end of a constructor that raises, or of a handshake that is not
answered. -/
def startPlaybackMoves (prebufferMs : String) : List Move :=
  [.call (.startPlayback "take" ⟨"1", prebufferMs, none⟩), .advance 1, .advance 1, .advance 1, .begins 1, .enters 1,
    .leaves 1, .returns 1, .begins 1, .returns 1, .advance 1]

/-- A second `safe_stop`, in its handshake. -/
def againMoves : List Move := safeStopMoves ++ [.call (.safeStop 10), .advance 1, .advance 1, .begins 1]

end Ctl
end PiZero
end PicoRecorder
