import PicoRecorder.PiZero.Controller
/-!
# Moves — what one move of a Controller does

A thread that goes on keeps the claim on the transport, takes a free one, hands its own to the worker it starts, or
drops its own (`Effect`); a call that comes back changes nothing of it (`Returned`).  `Stepped` lists the moves that are
possible, and `Arrives` says how a thread can have come to the place it is at.
-/
namespace PicoRecorder
namespace PiZero

open Lib

/-- The places of a thread that has claimed `_active_kind`, or whose worker it is. -/
def Job.owns : Job → Bool
  | .recordingCreate _ | .recordingStart _ | .recordingHandshake _ | .recordingFailed _ _ | .recordingLaunch _
  | .recordingRespond _ _ | .recordingSpawn _ _ | .runRecording _ _ | .recordingStop _ _ | .recordingCleanup _ _ _
  | .playbackCreate _ _ | .playbackStart _ | .playbackFailed _ _ | .playbackLaunch _ | .playbackRespond _ _
  | .playbackSpawn _ _ | .runPlayback _ _ | .playbackAbort _ _ | .playbackCleanup _ _ _ | .safeStopHandshake
  | .ending _ _ _ _ => true
  | _ => false

/-- The kind of the claim that a thread at the place works under; `_end` is the same for all. -/
def Job.kind : Job → Option Kind
  | .recordingCreate _ | .recordingStart _ | .recordingHandshake _ | .recordingFailed _ _ | .recordingLaunch _
  | .recordingRespond _ _ | .recordingSpawn _ _ | .runRecording _ _ | .recordingStop _ _ | .recordingCleanup _ _ _ =>
    some .record
  | .playbackCreate _ _ | .playbackStart _ | .playbackFailed _ _ | .playbackLaunch _ | .playbackRespond _ _
  | .playbackSpawn _ _ | .runPlayback _ _ | .playbackAbort _ _ | .playbackCleanup _ _ _ => some .playback
  | .safeStopHandshake => some .idle
  | _ => none

theorem Job.owns_of_kind {job : Job} (h : job.kind ≠ none) : job.owns := by
  cases job <;> first | rfl | exact absurd rfl h

theorem Job.ending_of_owns {job : Job} (howns : job.owns) (hkind : job.kind = none) :
    ∃ state error result next, job = .ending state error result next := by
  cases job <;> simp [Job.owns, Job.kind] at howns hkind ⊢

def Job.isRunPlayback : Job → Bool
  | .runPlayback _ _ => true
  | _ => false

namespace Ctl

variable {σ : Type} {E : Env σ} {c d : Ctl σ} {thread : Nat} {job : Job} {moved : Job × Ctl σ}

def Owns (c : Ctl σ) (i : Nat) : Prop := ∃ t, c.threads[i]? = some t ∧ t.job.owns

/-- The thread is inside a read or write operation of the transport. -/
def Inside (c : Ctl σ) (i : Nat) : Prop := ∃ t, c.threads[i]? = some t ∧ t.phase = .inside

/-- What a move of one thread does to the claim. -/
inductive Effect (thread : Nat) (c : Ctl σ) (job : Job) : Job × Ctl σ → Prop where
  | keep {job' : Job} {d : Ctl σ} (owns : job'.owns = job.owns) (threads : d.threads = c.threads)
    (kind : d.activeKind = c.activeKind) (works : job'.kind = none ∨ job'.kind = job.kind)
    (ledger : d.ledger = c.ledger) : Effect thread c job (job', d)
  | take {job' : Job} {d : Ctl σ} (before : job.owns = false) (after : job'.owns) (threads : d.threads = c.threads)
    (free : c.activeKind.isSome = false) (kind : d.activeKind.isSome) (works : job'.kind = d.activeKind)
    (ledger : d.ledger = .take thread :: c.ledger) : Effect thread c job (job', d)
  | hand {job' : Job} {d : Ctl σ} (worker : Job) (before : job.owns) (after : job'.owns = false) (owner : worker.owns)
    (works : worker.kind = job.kind) (working : worker.kind ≠ none)
    (threads : d.threads = c.threads ++ [worker.thread]) (kind : d.activeKind = c.activeKind)
    (ledger : d.ledger = .hand thread c.threads.length :: c.ledger) : Effect thread c job (job', d)
  | drop {job' : Job} {d : Ctl σ} (before : job.owns) (works : job.kind = none) (after : job'.owns = false)
    (threads : d.threads = c.threads) (kind : d.activeKind = none) (ledger : d.ledger = .drop thread :: c.ledger) :
    Effect thread c job (job', d)

/-- A call is done, or about to ask for the status it returns, and has changed nothing else. -/
def Closed (c : Ctl σ) (moved : Job × Ctl σ) : Prop :=
  ∃ job completed, moved = (job, { c with completed := completed }) ∧
    ((∃ outcome, job = .done outcome) ∨ job = .safeStopStatus)

theorem complete_closed (outcome : Checked (Option Outcome)) (c : Ctl σ) : Closed c (c.complete outcome) :=
  ⟨_, true, rfl, .inl ⟨outcome, rfl⟩⟩

theorem stopRaises_closed (safe : Bool) (e : Exn) (c : Ctl σ) : Closed c (c.stopRaises safe e) := by
  cases safe
  · exact complete_closed _ c
  · rcases e with ⟨kind, message⟩ | _
    · cases kind <;> first | exact complete_closed _ c | exact ⟨_, c.completed, rfl, .inr rfl⟩
    · exact ⟨_, c.completed, rfl, .inr rfl⟩

theorem stopReturns_closed (safe : Bool) (c : Ctl σ) : Closed c (c.stopReturns safe) := by
  cases safe
  · exact complete_closed _ c
  · exact ⟨_, c.completed, rfl, .inr rfl⟩

theorem joinTimeout_closed (h : c.joinTimeout job = some moved) : Closed c moved := by
  cases job with
  | joining kind safe timeout worker generation =>
    simp only [joinTimeout] at h
    split at h <;> cases h
    exact stopRaises_closed _ _ _
  | _ => cases h

/-- Such a move leaves the rest of the controller as it is. -/
theorem Closed.frame (h : Closed c moved) :
    moved.2.threads = c.threads ∧ moved.2.history = c.history ∧ moved.2.link = c.link ∧
      moved.2.cancelEvent = c.cancelEvent ∧ moved.2.metaLock = c.metaLock := by
  obtain ⟨job', completed, rfl, -⟩ := h
  exact ⟨rfl, rfl, rfl, rfl, rfl⟩

theorem effect_complete (outcome : Checked (Option Outcome)) (hjob : job.owns = false)
    (hthreads : d.threads = c.threads) (hkind : d.activeKind = c.activeKind) (hledger : d.ledger = c.ledger) :
    Effect thread c job (d.complete outcome) :=
  .keep hjob.symm hthreads hkind (.inl rfl) hledger

theorem effect_closed (hjob : job.owns = false) (h : Closed c moved) : Effect thread c job moved := by
  obtain ⟨job', completed, rfl, ⟨outcome, rfl⟩ | rfl⟩ := h <;> exact .keep hjob.symm rfl rfl (.inl rfl) rfl

/-- All that `_begin` does, once it is not refused. -/
theorem begin_spec {kind : Kind} {name : String} (h : c.begin_ thread kind name = some d) :
    c.activeKind = none ∧
      d = { c with
        activeKind := some kind, activeName := some name, lastError := none, lastResult := none
        generation := c.generation + 1, ledger := .take thread :: c.ledger } := by
  unfold begin_ at h
  split at h
  · cases h
  · rename_i hfree
    cases h
    exact ⟨by simpa using hfree, rfl⟩

theorem begin_eq_some {kind : Kind} {name : String} (h : c.begin_ thread kind name = some d) :
    c.activeKind.isSome = false ∧ d.activeKind = some kind ∧ d.threads = c.threads ∧
      d.ledger = .take thread :: c.ledger ∧ d.cancelEvent = c.cancelEvent ∧ d.metaLock = c.metaLock := by
  obtain ⟨hfree, rfl⟩ := begin_spec h
  exact ⟨by rw [hfree]; rfl, rfl, rfl, rfl, rfl, rfl⟩

/-- **What a thread does outside of its calls**: it keeps the claim as it is, takes a free one, hands its own to the
worker it starts, or drops its own. -/
theorem advance_effect (h : c.advance E thread job = some moved) : Effect thread c job moved := by
  cases job with
  | startRecording name =>
    simp only [advance] at h
    split at h
    · cases h
      exact effect_complete _ rfl rfl rfl rfl
    · split at h
      · cases h
        exact effect_complete _ rfl rfl rfl rfl
      · rename_i hbegin
        cases h
        obtain ⟨hfree, hkind, hthreads, hledger, -⟩ := begin_eq_some hbegin
        exact .take rfl rfl hthreads hfree (by rw [hkind]; rfl) hkind.symm hledger
  | recordingCreate name => cases h; exact .keep rfl rfl rfl (.inr rfl) rfl
  | recordingStart session =>
    simp only [advance] at h
    split at h <;> cases h <;> exact .keep rfl rfl rfl (.inr rfl) rfl
  | recordingLaunch _ | recordingRespond _ _ => cases h; exact .keep rfl rfl rfl (.inr rfl) rfl
  | recordingSpawn session event => cases h; exact .hand (.runRecording session event) rfl rfl rfl rfl nofun rfl rfl rfl
  | runRecording session event =>
    simp only [advance] at h
    split at h
    · cases h
      exact .keep rfl rfl rfl (.inr rfl) rfl
    · cases h
  | startPlayback name args =>
    simp only [advance] at h
    split at h
    · cases h
      exact effect_complete _ rfl rfl rfl rfl
    · cases h
      exact .keep rfl rfl rfl (.inr rfl) rfl
  | playbackBegin name recording args =>
    simp only [advance] at h
    split at h
    · cases h
      exact effect_complete _ rfl rfl rfl rfl
    · rename_i hbegin
      cases h
      obtain ⟨hfree, hkind, hthreads, hledger, -⟩ := begin_eq_some hbegin
      exact .take rfl rfl hthreads hfree (by rw [hkind]; rfl) hkind.symm hledger
  | playbackCreate recording args =>
    simp only [advance] at h
    split at h <;> cases h
    · exact .keep rfl rfl rfl (.inl rfl) rfl
    · exact .keep rfl rfl rfl (.inr rfl) rfl
  | playbackLaunch _ | playbackRespond _ _ => cases h; exact .keep rfl rfl rfl (.inr rfl) rfl
  | playbackSpawn session event => cases h; exact .hand (.runPlayback session event) rfl rfl rfl rfl nofun rfl rfl rfl
  | requestStop kind safe timeout =>
    simp only [advance] at h
    split at h
    · cases h
      exact effect_closed rfl (stopRaises_closed _ _ _)
    · split at h
      · cases h
        exact .keep rfl rfl rfl (.inr rfl) rfl
      · cases h
        exact effect_closed rfl (stopRaises_closed _ _ _)
  | stopping kind safe timeout event worker generation => cases h; exact .keep rfl rfl rfl (.inr rfl) rfl
  | joining kind safe timeout worker generation =>
    simp only [advance] at h
    split at h
    · cases h
      exact effect_closed rfl (stopRaises_closed _ _ _)
    · split at h
      · cases h
      · split at h
        · cases h
          exact effect_closed rfl (stopRaises_closed _ _ _)
        · split at h <;> cases h
          · exact effect_closed rfl (stopRaises_closed _ _ _)
          · exact effect_closed rfl (stopReturns_closed _ _)
  | renameRecording old new =>
    simp only [advance] at h
    split at h <;> cases h <;> exact effect_complete _ rfl rfl rfl rfl
  | deleteRecording name =>
    simp only [advance] at h
    split at h <;> cases h <;> exact effect_complete _ rfl rfl rfl rfl
  | safeStop timeout =>
    simp only [advance] at h
    split at h <;> cases h <;> exact .keep rfl rfl rfl (.inr rfl) rfl
  | safeStopClaim =>
    simp only [advance] at h
    split at h
    · cases h
      exact .keep rfl rfl rfl (.inl rfl) rfl
    · rename_i hactive
      cases h
      exact .take rfl rfl rfl (by simpa using hactive) rfl rfl rfl
  | safeStopStatus =>
    cases h
    exact effect_complete _ rfl rfl rfl rfl
  | ending state error result next =>
    cases next <;> cases h <;> exact .drop rfl rfl rfl rfl rfl rfl
  | recordingHandshake _ | recordingFailed _ _ | recordingStop _ _ | recordingCleanup _ _ _ | playbackStart _
  | playbackFailed _ _ | runPlayback _ _ | playbackAbort _ _ | playbackCleanup _ _ _ | safeStopHandshake | statusLocked
  | done _ | exited _ => cases h

theorem joinTimeout_effect (h : c.joinTimeout job = some moved) : Effect thread c job moved := by
  have hclosed := joinTimeout_closed h
  cases job with
  | joining kind safe timeout worker generation => exact effect_closed rfl hclosed
  | _ => cases h

theorem call_frame {S α : Type} {session s' : S} {m : Py S σ α} {result : Checked α}
    (h : c.call session m = some (result, s', d)) :
    d.threads = c.threads ∧ d.activeKind = c.activeKind ∧ d.ledger = c.ledger ∧ d.cancelEvent = c.cancelEvent ∧
      d.metaLock = c.metaLock := by
  unfold call at h
  split at h
  · cases h
    exact ⟨rfl, rfl, rfl, rfl, rfl⟩
  · split at h <;> cases h
    exact ⟨rfl, rfl, rfl, rfl, rfl⟩

/-- A call that came back changed nothing of the claim; only the one of a playback's worker clears `cancel_event`. -/
structure Returned (c : Ctl σ) (job : Job) (moved : Job × Ctl σ) : Prop where
  before : job.owns
  after : moved.1.owns
  threads : moved.2.threads = c.threads
  kind : moved.2.activeKind = c.activeKind
  works : moved.1.kind = none ∨ moved.1.kind = job.kind
  ledger : moved.2.ledger = c.ledger
  cancel : moved.2.cancelEvent = if job.isRunPlayback then none else c.cancelEvent
  lock : moved.2.metaLock = c.metaLock

/-- The continuation of a call leaves the shared fields as they are. -/
theorem returned_of {S α : Type} {session : S} {m : Py S σ α} {next : Checked α × S × Ctl σ → Job × Ctl σ}
    (h : (c.call session m).map next = some moved) (hjob : job.owns)
    (hnext : ∀ result s' (d : Ctl σ), Returned d job (next (result, s', d))) : Returned c job moved := by
  obtain ⟨⟨result, s', d⟩, hcall, rfl⟩ := Option.map_eq_some_iff.1 h
  obtain ⟨hthreads, hkind, hledger, hcancel, hlock⟩ := call_frame hcall
  have hd := hnext result s' d
  exact ⟨hjob, hd.after, hd.threads.trans hthreads, hd.kind.trans hkind, hd.works, hd.ledger.trans hledger,
    by rw [hd.cancel, hcancel], hd.lock.trans hlock⟩

theorem returns_effect (h : c.returns E job = some moved) : Returned c job moved := by
  cases job with
  | runRecording session event =>
    refine returned_of h rfl (fun result s' d => ?_)
    cases result with
    | ok value => exact ⟨rfl, rfl, rfl, rfl, .inr rfl, rfl, rfl, rfl⟩
    | error e =>
      rcases e with ⟨kind, message⟩ | _
      · cases kind <;> exact ⟨rfl, rfl, rfl, rfl, .inr rfl, rfl, rfl, rfl⟩
      · exact ⟨rfl, rfl, rfl, rfl, .inr rfl, rfl, rfl, rfl⟩
  | runPlayback session event =>
    refine returned_of h rfl (fun result s' d => ?_)
    cases result with
    | ok value => exact ⟨rfl, rfl, rfl, rfl, .inl rfl, rfl, rfl, rfl⟩
    | error e =>
      rcases e with ⟨kind, message⟩ | _
      · cases kind <;> dsimp only
        case transportTimeout => split <;> exact ⟨rfl, rfl, rfl, rfl, .inr rfl, rfl, rfl, rfl⟩
        all_goals exact ⟨rfl, rfl, rfl, rfl, .inr rfl, rfl, rfl, rfl⟩
      · exact ⟨rfl, rfl, rfl, rfl, .inr rfl, rfl, rfl, rfl⟩
  | recordingHandshake _ | recordingStop _ _ | playbackStart _ | playbackAbort _ _ | safeStopHandshake =>
    refine returned_of h rfl (fun result s' d => ?_)
    cases result <;> exact ⟨rfl, rfl, rfl, rfl, by first | exact .inl rfl | exact .inr rfl, rfl, rfl, rfl⟩
  | recordingFailed _ _ | recordingCleanup _ _ _ | playbackFailed _ _ | playbackCleanup _ _ _ =>
    exact returned_of h rfl (fun result s' d => ⟨rfl, rfl, rfl, rfl, .inl rfl, rfl, rfl, rfl⟩)
  | _ => cases h

theorem begins_effect (h : c.begins job = some d) :
    job.owns ∧ d.threads = c.threads ∧ d.activeKind = c.activeKind ∧ d.ledger = c.ledger ∧
      (d.cancelEvent = c.cancelEvent ∨ job.isRunPlayback) ∧ d.metaLock = c.metaLock := by
  cases job with
  | runRecording session event =>
    simp only [begins] at h
    split at h <;> cases h
    exact ⟨rfl, rfl, rfl, rfl, .inl rfl, rfl⟩
  | runPlayback session event => cases h; exact ⟨rfl, rfl, rfl, rfl, .inr rfl, rfl⟩
  | recordingHandshake _ | recordingFailed _ _ | recordingStop _ _ | recordingCleanup _ _ _ | playbackStart _
  | playbackFailed _ _ | playbackAbort _ _ | playbackCleanup _ _ _ | safeStopHandshake =>
    cases h
    exact ⟨rfl, rfl, rfl, rfl, .inl rfl, rfl⟩
  | _ => cases h

/-- Outside of its calls a thread leaves `cancel_event` alone; the one block that keeps the lock is that of
`safe_stop`. -/
theorem advance_cancelEvent (h : c.advance E thread job = some moved) :
    moved.2.cancelEvent = c.cancelEvent ∧
      (moved.2.metaLock = c.metaLock ∨ job = .safeStopClaim ∧ c.activeKind.isSome) := by
  revert h
  fun_cases advance E thread c job <;> intro h <;> cases h <;> try exact ⟨rfl, .inl rfl⟩
  all_goals first
    | exact ⟨rfl, .inr ⟨rfl, ‹_›⟩⟩
    | exact (stopRaises_closed _ _ _).frame.2.2.2.imp_right .inl
    | exact (stopReturns_closed _ _).frame.2.2.2.imp_right .inl
    | exact ⟨(begin_eq_some ‹_›).2.2.2.2.1, .inl (begin_eq_some ‹_›).2.2.2.2.2⟩

theorem joinTimeout_cancelEvent (h : c.joinTimeout job = some moved) :
    moved.2.cancelEvent = c.cancelEvent ∧ moved.2.metaLock = c.metaLock := (joinTimeout_closed h).frame.2.2.2

theorem act_of {β : Type} {phase : Phase} {t : Thread} {f : Job → Option β} (ht : c.threads[thread]? = some t)
    (hphase : t.phase = phase) : c.act thread phase f = f t.job := by
  rw [act, ht, Option.bind_some, if_pos hphase]

theorem act_eq_some {β : Type} {phase : Phase} {f : Job → Option β} {b : β} (h : c.act thread phase f = some b) :
    ∃ t, c.threads[thread]? = some t ∧ t.phase = phase ∧ f t.job = some b := by
  obtain ⟨t, ht, hif⟩ := Option.bind_eq_some_iff.1 h
  split at hif
  · exact ⟨t, ht, ‹_›, hif⟩
  · cases hif

/-- A thread that goes on does not wait for the lock. -/
theorem advances (h : c.step E (.advance thread) = some d) :
    ∃ t moved, c.threads[thread]? = some t ∧ t.phase = .outside ∧ (c.metaLock.isSome && c.takesLock E t.job) = false ∧
      c.advance E thread t.job = some moved ∧ d = place thread moved := by
  rw [step] at h
  obtain ⟨t, ht, hphase, hif⟩ := act_eq_some h
  split at hif
  · cases hif
  · rename_i hfree
    obtain ⟨moved, hmoved, rfl⟩ := Option.map_eq_some_iff.1 hif
    exact ⟨t, moved, ht, hphase, by simpa using hfree, hmoved, rfl⟩

theorem statuses (h : c.step E .status = some d) : c.metaLock.isSome = false ∧ d = c := by
  rw [step] at h
  split at h
  · cases h
  · cases h
    exact ⟨Bool.eq_false_iff.2 ‹_›, rfl⟩

/-- **The moves that are possible**: a call, a thread that goes on in its call of a session, or one that comes to its
next place. -/
inductive Stepped (E : Env σ) (c : Ctl σ) : Move → Ctl σ → Prop where
  | status : Stepped E c .status c
  | call (job : Job) (isCall : job.isCall) : Stepped E c (.call job) { c with threads := c.threads ++ [job.thread] }
  | enter (move : Move) (thread : Nat) (t : Thread) (phase : Phase) (cancel : Option Nat)
    (comes : c.threads[thread]? = some t)
    (silent : move = .begins thread ∨ move = .enters thread ∨ move = .leaves thread) :
    Stepped E c move ({ c with cancelEvent := cancel }.enter thread t.job phase)
  | advance (thread : Nat) (job : Job) (moved : Job × Ctl σ) (comes : c.threads[thread]? = some job.thread)
    (goes : c.advance E thread job = some moved) : Stepped E c (.advance thread) (place thread moved)
  | returns (thread : Nat) (t : Thread) (moved : Job × Ctl σ) (comes : c.threads[thread]? = some t)
    (calling : t.phase = .calling) (goes : c.returns E t.job = some moved) :
    Stepped E c (.returns thread) (place thread moved)
  | joinTimeout (thread : Nat) (job : Job) (moved : Job × Ctl σ) (comes : c.threads[thread]? = some job.thread)
    (goes : c.joinTimeout job = some moved) : Stepped E c (.joinTimeout thread) (place thread moved)

theorem begins_cancel (h : c.begins job = some d) : ∃ cancel, d = { c with cancelEvent := cancel } := by
  revert h
  fun_cases begins c job <;> intro h <;> cases h <;> exact ⟨_, rfl⟩

theorem stepped {move : Move} (h : c.step E move = some d) : Stepped E c move d := by
  cases move with
  | call job =>
    simp only [step] at h
    split at h <;> cases h
    exact .call job ‹_›
  | status =>
    obtain ⟨-, rfl⟩ := statuses h
    exact .status
  | advance thread =>
    obtain ⟨⟨job, phase⟩, moved, ht, hphase, -, hmoved, rfl⟩ := advances h
    cases hphase
    exact .advance thread job moved ht hmoved
  | begins thread =>
    rw [step] at h
    obtain ⟨t, ht, -, hmap⟩ := act_eq_some h
    obtain ⟨d, hbegins, rfl⟩ := Option.map_eq_some_iff.1 hmap
    obtain ⟨cancel, rfl⟩ := begins_cancel hbegins
    exact .enter _ thread t _ cancel ht (.inl rfl)
  | enters thread =>
    rw [step] at h
    obtain ⟨t, ht, -, heq⟩ := act_eq_some h
    cases heq
    exact .enter _ thread t _ c.cancelEvent ht (.inr (.inl rfl))
  | leaves thread =>
    rw [step] at h
    obtain ⟨t, ht, -, heq⟩ := act_eq_some h
    cases heq
    exact .enter _ thread t _ c.cancelEvent ht (.inr (.inr rfl))
  | returns thread =>
    rw [step] at h
    obtain ⟨t, ht, hphase, hmap⟩ := act_eq_some h
    obtain ⟨moved, hmoved, rfl⟩ := Option.map_eq_some_iff.1 hmap
    exact .returns thread t moved ht hphase hmoved
  | joinTimeout thread =>
    rw [step] at h
    obtain ⟨⟨job, phase⟩, ht, hphase, hmap⟩ := act_eq_some h
    obtain ⟨moved, hmoved, rfl⟩ := Option.map_eq_some_iff.1 hmap
    cases hphase
    exact .joinTimeout thread job moved ht hmoved

theorem Stepped.of_advance (h : Stepped E c (.advance thread) d) : ∃ job moved,
    c.threads[thread]? = some (Job.thread job) ∧ c.advance E thread job = some moved ∧ d = place thread moved := by
  cases h with
  | enter _ _ _ _ _ _ silent => rcases silent with heq | heq | heq <;> cases heq
  | advance thread job moved comes goes => exact ⟨job, moved, comes, goes, rfl⟩

theorem Stepped.advanced {j : Nat} (h : Stepped E c (.advance j) d) (hcomes : c.threads[j]? = some (Job.thread job))
    (hgoes : c.advance E j job = some moved) : d = place j moved := by
  obtain ⟨job', moved', hcomes', hgoes', rfl⟩ := h.of_advance
  rw [hcomes] at hcomes'
  cases hcomes'
  rw [hgoes] at hgoes'
  cases hgoes'
  rfl

theorem Stepped.of_returns (h : Stepped E c (.returns thread) d) {t : Thread} (hcomes : c.threads[thread]? = some t)
    (hgoes : c.returns E t.job = some moved) : d = place thread moved := by
  cases h with
  | enter _ _ _ _ _ _ silent => rcases silent with heq | heq | heq <;> cases heq
  | returns _ t' moved' comes calling goes =>
    rw [hcomes] at comes
    cases comes
    rw [hgoes] at goes
    cases goes
    rfl

theorem Stepped.of_call (h : Stepped E c (.call job) d) : d.threads = c.threads ++ [job.thread] := by
  cases h with
  | call _ isCall => rfl
  | enter _ _ _ _ _ _ silent => rcases silent with heq | heq | heq <;> cases heq

/-- The worker that a thread starts. -/
def Job.spawns : Job → Option Job
  | .recordingSpawn session event => some (.runRecording session event)
  | .playbackSpawn session event => some (.runPlayback session event)
  | _ => none

theorem advance_threads (h : c.advance E thread job = some moved) :
    moved.2.threads = c.threads ++ (Job.spawns job).toList.map Job.thread := by
  revert h
  fun_cases advance E thread c job <;> intro h <;> cases h
  all_goals first
    | exact (List.append_nil _).symm
    | exact (stopRaises_closed _ _ _).frame.1.trans (List.append_nil _).symm
    | exact (stopReturns_closed _ _).frame.1.trans (List.append_nil _).symm
    | exact (begin_eq_some ‹_›).2.2.1.trans (List.append_nil _).symm
    | rfl

/-- Only a call adds to the history. -/
theorem advance_history (h : c.advance E thread job = some moved) : moved.2.history = c.history := by
  revert h
  fun_cases advance E thread c job <;> intro h <;> cases h
  all_goals first
    | rfl
    | exact (stopRaises_closed _ _ _).frame.2.1
    | exact (stopReturns_closed _ _).frame.2.1
    | (obtain ⟨-, rfl⟩ := begin_spec ‹_›; rfl)

/-- Where the job of a thread comes from. -/
inductive Arrives (E : Env σ) (c : Ctl σ) (move : Move) (j : Nat) : Job → Prop where
  | stays (v : Thread) (old : c.threads[j]? = some v) (still : move ≠ .advance j) (waits : move ≠ .returns j) :
    Arrives E c move j v.job
  | called (job : Job) (new : j = c.threads.length) (call : move = .call job) (isCall : job.isCall) :
      Arrives E c move j job
  | spawned (thread : Nat) (job worker : Job) (new : j = c.threads.length)
      (spawner : c.threads[thread]? = some job.thread) (advance : move = .advance thread)
      (spawns : Job.spawns job = some worker) : Arrives E c move j worker
  | advanced (job : Job) (moved : Job × Ctl σ) (old : c.threads[j]? = some job.thread) (advance : move = .advance j)
    (goes : c.advance E j job = some moved) : Arrives E c move j moved.1
  | returned (t : Thread) (moved : Job × Ctl σ) (old : c.threads[j]? = some t) (returns : move = .returns j)
    (calling : t.phase = .calling) (goes : c.returns E t.job = some moved) : Arrives E c move j moved.1
  | timedOut (job : Job) (moved : Job × Ctl σ) (old : c.threads[j]? = some job.thread) (timeout : move = .joinTimeout j)
    (goes : c.joinTimeout job = some moved) : Arrives E c move j moved.1

theorem getElem?_place {j : Nat} {u : Thread} (hu : (place thread moved).threads[j]? = some u) :
    j = thread ∧ u = moved.1.thread ∨ j ≠ thread ∧ moved.2.threads[j]? = some u := by
  have hu' : (moved.2.threads.set thread moved.1.thread)[j]? = some u := hu
  by_cases hj : j = thread
  · subst hj
    have hlt : j < moved.2.threads.length := by
      by_contra hge
      rw [List.set_eq_of_length_le (Nat.le_of_not_lt hge), List.getElem?_eq_none (Nat.le_of_not_lt hge)] at hu'
      cases hu'
    rw [List.getElem?_set_self hlt] at hu'
    exact .inl ⟨rfl, (Option.some.inj hu').symm⟩
  · rw [List.getElem?_set_ne (Ne.symm hj)] at hu'
    exact .inr ⟨hj, hu'⟩

theorem getElem?_append_one {threads : List Thread} {new u : Thread} {j : Nat} (hu : (threads ++ [new])[j]? = some u) :
    threads[j]? = some u ∨ j = threads.length ∧ u = new := by
  by_cases hj : j < threads.length
  · rw [List.getElem?_append_left hj] at hu
    exact .inl hu
  · rw [List.getElem?_append_right (Nat.le_of_not_lt hj), List.getElem?_singleton] at hu
    split at hu <;> cases hu
    exact .inr ⟨by omega, rfl⟩

theorem Stepped.arrives {move : Move} (h : Stepped E c move d) {j : Nat} {u : Thread} (hu : d.threads[j]? = some u) :
    Arrives E c move j u.job := by
  cases h with
  | status => exact .stays u hu nofun nofun
  | call job isCall =>
    rcases getElem?_append_one hu with hold | ⟨hnew, rfl⟩
    · exact .stays u hold nofun nofun
    · exact .called job hnew rfl isCall
  | enter move thread t phase cancel comes silent =>
    have hstill : move ≠ .advance j := by rcases silent with rfl | rfl | rfl <;> nofun
    have hwaits : move ≠ .returns j := by rcases silent with rfl | rfl | rfl <;> nofun
    have hu' : (c.threads.set thread ⟨t.job, phase⟩)[j]? = some u := hu
    by_cases hj : j = thread
    · subst hj
      rw [List.getElem?_set_self (List.getElem?_eq_some_iff.1 comes).1] at hu'
      cases hu'
      exact .stays t comes hstill hwaits
    · rw [List.getElem?_set_ne (Ne.symm hj)] at hu'
      exact .stays u hu' hstill hwaits
  | advance thread job moved comes goes =>
    rcases getElem?_place hu with ⟨rfl, rfl⟩ | ⟨hne, hold⟩
    · exact .advanced job moved comes rfl goes
    · have hstill : Move.advance thread ≠ .advance j := fun heq => hne (Move.advance.inj heq).symm
      rw [advance_threads goes] at hold
      cases hspawns : Job.spawns job with
      | none =>
        rw [hspawns] at hold
        exact .stays u (by simpa using hold) hstill nofun
      | some worker =>
        rw [hspawns] at hold
        have hlast : (c.threads ++ [Job.thread worker])[j]? = some u := hold
        rcases getElem?_append_one hlast with hold | ⟨hnew, rfl⟩
        · exact .stays u hold hstill nofun
        · exact .spawned thread job worker hnew comes rfl hspawns
  | returns thread t moved comes calling goes =>
    rcases getElem?_place hu with ⟨rfl, rfl⟩ | ⟨hne, hold⟩
    · exact .returned t moved comes rfl calling goes
    · rw [(returns_effect goes).threads] at hold
      exact .stays u hold nofun (fun heq => hne (Move.returns.inj heq).symm)
  | joinTimeout thread job moved comes goes =>
    rcases getElem?_place hu with ⟨rfl, rfl⟩ | ⟨-, hold⟩
    · exact .timedOut job moved comes rfl goes
    · obtain ⟨job', completed, rfl, -⟩ := joinTimeout_closed goes
      exact .stays u hold nofun nofun

/-- No thread is forgotten. -/
theorem Stepped.length_le {move : Move} (h : Stepped E c move d) : c.threads.length ≤ d.threads.length := by
  cases h with
  | status => exact Nat.le_refl _
  | call job isCall => simp
  | enter move thread t phase cancel comes silent => simp [Ctl.enter]
  | advance thread job moved comes goes => simp [place, advance_threads goes]
  | returns thread t moved comes calling goes => simp [place, (returns_effect goes).threads]
  | joinTimeout thread job moved comes goes =>
    obtain ⟨job', completed, rfl, -⟩ := joinTimeout_closed goes
    simp [place]

end Ctl
end PiZero
end PicoRecorder
