import PicoRecorder.PiZero.Honesty
/-!
# Chronicle — what a stop request reports

A `Chron` follows a Controller and writes down, for nobody in the code to read, with what every claim of `_active_kind`
ended, which session a stop found active when it took the lock, and which claims a `safe_stop` has to do with.  A stop
reports what its session ended with, unless somebody has written over it, and it comes back, unless somebody keeps the
lock.
-/
namespace PicoRecorder
namespace PiZero

open Lib

/-- The last MODE_SETs are for PASS, and one of them was written with no acknowledgement put aside. -/
def requested : List Act → Bool
  | [] => false
  | .wrote (.modeSet target) _ aside :: history => target = MODE_PASS && (!aside.contains passAck || requested history)
  | _ :: history => requested history

/-- The last MODE_SETs are for PASS, and one of them was acknowledged. -/
def reconciled : List Act → Bool
  | [] => false
  | .answered state reason :: history => (state = MODE_PASS && reason = REASON_OK && requested history) ||
      reconciled history
  | .wrote (.modeSet target) _ _ :: history => target = MODE_PASS && reconciled history
  | .wrote _ _ _ :: history | .took _ :: history | .awaitsCredit _ :: history | .credited _ :: history =>
    reconciled history

/-- A call of `_end`: the claim it releases, counted from 1, the generation of the session, if it is not the idle claim
of a `safe_stop`, and whether PASS had been acknowledged. -/
structure End where
  claim : Nat
  session : Option Nat
  state : CtlState
  error : Option Exn
  result : Option Outcome
  reconciled : Bool
  deriving DecidableEq

/-- The error or the result with which it ended. -/
def End.outcome (e : End) : Checked (Option Outcome) :=
  match e.error with
  | some error => .error error
  | none => .ok e.result

/-- A call of `stop_recording` or `stop_playback`, and the session it found active. -/
structure Stop where
  kind : Kind
  timeout : ℚ
  asked : Option Nat
  deriving DecidableEq

/-- The `RecorderError`s of `_request_stop`. -/
def Stop.refusals (s : Stop) : List Exn :=
  [.raised .recorder s!"no {s.kind.text} session is active",
    .raised .recorder s!"{s.kind.text} session is still starting; try again",
    .raised .recorder s!"{s.kind.text} session ended on its own before it could be stopped; check status",
    .raised .recorder s!"{s.kind.text} session did not stop within {Binary64.general s.timeout}s"]

/-- The outcome is that of the session the stop found active, or a `RecorderError` saying that it could not stop it. -/
def Stop.Reports (s : Stop) (ends : List End) (outcome : Checked (Option Outcome)) : Prop :=
  (∃ e ∈ ends, e.session.isSome ∧ e.session = s.asked ∧ outcome = e.outcome) ∨
    ∃ error ∈ s.refusals, outcome = .error error

instance (s : Stop) (ends : List End) (outcome : Checked (Option Outcome)) : Decidable (s.Reports ends outcome) :=
  inferInstanceAs (Decidable (_ ∨ _))

namespace Ctl

variable {σ : Type}

/-- How often `_active_kind` has been claimed. -/
def claims (c : Ctl σ) : Nat := c.ledger.countP (fun b => match b with | .take _ => true | _ => false)

/-- What a thread about to call `_end` will have ended. -/
def endOf (c : Ctl σ) : Job → Option End
  | .ending state error result _ =>
    some ⟨c.claims, if c.activeKind = some .idle then none else some c.generation, state, error, result,
      reconciled c.history⟩
  | _ => none

/-- The fields that a thread can only change by claiming, launching or ending. -/
def books (c : Ctl σ) : Nat × Option Exn × Option Outcome × Option Nat × Option Nat × Option Kind × Nat :=
  (c.generation, c.lastError, c.lastResult, c.worker, c.stopEvent, c.activeKind, c.claims)

end Ctl

structure Chron (σ : Type) where
  ctl : Ctl σ
  /-- Newest first. -/
  ends : List End
  /-- By the thread of the call. -/
  stops : Nat → Option Stop
  /-- The claims that a `safe_stop` has to do with: the one it found when it looked, and its own. -/
  concerns : Nat → List Nat

namespace Chron

open Ctl (Move)

variable {σ : Type}

def init (link : σ) : Chron σ := ⟨Ctl.init link, [], fun _ => none, fun _ => []⟩

def jobAt (x : Chron σ) (i : Nat) : Option Job := (x.ctl.threads[i]?).map Thread.job

def ended (x : Chron σ) : Move → List End
  | .advance i => ((x.jobAt i).bind x.ctl.endOf).toList ++ x.ends
  | _ => x.ends

/-- What a stop knows after it has gone on from the place: the session, if it finds one active when it takes the
lock. -/
def finds (c : Ctl σ) : Option Job → Stop → Stop
  | some (.requestStop kind _ _), s => if c.activeKind = some kind then { s with asked := some c.generation } else s
  | _, s => s

def stopped (x : Chron σ) (move : Move) (i : Nat) : Option Stop :=
  match move with
  | .call (.requestStop kind false timeout) =>
    if i = x.ctl.threads.length then some ⟨kind, timeout, none⟩ else x.stops i
  | .advance thread => if i = thread then (x.stops i).map (finds x.ctl (x.jobAt i)) else x.stops i
  | _ => x.stops i

def meets (c : Ctl σ) : Option Job → List Nat → List Nat
  | some (.safeStop _), concerns => if c.activeKind.isSome then c.claims :: concerns else concerns
  | some .safeStopClaim, concerns => if c.activeKind.isSome then concerns else (c.claims + 1) :: concerns
  | _, concerns => concerns

/-- What the threads have found, after the one that goes on has looked. -/
def looked (x : Chron σ) (move : Move) (i : Nat) : List Nat :=
  match move with
  | .advance thread => if i = thread then meets x.ctl (x.jobAt i) (x.concerns i) else x.concerns i
  | _ => x.concerns i

def step (E : Env σ) (x : Chron σ) (move : Move) : Option (Chron σ) :=
  (x.ctl.step E move).map (fun ctl => ⟨ctl, x.ended move, x.stopped move, x.looked move⟩)

def run (E : Env σ) (x : Chron σ) (moves : List Move) : Chron σ :=
  moves.foldl (fun x move => (x.step E move).getD x) x

/-- The chronicle changes nothing for the Controller. -/
theorem run_ctl (E : Env σ) : ∀ (moves : List Move) (x : Chron σ), (x.run E moves).ctl = x.ctl.run E moves
  | [], _ => rfl
  | move :: moves, x => by
    have hstep : ((x.step E move).getD x).ctl = (x.ctl.step E move).getD x.ctl := by
      unfold step
      cases x.ctl.step E move <;> rfl
    show (((x.step E move).getD x).run E moves).ctl = ((x.ctl.step E move).getD x.ctl).run E moves
    rw [run_ctl E moves, hstep]

end Chron

/-! ## What a move does -/

namespace Ctl

variable {σ : Type} {E : Env σ} {c d : Ctl σ} {thread : Nat} {job : Job} {moved : Job × Ctl σ}

/-- **What a thread does to the books** outside of its calls. -/
inductive Shift (c : Ctl σ) (job : Job) : Ctl σ → Prop where
  | keep {d : Ctl σ} (goes : c.endOf job = none) (books : d.books = c.books) : Shift c job d
  | session {d : Ctl σ} (kind : Kind) (notIdle : kind ≠ .idle) (free : c.activeKind = none) (goes : c.endOf job = none)
    (books : d.books = (c.generation + 1, none, none, c.worker, c.stopEvent, some kind, c.claims + 1)) : Shift c job d
  | idle {d : Ctl σ} (free : c.activeKind = none) (comes : job = .safeStopClaim)
    (books : d.books = (c.generation, c.lastError, c.lastResult, c.worker, c.stopEvent, some .idle, c.claims + 1)) :
    Shift c job d
  | launch {d : Ctl σ} (comes : (∃ session, job = .recordingLaunch session) ∨ ∃ session, job = .playbackLaunch session)
    (books : d.books =
      (c.generation, c.lastError, c.lastResult, some c.generation, some c.generation, c.activeKind, c.claims)) :
    Shift c job d
  | drop {d : Ctl σ} (state : CtlState) (error : Option Exn) (result : Option Outcome) (next : After)
    (comes : job = .ending state error result next)
    (books : d.books = (c.generation, error, result, none, none, none, c.claims)) : Shift c job d

theorem begin_books {kind : Kind} {name : String} (h : c.begin_ thread kind name = some d) :
    c.activeKind = none ∧
      d.books = (c.generation + 1, none, none, c.worker, c.stopEvent, some kind, c.claims + 1) := by
  obtain ⟨hfree, rfl⟩ := begin_spec h
  exact ⟨hfree, by simp [books, claims]⟩

theorem shift_complete {d : Ctl σ} (outcome : Checked (Option Outcome)) (hd : d.books = c.books)
    (hending : c.endOf job = none) : Shift c job (d.complete outcome).2 :=
  .keep hending hd

theorem shift_closed (hclosed : Closed c moved) (hending : c.endOf job = none) : Shift c job moved.2 := by
  obtain ⟨job', completed, rfl, -⟩ := hclosed
  exact .keep hending rfl

theorem advance_shift (h : c.advance E thread job = some moved) : Shift c job moved.2 := by
  cases job with
  | startRecording name =>
    simp only [advance] at h
    split at h
    · cases h
      exact shift_complete _ rfl rfl
    · split at h
      · cases h
        exact shift_complete _ rfl rfl
      · rename_i hbegin
        cases h
        exact .session .record (by simp) (begin_books hbegin).1 rfl (begin_books hbegin).2
  | playbackBegin name recording args =>
    simp only [advance] at h
    split at h
    · cases h
      exact shift_complete _ rfl rfl
    · rename_i hbegin
      cases h
      exact .session .playback (by simp) (begin_books hbegin).1 rfl (begin_books hbegin).2
  | recordingLaunch session => cases h; exact .launch (.inl ⟨session, rfl⟩) rfl
  | playbackLaunch session => cases h; exact .launch (.inr ⟨session, rfl⟩) rfl
  | recordingCreate _ | recordingRespond _ _ | playbackRespond _ _ => cases h; exact .keep rfl rfl
  | recordingStart session =>
    simp only [advance] at h
    split at h <;> cases h <;> exact .keep rfl rfl
  | recordingSpawn session event =>
    cases h
    refine .keep rfl ?_
    simp [complete, spawn, books, claims]
  | playbackSpawn session event =>
    cases h
    refine .keep rfl ?_
    simp [complete, spawn, books, claims]
  | runRecording session event =>
    simp only [advance] at h
    split at h <;> cases h
    exact .keep rfl rfl
  | startPlayback name args =>
    simp only [advance] at h
    split at h <;> cases h
    · exact shift_complete _ rfl rfl
    · exact .keep rfl rfl
  | playbackCreate recording args =>
    simp only [advance] at h
    split at h <;> cases h <;> exact .keep rfl rfl
  | requestStop kind safe timeout =>
    simp only [advance] at h
    split at h
    · cases h
      exact shift_closed (stopRaises_closed _ _ _) rfl
    · split at h <;> cases h
      · exact .keep rfl rfl
      · exact shift_closed (stopRaises_closed _ _ _) rfl
  | stopping kind safe timeout event worker generation => cases h; exact .keep rfl rfl
  | joining kind safe timeout worker generation =>
    simp only [advance] at h
    split at h
    · cases h
      exact shift_closed (stopRaises_closed _ _ _) rfl
    · split at h
      · cases h
      · split at h
        · cases h
          exact shift_closed (stopRaises_closed _ _ _) rfl
        · split at h <;> cases h
          · exact shift_closed (stopRaises_closed _ _ _) rfl
          · exact shift_closed (stopReturns_closed _ _) rfl
  | renameRecording old new =>
    simp only [advance] at h
    split at h <;> cases h <;> exact shift_complete _ rfl rfl
  | deleteRecording name =>
    simp only [advance] at h
    split at h <;> cases h <;> exact shift_complete _ rfl rfl
  | safeStop timeout =>
    simp only [advance] at h
    split at h <;> cases h <;> exact .keep rfl rfl
  | safeStopClaim =>
    simp only [advance] at h
    split at h
    · cases h
      exact .keep rfl rfl
    · rename_i hfree
      cases h
      refine .idle (by simpa using hfree) rfl ?_
      simp [books, claims]
  | safeStopStatus =>
    cases h
    exact shift_complete _ rfl rfl
  | ending state error result next =>
    cases next <;> cases h <;> refine .drop state error result _ rfl ?_ <;> simp [end_, complete, books, claims]
  | recordingHandshake _ | recordingFailed _ _ | recordingStop _ _ | recordingCleanup _ _ _ | playbackStart _
  | playbackFailed _ _ | runPlayback _ _ | playbackAbort _ _ | playbackCleanup _ _ _ | safeStopHandshake | statusLocked
  | done _ | exited _ => cases h

theorem call_books {S α : Type} {session s' : S} {m : Py S σ α} {result : Checked α}
    (h : c.call session m = some (result, s', d)) : d.books = c.books := by
  unfold call at h
  split at h
  · cases h
    rfl
  · split at h <;> cases h
    rfl

theorem returns_books (h : c.returns E job = some moved) : moved.2.books = c.books := by
  cases job with
  | runRecording session event =>
    obtain ⟨⟨result, s', d⟩, hcall, rfl⟩ := Option.map_eq_some_iff.1 h
    have hbooks := call_books hcall
    rcases result with (⟨kind, message⟩ | _) | value
    · cases kind <;> exact hbooks
    · exact hbooks
    · exact hbooks
  | runPlayback session event =>
    obtain ⟨⟨result, s', d⟩, hcall, rfl⟩ := Option.map_eq_some_iff.1 h
    have hbooks := call_books hcall
    rcases result with (⟨kind, message⟩ | _) | value
    · cases kind <;> dsimp only
      case transportTimeout => split <;> exact hbooks
      all_goals exact hbooks
    · exact hbooks
    · exact hbooks
  | recordingHandshake _ | recordingStop _ _ | playbackStart _ | playbackAbort _ _ | safeStopHandshake =>
    obtain ⟨⟨result, s', d⟩, hcall, rfl⟩ := Option.map_eq_some_iff.1 h
    have hbooks := call_books hcall
    cases result <;> exact hbooks
  | recordingFailed _ _ | recordingCleanup _ _ _ | playbackFailed _ _ | playbackCleanup _ _ _ =>
    obtain ⟨⟨result, s', d⟩, hcall, rfl⟩ := Option.map_eq_some_iff.1 h
    exact call_books hcall
  | _ => cases h

/-- The other moves leave the books alone. -/
theorem Stepped.books {move : Move} (h : Stepped E c move d) (hadvance : ∀ thread, move ≠ .advance thread) :
    d.books = c.books := by
  cases h with
  | status => rfl
  | call job isCall => rfl
  | enter move thread t phase cancel comes silent => rfl
  | advance thread job moved comes goes => exact absurd rfl (hadvance thread)
  | returns thread t moved comes calling goes => exact returns_books goes
  | joinTimeout thread job moved comes goes =>
    obtain ⟨job', completed, rfl, -⟩ := joinTimeout_closed goes
    rfl

theorem Shift.of_books (h : Shift c job d) {e : Ctl σ} (he : e.books = d.books) : Shift c job e := by
  cases h with
  | keep goes books => exact .keep goes (he.trans books)
  | session kind notIdle free goes books => exact .session kind notIdle free goes (he.trans books)
  | idle free comes books => exact .idle free comes (he.trans books)
  | launch comes books => exact .launch comes (he.trans books)
  | drop state error result next comes books => exact .drop state error result next comes (he.trans books)

theorem Stepped.shift (h : Stepped E c (.advance thread) d) :
    ∃ job, c.threads[thread]? = some (Job.thread job) ∧ Shift c job d := by
  obtain ⟨job, moved, hcomes, hgoes, rfl⟩ := h.of_advance
  exact ⟨job, hcomes, (advance_shift hgoes).of_books rfl⟩

end Ctl

/-! ## The ends of the sessions -/

namespace Chron

open Ctl (Move Owned Stepped Shift Arrives scriptedEnv recordWorld launchMoves workerMoves lostRaceMoves)

variable {σ : Type} {E : Env σ} {x y : Chron σ}

/-- What a move makes of a chronicle. -/
theorem step_eq_some {move : Move} (h : x.step E move = some y) :
    Stepped E x.ctl move y.ctl ∧ y.ends = x.ended move ∧ y.stops = x.stopped move ∧ y.concerns = x.looked move := by
  obtain ⟨d, hstep, rfl⟩ := Option.map_eq_some_iff.1 h
  exact ⟨Ctl.stepped hstep, rfl, rfl, rfl⟩

theorem ended_of_ne {move : Move} (h : ∀ thread, move ≠ .advance thread) : x.ended move = x.ends := by
  cases move <;> first | rfl | exact absurd rfl (h _)

theorem ended_advance {thread : Nat} {job : Job} (h : x.ctl.threads[thread]? = some job.thread) :
    x.ended (.advance thread) = (x.ctl.endOf job).toList ++ x.ends := by
  show (((x.ctl.threads[thread]?).map Thread.job).bind x.ctl.endOf).toList ++ x.ends = _
  rw [h]
  rfl

theorem ends_subset (move : Move) : x.ends ⊆ x.ended move := by
  intro e he
  cases move <;> first | exact he | exact List.mem_append_right _ he

/-- **The ends of the sessions are told apart by their generations**, and the newest one's error and result stand in the
Controller until the next session begins. -/
structure Dated (x : Chron σ) : Prop where
  owned : Owned x.ctl
  newest : ∀ e rest, x.ends = e :: rest → e.session = some x.ctl.generation →
    x.ctl.lastError = e.error ∧ x.ctl.lastResult = e.result
  past : ∀ e ∈ x.ends, ∀ g, e.session = some g → g ≤ x.ctl.generation ∧ (x.ctl.inSession → g < x.ctl.generation)
  distinct : (x.ends.filterMap End.session).Nodup

theorem dated_init (link : σ) : Dated (init link) :=
  ⟨Ctl.owned_init link, by simp [init], by simp [init], by simp [init]⟩

/-- Nothing of it has changed. -/
theorem Dated.same (hx : Dated x) (howned : Owned y.ctl) (hends : y.ends = x.ends)
    (hgeneration : y.ctl.generation = x.ctl.generation) (herror : y.ctl.lastError = x.ctl.lastError)
    (hresult : y.ctl.lastResult = x.ctl.lastResult) (hsession : y.ctl.inSession → x.ctl.inSession) : Dated y := by
  refine ⟨howned, ?_, ?_, hends ▸ hx.distinct⟩
  · rw [hends, hgeneration, herror, hresult]
    exact hx.newest
  · rw [hends, hgeneration]
    exact fun e he g hg => ⟨(hx.past e he g hg).1, fun h => (hx.past e he g hg).2 (hsession h)⟩

/-- The books and the ends change together, by a thread that goes on outside of its calls. -/
theorem shift_step {move : Move} (h : x.step E move = some y) :
    y.ctl.books = x.ctl.books ∧ y.ends = x.ends ∨
      ∃ thread job, move = .advance thread ∧ x.ctl.threads[thread]? = some (Job.thread job) ∧ Shift x.ctl job y.ctl ∧
        y.ends = (x.ctl.endOf job).toList ++ x.ends := by
  obtain ⟨hstepped, hends, -, -⟩ := step_eq_some h
  by_cases hmove : ∃ thread, move = .advance thread
  · obtain ⟨thread, rfl⟩ := hmove
    obtain ⟨job, hcomes, hshift⟩ := hstepped.shift
    exact .inr ⟨thread, job, rfl, hcomes, hshift, hends.trans (ended_advance hcomes)⟩
  · have hnot : ∀ thread, move ≠ .advance thread := fun thread heq => hmove ⟨thread, heq⟩
    exact .inl ⟨hstepped.books hnot, hends.trans (ended_of_ne hnot)⟩

theorem owned_of_step {move : Move} (hx : Owned x.ctl) (h : x.step E move = some y) : Owned y.ctl := by
  obtain ⟨d, hstep, rfl⟩ := Option.map_eq_some_iff.1 h
  exact Ctl.owned_step hx hstep

theorem dated_step {move : Move} (hx : Dated x) (h : x.step E move = some y) : Dated y := by
  have howned := owned_of_step hx.owned h
  rcases shift_step h with ⟨hbooks, hends⟩ | ⟨thread, job, -, hcomes, hshift, hends⟩
  · simp only [Ctl.books, Prod.mk.injEq] at hbooks
    obtain ⟨hgeneration, herror, hresult, -, -, hkind, -⟩ := hbooks
    exact hx.same howned hends hgeneration herror hresult (by unfold Ctl.inSession; rw [hkind]; exact id)
  cases hshift with
  | keep goes books =>
    simp only [Ctl.books, Prod.mk.injEq] at books
    obtain ⟨hgeneration, herror, hresult, -, -, hkind, -⟩ := books
    rw [goes] at hends
    exact hx.same howned hends hgeneration herror hresult (by unfold Ctl.inSession; rw [hkind]; exact id)
  | launch comes books =>
    simp only [Ctl.books, Prod.mk.injEq] at books
    obtain ⟨hgeneration, herror, hresult, -, -, hkind, -⟩ := books
    have hgoes : x.ctl.endOf job = none := by rcases comes with ⟨session, rfl⟩ | ⟨session, rfl⟩ <;> rfl
    rw [hgoes] at hends
    exact hx.same howned hends hgeneration herror hresult (by unfold Ctl.inSession; rw [hkind]; exact id)
  | idle free comes books =>
    simp only [Ctl.books, Prod.mk.injEq] at books
    obtain ⟨hgeneration, herror, hresult, -, -, hkind, -⟩ := books
    subst comes
    refine hx.same howned hends hgeneration herror hresult (fun hsession => ?_)
    rcases hsession with hsession | hsession <;> rw [hkind] at hsession <;> cases hsession
  | session kind notIdle free goes books =>
    simp only [Ctl.books, Prod.mk.injEq] at books
    obtain ⟨hgeneration, -, -, -, -, -, -⟩ := books
    rw [goes] at hends
    have hends' : y.ends = x.ends := hends
    refine ⟨howned, fun e rest he hsession => ?_, ?_, hends' ▸ hx.distinct⟩
    · have hpast := (hx.past e (by rw [← hends', he]; simp) _ hsession).1
      omega
    · rw [hends']
      intro e he g hg
      have hpast := (hx.past e he g hg).1
      exact ⟨by omega, fun _ => by omega⟩
  | drop state error result next comes books =>
    simp only [Ctl.books, Prod.mk.injEq] at books
    obtain ⟨hgeneration, herror, hresult, -, -, hkind, -⟩ := books
    subst comes
    have hactive := hx.owned.active (List.mem_of_getElem? hcomes) rfl
    have hends' : y.ends =
        ⟨x.ctl.claims, if x.ctl.activeKind = some .idle then none else some x.ctl.generation, state, error, result,
          reconciled x.ctl.history⟩ :: x.ends := hends
    have hidle : ¬y.ctl.inSession := by
      unfold Ctl.inSession
      rw [hkind]
      simp
    refine ⟨howned, fun e rest he _ => ?_, ?_, ?_⟩
    · rw [hends'] at he
      cases he
      exact ⟨herror, hresult⟩
    · rw [hends', hgeneration]
      intro e he g hg
      refine ⟨?_, fun hsession => absurd hsession hidle⟩
      rcases List.mem_cons.1 he with rfl | hold
      · dsimp only at hg
        split at hg <;> cases hg
        exact Nat.le_refl _
      · exact (hx.past e hold g hg).1
    · rw [hends', List.filterMap_cons]
      dsimp only
      split
      · exact hx.distinct
      · rename_i g hg
        refine List.nodup_cons.2 ⟨fun hmem => ?_, hx.distinct⟩
        obtain ⟨e, he, hsame⟩ := List.mem_filterMap.1 hmem
        split at hg <;> cases hg
        rename_i hnotIdle
        -- The session that ends now is active, and the others ended before it began.
        have hsession : x.ctl.inSession := by
          unfold Ctl.inSession
          cases hactiveKind : x.ctl.activeKind with
          | none => rw [hactiveKind] at hactive; cases hactive
          | some kind =>
            rw [hactiveKind] at hnotIdle
            cases kind <;> simp at hnotIdle ⊢
        exact absurd ((hx.past e he _ hsame).2 hsession) (Nat.lt_irrefl _)

/-! ## The stops -/

/-- Where the call of a stop is, and what it reports when it is done. -/
def Standing (s : Stop) (ends : List End) : Job → Prop
  | .requestStop kind safe timeout => safe = false ∧ s.kind = kind ∧ s.timeout = timeout
  | .stopping kind safe timeout _ _ generation | .joining kind safe timeout _ generation =>
    safe = false ∧ s = ⟨kind, timeout, some generation⟩
  | .done outcome => s.Reports ends outcome
  | _ => False

theorem Standing.mono {s : Stop} {ends ends' : List End} {job : Job} (h : Standing s ends job) (hsub : ends ⊆ ends') :
    Standing s ends' job := by
  cases job with
  | done outcome => exact h.imp (fun ⟨e, he, hrest⟩ => ⟨e, hsub he, hrest⟩) id
  | _ => exact h

/-- A stop that is refused. -/
theorem standing_refused {s : Stop} {ends : List End} {e : Exn} (he : e ∈ s.refusals) {c : Ctl σ} :
    Standing s ends (c.stopRaises false e).1 := by
  have hdone : (c.stopRaises false e).1 = .done (.error e) := rfl
  rw [hdone]
  exact .inr ⟨e, he, rfl⟩

structure Stands (x : Chron σ) : Prop where
  dated : Dated x
  unlocked : x.ctl.metaLock = none
  fresh : ∀ i, x.ctl.threads.length ≤ i → x.stops i = none
  stands : ∀ i s t, x.stops i = some s → x.ctl.threads[i]? = some t → Standing s x.ends t.job

theorem stands_init (link : σ) : Stands (init link) :=
  ⟨dated_init link, rfl, fun _ _ => rfl, fun _ _ _ hs => by cases hs⟩

/-- A stop joins a worker that has been started, and what it reads when that has exited was left by its session, or
there has been another session since; and no `safe_stop` loses its race. -/
def undisturbed (x : Chron σ) (move : Move) : Bool :=
  !x.ctl.loses move &&
    match move with
    | .advance i =>
      match x.jobAt i with
      | some (.joining _ false _ worker generation) =>
        x.ctl.workerStarted worker &&
          (!x.ctl.workerExited worker || x.ctl.generation != generation ||
            x.ends.head?.bind End.session == some generation)
      | _ => true
    | _ => true

theorem stopped_of_ne {move : Move} {i : Nat} (hstill : move ≠ .advance i) (hlt : i < x.ctl.threads.length) :
    x.stopped move i = x.stops i := by
  unfold stopped
  split
  · exact if_neg (Nat.ne_of_lt hlt)
  · exact if_neg (fun heq => hstill (by rw [heq]))
  · rfl

theorem stopped_advance {thread : Nat} {job : Job} (h : x.ctl.threads[thread]? = some (Job.thread job)) :
    x.stopped (.advance thread) thread = (x.stops thread).map (finds x.ctl (some job)) := by
  have hjob : x.jobAt thread = some job := by
    unfold jobAt
    rw [h]
    rfl
  rw [← hjob]
  exact if_pos rfl

/-- A new thread is a stop only if it is called as one. -/
theorem stopped_new {move : Move} {i : Nat} {s : Stop} (hx : Stands x) (hnew : x.ctl.threads.length ≤ i)
    (hs : x.stopped move i = some s) : i = x.ctl.threads.length ∧ ∃ kind timeout,
      move = .call (.requestStop kind false timeout) ∧ s = ⟨kind, timeout, none⟩ := by
  have hnone : x.stops i = none := hx.fresh i hnew
  unfold stopped at hs
  split at hs
  · rename_i kind timeout
    split at hs
    · exact ⟨‹_›, kind, timeout, rfl, (Option.some.inj hs).symm⟩
    · rw [hnone] at hs
      cases hs
  · rw [hnone] at hs
    split at hs <;> cases hs
  · rw [hnone] at hs
    cases hs

/-- What a stop that goes on finds keeps it the same stop. -/
theorem finds_same (c : Ctl σ) (job : Option Job) (s : Stop) :
    (finds c job s).kind = s.kind ∧ (finds c job s).timeout = s.timeout := by
  unfold finds
  split
  · split <;> exact ⟨rfl, rfl⟩
  · exact ⟨rfl, rfl⟩

theorem refusals_same {s s' : Stop} (hkind : s'.kind = s.kind) (htimeout : s'.timeout = s.timeout) :
    s'.refusals = s.refusals := by
  unfold Stop.refusals
  rw [hkind, htimeout]

/-- A stop goes on: it is refused, it goes to signal and join the worker it found, or it reads what that one's session
left. -/
theorem standing_advance (hx : Stands x) {i : Nat} {job : Job} {moved : Job × Ctl σ} {s : Stop}
    (old : x.ctl.threads[i]? = some job.thread) (goes : x.ctl.advance E i job = some moved) (hs : x.stops i = some s)
    (hallowed : x.undisturbed (.advance i)) : Standing (finds x.ctl (some job) s) x.ends moved.1 := by
  have hstanding : Standing s x.ends job := hx.stands i s _ hs old
  cases job with
  | requestStop kind safe timeout =>
    obtain ⟨rfl, rfl, rfl⟩ := hstanding
    have hsame := finds_same x.ctl (some (.requestStop s.kind false s.timeout)) s
    simp only [Ctl.advance] at goes
    split at goes
    · cases goes
      refine standing_refused ?_
      rw [refusals_same hsame.1 hsame.2]
      simp [Stop.refusals]
    · rename_i hactive
      split at goes
      · cases goes
        have hfinds : finds x.ctl (some (.requestStop s.kind false s.timeout)) s =
            ⟨s.kind, s.timeout, some x.ctl.generation⟩ := if_pos (not_not.1 hactive)
        exact ⟨rfl, hfinds⟩
      · cases goes
        refine standing_refused ?_
        rw [refusals_same hsame.1 hsame.2]
        simp [Stop.refusals]
  | stopping kind safe timeout event worker generation =>
    cases goes
    exact hstanding
  | joining kind safe timeout worker generation =>
    obtain ⟨rfl, rfl⟩ := hstanding
    have hjob : x.jobAt i = some (.joining kind false timeout worker generation) := by
      unfold jobAt
      rw [old]
      rfl
    simp only [undisturbed, hjob, Bool.and_eq_true, Bool.or_eq_true] at hallowed
    obtain ⟨-, hstarted, hread⟩ := hallowed
    simp only [Ctl.advance, hstarted] at goes
    split at goes
    · rename_i hnot
      exact absurd hnot (by simp)
    · split at goes
      · cases goes
      · rename_i hexited
        split at goes
        · cases goes
          exact standing_refused (by simp [Stop.refusals, finds])
        · rename_i hgeneration
          rw [not_not] at hgeneration
          simp only [hgeneration, bne_self_eq_false, hexited, Bool.false_eq_true, or_false, false_or,
            beq_iff_eq] at hread
          -- The newest end is that of the session, and nothing has been written over it.
          obtain ⟨e, hhead, hsession⟩ := Option.bind_eq_some_iff.1 hread
          obtain ⟨rest, hends⟩ := List.head?_eq_some_iff.1 hhead
          have hnewest := hx.dated.newest e rest hends (by rw [hsession, hgeneration])
          have hreports : ∀ outcome, outcome = e.outcome →
              Stop.Reports ⟨kind, timeout, some generation⟩ x.ends outcome := fun outcome heq =>
            .inl ⟨e, by rw [hends]; simp, by rw [hsession]; rfl, hsession, heq⟩
          split at goes
          · rename_i error herror
            cases goes
            refine hreports (.error error) ?_
            rw [End.outcome, ← hnewest.1, herror]
          · rename_i hnone
            cases goes
            refine hreports (.ok x.ctl.lastResult) ?_
            rw [End.outcome, ← hnewest.1, hnone, hnewest.2]
  | done outcome => cases goes
  | _ => exact hstanding.elim

/-- A stop does not own the transport. -/
theorem standing_not_owns {s : Stop} {ends : List End} {job : Job} (h : Standing s ends job) : job.owns = false := by
  cases job <;> first | rfl | exact h.elim

theorem standing_joinTimeout {s : Stop} {ends : List End} {job : Job} {c : Ctl σ} {moved : Job × Ctl σ}
    (h : Standing s ends job) (goes : c.joinTimeout job = some moved) : Standing s ends moved.1 := by
  cases job with
  | joining kind safe timeout worker generation =>
    obtain ⟨rfl, rfl⟩ := h
    simp only [Ctl.joinTimeout] at goes
    split at goes <;> cases goes
    exact standing_refused (by simp [Stop.refusals])
  | _ => cases goes

theorem stands_step {move : Move} (hx : Stands x) (hallowed : x.undisturbed move) (h : x.step E move = some y) :
    Stands y := by
  obtain ⟨hstepped, hends, hstops, -⟩ := step_eq_some h
  have hsub : x.ends ⊆ y.ends := hends ▸ ends_subset move
  have hunlocked : y.ctl.metaLock = none := by
    obtain ⟨d, hstep, rfl⟩ := Option.map_eq_some_iff.1 h
    refine Ctl.unlocked_step hx.unlocked ?_ hstep
    simp only [undisturbed, Bool.and_eq_true, Bool.not_eq_true'] at hallowed
    exact hallowed.1
  refine ⟨dated_step hx.dated h, hunlocked, fun i hi => ?_, fun i s t hs ht => ?_⟩
  · have hold : x.ctl.threads.length ≤ i := Nat.le_trans hstepped.length_le hi
    cases hs : y.stops i with
    | none => rfl
    | some s =>
      rw [hstops] at hs
      obtain ⟨rfl, kind, timeout, rfl, -⟩ := stopped_new hx hold hs
      rw [hstepped.of_call, List.length_append] at hi
      exact absurd hi (by simp)
  have harrives := hstepped.arrives ht
  generalize t.job = job at harrives ⊢
  rw [hstops] at hs
  cases harrives with
  | stays v old still =>
    rw [stopped_of_ne still (List.getElem?_eq_some_iff.1 old).1] at hs
    exact (hx.stands i s v hs old).mono hsub
  | called job new call isCall =>
    obtain ⟨-, kind, timeout, hmove, rfl⟩ := stopped_new hx (Nat.le_of_eq new.symm) hs
    rw [call] at hmove
    cases hmove
    exact ⟨rfl, rfl, rfl⟩
  | spawned thread job worker new spawner advance spawns =>
    obtain ⟨-, kind, timeout, hmove, -⟩ := stopped_new hx (Nat.le_of_eq new.symm) hs
    rw [advance] at hmove
    cases hmove
  | advanced job moved old advance goes =>
    subst advance
    rw [stopped_advance old] at hs
    obtain ⟨before, hbefore, rfl⟩ := Option.map_eq_some_iff.1 hs
    exact (standing_advance hx old goes hbefore hallowed).mono hsub
  | returned v moved old returns calling goes =>
    subst returns
    exact absurd (Ctl.returns_effect goes).before (by simp [standing_not_owns (hx.stands i s v hs old)])
  | timedOut job moved old timeout goes =>
    subst timeout
    exact (standing_joinTimeout (hx.stands i s _ hs old) goes).mono hsub

/-! ### That a stop comes back -/

variable (E) in
/-- By its own moves alone, its timeout among them, the call comes back. -/
def ComesBack (c : Ctl σ) (i : Nat) : Prop :=
  ∃ moves, (∀ move ∈ moves, move = .advance i ∨ move = .joinTimeout i) ∧
    ∃ t outcome, (c.run E moves).threads[i]? = some t ∧ t.job = .done outcome

theorem ComesBack.of_move {c d : Ctl σ} {i : Nat} {move : Move} (hmove : move = .advance i ∨ move = .joinTimeout i)
    (h : c.step E move = some d) (hd : ComesBack E d i) : ComesBack E c i := by
  obtain ⟨moves, hown, hdone⟩ := hd
  refine ⟨move :: moves, List.forall_mem_cons.2 ⟨hmove, hown⟩, ?_⟩
  rwa [Ctl.run, List.foldl_cons, h]

/-- Where its move leaves a thread that starts no other. -/
theorem place_self {c : Ctl σ} {i : Nat} {job : Job} {moved : Job × Ctl σ} (ht : c.threads[i]? = some job.thread)
    (hthreads : moved.2.threads = c.threads) : (Ctl.place i moved).threads[i]? = some moved.1.thread := by
  have hlt : i < moved.2.threads.length := by
    rw [hthreads]
    exact (List.getElem?_eq_some_iff.1 ht).1
  exact List.getElem?_set_self hlt

/-- A move that completes the call. -/
theorem comesBack_done {c : Ctl σ} {i : Nat} {job : Job} {move : Move} {outcome : Checked (Option Outcome)}
    (hmove : move = .advance i ∨ move = .joinTimeout i) (ht : c.threads[i]? = some job.thread)
    (h : c.step E move = some (Ctl.place i (c.complete outcome))) : ComesBack E c i := by
  have hself : (Ctl.place i (c.complete outcome)).threads[i]? = some (Job.done outcome).thread := place_self ht rfl
  exact .of_move hmove h ⟨[], List.forall_mem_nil _, _, outcome, hself, rfl⟩

theorem step_advance {c : Ctl σ} {i : Nat} {job : Job} {moved : Job × Ctl σ} (hlock : c.metaLock = none)
    (ht : c.threads[i]? = some job.thread) (h : c.advance E i job = some moved) :
    c.step E (.advance i) = some (Ctl.place i moved) := by
  rw [Ctl.step, Ctl.act_of ht (show job.thread.phase = .outside from rfl), hlock]
  show (Ctl.advance E i c job).map (Ctl.place i) = _
  rw [h]
  rfl

theorem step_joinTimeout {c : Ctl σ} {i : Nat} {job : Job} {moved : Job × Ctl σ} (ht : c.threads[i]? = some job.thread)
    (h : c.joinTimeout job = some moved) : c.step E (.joinTimeout i) = some (Ctl.place i moved) := by
  rw [Ctl.step, Ctl.act_of ht (show job.thread.phase = .outside from rfl)]
  show (Ctl.joinTimeout c job).map (Ctl.place i) = _
  rw [h]
  rfl

/-- A stop is refused, or goes on to signal the worker. -/
theorem requestStop_goes (c : Ctl σ) (i : Nat) (kind : Kind) (timeout : ℚ) :
    (∃ outcome, c.advance E i (.requestStop kind false timeout) = some (c.complete outcome)) ∨
      ∃ event worker, c.advance E i (.requestStop kind false timeout) =
        some (.stopping kind false timeout event worker c.generation, c) := by
  simp only [Ctl.advance]
  split
  · exact .inl ⟨_, rfl⟩
  · split
    · exact .inr ⟨_, _, rfl⟩
    · exact .inl ⟨_, rfl⟩

/-- `join` comes back, or runs into its timeout while the worker is alive. -/
theorem joining_goes (c : Ctl σ) (i : Nat) (kind : Kind) (timeout : ℚ) (worker generation : Nat) :
    (∃ outcome, c.advance E i (.joining kind false timeout worker generation) = some (c.complete outcome)) ∨
      ∃ outcome, c.joinTimeout (.joining kind false timeout worker generation) = some (c.complete outcome) := by
  simp only [Ctl.advance, Ctl.joinTimeout]
  cases c.workerStarted worker with
  | false => exact .inl ⟨_, rfl⟩
  | true =>
    cases c.workerExited worker with
    | false => exact .inr ⟨_, rfl⟩
    | true =>
      refine .inl ?_
      by_cases hgeneration : c.generation = generation
      · simp only [hgeneration, ne_eq, not_true_eq_false]
        cases c.lastError <;> exact ⟨_, rfl⟩
      · simp only [hgeneration, ne_eq, not_false_eq_true]
        exact ⟨_, rfl⟩

theorem comesBack_joining {c : Ctl σ} {i : Nat} {kind : Kind} {timeout : ℚ} {worker generation : Nat}
    (hlock : c.metaLock = none) (ht : c.threads[i]? = some (Job.joining kind false timeout worker generation).thread) :
    ComesBack E c i := by
  rcases joining_goes (E := E) c i kind timeout worker generation with ⟨outcome, hgoes⟩ | ⟨outcome, hgoes⟩
  · exact comesBack_done (.inl rfl) ht (step_advance hlock ht hgoes)
  · exact comesBack_done (.inr rfl) ht (step_joinTimeout ht hgoes)

theorem comesBack_stopping {c : Ctl σ} {i : Nat} {kind : Kind} {timeout : ℚ} {event worker generation : Nat}
    (hlock : c.metaLock = none)
    (ht : c.threads[i]? = some (Job.stopping kind false timeout event worker generation).thread) : ComesBack E c i := by
  let moved : Job × Ctl σ :=
    (.joining kind false timeout worker generation, { c with eventsSet := event :: c.eventsSet })
  have hgoes : c.advance E i (.stopping kind false timeout event worker generation) = some moved := rfl
  have hself : (Ctl.place i moved).threads[i]? = some moved.1.thread := place_self ht rfl
  exact .of_move (.inl rfl) (step_advance hlock ht hgoes) (comesBack_joining hlock hself)

/-- **While the lock is free a stop comes back**, wherever it stands. -/
theorem comesBack_standing {c : Ctl σ} {i : Nat} {s : Stop} {ends : List End} {job : Job} (hlock : c.metaLock = none)
    (ht : c.threads[i]? = some job.thread) (hstanding : Standing s ends job) : ComesBack E c i := by
  cases job with
  | requestStop kind safe timeout =>
    obtain ⟨rfl, -⟩ := hstanding
    rcases requestStop_goes (E := E) c i kind timeout with ⟨outcome, hgoes⟩ | ⟨event, worker, hgoes⟩
    · exact comesBack_done (.inl rfl) ht (step_advance hlock ht hgoes)
    · have hself : (Ctl.place i (.stopping kind false timeout event worker c.generation, c)).threads[i]? = _ :=
        place_self ht rfl
      exact .of_move (.inl rfl) (step_advance hlock ht hgoes) (comesBack_stopping hlock hself)
  | stopping kind safe timeout event worker generation =>
    obtain ⟨rfl, -⟩ := hstanding
    exact comesBack_stopping hlock ht
  | joining kind safe timeout worker generation =>
    obtain ⟨rfl, -⟩ := hstanding
    exact comesBack_joining hlock ht
  | done outcome => exact ⟨[], List.forall_mem_nil _, _, outcome, ht, rfl⟩
  | _ => exact hstanding.elim

/-- Every stop comes back, and one that has reports the session it found active. -/
def Reported (E : Env σ) (x : Chron σ) : Prop :=
  ∀ i s, x.stops i = some s → ComesBack E x.ctl i ∧
    ∀ outcome phase, x.ctl.threads[i]? = some ⟨.done outcome, phase⟩ → s.Reports x.ends outcome

theorem Stands.reported (hx : Stands x) : Reported E x := by
  intro i s hs
  have hlt : i < x.ctl.threads.length := by
    by_contra hge
    rw [hx.fresh i (Nat.le_of_not_lt hge)] at hs
    cases hs
  obtain ⟨⟨job, phase⟩, ht⟩ : ∃ t, x.ctl.threads[i]? = some t := ⟨_, List.getElem?_eq_getElem hlt⟩
  have hstanding : Standing s x.ends job := hx.stands i s _ hs ht
  obtain rfl : phase = .outside := by
    by_contra hphase
    have howns := hx.dated.owned.calling _ (List.mem_of_getElem? ht) hphase
    rw [standing_not_owns hstanding] at howns
    cases howns
  exact ⟨comesBack_standing hx.unlocked ht hstanding, fun outcome phase ht => hx.stands i s _ hs ht⟩

/-- `safe_stop` of the Controller that is idle again. -/
def idleMoves : List Move :=
  [.call (.safeStop 10), .advance 3, .advance 3, .begins 3, .returns 3, .advance 3, .advance 3]

def takeStop : Stop := ⟨.record, 10, some 1⟩

/-- A thread whose own moves are not possible does not come back. -/
theorem not_comesBack {c : Ctl σ} {i : Nat} {t : Thread} (ht : c.threads[i]? = some t)
    (hjob : ∀ outcome, t.job ≠ .done outcome) (hadvance : c.step E (.advance i) = none)
    (htimeout : c.step E (.joinTimeout i) = none) : ¬ComesBack E c i := by
  rintro ⟨moves, hown, u, outcome, hu, hdone⟩
  have hrun : c.run E moves = c := by
    refine List.foldlRecOn moves _ (motive := (· = c)) rfl (fun d hd move hmove => ?_)
    rcases hown move hmove with rfl | rfl
    · rw [hd, hadvance, Option.getD_none]
    · rw [hd, htimeout, Option.getD_none]
  rw [hrun, ht] at hu
  cases hu
  exact hjob outcome hdone

/-- A stop of the session that has got in between the blocks of a `safe_stop`. -/
def lateMoves : List Move := lostRaceMoves ++ [.call (.requestStop .record false 10)]

end Chron

end PiZero
end PicoRecorder
