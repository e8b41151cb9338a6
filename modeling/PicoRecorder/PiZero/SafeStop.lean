import PicoRecorder.PiZero.Chronicle
/-!
# SafeStop — what `safe_stop` leaves behind

A `safe_stop` that comes back should leave the claim it found ended, in ERROR or with PASS acknowledged, and its own
claim too.  It passes over every `RecorderError`, so a session may still be there; and a cleanup may end it in PASS
without a handshake.  The run that does neither keeps the claim of every `safe_stop` in view from its first look to its
return.
-/
namespace PicoRecorder
namespace PiZero

open Lib

theorem reconciled_quiet : ∀ {acts : List Act} (history : List Act), (∀ act ∈ acts, act.handshake = false) →
    reconciled (acts ++ history) = reconciled history
  | [], _, _ => rfl
  | act :: acts, history, h => by
    rw [← reconciled_quiet history (fun a ha => h a (List.mem_cons_of_mem _ ha)), List.cons_append]
    have hact := h act (by simp)
    cases act with
    | wrote request whole aside => cases request <;> first | rfl | cases hact
    | answered state reason => cases hact
    | took | awaitsCredit | credited => rfl

/-- The last MODE_SET asked for PASS. -/
def passing : List Act → Bool
  | [] => false
  | .wrote (.modeSet target) _ _ :: _ => target = MODE_PASS
  | _ :: history => passing history

/-- Whenever PASS was asked for after another mode, no acknowledgement of it was put aside. -/
def timely : List Act → Bool
  | [] => true
  | .wrote (.modeSet target) _ aside :: history =>
    (target ≠ MODE_PASS || passing history || !aside.contains passAck) && timely history
  | _ :: history => timely history

theorem requested_of_timely : ∀ (history : List Act), timely history → passing history → requested history
  | [], _, h => h
  | act :: history, ht, h => by
    cases act with
    | wrote request whole aside =>
      cases request with
      | modeSet target =>
        have htarget : target = MODE_PASS := by simpa [passing] using h
        simp only [timely, htarget, Bool.and_eq_true, Bool.or_eq_true] at ht
        obtain ⟨hfresh, ht⟩ := ht
        simp only [requested, htarget, decide_true, Bool.true_and, Bool.or_eq_true]
        rcases hfresh with (hne | hpassing) | hfresh
        · simp at hne
        · exact .inr (requested_of_timely history ht hpassing)
        · exact .inl hfresh
      | _ => exact requested_of_timely history ht h
    | answered | took | awaitsCredit | credited => exact requested_of_timely history ht h

theorem timely_append : ∀ (acts : List Act) {history : List Act}, timely (acts ++ history) → timely history
  | [], _, h => h
  | act :: acts, history, h => by
    refine timely_append acts ?_
    cases act with
    | wrote request whole aside =>
      cases request with
      | modeSet target => exact (Bool.and_eq_true_iff.1 h).2
      | _ => exact h
    | answered | took | awaitsCredit | credited => exact h

theorem reconciled_of_shook {h h' : List Act} (hs : Shook MODE_PASS h h') (ht : timely h') : reconciled h' = true := by
  obtain ⟨m, m', -, ⟨asides, hne, rfl⟩, ⟨after, rfl, hafter⟩⟩ := hs
  have hpassing : passing (tries MODE_PASS asides ++ m) = true := by
    cases asides with
    | nil => exact absurd rfl hne
    | cons aside asides => rfl
  have hrequested := requested_of_timely _
    (timely_append (after ++ [.answered MODE_PASS REASON_OK]) (by simpa using ht)) hpassing
  rw [reconciled_quiet _ hafter, reconciled, hrequested]
  rfl

/-- The generation whose event a worker, or a thread about to start it, was given. -/
def Job.event : Job → Option Nat
  | .recordingRespond _ event | .recordingSpawn _ event | .runRecording _ event | .recordingStop _ event
  | .recordingCleanup _ event _ | .playbackRespond _ event | .playbackSpawn _ event | .runPlayback _ event
  | .playbackAbort _ event | .playbackCleanup _ event _ | .ending _ _ _ (.exits event) => some event
  | _ => none

theorem Job.owns_of_event {job : Job} {event : Nat} (h : job.event = some event) : job.owns := by
  cases job <;> first | rfl | cases h

theorem Job.not_owns_of_isCall {job : Job} (h : job.isCall) : job.owns = false := by
  cases job <;> first | rfl | cases h

namespace Ctl

variable {σ : Type} {E : Env σ} {c d : Ctl σ} {thread : Nat} {job : Job} {moved : Job × Ctl σ}

/-- The claim is the one that `_active_kind` stands for. -/
def Current (c : Ctl σ) (claim : Nat) : Prop := c.activeKind.isSome ∧ claim = c.claims

theorem advance_event (h : c.advance E thread job = some moved) {event : Nat} (hevent : moved.1.event = some event) :
    job.event = some event ∨ event = moved.2.generation := by
  have hclosed : ∀ {moved : Job × Ctl σ}, Closed c moved → moved.1.event = none := by
    rintro moved ⟨job, completed, rfl, ⟨outcome, rfl⟩ | rfl⟩ <;> rfl
  revert h
  fun_cases advance E thread c job <;> intro h <;> cases h
  all_goals first
    | exact .inl hevent
    | cases hevent; exact .inr rfl
    | cases hevent
    | exact absurd ((hclosed (stopRaises_closed _ _ _)).symm.trans hevent) (by simp)
    | exact absurd ((hclosed (stopReturns_closed _ _)).symm.trans hevent) (by simp)

theorem returns_event (h : c.returns E job = some moved) {event : Nat} (hevent : moved.1.event = some event) :
    job.event = some event := by
  cases job with
  | runPlayback session stop =>
    obtain ⟨⟨result, s', d⟩, -, rfl⟩ := Option.map_eq_some_iff.1 h
    rcases result with (⟨kind, message⟩ | _) | value
    · cases kind <;> dsimp only at hevent
      case transportTimeout => split at hevent <;> exact hevent
      all_goals exact hevent
    · exact hevent
    · exact hevent
  | runRecording session stop =>
    obtain ⟨⟨result, s', d⟩, -, rfl⟩ := Option.map_eq_some_iff.1 h
    rcases result with (⟨kind, message⟩ | _) | value
    · cases kind <;> exact hevent
    · exact hevent
    · exact hevent
  | recordingHandshake _ | recordingStop _ _ | playbackStart _ | playbackAbort _ _ | safeStopHandshake =>
    obtain ⟨⟨result, s', d⟩, -, rfl⟩ := Option.map_eq_some_iff.1 h
    cases result <;> exact hevent
  | recordingFailed _ _ | recordingCleanup _ _ _ | playbackFailed _ _ | playbackCleanup _ _ _ =>
    obtain ⟨⟨result, s', d⟩, -, rfl⟩ := Option.map_eq_some_iff.1 h
    exact hevent
  | _ => cases h

/-- The only end without a call before it is that of a playback whose session was not built. -/
theorem advance_ending (h : c.advance E thread job = some moved) {state : CtlState} {error : Option Exn}
    {result : Option Outcome} {next : After} (hending : moved.1 = .ending state error result next) : unbuilt E job := by
  have hclosed : ∀ {moved : Job × Ctl σ}, Closed c moved → moved.1 ≠ .ending state error result next := by
    rintro moved ⟨job, completed, rfl, ⟨outcome, rfl⟩ | rfl⟩ <;> nofun
  revert h
  fun_cases advance E thread c job <;> intro h <;> cases h
  all_goals first
    | cases hending; done
    | exact absurd hending (hclosed (stopRaises_closed _ _ _))
    | exact absurd hending (hclosed (stopReturns_closed _ _))
    | (simp only [unbuilt]; rename_i hsetup; rw [hsetup])

/-- A session, or a `safe_stop`, ends in PASS or ERROR. -/
theorem returns_ending (h : c.returns E job = some moved) {state : CtlState} {error : Option Exn}
    {result : Option Outcome} {next : After} (hending : moved.1 = .ending state error result next) :
    state = .error ∨ state = .pass := by
  have hcleanup : ∀ report : Checked (Option Exn), cleanupState report = .error ∨ cleanupState report = .pass := by
    intro report
    rcases report with e | (_ | e) <;> first | exact .inl rfl | exact .inr rfl
  cases job with
  | runPlayback session stop =>
    obtain ⟨⟨result, s', d⟩, -, rfl⟩ := Option.map_eq_some_iff.1 h
    rcases result with (⟨kind, message⟩ | _) | value
    · cases kind <;> dsimp only at hending
      case transportTimeout => split at hending <;> cases hending
      all_goals cases hending
    · cases hending
    · cases hending
      exact .inr rfl
  | runRecording session stop =>
    obtain ⟨⟨result, s', d⟩, -, rfl⟩ := Option.map_eq_some_iff.1 h
    rcases result with (⟨kind, message⟩ | _) | value
    · cases kind <;> cases hending
    · cases hending
    · cases hending
  | recordingHandshake _ | recordingStop _ _ | playbackStart _ | playbackAbort _ _ | safeStopHandshake =>
    obtain ⟨⟨result, s', d⟩, -, rfl⟩ := Option.map_eq_some_iff.1 h
    cases result <;> cases hending <;> first | exact .inl rfl | exact .inr rfl
  | recordingFailed _ _ | recordingCleanup _ _ _ | playbackFailed _ _ | playbackCleanup _ _ _ =>
    obtain ⟨⟨result, s', d⟩, -, rfl⟩ := Option.map_eq_some_iff.1 h
    cases hending
    exact hcleanup _
  | _ => cases h

/-! ## The workers -/

theorem Stepped.turn {move : Move} (h : Stepped E c move d) : d.books = c.books ∨
    ∃ thread job, move = .advance thread ∧ c.threads[thread]? = some (Job.thread job) ∧ Shift c job d := by
  by_cases hmove : ∃ thread, move = .advance thread
  · obtain ⟨thread, rfl⟩ := hmove
    obtain ⟨job, hcomes, hshift⟩ := h.shift
    exact .inr ⟨thread, job, rfl, hcomes, hshift⟩
  · exact .inl (h.books (fun thread heq => hmove ⟨thread, heq⟩))

/-- No session begins under a claim. -/
theorem Stepped.generation {move : Move} (h : Stepped E c move d) (hactive : c.activeKind.isSome) :
    d.generation = c.generation := by
  rcases h.turn with hbooks | ⟨thread, job, -, -, hshift⟩
  · simp only [Ctl.books, Prod.mk.injEq] at hbooks
    exact hbooks.1
  · cases hshift with
    | session kind notIdle free goes books => simp [free] at hactive
    | keep goes hbooks | idle free comes hbooks | launch comes hbooks | drop state error result next comes hbooks =>
      simp only [Ctl.books, Prod.mk.injEq] at hbooks
      exact hbooks.1

/-- **Workers and events belong to the newest session**, and a worker that has exited to one that is over. -/
structure Manned (c : Ctl σ) : Prop where
  owned : Owned c
  worker : ∀ w, c.worker = some w → w = c.generation ∧ c.inSession
  events : ∀ t ∈ c.threads, ∀ w, t.job.event = some w → w = c.generation
  exited : ∀ t ∈ c.threads, ∀ w, t.job = .exited w → w ≤ c.generation ∧ (c.inSession → w < c.generation)

theorem manned_init (link : σ) : Manned (Ctl.init link) :=
  ⟨owned_init link, by simp [Ctl.init], by simp [Ctl.init], by simp [Ctl.init]⟩

theorem Manned.worker_step {move : Move} (hc : Manned c) (h : Stepped E c move d) {w : Nat} (hw : d.worker = some w) :
    w = d.generation ∧ d.inSession := by
  have hsame : d.books = c.books → w = d.generation ∧ d.inSession := by
    intro hbooks
    simp only [books, Prod.mk.injEq] at hbooks
    obtain ⟨hgeneration, -, -, hworker, -, hkind, -⟩ := hbooks
    rw [inSession, hkind, hgeneration]
    exact hc.worker w (hworker ▸ hw)
  rcases h.turn with hbooks | ⟨thread, job, -, hcomes, hshift⟩
  · exact hsame hbooks
  · cases hshift with
    | keep goes books => exact hsame books
    | session kind notIdle free goes hbooks | idle free comes hbooks =>
      simp only [books, Prod.mk.injEq] at hbooks
      obtain ⟨-, -, -, hworker, -, -, -⟩ := hbooks
      exact absurd (hc.worker w (hworker ▸ hw)).2 (not_inSession_of_free free)
    | launch comes hbooks =>
      simp only [books, Prod.mk.injEq] at hbooks
      obtain ⟨hgeneration, -, -, hworker, -, hkind, -⟩ := hbooks
      rw [hworker] at hw
      rw [inSession, hkind, hgeneration]
      refine ⟨(Option.some.inj hw).symm, hc.owned.inSession (List.mem_of_getElem? hcomes) ?_⟩
      rcases comes with ⟨session, rfl⟩ | ⟨session, rfl⟩
      · exact .inl rfl
      · exact .inr rfl
    | drop state error result next comes hbooks =>
      simp only [books, Prod.mk.injEq] at hbooks
      obtain ⟨-, -, -, hworker, -, -, -⟩ := hbooks
      rw [hworker] at hw
      cases hw

theorem Manned.event_step {move : Move} (hc : Manned c) (h : Stepped E c move d) {j : Nat} {u : Thread} {w : Nat}
    (hu : d.threads[j]? = some u) (hevent : u.job.event = some w) : w = d.generation := by
  have hheld : ∀ {i : Nat} {v : Thread}, c.threads[i]? = some v → v.job.event = some w → w = d.generation := by
    intro i v hv hw
    have hmem := List.mem_of_getElem? hv
    rw [h.generation (hc.owned.active hmem (Job.owns_of_event hw))]
    exact hc.events v hmem w hw
  have harrives := h.arrives hu
  generalize u.job = job at harrives hevent
  have howns : job.owns := Job.owns_of_event hevent
  cases harrives with
  | stays v old still => exact hheld old hevent
  | called job new call isCall => simp [Job.not_owns_of_isCall isCall] at howns
  | spawned thread job worker new spawner advance spawns =>
    refine hheld spawner ?_
    cases job <;> cases spawns <;> exact hevent
  | advanced job moved old advance goes =>
    subst advance
    rcases advance_event goes hevent with hbefore | hlaunched
    · exact hheld old hbefore
    · rw [hlaunched, h.advanced old goes]
      rfl
  | returned v moved old returns calling goes => exact hheld old (returns_event goes hevent)
  | timedOut job moved old timeout goes =>
    obtain ⟨job', completed, rfl, ⟨outcome, rfl⟩ | rfl⟩ := joinTimeout_closed goes <;> cases hevent

theorem advance_exited (h : c.advance E thread job = some moved) {w : Nat} (hexited : moved.1 = .exited w) :
    job.event = some w ∧ moved.2.activeKind = none := by
  have hclosed : ∀ {moved : Job × Ctl σ}, Closed c moved → moved.1 ≠ .exited w := by
    rintro moved ⟨job, completed, rfl, ⟨outcome, rfl⟩ | rfl⟩ <;> nofun
  revert h
  fun_cases advance E thread c job <;> intro h <;> cases h
  all_goals first
    | cases hexited; done
    | exact absurd hexited (hclosed (stopRaises_closed _ _ _))
    | exact absurd hexited (hclosed (stopReturns_closed _ _))
    | (cases hexited; exact ⟨rfl, rfl⟩)

/-- A worker that has exited stays behind when a session begins. -/
theorem Stepped.behind {move : Move} (h : Stepped E c move d) {w : Nat}
    (hw : w ≤ c.generation ∧ (c.inSession → w < c.generation)) :
    w ≤ d.generation ∧ (d.inSession → w < d.generation) := by
  have hsame : d.books = c.books → w ≤ d.generation ∧ (d.inSession → w < d.generation) := by
    intro hbooks
    simp only [Ctl.books, Prod.mk.injEq] at hbooks
    obtain ⟨hgeneration, -, -, -, -, hkind, -⟩ := hbooks
    rw [Ctl.inSession, hkind, hgeneration]
    exact hw
  rcases h.turn with hbooks | ⟨thread, job, -, -, hshift⟩
  · exact hsame hbooks
  · cases hshift with
    | keep goes hbooks => exact hsame hbooks
    | session kind notIdle free goes hbooks =>
      simp only [Ctl.books, Prod.mk.injEq] at hbooks
      have hgeneration := hbooks.1
      exact ⟨by omega, fun _ => by omega⟩
    | launch comes hbooks =>
      simp only [Ctl.books, Prod.mk.injEq] at hbooks
      obtain ⟨hgeneration, -, -, -, -, hkind, -⟩ := hbooks
      rw [Ctl.inSession, hkind, hgeneration]
      exact hw
    | idle free comes hbooks | drop state error result next comes hbooks =>
      simp only [Ctl.books, Prod.mk.injEq] at hbooks
      obtain ⟨hgeneration, -, -, -, -, hkind, -⟩ := hbooks
      rw [Ctl.inSession, hkind, hgeneration]
      exact ⟨hw.1, by simp⟩

theorem Manned.exited_step {move : Move} (hc : Manned c) (h : Stepped E c move d) {j : Nat} {u : Thread} {w : Nat}
    (hu : d.threads[j]? = some u) (hexited : u.job = .exited w) :
    w ≤ d.generation ∧ (d.inSession → w < d.generation) := by
  have harrives := h.arrives hu
  generalize u.job = job at harrives hexited
  cases harrives with
  | stays v old still => exact h.behind (hc.exited v (List.mem_of_getElem? old) w hexited)
  | called job new call isCall => rw [hexited] at isCall; cases isCall
  | spawned thread job worker new spawner advance spawns => cases job <;> cases spawns <;> cases hexited
  | advanced job moved old advance goes =>
    subst advance
    obtain ⟨hevent, hidle⟩ := advance_exited goes hexited
    have hmem := List.mem_of_getElem? old
    have hw := hc.events _ hmem w hevent
    have hd := h.advanced old goes
    refine ⟨?_, fun hsession => absurd hsession (not_inSession_of_free (by rw [hd]; exact hidle))⟩
    rw [h.generation (hc.owned.active hmem (Job.owns_of_event hevent))]
    exact Nat.le_of_eq hw
  | returned v moved old returns calling goes =>
    have howns := (returns_effect goes).after
    rw [hexited] at howns
    cases howns
  | timedOut job moved old timeout goes =>
    obtain ⟨job', completed, rfl, ⟨outcome, rfl⟩ | rfl⟩ := joinTimeout_closed goes <;> cases hexited

theorem manned_step {move : Move} (hc : Manned c) (h : c.step E move = some d) : Manned d := by
  have hstepped := stepped h
  refine ⟨owned_step hc.owned h, fun w hw => hc.worker_step hstepped hw, fun t ht w hevent => ?_,
    fun t ht w hexited => ?_⟩
  · obtain ⟨j, hj⟩ := List.mem_iff_getElem?.1 ht
    exact hc.event_step hstepped hj hevent
  · obtain ⟨j, hj⟩ := List.mem_iff_getElem?.1 ht
    exact hc.exited_step hstepped hj hexited

/-- A worker that has exited is not that of the active session. -/
theorem Manned.not_exited (hc : Manned c) {w : Nat} (hw : c.worker = some w) : c.workerExited w = false := by
  obtain ⟨hgeneration, hsession⟩ := hc.worker w hw
  by_contra hexited
  rw [Bool.not_eq_false, workerExited, List.any_eq_true] at hexited
  obtain ⟨t, ht, hjob⟩ := hexited
  have hbehind := (hc.exited t ht w (by simpa using hjob)).2 hsession
  omega

/-- Only a call that comes back adds to the history. -/
theorem Stepped.history {move : Move} (h : Stepped E c move d) : d.history = c.history ∨
    ∃ thread t moved, move = .returns thread ∧ c.threads[thread]? = some t ∧ c.returns E t.job = some moved ∧
      d = place thread moved := by
  cases h with
  | status => exact .inl rfl
  | call job isCall => exact .inl rfl
  | enter move thread t phase cancel comes silent => exact .inl rfl
  | advance thread job moved comes goes => exact .inl (advance_history goes)
  | returns thread t moved comes calling goes => exact .inr ⟨thread, t, moved, rfl, comes, goes, rfl⟩
  | joinTimeout thread job moved comes goes =>
    obtain ⟨job', completed, rfl, -⟩ := joinTimeout_closed goes
    exact .inl rfl

end Ctl

/-! ## The claims -/

namespace Chron

open Ctl (Move Owned Stepped Shift Arrives Manned scriptedEnv recordWorld workerMoves)

variable {σ : Type} {E : Env σ} {x y : Chron σ}

/-- **What a move does to the claim**: it leaves it, takes a free one, or releases it and writes down with what. -/
inductive Claims (x y : Chron σ) : Prop where
  | holds (kind : y.ctl.activeKind = x.ctl.activeKind) (claims : y.ctl.claims = x.ctl.claims) (ends : y.ends = x.ends)
    (worker : ∀ w, x.ctl.worker = some w → w = x.ctl.generation → y.ctl.worker = some w)
  | takes (free : x.ctl.activeKind = none) (kind : y.ctl.activeKind.isSome) (claims : y.ctl.claims = x.ctl.claims + 1)
    (ends : y.ends = x.ends)
  | releases (e : End) (t : Thread) (comes : t ∈ x.ctl.threads) (goes : x.ctl.endOf t.job = some e)
    (active : x.ctl.activeKind.isSome) (kind : y.ctl.activeKind = none) (claims : y.ctl.claims = x.ctl.claims)
    (ends : y.ends = e :: x.ends)

theorem claims_step {move : Move} (hx : Owned x.ctl) (h : x.step E move = some y) : Claims x y := by
  rcases shift_step h with ⟨hbooks, hends⟩ | ⟨thread, job, -, hcomes, hshift, hends⟩
  · simp only [Ctl.books, Prod.mk.injEq] at hbooks
    obtain ⟨-, -, -, hworker, -, hkind, hclaims⟩ := hbooks
    exact .holds hkind hclaims hends (fun w hw _ => hworker.trans hw)
  cases hshift with
  | keep goes books =>
    simp only [Ctl.books, Prod.mk.injEq] at books
    obtain ⟨-, -, -, hworker, -, hkind, hclaims⟩ := books
    rw [goes] at hends
    exact .holds hkind hclaims hends (fun w hw _ => hworker.trans hw)
  | launch comes books =>
    simp only [Ctl.books, Prod.mk.injEq] at books
    obtain ⟨-, -, -, hworker, -, hkind, hclaims⟩ := books
    have hgoes : x.ctl.endOf job = none := by rcases comes with ⟨session, rfl⟩ | ⟨session, rfl⟩ <;> rfl
    rw [hgoes] at hends
    exact .holds hkind hclaims hends (fun w _ hw => by rw [hworker, hw])
  | session kind notIdle free goes books =>
    simp only [Ctl.books, Prod.mk.injEq] at books
    obtain ⟨-, -, -, -, -, hkind, hclaims⟩ := books
    rw [goes] at hends
    exact .takes free (by simp [hkind]) hclaims hends
  | idle free comes books =>
    simp only [Ctl.books, Prod.mk.injEq] at books
    obtain ⟨-, -, -, -, -, hkind, hclaims⟩ := books
    rw [comes] at hends
    exact .takes free (by simp [hkind]) hclaims hends
  | drop state error result next comes books =>
    simp only [Ctl.books, Prod.mk.injEq] at books
    obtain ⟨-, -, -, -, -, hkind, hclaims⟩ := books
    subst comes
    have hmem := List.mem_of_getElem? hcomes
    exact .releases _ _ hmem rfl (hx.active hmem rfl) hkind hclaims hends

theorem endOf_eq_some {c : Ctl σ} {job : Job} {e : End} (h : c.endOf job = some e) :
    e.claim = c.claims ∧ e.reconciled = reconciled c.history ∧ ∃ next, job = .ending e.state e.error e.result next := by
  cases job <;> cases h
  exact ⟨rfl, rfl, _, rfl⟩

/-- **Every claim is active or has ended, once.** -/
structure Audited (x : Chron σ) : Prop where
  claimed : x.ctl.activeKind.isSome → 0 < x.ctl.claims
  past : ∀ e ∈ x.ends, e.claim ≤ x.ctl.claims ∧ (x.ctl.activeKind.isSome → e.claim < x.ctl.claims)
  distinct : (x.ends.map End.claim).Nodup
  concluded : ∀ a, 0 < a → a ≤ x.ctl.claims → x.ctl.Current a ∨ ∃ e ∈ x.ends, e.claim = a

theorem audited_init (link : σ) : Audited (init link) :=
  ⟨by simp [init, Ctl.init], by simp [init], by simp [init],
    fun a ha hle => absurd (Nat.lt_of_lt_of_le ha hle) (Nat.lt_irrefl 0)⟩

theorem audited_step (hx : Audited x) (h : Claims x y) : Audited y := by
  cases h with
  | holds kind claims ends worker =>
    refine ⟨?_, ?_, ends ▸ hx.distinct, ?_⟩
    · rw [kind, claims]
      exact hx.claimed
    · rw [kind, claims, ends]
      exact hx.past
    · intro a ha hle
      rw [ends, Ctl.Current, kind, claims]
      exact hx.concluded a ha (claims ▸ hle)
  | takes free kind claims ends =>
    refine ⟨fun _ => by omega, ?_, ends ▸ hx.distinct, fun a ha hle => ?_⟩
    · rw [ends, claims]
      intro e he
      have hle := (hx.past e he).1
      exact ⟨by omega, fun _ => by omega⟩
    · rw [ends, Ctl.Current, claims]
      by_cases hnew : a = x.ctl.claims + 1
      · exact .inl ⟨kind, hnew⟩
      · refine .inr ((hx.concluded a ha (by omega)).resolve_left ?_)
        rintro ⟨hactive, -⟩
        simp [free] at hactive
  | releases e t comes goes active kind claims ends =>
    have hclaim := (endOf_eq_some goes).1
    refine ⟨by simp [kind], ?_, ?_, fun a ha hle => ?_⟩
    · rw [ends, claims, kind]
      intro e' he'
      refine ⟨?_, by simp⟩
      rcases List.mem_cons.1 he' with rfl | hold
      · exact Nat.le_of_eq hclaim
      · exact (hx.past e' hold).1
    · rw [ends, List.map_cons]
      refine List.nodup_cons.2 ⟨fun hmem => ?_, hx.distinct⟩
      obtain ⟨e', he', hsame⟩ := List.mem_map.1 hmem
      have hlt := (hx.past e' he').2 active
      omega
    · rw [ends]
      refine .inr ?_
      rcases hx.concluded a ha (claims ▸ hle) with ⟨-, hcurrent⟩ | ⟨e', he', heq⟩
      · exact ⟨e, by simp, by rw [hclaim, hcurrent]⟩
      · exact ⟨e', List.mem_cons_of_mem _ he', heq⟩

/-- A claim that is active was so before, unless it is new, and it keeps its kind and its worker. -/
theorem current_step (h : Claims x y) {a : Nat} (ha : a ≤ x.ctl.claims) (hy : y.ctl.Current a) :
    x.ctl.Current a ∧ y.ctl.activeKind = x.ctl.activeKind ∧
      ∀ w, x.ctl.worker = some w → w = x.ctl.generation → y.ctl.worker = some w := by
  cases h with
  | holds kind claims ends worker =>
    rw [Ctl.Current, kind, claims] at hy
    exact ⟨hy, kind, worker⟩
  | takes free kind claims ends =>
    have hcurrent := hy.2
    omega
  | releases e t comes goes active kind claims ends =>
    have hactive := hy.1
    simp [kind] at hactive

/-! ## The ends -/

/-- One of the claims that a thread has found is active. -/
def awaits (x : Chron σ) (i : Nat) : Bool := x.ctl.activeKind.isSome && (x.concerns i).contains x.ctl.claims

variable (E) in
/-- A `safe_stop` gives up on its session neither while that is still starting nor after the timeout of `join`, a
cleanup without a handshake finds PASS acknowledged, and no acknowledgement is put aside when PASS is asked for after
another mode. -/
def heeded (x : Chron σ) : Move → Bool
  | .advance i =>
    match x.jobAt i with
    | some (.requestStop _ _ _) => !(x.awaits i && (x.ctl.stopEvent.isNone || x.ctl.worker.isNone))
    | some job => !Ctl.unbuilt E job || reconciled x.ctl.history
    | none => true
  | .returns i =>
    (!((x.jobAt i).any Ctl.skips) || reconciled x.ctl.history) &&
      (x.ctl.step E (.returns i)).all (fun d => timely d.history)
  | .joinTimeout i => !x.awaits i
  | _ => true

theorem jobAt_eq {i : Nat} {t : Thread} (h : x.ctl.threads[i]? = some t) : x.jobAt i = some t.job := by
  unfold jobAt
  rw [h]
  rfl

theorem reconciled_of_unbuilt {i : Nat} {job : Job} (hallowed : x.heeded E (.advance i)) (hjob : x.jobAt i = some job)
    (hunbuilt : Ctl.unbuilt E job) : reconciled x.ctl.history := by
  simp only [heeded, hjob] at hallowed
  cases job <;> first | cases hunbuilt | simpa [hunbuilt] using hallowed

theorem reconciled_of_skips {i : Nat} {job : Job} (hallowed : x.heeded E (.returns i)) (hjob : x.jobAt i = some job)
    (hskips : Ctl.skips job) : reconciled x.ctl.history := by
  simp only [heeded, hjob, Bool.and_eq_true] at hallowed
  simpa [hskips] using hallowed.1

theorem timely_of_returns {i : Nat} (hallowed : x.heeded E (.returns i)) (h : x.step E (.returns i) = some y) :
    timely y.ctl.history := by
  obtain ⟨d, hstep, rfl⟩ := Option.map_eq_some_iff.1 h
  simp only [heeded, hstep, Option.all_some, Bool.and_eq_true] at hallowed
  exact hallowed.2

/-- **Whoever is about to end a claim reports ERROR, or PASS is acknowledged.** -/
def Settling (x : Chron σ) : Prop :=
  ∀ t ∈ x.ctl.threads, ∀ state error result next, t.job = .ending state error result next →
    state = .error ∨ reconciled x.ctl.history

theorem settling_step {move : Move} (hx : Settling x) (howned : Owned x.ctl) (hallowed : x.heeded E move)
    (h : x.step E move = some y) : Settling y := by
  obtain ⟨hstepped, -, -, -⟩ := step_eq_some h
  intro u hu state error result next hending
  obtain ⟨j, hj⟩ := List.mem_iff_getElem?.1 hu
  have harrives := hstepped.arrives hj
  rw [hending] at harrives
  generalize hjob : Job.ending state error result next = job at harrives
  cases harrives with
  | stays v old still =>
    have hbefore := hx v (List.mem_of_getElem? old) state error result next hjob.symm
    rcases hstepped.history with hhistory | ⟨thread, t, moved, rfl, hcomes, hgoes, -⟩
    · rw [hhistory]
      exact hbefore
    · -- The thread that comes back is the owner, and so is the one that is about to end.
      have howns : x.ctl.Owns j := ⟨v, old, by rw [← hjob]; rfl⟩
      obtain rfl := howned.tracks.unique ⟨t, hcomes, (Ctl.returns_effect hgoes).before⟩ howns
      rw [hcomes] at old
      cases old
      rw [← hjob] at hgoes
      cases hgoes
  | called job new call isCall => subst hjob; cases isCall
  | spawned thread job worker new spawner advance spawns => subst hjob; cases job <;> cases spawns
  | advanced job moved old advance goes =>
    subst advance
    have hhistory : y.ctl.history = x.ctl.history := by
      rw [hstepped.advanced old goes]
      exact Ctl.advance_history goes
    rw [hhistory]
    exact .inr (reconciled_of_unbuilt hallowed (jobAt_eq old) (Ctl.advance_ending goes hjob.symm))
  | returned v moved old returns calling goes =>
    subst returns
    have hhistory : y.ctl.history = moved.2.history := by rw [hstepped.of_returns old goes]; rfl
    rw [hhistory]
    refine (Ctl.returns_ending goes hjob.symm).imp id (fun hpass => ?_)
    have hpasses : moved.1.passes := by rw [← hjob, hpass]; rfl
    rcases (Ctl.returns_came goes).passes hpasses with hshook | ⟨hskips, hsame⟩
    · exact reconciled_of_shook hshook (hhistory ▸ timely_of_returns hallowed h)
    · rw [hsame]
      exact reconciled_of_skips hallowed (jobAt_eq old) hskips
  | timedOut job moved old timeout goes =>
    obtain ⟨job', completed, rfl, ⟨outcome, rfl⟩ | rfl⟩ := Ctl.joinTimeout_closed goes <;> cases hjob

/-- What has ended was reported as ERROR, or PASS had been acknowledged. -/
def Settled (x : Chron σ) : Prop := ∀ e ∈ x.ends, e.state = .error ∨ e.reconciled

theorem settled_step (hx : Settled x) (hsettling : Settling x) (h : Claims x y) : Settled y := by
  cases h with
  | holds kind claims ends worker => unfold Settled; rw [ends]; exact hx
  | takes free kind claims ends => unfold Settled; rw [ends]; exact hx
  | releases e t comes goes active kind claims ends =>
    obtain ⟨-, hreconciled, next, hjob⟩ := endOf_eq_some goes
    intro e' he'
    rw [ends] at he'
    rcases List.mem_cons.1 he' with rfl | hold
    · rw [hreconciled]
      exact hsettling t comes _ _ _ next hjob
    · exact hx e' hold

/-! ## The calls of `safe_stop` -/

/-- What is known of the claims a thread has found, by the place it is at: while they are active, a stop is on to their
session, and a call that asks for its status, or has come back with it, has seen the end of them. -/
def Minds (c : Ctl σ) (found : List Nat) : Job → Prop
  | .requestStop kind true _ => ∀ a ∈ found, c.Current a → c.activeKind = some kind
  | .stopping _ true _ _ worker _ | .joining _ true _ worker _ => ∀ a ∈ found, c.Current a → c.worker = some worker
  | .safeStopClaim | .safeStopHandshake | .statusLocked | .ending _ _ _ (.raises _) | .ending _ _ _ .reports
  | .done (.error _) => True
  | .safeStopStatus | .done (.ok _) => ∀ a ∈ found, ¬c.Current a
  | _ => found = []

variable {c d : Ctl σ} {found : List Nat} {job : Job} {moved : Job × Ctl σ} {i : Nat}

/-- A thread that has found no claim. -/
theorem minds_nil (c : Ctl σ) (job : Job) : Minds c [] job := by
  cases job with
  | requestStop kind safe timeout => cases safe <;> simp [Minds]
  | stopping kind safe timeout event worker generation => cases safe <;> simp [Minds]
  | joining kind safe timeout worker generation => cases safe <;> simp [Minds]
  | ending state error result next => cases next <;> simp [Minds]
  | done outcome => cases outcome <;> simp [Minds]
  | _ => simp [Minds]

theorem minds_done (h : ∀ a ∈ found, ¬d.Current a) (outcome : Checked (Option Outcome)) :
    Minds d found (.done outcome) := by
  cases outcome with
  | error e => trivial
  | ok result => exact h

theorem minds_closed (h : ∀ a ∈ found, ¬c.Current a) (hclosed : Ctl.Closed c moved) : Minds moved.2 found moved.1 := by
  obtain ⟨job, completed, rfl, ⟨outcome, rfl⟩ | rfl⟩ := hclosed
  · exact minds_done h outcome
  · exact h

/-- The others may move meanwhile. -/
theorem minds_stays (hm : Minds c found job) (hworker : ∀ w, c.worker = some w → w = c.generation)
    (hcurrent : ∀ a ∈ found, d.Current a → c.Current a ∧ d.activeKind = c.activeKind ∧
      ∀ w, c.worker = some w → w = c.generation → d.worker = some w) : Minds d found job := by
  have hkeep : ∀ w, (∀ a ∈ found, c.Current a → c.worker = some w) → ∀ a ∈ found, d.Current a → d.worker = some w := by
    intro w hw a ha hd
    obtain ⟨hc, -, hkept⟩ := hcurrent a ha hd
    exact hkept w (hw a ha hc) (hworker w (hw a ha hc))
  cases job with
  | requestStop kind safe timeout =>
    cases safe with
    | false => exact hm
    | true =>
      intro a ha hd
      obtain ⟨hc, hkind, -⟩ := hcurrent a ha hd
      exact hkind.trans (hm a ha hc)
  | stopping kind safe timeout event worker generation =>
    cases safe with
    | false => exact hm
    | true => exact hkeep worker hm
  | joining kind safe timeout worker generation =>
    cases safe with
    | false => exact hm
    | true => exact hkeep worker hm
  | ending state error result next => cases next <;> exact hm
  | safeStopStatus => exact fun a ha hd => hm a ha (hcurrent a ha hd).1
  | done outcome =>
    cases outcome with
    | error e => trivial
    | ok result => exact fun a ha hd => hm a ha (hcurrent a ha hd).1
  | _ => exact hm

/-- A stop goes on, but does not give up on an active claim while that is still starting. -/
theorem minds_advance (hm : Minds c found job) (hmanned : Manned c) (goes : c.advance E i job = some moved)
    (hlooks : (∀ timeout, job ≠ .safeStop timeout) ∧ job ≠ .safeStopClaim)
    (hstarting : ∀ kind safe timeout, job = .requestStop kind safe timeout → ∀ a ∈ found, c.Current a →
      c.stopEvent.isSome ∧ c.worker.isSome) : Minds moved.2 found moved.1 := by
  cases job with
  | requestStop kind safe timeout =>
    cases safe with
    | false =>
      obtain rfl : found = [] := hm
      exact minds_nil _ _
    | true =>
      simp only [Ctl.advance] at goes
      split at goes
      · rename_i hother
        cases goes
        exact minds_closed (fun a ha hc => hother (hm a ha hc)) (Ctl.stopRaises_closed true _ _)
      · split at goes
        · rename_i hworker
          cases goes
          exact fun _ _ _ => hworker
        · rename_i hnone
          cases goes
          refine minds_closed (fun a ha hc => ?_) (Ctl.stopRaises_closed true _ _)
          obtain ⟨hevent, hworker⟩ := hstarting kind true timeout rfl a ha hc
          obtain ⟨event, hevent⟩ := Option.isSome_iff_exists.1 hevent
          obtain ⟨worker, hworker⟩ := Option.isSome_iff_exists.1 hworker
          exact hnone event worker hevent hworker
  | stopping kind safe timeout event worker generation =>
    cases goes
    cases safe <;> exact hm
  | joining kind safe timeout worker generation =>
    cases safe with
    | false =>
      obtain rfl : found = [] := hm
      exact minds_nil _ _
    | true =>
      simp only [Ctl.advance] at goes
      split at goes
      · cases goes
        trivial
      · split at goes
        · cases goes
        · rename_i hexited
          have hover : ∀ a ∈ found, ¬c.Current a := by
            intro a ha hc
            rw [hmanned.not_exited (hm a ha hc)] at hexited
            simp at hexited
          split at goes
          · cases goes
            exact minds_closed hover (Ctl.stopRaises_closed true _ _)
          · split at goes <;> cases goes
            · exact minds_closed hover (Ctl.stopRaises_closed true _ _)
            · exact minds_closed hover (Ctl.stopReturns_closed true _)
  | safeStopStatus =>
    cases goes
    exact minds_done (d := (c.complete (.ok none)).2) hm _
  | ending state error result next =>
    cases next with
    | raises e =>
      cases goes
      trivial
    | reports =>
      -- Nothing is active behind `_end`.
      cases goes
      intro a _ hc
      cases hc.1
    | exits worker =>
      obtain rfl : found = [] := hm
      exact minds_nil _ _
  | safeStop timeout => exact absurd rfl (hlooks.1 timeout)
  | safeStopClaim => exact absurd rfl hlooks.2
  | safeStopHandshake | statusLocked | done _ => cases goes
  | _ =>
    obtain rfl : found = [] := hm
    exact minds_nil _ _

theorem minds_returns (hm : Minds c found job) (goes : c.returns E job = some moved) :
    Minds moved.2 found moved.1 := by
  cases job with
  | safeStopHandshake =>
    obtain ⟨⟨result, s', d⟩, -, rfl⟩ := Option.map_eq_some_iff.1 goes
    cases result <;> trivial
  | ending state error result next => cases goes
  | requestStop _ _ _ | stopping _ _ _ _ _ _ | joining _ _ _ _ _ | safeStopClaim | safeStopStatus | statusLocked
  | done _ => cases goes
  | _ =>
    obtain rfl : found = [] := hm
    exact minds_nil _ _

/-- **Every thread minds the claims it has found.** -/
structure Minding (x : Chron σ) : Prop where
  fresh : ∀ i, x.ctl.threads.length ≤ i → x.concerns i = []
  known : ∀ i, ∀ a ∈ x.concerns i, 0 < a ∧ a ≤ x.ctl.claims
  minds : ∀ i t, x.ctl.threads[i]? = some t → Minds x.ctl (x.concerns i) t.job

theorem minding_init (link : σ) : Minding (init link) := ⟨fun _ _ => rfl, by simp [init], fun _ _ _ => minds_nil _ _⟩

theorem looked_of_ne {move : Move} {i : Nat} (h : move ≠ .advance i) : x.looked move i = x.concerns i := by
  unfold looked
  split
  · exact if_neg (fun heq => h (by rw [heq]))
  · rfl

theorem looked_advance {i : Nat} {job : Job} (h : x.ctl.threads[i]? = some (Job.thread job)) :
    x.looked (.advance i) i = meets x.ctl (some job) (x.concerns i) := by
  have hjob : x.jobAt i = some job := jobAt_eq h
  rw [← hjob]
  exact if_pos rfl

theorem current_of_awaits {i a : Nat} (h : x.awaits i = false) (ha : a ∈ x.concerns i) : ¬x.ctl.Current a := by
  rintro ⟨hactive, rfl⟩
  simp [awaits, hactive, ha] at h

theorem claims_le (h : Claims x y) : x.ctl.claims ≤ y.ctl.claims := by
  cases h with
  | holds kind claims ends worker => exact Nat.le_of_eq claims.symm
  | takes free kind claims ends => omega
  | releases e t comes goes active kind claims ends => exact Nat.le_of_eq claims.symm

theorem looks_or (job : Job) : ((∀ timeout, job ≠ .safeStop timeout) ∧ job ≠ .safeStopClaim) ∨
    (∃ timeout, job = .safeStop timeout) ∨ job = .safeStopClaim := by
  cases job <;> simp

/-- `safe_stop` looks for a claim, and then claims for itself; the others go on minding what they have found. -/
theorem meets_looks (hx : Minding x) (hmanned : Manned x.ctl) (haudited : Audited x) (hclaims : Claims x y)
    (hallowed : x.heeded E (.advance i)) (old : x.ctl.threads[i]? = some (Job.thread job))
    (goes : x.ctl.advance E i job = some moved) (hy : y.ctl = Ctl.place i moved) :
    (∀ a ∈ meets x.ctl (some job) (x.concerns i), 0 < a ∧ a ≤ moved.2.claims) ∧
      Minds moved.2 (meets x.ctl (some job) (x.concerns i)) moved.1 := by
  have hle : x.ctl.claims ≤ moved.2.claims := by
    have hgrow := claims_le hclaims
    rw [hy] at hgrow
    exact hgrow
  have hknown : ∀ a ∈ x.concerns i, 0 < a ∧ a ≤ moved.2.claims := fun a ha =>
    ⟨(hx.known i a ha).1, Nat.le_trans (hx.known i a ha).2 hle⟩
  rcases looks_or job with hlooks | ⟨timeout, rfl⟩ | rfl
  · have hsame : meets x.ctl (some job) (x.concerns i) = x.concerns i := by
      cases job <;> first | rfl | exact absurd rfl (hlooks.1 _) | exact absurd rfl hlooks.2
    rw [hsame]
    refine ⟨hknown, minds_advance (hx.minds i _ old) hmanned goes hlooks ?_⟩
    rintro kind safe timeout rfl a ha ⟨hactive, rfl⟩
    have hjob : x.jobAt i = some (.requestStop kind safe timeout) := jobAt_eq old
    have hawaits : x.awaits i = true := by simp [awaits, hactive, ha]
    simpa [heeded, hjob, hawaits, Option.isSome_iff_ne_none] using hallowed
  · have hnil : x.concerns i = [] := hx.minds i _ old
    have hmeets : meets x.ctl (some (.safeStop timeout)) (x.concerns i) =
        if x.ctl.activeKind.isSome then [x.ctl.claims] else [] := by
      rw [hnil]
      rfl
    rw [hmeets]
    cases hkind : x.ctl.activeKind with
    | none => exact ⟨by simp, minds_nil _ _⟩
    | some kind =>
      have hpos := haudited.claimed (by simp [hkind])
      cases kind <;> simp only [Ctl.advance, hkind] at goes <;> cases goes
      · exact ⟨by simpa using hpos, fun _ _ _ => hkind⟩
      · exact ⟨by simpa using hpos, fun _ _ _ => hkind⟩
      · exact ⟨by simpa using hpos, trivial⟩
  · by_cases hactive : x.ctl.activeKind.isSome
    · have hmeets : meets x.ctl (some .safeStopClaim) (x.concerns i) = x.concerns i := if_pos hactive
      rw [hmeets]
      refine ⟨hknown, ?_⟩
      simp only [Ctl.advance, hactive] at goes
      cases goes
      trivial
    · have hmeets : meets x.ctl (some .safeStopClaim) (x.concerns i) = (x.ctl.claims + 1) :: x.concerns i :=
        if_neg hactive
      have hcount : moved.2.claims = x.ctl.claims + 1 ∧ moved.1 = .safeStopHandshake := by
        simp only [Ctl.advance, hactive] at goes
        cases goes
        exact ⟨by simp [Ctl.claims], rfl⟩
      rw [hmeets, hcount.2]
      refine ⟨fun a ha => ?_, trivial⟩
      rcases List.mem_cons.1 ha with rfl | hold
      · exact ⟨Nat.succ_pos _, Nat.le_of_eq hcount.1.symm⟩
      · exact hknown a hold

theorem minding_step {move : Move} (hx : Minding x) (hmanned : Manned x.ctl) (haudited : Audited x)
    (hclaims : Claims x y) (hallowed : x.heeded E move) (h : x.step E move = some y) : Minding y := by
  obtain ⟨hstepped, -, -, hconcerns⟩ := step_eq_some h
  have hlook : ∀ {i : Nat} {job : Job} {moved : Job × Ctl σ}, move = .advance i →
      x.ctl.threads[i]? = some (Job.thread job) → x.ctl.advance E i job = some moved → y.ctl = Ctl.place i moved →
      (∀ a ∈ meets x.ctl (some job) (x.concerns i), 0 < a ∧ a ≤ moved.2.claims) ∧
        Minds moved.2 (meets x.ctl (some job) (x.concerns i)) moved.1 := by
    rintro i job moved rfl old goes hy
    exact meets_looks hx hmanned haudited hclaims hallowed old goes hy
  refine ⟨fun i hi => ?_, fun i => ?_, fun i t ht => ?_⟩ <;> rw [hconcerns]
  · have hnew : x.ctl.threads.length ≤ i := Nat.le_trans hstepped.length_le hi
    rw [looked_of_ne, hx.fresh i hnew]
    rintro rfl
    obtain ⟨job, moved, hcomes, -⟩ := hstepped.of_advance
    rw [List.getElem?_eq_none hnew] at hcomes
    cases hcomes
  · by_cases hmove : move = .advance i
    · subst hmove
      obtain ⟨job, moved, hcomes, hgoes, hplace⟩ := hstepped.of_advance
      rw [looked_advance hcomes, hplace]
      exact (hlook rfl hcomes hgoes hplace).1
    · rw [looked_of_ne hmove]
      exact fun a ha => ⟨(hx.known i a ha).1, Nat.le_trans (hx.known i a ha).2 (claims_le hclaims)⟩
  · have harrives := hstepped.arrives ht
    generalize t.job = job at harrives ⊢
    cases harrives with
    | stays v old still =>
      rw [looked_of_ne still]
      exact minds_stays (hx.minds i v old) (fun w hw => (hmanned.worker w hw).1)
        (fun a ha hy => current_step hclaims (hx.known i a ha).2 hy)
    | called job new call isCall =>
      rw [looked_of_ne (by rw [call]; simp), hx.fresh i (Nat.le_of_eq new.symm)]
      exact minds_nil _ _
    | spawned thread job worker new spawner advance spawns =>
      have hne : move ≠ .advance i := by
        rintro rfl
        cases advance
        rw [new, List.getElem?_eq_none (Nat.le_refl _)] at spawner
        cases spawner
      rw [looked_of_ne hne, hx.fresh i (Nat.le_of_eq new.symm)]
      exact minds_nil _ _
    | advanced job moved old advance goes =>
      subst advance
      have hy := hstepped.advanced old goes
      rw [looked_advance old, hy]
      exact (hlook rfl old goes hy).2
    | returned v moved old returns calling goes =>
      subst returns
      rw [looked_of_ne (by simp), hstepped.of_returns old goes]
      exact minds_returns (c := x.ctl) (hx.minds i v old) goes
    | timedOut job moved old timeout goes =>
      subst timeout
      have hawaits : x.awaits i = false := by simpa [heeded] using hallowed
      have hover : ∀ a ∈ x.concerns i, ¬y.ctl.Current a := fun a ha hy =>
        current_of_awaits hawaits ha (current_step hclaims (hx.known i a ha).2 hy).1
      rw [looked_of_ne (by simp)]
      obtain ⟨job', completed, rfl, ⟨outcome, rfl⟩ | rfl⟩ := Ctl.joinTimeout_closed goes
      · exact minds_done hover outcome
      · exact hover

/-! ## The run -/

/-- What holds in every state of a run in which every stop is heeded. -/
structure Heeds (x : Chron σ) : Prop where
  manned : Manned x.ctl
  audited : Audited x
  settling : Settling x
  settled : Settled x
  minding : Minding x

theorem heeds_init (link : σ) : Heeds (init link) :=
  ⟨Ctl.manned_init link, audited_init link, by simp [Settling, init, Ctl.init], by simp [Settled, init],
    minding_init link⟩

theorem heeds_step {move : Move} (hx : Heeds x) (hallowed : x.heeded E move) (h : x.step E move = some y) :
    Heeds y := by
  have howned := hx.manned.owned
  have hclaims := claims_step howned h
  have hctl : x.ctl.step E move = some y.ctl := by
    obtain ⟨d, hstep, rfl⟩ := Option.map_eq_some_iff.1 h
    exact hstep
  exact ⟨Ctl.manned_step hx.manned hctl, audited_step hx.audited hclaims, settling_step hx.settling howned hallowed h,
    settled_step hx.settled hx.settling hclaims, minding_step hx.minding hx.manned hx.audited hclaims hallowed h⟩

/-- The claim is over, and it ended in ERROR or with PASS acknowledged. -/
def Over (x : Chron σ) (claim : Nat) : Prop :=
  ¬x.ctl.Current claim ∧ ∃ e ∈ x.ends, e.claim = claim ∧ (e.state = .error ∨ e.reconciled)

instance (x : Chron σ) (claim : Nat) : Decidable (x.Over claim) := inferInstanceAs (Decidable (¬(_ ∧ _) ∧ _))

/-- Every `safe_stop` that has come back has left the claims it has to do with over. -/
def Stopped (x : Chron σ) : Prop :=
  ∀ i outcome phase, x.ctl.threads[i]? = some ⟨.done (.ok outcome), phase⟩ → ∀ a ∈ x.concerns i, x.Over a

theorem Heeds.stopped (hx : Heeds x) : Stopped x := by
  intro i outcome phase ht a ha
  have hover : ∀ a ∈ x.concerns i, ¬x.ctl.Current a := hx.minding.minds i _ ht
  obtain ⟨hpos, hle⟩ := hx.minding.known i a ha
  obtain ⟨e, he, hclaim⟩ := (hx.audited.concluded a hpos hle).resolve_left (hover a ha)
  exact ⟨hover a ha, e, he, hclaim, hx.settled e he⟩

/-- A recording is started, up to its handshake. -/
def startMoves : List Move := [.call (.startRecording "take"), .advance 0, .advance 0, .advance 0, .begins 0]

/-- It is launched, and a `safe_stop` goes on to join its worker. -/
def safeStopping : List Move :=
  startMoves ++ [.returns 0, .advance 0, .call (.safeStop 10), .advance 1, .advance 1, .advance 1]

/-- The worker's `stop` and, where that raises, its `abort`. -/
def abortMoves : List Move :=
  [.advance 0, .advance 0, .advance 2, .begins 2, .returns 2, .begins 2, .returns 2, .advance 2]

theorem not_stopped (i claim : Nat) (hback : x.ctl.threads[i]? = some ⟨.done (.ok none), .outside⟩)
    (hfound : claim ∈ x.concerns i) (hover : ¬x.Over claim) : ¬Stopped x :=
  fun hstopped => hover (hstopped i none .outside hback claim hfound)

end Chron

end PiZero
end PicoRecorder
