import PicoRecorder.PiZero.Moves
import PicoRecorder.PiZero.Reconcile
/-!
# Ownership — one owner of the transport

`_active_kind` is the claim on the transport.  A thread owns it by the place it is at: from the block that claims it on,
the requesting thread until it has started the worker, then the worker, until the `_end` that releases it.  The ledger
and the places agree in every state of every run; that the owner comes to its release needs `_meta_lock`, and a
`safe_stop` that loses its race does not give it back.
-/
namespace PicoRecorder
namespace PiZero

open Lib

namespace Ctl

variable {σ : Type} {E : Env σ} {c d : Ctl σ} {thread : Nat} {job : Job} {moved : Job × Ctl σ}

/-- **The claim, the places and `cancel_event` agree.** -/
structure Owned (c : Ctl σ) : Prop where
  tracks : Baton.Tracks c.Owns c.activeKind.isSome c.ledger
  kinds : ∀ t ∈ c.threads, t.job.kind = none ∨ t.job.kind = c.activeKind
  calling : ∀ t ∈ c.threads, t.phase ≠ Phase.outside → t.job.owns
  cancel : c.cancelEvent.isSome → ∃ t ∈ c.threads, t.phase ≠ Phase.outside ∧ t.job.isRunPlayback

theorem owned_init (link : σ) : Owned (Ctl.init link) :=
  ⟨⟨none, rfl, rfl, fun i => by simp [Owns, Ctl.init]⟩, by simp [Ctl.init], by simp [Ctl.init], by simp [Ctl.init]⟩

section Threads

variable {t u : Thread} {threads : List Thread}

theorem owns_self (ht : c.threads[thread]? = some t) : c.Owns thread ↔ t.job.owns = true := by
  simp [Owns, ht]

/-- A thread that was moved is at its new place, the others are where they were. -/
theorem owns_set (hlt : thread < threads.length) (hd : d.threads = threads.set thread u) (i : Nat) :
    d.Owns i ↔ if i = thread then u.job.owns = true else ∃ t, threads[i]? = some t ∧ t.job.owns := by
  unfold Owns
  rw [hd]
  by_cases hi : i = thread
  · subst hi
    simp [List.getElem?_set_self hlt]
  · rw [if_neg hi, List.getElem?_set_ne (Ne.symm hi)]

theorem mem_set_of_ne (ht : threads[thread]? = some t) (hu : u ∈ threads) (hne : u ≠ t) (v : Thread) :
    u ∈ threads.set thread v := by
  obtain ⟨i, hi⟩ := List.mem_iff_getElem?.1 hu
  have hne' : thread ≠ i := by
    intro heq
    subst heq
    exact hne (Option.some.inj (hi.symm.trans ht))
  exact List.mem_iff_getElem?.2 ⟨i, by rw [List.getElem?_set_ne hne', hi]⟩

theorem calling_set {v : Thread} (h : ∀ t ∈ threads, t.phase ≠ Phase.outside → t.job.owns)
    (hv : v.phase ≠ Phase.outside → v.job.owns) :
    ∀ t ∈ threads.set thread v, t.phase ≠ Phase.outside → t.job.owns := by
  intro t ht
  rcases List.mem_or_eq_of_mem_set ht with hmem | rfl
  · exact h t hmem
  · exact hv

theorem calling_append (h : ∀ t ∈ threads, t.phase ≠ Phase.outside → t.job.owns) (job : Job) :
    ∀ t ∈ threads ++ [job.thread], t.phase ≠ Phase.outside → t.job.owns := by
  intro t ht hphase
  rcases List.mem_append.1 ht with hmem | hmem
  · exact h t hmem hphase
  · rw [List.mem_singleton.1 hmem] at hphase
    exact absurd rfl hphase

end Threads

/-- The places of the threads after one of them moved, by what it did to the claim. -/
theorem tracks_place {t : Thread} (hc : Baton.Tracks c.Owns c.activeKind.isSome c.ledger)
    (ht : c.threads[thread]? = some t) (heffect : Effect thread c t.job moved) :
    Baton.Tracks (place thread moved).Owns moved.2.activeKind.isSome moved.2.ledger := by
  have hlt : thread < c.threads.length := (List.getElem?_eq_some_iff.1 ht).1
  cases heffect with
  | @keep job' d howns hthreads hkind hworks hledger =>
    rw [hkind, hledger]
    refine hc.congr (fun i => ?_)
    rw [owns_set (by rwa [hthreads]) rfl, hthreads]
    by_cases hi : i = thread
    · rw [if_pos hi, hi, owns_self ht, ← howns]
      rfl
    · rw [if_neg hi, Owns]
  | @take job' d hbefore hafter hthreads hfree hkind hworks hledger =>
    rw [hkind, hledger]
    rw [hfree] at hc
    refine hc.take thread (fun i => ?_)
    rw [owns_set (by rwa [hthreads]) rfl, hthreads]
    by_cases hi : i = thread
    · simp [hi, Job.thread, hafter]
    · simp [hi, Owns]
  | @hand job' d worker hbefore hafter howner hworks hworking hthreads hkind hledger =>
    rw [hkind, hledger]
    have hself := (owns_self ht).2 hbefore
    refine hc.hand hself c.threads.length (fun i => ?_)
    rw [owns_set (by rw [hthreads]; simp; omega) rfl, hthreads]
    by_cases hi : i = thread
    · simp [hi, Job.thread, hafter, Nat.ne_of_lt hlt]
    · rw [if_neg hi]
      by_cases hold : i < c.threads.length
      · rw [List.getElem?_append_left hold]
        exact iff_of_false (fun howns => hi (hc.unique howns hself)) (Nat.ne_of_lt hold)
      · rw [List.getElem?_append_right (Nat.le_of_not_lt hold), List.getElem?_singleton]
        have heq : i - c.threads.length = 0 ↔ i = c.threads.length := by omega
        by_cases hlast : i = c.threads.length
        · simp [hlast, Job.thread, howner]
        · simp [heq, hlast]
  | @drop job' d hbefore hworks hafter hthreads hkind hledger =>
    rw [hkind, hledger]
    have hself := (owns_self ht).2 hbefore
    refine hc.drop hself (fun i => ?_)
    rw [owns_set (by rwa [hthreads]) rfl, hthreads]
    by_cases hi : i = thread
    · simp [hi, Job.thread, hafter]
    · rw [if_neg hi]
      exact fun howns => hi (hc.unique howns hself)

theorem Effect.threads (h : Effect thread c job moved) :
    moved.2.threads = c.threads ∨ ∃ worker : Job, moved.2.threads = c.threads ++ [worker.thread] := by
  cases h with
  | keep _ hthreads _ _ _ => exact .inl hthreads
  | take _ _ hthreads _ _ _ _ => exact .inl hthreads
  | hand worker _ _ _ _ _ hthreads _ _ => exact .inr ⟨worker, hthreads⟩
  | drop _ _ _ hthreads _ _ => exact .inl hthreads

/-- After a move every thread still works under the kind that is claimed. -/
theorem Effect.kinds {t : Thread} (heffect : Effect thread c t.job moved) (ht : c.threads[thread]? = some t)
    (hc : Baton.Tracks c.Owns c.activeKind.isSome c.ledger)
    (hkinds : ∀ t ∈ c.threads, t.job.kind = none ∨ t.job.kind = c.activeKind) :
    ∀ u ∈ (place thread moved).threads, u.job.kind = none ∨ u.job.kind = moved.2.activeKind := by
  intro u hu
  have hmover := hkinds t (List.mem_of_getElem? ht)
  -- A thread that works under a kind is the one that owns the claim.
  have howner : ∀ u ∈ c.threads, u.job.kind ≠ none → ∃ i, c.threads[i]? = some u ∧ c.Owns i := by
    intro u hu hne
    obtain ⟨i, hi⟩ := List.mem_iff_getElem?.1 hu
    exact ⟨i, hi, u, hi, Job.owns_of_kind hne⟩
  cases heffect with
  | keep _ hthreads hkind hworks _ =>
    rcases List.mem_or_eq_of_mem_set hu with hold | rfl
    · rw [hkind]
      exact hkinds u (hthreads ▸ hold)
    · rw [hkind]
      rcases hworks with hnone | hsame
      · exact .inl hnone
      · exact hsame.symm ▸ hmover
  | take _ _ hthreads hfree _ hworks _ =>
    rcases List.mem_or_eq_of_mem_set hu with hold | rfl
    · by_cases hne : u.job.kind = none
      · exact .inl hne
      · obtain ⟨i, -, howns⟩ := howner u (hthreads ▸ hold) hne
        rw [hfree] at hc
        exact absurd (hc.held_of howns) (by simp)
    · exact .inr hworks
  | hand worker _ hafter _ hworks _ hthreads hkind _ =>
    rw [hkind]
    rcases List.mem_or_eq_of_mem_set hu with hold | rfl
    · rw [hthreads] at hold
      rcases List.mem_append.1 hold with hold | hnew
      · exact hkinds u hold
      · rw [List.mem_singleton.1 hnew]
        exact hworks.symm ▸ hmover
    · refine .inl ?_
      by_contra hne
      exact absurd (Job.owns_of_kind hne) (by simp [Job.thread, hafter])
  | drop hbefore hworks hafter hthreads hkind _ =>
    refine .inl ?_
    by_contra hne
    rcases List.mem_or_eq_of_mem_set hu with hold | rfl
    · obtain ⟨i, hi, howns⟩ := howner u (hthreads ▸ hold) hne
      obtain rfl := hc.unique howns ⟨t, ht, hbefore⟩
      obtain rfl := Option.some.inj (hi.symm.trans ht)
      exact hne hworks
    · exact absurd (Job.owns_of_kind hne) (by simp [Job.thread, hafter])

/-- A thread outside of its calls moves. -/
theorem owned_place {t : Thread} (hc : Owned c) (ht : c.threads[thread]? = some t) (hphase : t.phase = .outside)
    (heffect : Effect thread c t.job moved) (hcancel : moved.2.cancelEvent = c.cancelEvent) :
    Owned (place thread moved) := by
  refine ⟨tracks_place hc.tracks ht heffect, heffect.kinds ht hc.tracks hc.kinds, ?_, fun hsome => ?_⟩
  · refine calling_set ?_ (fun hne => absurd rfl hne)
    rcases heffect.threads with hthreads | ⟨worker, hthreads⟩
    · rw [hthreads]
      exact hc.calling
    · rw [hthreads]
      exact calling_append hc.calling worker
  · obtain ⟨u, hu, hcalling, hrun⟩ := hc.cancel (hcancel ▸ hsome)
    have hne : u ≠ t := by
      rintro rfl
      exact hcalling hphase
    have hlt : thread < c.threads.length := (List.getElem?_eq_some_iff.1 ht).1
    refine ⟨u, ?_, hcalling, hrun⟩
    rcases heffect.threads with hthreads | ⟨worker, hthreads⟩
    · exact mem_set_of_ne (by rw [hthreads, ht]) (hthreads ▸ hu) hne _
    · refine mem_set_of_ne ?_ (hthreads ▸ List.mem_append_left _ hu) hne _
      rw [hthreads, List.getElem?_append_left hlt, ht]

/-- A thread goes into a call, or in and out of the transport, at the place it is at. -/
theorem owned_enter {t : Thread} {phase : Phase} (hc : Owned c) (ht : c.threads[thread]? = some t) (hjob : t.job.owns)
    (hthreads : d.threads = c.threads) (hkind : d.activeKind = c.activeKind) (hledger : d.ledger = c.ledger)
    (hphase : phase ≠ .outside) (hcancel : d.cancelEvent = c.cancelEvent ∨ t.job.isRunPlayback) :
    Owned (d.enter thread t.job phase) := by
  have hlt : thread < c.threads.length := (List.getElem?_eq_some_iff.1 ht).1
  refine ⟨?_, ?_, ?_, fun hsome => ?_⟩
  · rw [show (d.enter thread t.job phase).activeKind = c.activeKind from hkind,
      show (d.enter thread t.job phase).ledger = c.ledger from hledger]
    refine hc.tracks.congr (fun i => ?_)
    rw [owns_set (by rwa [hthreads]) rfl, hthreads]
    by_cases hi : i = thread
    · rw [if_pos hi, hi, owns_self ht]
    · rw [if_neg hi, Owns]
  · intro u hu
    rw [show (d.enter thread t.job phase).activeKind = c.activeKind from hkind]
    rcases List.mem_or_eq_of_mem_set hu with hold | rfl
    · exact hc.kinds u (hthreads ▸ hold)
    · exact hc.kinds t (List.mem_of_getElem? ht)
  · exact calling_set (hthreads ▸ hc.calling) (fun _ => hjob)
  · have hself : (⟨t.job, phase⟩ : Thread) ∈ d.threads.set thread ⟨t.job, phase⟩ :=
      List.mem_set (by rwa [hthreads]) _
    by_cases hrun : t.job.isRunPlayback
    · exact ⟨_, hself, hphase, hrun⟩
    · obtain ⟨u, hu, hcalling, hrun'⟩ := hc.cancel ((hcancel.resolve_right hrun) ▸ hsome)
      have hne : u ≠ t := by
        rintro rfl
        exact hrun hrun'
      exact ⟨u, mem_set_of_ne (hthreads ▸ ht) (hthreads ▸ hu) hne _, hcalling, hrun'⟩

/-- A call comes back. -/
theorem owned_returns {t : Thread} (hc : Owned c) (ht : c.threads[thread]? = some t)
    (hreturned : Returned c t.job moved) : Owned (place thread moved) := by
  have heffect : Effect thread c t.job moved :=
    .keep (hreturned.after.trans hreturned.before.symm) hreturned.threads hreturned.kind hreturned.works
      hreturned.ledger
  refine ⟨tracks_place hc.tracks ht heffect, heffect.kinds ht hc.tracks hc.kinds, ?_, fun hsome => ?_⟩
  · exact calling_set (hreturned.threads ▸ hc.calling) (fun hne => absurd rfl hne)
  · have hcancel : (place thread moved).cancelEvent = if t.job.isRunPlayback then none else c.cancelEvent :=
      hreturned.cancel
    by_cases hrun : t.job.isRunPlayback
    · rw [hcancel, if_pos hrun] at hsome
      cases hsome
    · rw [hcancel, if_neg hrun] at hsome
      obtain ⟨u, hu, hcalling, hrun'⟩ := hc.cancel hsome
      have hne : u ≠ t := by
        rintro rfl
        exact hrun hrun'
      exact ⟨u, mem_set_of_ne (hreturned.threads ▸ ht) (hreturned.threads ▸ hu) hne _, hcalling, hrun'⟩

theorem owned_step {move : Move} (hc : Owned c) (h : c.step E move = some d) : Owned d := by
  cases move with
  | call job =>
    simp only [step] at h
    split at h
    · rename_i hcall
      cases h
      have hnot : job.owns = false := by
        cases job <;> first | rfl | cases hcall
      refine ⟨hc.tracks.congr (fun i => ?_), fun u hu => ?_, calling_append hc.calling job, fun hsome => ?_⟩
      · unfold Owns
        by_cases hold : i < c.threads.length
        · rw [List.getElem?_append_left hold]
        · rw [List.getElem?_append_right (Nat.le_of_not_lt hold), List.getElem?_eq_none (Nat.le_of_not_lt hold)]
          by_cases hlast : i - c.threads.length = 0
          · simp [hlast, Job.thread, hnot]
          · simp [hlast]
      · rcases List.mem_append.1 hu with hold | hnew
        · exact hc.kinds u hold
        · rw [List.mem_singleton.1 hnew]
          by_contra hne
          have howns : job.owns := Job.owns_of_kind (fun hnone => hne (.inl hnone))
          rw [hnot] at howns
          cases howns
      · obtain ⟨u, hu, hcalling⟩ := hc.cancel hsome
        exact ⟨u, List.mem_append_left _ hu, hcalling⟩
    · cases h
  | status =>
    obtain ⟨-, rfl⟩ := statuses h
    exact hc
  | advance thread =>
    rw [step] at h
    obtain ⟨t, moved, ht, hphase, -, hmoved, rfl⟩ := advances h
    exact owned_place hc ht hphase (advance_effect hmoved) (advance_cancelEvent hmoved).1
  | begins thread =>
    rw [step] at h
    obtain ⟨t, ht, -, hmap⟩ := act_eq_some h
    obtain ⟨d, hbegins, rfl⟩ := Option.map_eq_some_iff.1 hmap
    obtain ⟨hjob, hthreads, hkind, hledger, hcancel, -⟩ := begins_effect hbegins
    exact owned_enter hc ht hjob hthreads hkind hledger (by simp) hcancel
  | enters thread =>
    rw [step] at h
    obtain ⟨t, ht, hphase, heq⟩ := act_eq_some h
    cases heq
    exact owned_enter hc ht (hc.calling t (List.mem_of_getElem? ht) (by simp [hphase])) rfl rfl rfl (by simp) (.inl rfl)
  | leaves thread =>
    rw [step] at h
    obtain ⟨t, ht, hphase, heq⟩ := act_eq_some h
    cases heq
    exact owned_enter hc ht (hc.calling t (List.mem_of_getElem? ht) (by simp [hphase])) rfl rfl rfl (by simp) (.inl rfl)
  | returns thread =>
    rw [step] at h
    obtain ⟨t, ht, -, hmap⟩ := act_eq_some h
    obtain ⟨moved, hmoved, rfl⟩ := Option.map_eq_some_iff.1 hmap
    exact owned_returns hc ht (returns_effect hmoved)
  | joinTimeout thread =>
    rw [step] at h
    obtain ⟨t, ht, hphase, hmap⟩ := act_eq_some h
    obtain ⟨moved, hmoved, rfl⟩ := Option.map_eq_some_iff.1 hmap
    exact owned_place hc ht hphase (joinTimeout_effect hmoved) (joinTimeout_cancelEvent hmoved).1

theorem run_invariant {P : Ctl σ → Prop} (hstep : ∀ c d move, P c → c.step E move = some d → P d) (hc : P c)
    (moves : List Move) : P (c.run E moves) := by
  refine foldl_invariant (fun c move hc => ?_) moves c hc
  cases h : c.step E move with
  | none => exact hc
  | some d => exact hstep c d move hc h

theorem owned_run (link : σ) (moves : List Move) : Owned ((Ctl.init link).run E moves) :=
  run_invariant (fun _ _ _ hc h => owned_step hc h) (owned_init link) moves

/-! ## The lock -/

/-- A `safe_stop` that saw nobody active takes the lock again, to claim, and finds somebody: it loses the race, and then
waits for the lock it holds. -/
def loses (c : Ctl σ) : Move → Bool
  | .advance thread =>
    match c.threads[thread]? with
    | some ⟨.safeStopClaim, .outside⟩ => c.activeKind.isSome
    | _ => false
  | _ => false

/-- The lock stays free. -/
theorem unlocked_step {move : Move} (hlock : c.metaLock = none) (hloses : c.loses move = false)
    (h : c.step E move = some d) : d.metaLock = none := by
  cases stepped h with
  | status | call | enter => exact hlock
  | advance thread job moved comes goes =>
    rcases (advance_cancelEvent goes).2 with hkept | ⟨rfl, hactive⟩
    · exact hkept.trans hlock
    · rw [loses, comes] at hloses
      exact absurd hactive (by simp [Job.thread] at hloses; simp [hloses])
  | returns thread t moved comes calling goes => exact (returns_effect goes).lock.trans hlock
  | joinTimeout thread job moved comes goes => exact (joinTimeout_cancelEvent goes).2.trans hlock

/-- A thread can move from the place it is at, by itself. -/
def CanGo (E : Env σ) (c : Ctl σ) (i : Nat) : Prop :=
  (c.step E (.advance i)).isSome ∨ (c.step E (.begins i)).isSome

instance (E : Env σ) (c : Ctl σ) (i : Nat) : Decidable (CanGo E c i) := inferInstanceAs (Decidable (_ ∨ _))

/-- **While the lock is free an owner is not held up**: it goes on to the next block, or calls its session. -/
theorem owner_goes {t : Thread} (hlock : c.metaLock = none) (ht : c.threads[thread]? = some t) (howns : t.job.owns)
    (hphase : t.phase = .outside) : CanGo E c thread := by
  have hgoes : (c.advance E thread t.job).isSome ∨ (c.begins t.job).isSome → CanGo E c thread := by
    rintro (hgo | hgo)
    · refine .inl ?_
      rw [step, act_of ht hphase, hlock]
      simpa using hgo
    · refine .inr ?_
      rw [step, act_of ht hphase]
      simpa using hgo
  apply hgoes
  cases hjob : t.job with
  | recordingCreate _ | recordingLaunch _ | recordingRespond _ _ | recordingSpawn _ _ | playbackLaunch _
  | playbackRespond _ _ | playbackSpawn _ _ => exact .inl rfl
  | recordingHandshake _ | recordingFailed _ _ | recordingStop _ _ | recordingCleanup _ _ _ | playbackStart _
  | playbackFailed _ _ | runPlayback _ _ | playbackAbort _ _ | playbackCleanup _ _ _ | safeStopHandshake =>
    exact .inr rfl
  | recordingStart session =>
    refine .inl ?_
    simp only [advance]
    split <;> rfl
  | playbackCreate recording args =>
    refine .inl ?_
    simp only [advance]
    split <;> rfl
  | ending state error result next =>
    cases next <;> exact .inl rfl
  | runRecording session event =>
    by_cases hset : c.isSet event
    · exact .inl (by simp [advance, hset])
    · exact .inr (by simp [begins, hset])
  | _ =>
    rw [hjob] at howns
    cases howns

/-- **One owner at a time.** -/
structure OneOwner (E : Env σ) (c : Ctl σ) : Prop where
  /-- No two threads are inside the transport. -/
  inside : ∀ i j, c.Inside i → c.Inside j → i = j
  /-- The claim is held by the one thread at an owner's place, and by nobody exactly when `_active_kind` is `None`. -/
  claimed : ∃ holder, Baton.monitor.after c.ledger = some holder ∧ holder.isSome = c.activeKind.isSome ∧
    ∀ i, c.Owns i ↔ holder = some i
  /-- A claim once taken is only handed on by its holder until its holder releases it, once. -/
  released : ∀ later i earlier, c.ledger = later ++ .take i :: earlier →
    (c.activeKind.isSome ∧ ∀ b ∈ later, b.isHand) ∨
      ∃ newer j hands, later = newer ++ .drop j :: hands ∧ ∀ b ∈ hands, b.isHand
  /-- And nothing keeps its holder from going on to that. -/
  goes : ∀ i t, c.threads[i]? = some t → t.job.owns → t.phase = .outside → CanGo E c i
  cancel : c.activeKind ≠ some .playback → c.cancelEvent = none

/-- From the agreement of claim, places and `cancel_event`, and a free lock. -/
theorem Owned.oneOwner (howned : Owned c) (hlock : c.metaLock = none) : OneOwner E c := by
  have hinside : ∀ i, c.Inside i → c.Owns i := by
    rintro i ⟨t, ht, hphase⟩
    exact ⟨t, ht, howned.calling t (List.mem_of_getElem? ht) (by simp [hphase])⟩
  refine ⟨fun i j hi hj => howned.tracks.unique (hinside i hi) (hinside j hj), howned.tracks, ?_,
    fun i t ht howns hphase => owner_goes hlock ht howns hphase, ?_⟩
  · intro later i earlier hledger
    obtain ⟨holder, hafter, hheld, -⟩ := howned.tracks
    rw [hledger] at hafter
    rw [← hheld]
    exact Baton.dropped_once later hafter
  · intro hkind
    by_contra hcancel
    obtain ⟨t, ht, -, hrun⟩ := howned.cancel (Option.isSome_iff_ne_none.2 hcancel)
    have hplayback : t.job.kind = some .playback := by
      cases hjob : t.job <;> rw [hjob] at hrun <;> first | rfl | cases hrun
    rcases howned.kinds t ht with hnone | hactive
    · rw [hplayback] at hnone
      cases hnone
    · exact hkind (hactive.symm.trans hplayback)

/-- The store holds one recording under every name; `start_playback` takes a prebuffer of 500 ms and refuses any
other. -/
def scriptedEnv : Env (Int × List ReadResult) where
  link := scriptedLink
  store := emptyStore
  load name w := (.ok ⟨name, 0, [⟨0, List.replicate 8 0⟩]⟩, w)
  rename _ _ w := (.ok (), w)
  delete _ w := (.ok (), w)
  setup _ args :=
    if args.prebufferMs = "500" then .ok ⟨[(0, List.replicate 8 0)], 500000, none⟩
    else .error (.raised .recorder "prebuffer must be at least 500 ms")
  modeTimeout := 2000000
  recordPollInterval := 250000

/-- `safe_stop` of an idle Controller, up to its end. -/
def safeStopMoves : List Move :=
  [.call (.safeStop 10), .advance 0, .advance 0, .begins 0, .enters 0, .leaves 0, .returns 0, .advance 0, .advance 0]

def recordWorld : Int × List ReadResult := (0, [acknowledges .record, acknowledges .pass, acknowledges .pass])

/-- A recording is launched, and a stop takes the lock before the worker is started. -/
def launchMoves : List Move :=
  [.call (.startRecording "take"), .advance 0, .advance 0, .advance 0, .begins 0, .returns 0, .advance 0,
    .call (.requestStop .record false 10), .advance 1, .advance 1]

/-- The worker is started, finds its event set and ends its session. -/
def workerMoves : List Move :=
  [.advance 0, .advance 0, .advance 2, .begins 2, .enters 2, .leaves 2, .returns 2, .advance 2]

/-- `start_recording` claims the Controller between the two blocks of a `safe_stop`. -/
def lostRaceMoves : List Move :=
  [.call (.safeStop 10), .advance 0, .call (.startRecording "take"), .advance 1, .advance 0]

/-- A session that has claimed the Controller waits for the lock, and the one that has it keeps it. -/
def Waits (c : Ctl σ) (i : Nat) : Prop :=
  c.metaLock.isSome ∧ ∃ t, c.threads[i]? = some t ∧ ∃ name, t.job = .recordingCreate name

theorem waits_step {i : Nat} {move : Move} (hc : c.Waits i) (h : c.step E move = some d) : d.Waits i := by
  obtain ⟨hlock, t, ht, name, hjob⟩ := hc
  have hstepped := stepped h
  refine ⟨?_, ?_⟩
  · cases hstepped with
    | status | call | enter => exact hlock
    | advance thread job moved comes goes =>
      rcases (advance_cancelEvent goes).2 with hkept | ⟨rfl, -⟩
      · exact hkept ▸ hlock
      · obtain ⟨u, moved', hu, -, hfree, -⟩ := advances h
        obtain rfl := Option.some.inj (comes.symm.trans hu)
        rw [hlock] at hfree
        cases hfree
    | returns thread t moved comes calling goes => exact (returns_effect goes).lock ▸ hlock
    | joinTimeout thread job moved comes goes => exact (joinTimeout_cancelEvent goes).2 ▸ hlock
  · have hlt : i < d.threads.length := (List.getElem?_eq_some_iff.1 ht).1.trans_le hstepped.length_le
    refine ⟨d.threads[i], List.getElem?_eq_getElem hlt, name, ?_⟩
    have hlast : i ≠ c.threads.length := Nat.ne_of_lt (List.getElem?_eq_some_iff.1 ht).1
    have harrives := hstepped.arrives (List.getElem?_eq_getElem hlt)
    generalize d.threads[i].job = job at harrives
    cases harrives with
    | stays v old still =>
      obtain rfl := Option.some.inj (old.symm.trans ht)
      exact hjob
    | called _ new => exact absurd new hlast
    | spawned _ _ _ new => exact absurd new hlast
    | advanced job moved old advance goes =>
      -- Its next block needs the lock.
      subst advance
      obtain ⟨v, moved', hv, -, hfree, -⟩ := advances h
      obtain rfl := Option.some.inj (hv.symm.trans ht)
      rw [hlock, hjob] at hfree
      cases hfree
    | returned v moved old returns calling goes =>
      obtain rfl := Option.some.inj (old.symm.trans ht)
      rw [hjob] at goes
      cases goes
    | timedOut job moved old timeout goes =>
      obtain rfl := Option.some.inj (old.symm.trans ht)
      rw [show job = .recordingCreate name from hjob] at goes
      cases goes

end Ctl
end PiZero
end PicoRecorder
