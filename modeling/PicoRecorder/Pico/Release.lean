import PicoRecorder.Pico.Steps
/-!
# Release — the all-keys-release comes before everything else

Two senders share one endpoint and only one of them looks at the pending release.  What holds the other one back is the
endpoint itself: after `pico_safety_release_service` a release still owed means an endpoint that is not ready, and
nothing but the next `tud_task` makes it ready again.
-/
namespace PicoRecorder
namespace Pico

open Lib (Monitor Preserved)

variable {β : Type} {d : Board β}

/-- TinyUSB's device endpoint: a ready one takes a report and is then not ready, and only `tud_task` makes it ready. -/
structure Board.Endpoint (d : Board β) : Prop where
  accepts : ∀ report b, d.hidReady b = true → (d.hidReport report b).1 = true
  taken : ∀ report b, (d.hidReport report b).1 = true → d.hidReady (d.hidReport report b).2 = false
  kept : ∀ b b', BoardCall d b b' → d.hidReady b' = true → d.hidReady b = true

/-- A requested release is owed until an all-zero report is taken for it; until then nobody else may get a report
through. -/
def releaseMonitor : Monitor Bool Obs where
  start := false
  step
    | _, .allRelease => some true
    | owed, .hid .release report true => some (owed && report != Report.releaseAll)
    | true, .hid _ _ true => none
    | owed, _ => some owed

def Obs.isReleasing : Obs → Bool
  | .allRelease | .hid _ _ true => true
  | _ => false

theorem releaseMonitor_idle {o : Obs} (ho : o.isReleasing = false) (trace : List Obs) :
    releaseMonitor.after (o :: trace) = releaseMonitor.after trace := by
  refine releaseMonitor.after_cons_idle (fun owed => ?_)
  match o with
  | .allRelease => cases ho
  | .hid _ _ true => cases ho
  | .hid source report false => cases owed <;> cases source <;> rfl
  | .captured _ | .pushed .. | .modeSet .. | .entered _ | .frame .. | .started _ | .completed .. => cases owed <;> rfl

/-- The flag is what the history owes. -/
def Owing (m : Fw β) : Prop := releaseMonitor.after m.rest.trace = some m.rest.releasePending

/-- Behind the safety release, an owed one holds the endpoint of a run busy. -/
def Holding (d : Board β) (m : Fw β) : Prop :=
  m.sched.running = true → m.rest.releasePending = true → d.hidReady m.rest.board = false

variable {phase : Phase} {m m' : Fw β}

theorem Owing.frame (ho : Owing m) (hp : m'.rest.releasePending = m.rest.releasePending)
    (ht : releaseMonitor.after m'.rest.trace = releaseMonitor.after m.rest.trace) : Owing m' := by
  unfold Owing
  rw [ht, hp]
  exact ho

theorem stopped_releases {running : Bool} {outcome trace : List Obs} (hs : Stopped running outcome) :
    releaseMonitor.after (outcome ++ trace) = releaseMonitor.after trace := by
  rcases hs with ⟨-, rfl⟩ | ⟨-, metrics, q₁, q₂, rfl⟩
  · rfl
  · simp only [List.cons_append, List.nil_append]
    rw [releaseMonitor_idle rfl, releaseMonitor_idle rfl, releaseMonitor_idle rfl]

theorem allRelease_owes {trace : List Obs} {owed : Bool} (h : releaseMonitor.after trace = some owed) :
    releaseMonitor.after (.allRelease :: trace) = some true := by
  rw [Monitor.after_cons_of _ h]
  cases owed <;> rfl

theorem transition_owing {target : Mode} {reason : Reason} (ho : Owing m) : Owing (transition d target reason m) := by
  obtain ⟨outcome, queued, htrace, hstop⟩ := transition_trace d target reason m
  have hp : (transition d target reason m).rest.releasePending = true := (clearReleaseAndQueue_spec d m).releasePending
  unfold Owing
  rw [hp, htrace, releaseMonitor_idle rfl, releaseMonitor_idle rfl]
  exact allRelease_owes ((stopped_releases hstop).trans ho)

theorem finish_owing (ho : Owing m) : Owing (finish d.mainHost .finished m) := by
  obtain ⟨metrics, q₁, q₂, htrace⟩ := finished_trace d m
  have hfinished : Owing (finished d m) := by
    refine ho.frame rfl ?_
    rw [htrace, releaseMonitor_idle rfl, releaseMonitor_idle rfl, releaseMonitor_idle rfl]
  rw [finish_main]
  split
  · exact hfinished.frame rfl (releaseMonitor_idle rfl _)
  · exact transition_owing hfinished

theorem arming_owing (ho : Owing m) (hs : Arming d.mainHost m m') : Owing m' := by
  rcases arming_cases hs with hq | ⟨-, -, -, -, hq⟩ | ⟨-, -, -, -, rfl⟩
  · obtain ⟨board, hrest, -⟩ := hq.rest
    exact ho.frame (by rw [hrest]) (by rw [hrest])
  · obtain ⟨board, elapsed, queued, -, hrest⟩ := hq.rest
    refine ho.frame (by rw [hrest]) ?_
    rw [hrest]
    exact releaseMonitor_idle rfl _
  · exact finish_owing ho

theorem serviceRelease_owing (ho : Owing m) : Owing { m with rest := (serviceRelease d m.rest).2 } := by
  unfold serviceRelease
  by_cases hp : m.rest.releasePending = true
  · rw [if_neg (by rw [hp]; decide)]
    rcases sendBootReport_cases d .release Report.releaseAll m.rest with ⟨-, he⟩ | ⟨-, he⟩ <;> rw [he]
    · exact ho.frame rfl (releaseMonitor_idle rfl _)
    · cases hsent : (d.hidReport Report.releaseAll m.rest.board).1
      · exact ho.frame rfl (releaseMonitor_idle rfl _)
      · have ho : releaseMonitor.after m.rest.trace = some true := hp ▸ ho
        have hserved : releaseMonitor.step true (.hid .release Report.releaseAll true) = some false := by decide
        exact (releaseMonitor.after_cons_of ho).trans hserved
  · rw [if_pos (by simpa using hp)]
    exact ho

/-- **Every step before the safety release** keeps the account of what is owed; no other report is submitted there. -/
theorem owing_input : Preserved (FwStep d .input) (Owing (β := β)) := by
  intro m m' hs ho
  cases hs with
  | tud => exact ho
  | board _ b call => exact ho
  | keyboard _ k => exact ho
  | capture _ timestamp report capture accepts push => exact ho.frame rfl (releaseMonitor_idle rfl _)
  | notify _ reason unchanged => exact ho.frame rfl (releaseMonitor_idle rfl _)
  | reply _ msg kind => exact ho.frame rfl (releaseMonitor_idle rfl _)
  | handled _ target accepted => exact ho.frame rfl (releaseMonitor_idle rfl _)
  | transition _ target reason changes => exact transition_owing ho
  | launch _ epoch armed idle =>
    obtain ⟨q₁, q₂, htrace⟩ : ∃ q₁ q₂, (launch d epoch m).rest.trace =
        .started epoch :: .frame (.playStarted epoch) q₂ :: .frame (.modeChanged .playing .ok) q₁ ::
          .entered .playing :: .allRelease :: m.rest.trace := ⟨_, _, rfl⟩
    have hp : (launch d epoch m).rest.releasePending = true := rfl
    unfold Owing
    rw [hp, htrace, releaseMonitor_idle rfl, releaseMonitor_idle rfl, releaseMonitor_idle rfl, releaseMonitor_idle rfl]
    exact allRelease_owes ho
  | enqueue _ event queue streams push => exact ho.frame rfl (releaseMonitor_idle rfl _)
  | reject _ event => exact ho.frame rfl (releaseMonitor_idle rfl _)
  | queueClear _ armed => exact ho
  | queueEnd _ streams => exact ho
  | takeFlowFault => exact ho
  | release => exact serviceRelease_owing ho
  | arming step => exact arming_owing ho step

/-! ## Behind the safety release -/

/-- **The safety release leaves nothing owed on a ready endpoint.** -/
theorem serviceRelease_holding (he : d.Endpoint) (m : Fw β) :
    Holding d { m with rest := (serviceRelease d m.rest).2 } := by
  intro _ hp
  unfold serviceRelease at hp ⊢
  by_cases hpend : m.rest.releasePending = true
  · rw [if_neg (by rw [hpend]; decide)] at hp ⊢
    rcases sendBootReport_cases d .release Report.releaseAll m.rest with ⟨hr, hs⟩ | ⟨hr, hs⟩ <;> rw [hs] at hp ⊢
    · exact hr
    · rw [he.accepts _ _ hr] at hp
      cases hp
  · rw [if_pos (by simpa using hpend)] at hp
    exact absurd hp hpend

theorem Holding.board {b : β} (he : d.Endpoint) (hh : Holding d m)
    (hr : m'.sched.running = true → m.sched.running = true)
    (hp : m'.rest.releasePending = m.rest.releasePending) (hm : m'.rest.board = b)
    (hb : Relation.ReflTransGen (BoardCall d) m.rest.board b) : Holding d m' := by
  intro hrun hpend
  rw [hp] at hpend
  have hbusy := hh (hr hrun) hpend
  have hkept : d.hidReady b = true → d.hidReady m.rest.board = true := by
    clear hm
    induction hb with
    | refl => exact id
    | tail _ call ih => exact fun h => ih (he.kept _ _ call h)
  rw [hm]
  exact Bool.eq_false_iff.2 (fun h => by rw [hkept h] at hbusy; cases hbusy)

theorem Holding.stopped (hr : m.sched.running = false) : Holding d m := fun h => by rw [hr] at h; cases h

/-- A report that somebody other than the safety release submits is either refused or owes nothing. -/
theorem sendBootReport_owing (source : HidSource) (report : Report) (he : d.Endpoint) (ho : Owing m)
    (hsource : source ≠ .release)
    (hcalm : (m.rest.sendBootReport d source report).1 = true → m.rest.releasePending = false) :
    Owing { m with rest := (m.rest.sendBootReport d source report).2 } := by
  rcases sendBootReport_cases d source report m.rest with ⟨-, hs⟩ | ⟨hr, hs⟩
  · rw [hs]
    exact ho.frame rfl (releaseMonitor_idle rfl _)
  · have ht := he.accepts report _ hr
    rw [hs] at hcalm ⊢
    have ho : releaseMonitor.after m.rest.trace = some false := hcalm ht ▸ ho
    refine Eq.trans ?_ (congrArg some (hcalm ht).symm)
    rw [ht]
    refine (releaseMonitor.after_cons_of ho).trans ?_
    cases source with
    | release => exact absurd rfl hsource
    | physical => rfl
    | playback => rfl

theorem sendBootReport_holding {source : HidSource} {report : Report} (he : d.Endpoint) (hh : Holding d m) :
    Holding d { m with rest := (m.rest.sendBootReport d source report).2 } := by
  rcases sendBootReport_cases d source report m.rest with ⟨-, hs⟩ | ⟨hr, hs⟩
  · rw [hs]
    exact hh
  · rw [hs]
    exact fun _ _ => he.taken _ _ (he.accepts report _ hr)

theorem arming_holding (he : d.Endpoint) (hh : Holding d m) (hs : Arming d.mainHost m m') : Holding d m' := by
  rcases arming_cases hs with hq | ⟨-, -, -, -, hq⟩ | ⟨-, -, -, -, rfl⟩
  · obtain ⟨board, hrest, hb⟩ := hq.rest
    exact hh.board he (by rw [hq.running]; exact id) (by rw [hrest]) (by rw [hrest]) hb
  · obtain ⟨board, elapsed, queued, hb, hrest⟩ := hq.rest
    exact hh.board he (by rw [hq.running]; exact id) (by rw [hrest]) (by rw [hrest]) hb
  · exact .stopped (finish_running (main_settles d) _ _)

theorem micro_held (he : d.Endpoint) (hs : Micro d.mainHost m m') (h : Owing m ∧ Holding d m) :
    Owing m' ∧ Holding d m' := by
  obtain ⟨ho, hh⟩ := h
  cases hs with
  | arming step => exact ⟨arming_owing ho step, arming_holding he hh step⟩
  | refuse event running ready head busy =>
    refine ⟨sendBootReport_owing .playback _ he ho (by decide) (fun ht => ?_), sendBootReport_holding he hh⟩
    rw [show (m.rest.sendBootReport d .playback event.report).1 = false from busy] at ht
    cases ht
  | dispatch event running ready head taken =>
    have hd := dispatched_played (d := d) taken
    obtain ⟨board, fault, credit, hb, hrest, hcredit⟩ := hd.rest
    have hcalm : m.rest.releasePending = false := Bool.eq_false_iff.2 (fun hp => by
      have hready := hd.taken.1
      rw [hh running hp] at hready; cases hready)
    have ho' := sendBootReport_owing .playback event.report he ho (by decide) (fun _ => hcalm)
    rw [(sendBootReport_taken (d := d) .playback taken).2.2] at ho'
    refine ⟨ho'.frame (by rw [hrest]) ?_, fun _ hp => ?_⟩
    · rw [hrest]
      rcases hcredit with ⟨-, rfl⟩ | ⟨-, -, queued, rfl⟩
      · rfl
      · exact releaseMonitor_idle rfl _
    · rw [hrest] at hp
      rw [show m.rest.releasePending = true from hp] at hcalm
      cases hcalm

/-- **Every step behind the safety release** keeps an owed release in front of any other report. -/
theorem held_output (he : d.Endpoint) : Preserved (FwStep d .output) (fun m => Owing m ∧ Holding d m) := by
  intro m m' hs h
  obtain ⟨ho, hh⟩ := h
  cases hs with
  | board _ b call => exact ⟨ho, hh.board he id rfl rfl (.single call)⟩
  | keyboard _ k => exact ⟨ho, hh⟩
  | capture _ timestamp report capture accepts push => exact ⟨ho.frame rfl (releaseMonitor_idle rfl _), hh⟩
  | notify _ reason unchanged =>
    exact ⟨ho.frame rfl (releaseMonitor_idle rfl _), hh.board he id rfl rfl (.single (.queueFrame _ _))⟩
  | reply _ msg kind =>
    exact ⟨ho.frame rfl (releaseMonitor_idle rfl _), hh.board he id rfl rfl (.single (.queueFrame _ _))⟩
  | handled _ target accepted => exact ⟨ho.frame rfl (releaseMonitor_idle rfl _), hh⟩
  | transition _ target reason changes => exact ⟨transition_owing ho, .stopped (transition_running d _ _ _)⟩
  | enqueue _ event queue streams push => exact ⟨ho.frame rfl (releaseMonitor_idle rfl _), hh⟩
  | reject _ event => exact ⟨ho.frame rfl (releaseMonitor_idle rfl _), hh⟩
  | queueClear _ armed =>
    refine ⟨ho, hh.board he (fun h => ?_) rfl rfl .refl⟩
    unfold Scheduler.resetSequence at h
    split at h
    · assumption
    · exact h
  | queueEnd _ streams => exact ⟨ho, hh⟩
  | takeFlowFault => exact ⟨ho, hh⟩
  | record _ event recording head fresh =>
    unfold recordHead
    split
    · exact ⟨ho, hh⟩
    · exact ⟨ho.frame rfl (releaseMonitor_idle rfl _), hh.board he id rfl rfl (.single (.queueFrame _ _))⟩
  | refusePhysical _ event busy =>
    refine ⟨sendBootReport_owing _ _ he ho (by decide) (fun ht => ?_), sendBootReport_holding he hh⟩
    rw [busy] at ht; cases ht
  | sendPhysical _ event head mode calm taken =>
    have ho' := sendBootReport_owing .physical event.report he ho (by decide) (fun _ => calm)
    exact ⟨ho'.frame rfl rfl, (sendBootReport_holding he hh).board he id rfl rfl .refl⟩
  | arming step => exact ⟨arming_owing ho step, arming_holding he hh step⟩
  | play step => exact micro_held he step ⟨ho, hh⟩

theorem loopBody_owing (he : d.Endpoint) (input : LoopInput) (hb : Boundary m) (ho : Owing m) :
    Owing (loopBody d m input) := by
  have hin := loopCommands_leads (d := d) input hb
  have howe := owing_input.run (hin.trans (release_leads hin.2)).1 ho
  exact ((held_output he).run (loopOutput_leads hin.2).1 ⟨howe, serviceRelease_holding he _⟩).1

theorem run_owing (he : d.Endpoint) (board : β) (inputs : List LoopInput) : Owing (run d board inputs) :=
  (Lib.foldl_invariant (P := fun m : Fw β => Boundary m ∧ Owing m) (f := loopBody d)
    (fun _ input h => ⟨loopBody_boundary input h.1, loopBody_owing he input h.1 h.2⟩) inputs (boot board)
    ⟨boot_boundary board, rfl⟩).2

/-- **What is owed stays owed** until the all-zero report is taken. -/
theorem owed_until : ∀ {mid earlier : List Obs}, releaseMonitor.after (mid ++ .allRelease :: earlier) = some false →
    Obs.hid .release Report.releaseAll true ∈ mid
  | [], earlier, h => by
    rw [List.nil_append, Monitor.after_cons, Option.bind_eq_some_iff] at h
    obtain ⟨owed, -, hs⟩ := h
    cases owed <;> cases hs
  | o :: mid, earlier, h => by
    rw [List.cons_append, Monitor.after_cons, Option.bind_eq_some_iff] at h
    obtain ⟨owed, ho, hs⟩ := h
    cases owed with
    | false => exact List.mem_cons_of_mem _ (owed_until ho)
    | true =>
      have hserve : o = .hid .release Report.releaseAll true := by
        unfold releaseMonitor at hs
        match o, hs with
        | .hid .release report true, hs =>
          have hz : report = Report.releaseAll := by simpa using hs
          rw [hz]
      rw [hserve]
      exact List.mem_cons_self

/-! ## The transitions that request a release -/

theorem transition_requests (d : Board β) (target : Mode) (reason : Reason) (m : Fw β) :
    (transition d target reason m).rest.releasePending = true := (clearReleaseAndQueue_spec d m).releasePending

theorem handleModeSet_requests {target : UInt8} (h : (handleModeSet d target m).2.rest.mode ≠ m.rest.mode) :
    (handleModeSet d target m).2.rest.releasePending = true := by
  unfold handleModeSet at h ⊢
  split
  · rename_i h₁
    rw [if_pos h₁] at h
    exact absurd rfl h
  rename_i h₁
  rw [if_neg h₁] at h
  split
  · rename_i h₂
    rw [if_pos h₂] at h
    dsimp only at h ⊢
    split
    · exact transition_requests d _ _ m
    · rename_i hm
      rw [if_neg hm] at h
      exact absurd rfl h
  rename_i h₂
  rw [if_neg h₂] at h
  split
  · rename_i h₃
    rw [if_pos h₃] at h
    exact absurd rfl h
  rename_i h₃
  rw [if_neg h₃] at h
  split
  · exact transition_requests d _ _ m
  · rename_i h₄
    rw [if_neg h₄] at h
    exact absurd rfl h

theorem playStart_requests (h : (playStart d m).1 = true) : (playStart d m).2.rest.releasePending = true := by
  unfold playStart at h ⊢
  split
  · rename_i hm
    rw [if_pos hm] at h
    cases h
  · rfl

theorem playAbort_requests (h : (playAbort d m).1 = true) : (playAbort d m).2.rest.releasePending = true := by
  unfold playAbort at h ⊢
  split
  · rename_i hm
    rw [if_pos hm] at h
    cases h
  · exact transition_requests d _ _ m

theorem playFinish_requests (h : (playFinish d m).1 = true) : (playFinish d m).2.rest.releasePending = true := by
  unfold playFinish at h ⊢
  split
  · rename_i hm
    rw [if_pos hm] at h
    cases h
  · exact transition_requests d _ _ m

theorem enterError_requests {reason : Reason} (h : (enterError d reason m).rest.mode ≠ m.rest.mode) :
    (enterError d reason m).rest.releasePending = true := by
  unfold enterError at h ⊢
  split
  · exact transition_requests d _ _ m
  · rename_i hm
    rw [if_neg hm] at h
    exact absurd rfl h

/-- **The all-keys-release comes first.**  In every run on an endpoint that behaves as TinyUSB's, whatever report is
taken after a request of `all_release`, the all-zero report was taken in between; and every call that changes the mode,
and every PLAY_ABORT that is not refused, leaves such a request pending. -/
theorem release_first {β : Type} (d : Board β) (he : d.Endpoint) :
    (∀ board inputs later mid earlier source report,
      (run d board inputs).rest.trace = later ++ .hid source report true :: (mid ++ .allRelease :: earlier) →
      source ≠ .release → .hid .release Report.releaseAll true ∈ mid) ∧
    ∀ m : Fw β,
      (∀ target, (handleModeSet d target m).2.rest.mode ≠ m.rest.mode →
        (handleModeSet d target m).2.rest.releasePending = true) ∧
      ((playStart d m).1 = true → (playStart d m).2.rest.releasePending = true) ∧
      ((playAbort d m).1 = true → (playAbort d m).2.rest.releasePending = true) ∧
      ((playFinish d m).1 = true → (playFinish d m).2.rest.releasePending = true) ∧
      (∀ reason, (enterError d reason m).rest.mode ≠ m.rest.mode →
        (enterError d reason m).rest.releasePending = true) := by
  refine ⟨?_, fun m => ⟨fun _ => handleModeSet_requests, playStart_requests, playAbort_requests, playFinish_requests,
    fun _ => enterError_requests⟩⟩
  intro board inputs later mid earlier source report htrace hsource
  have ho := run_owing he board inputs
  unfold Owing at ho
  rw [htrace] at ho
  obtain ⟨owed, ho⟩ := releaseMonitor.after_earlier later ho
  rw [Monitor.after_cons, Option.bind_eq_some_iff] at ho
  obtain ⟨before, hbefore, hs⟩ := ho
  cases before with
  | false => exact owed_until hbefore
  | true =>
    cases source with
    | release => exact absurd rfl hsource
    | physical => cases hs
    | playback => cases hs

theorem benchBoard_endpoint : benchBoard.Endpoint where
  accepts _ _ h := h
  taken _ _ _ := rfl
  kept _ _ call h := by cases call <;> exact h

/-- ARMED is entered, then PLAYING; the release is served and the one report of the run goes out behind it. -/
theorem release_first_bench :
    let inputs : List LoopInput := [⟨[], false, [command .modeSet [2],
      command .queueEvent [0, 0, 0, 0, 0, 0, 0, 0, 8, 0, 0, 4, 0, 0, 0, 0, 0], command .playStart []]⟩, ⟨[], false, []⟩]
    ∀ later mid earlier source report,
      (run benchBoard true inputs).rest.trace = later ++ .hid source report true :: (mid ++ .allRelease :: earlier) →
      source ≠ .release → .hid .release Report.releaseAll true ∈ mid :=
  (release_first benchBoard benchBoard_endpoint).1 true _

/-- A PLAY_ABORT in PASS is refused and requests nothing. -/
theorem playAbort_requests_nothing :
    ¬ ∀ inputs : List LoopInput,
      (dispatchCommand benchBoard (run benchBoard true inputs) (command .playAbort [])).rest.releasePending = true :=
  fun h => absurd (h []) (by decide +kernel)

end Pico
end PicoRecorder
