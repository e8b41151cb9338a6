import PicoRecorder.Pico.Joint
/-!
# Outcome — the frames of a playback run, in the order Zero relies on

`outcomeMonitor` is the wire protocol of a run as an automaton over the frames that reached the transmitter.  A run
opens with MODE_CHANGED(PLAYING, OK) and PLAY_STARTED, closes with one outcome, its metrics and the MODE_CHANGED that
leaves PLAYING; nothing of it appears outside.
-/
namespace PicoRecorder
namespace Pico

open Lib (Monitor Preserved)

inductive RunPhase where
  | idle | opening | running | finished | aborted | finishedMetrics | abortedMetrics
  deriving DecidableEq, Repr

/-- What may follow, phase by phase. -/
def outcomeStep : RunPhase → PicoMsg → Option RunPhase
  | .idle, .modeChanged .playing .ok => some .opening
  | .idle, .modeChanged .playing _ => none
  | .idle, .playStarted _ | .idle, .playFinished | .idle, .playAborted | .idle, .playMetrics _
  | .idle, .playUnderrun .. => none
  | .idle, _ => some .idle
  | .opening, .playStarted _ => some .running
  | .opening, _ => none
  | .running, .playFinished => some .finished
  | .running, .playAborted => some .aborted
  | .running, .modeChanged .playing .ok => none
  | .running, .modeChanged .playing _ => some .running
  | .running, .modeChanged .. | .running, .playStarted _ | .running, .playMetrics _ => none
  | .running, _ => some .running
  | .finished, .playMetrics _ => some .finishedMetrics
  | .aborted, .playMetrics _ => some .abortedMetrics
  | .finished, _ | .aborted, _ => none
  | .finishedMetrics, .modeChanged .armed .finished => some .idle
  | .finishedMetrics, _ => none
  | .abortedMetrics, .modeChanged .armed .aborted | .abortedMetrics, .modeChanged .pass .ok => some .idle
  | .abortedMetrics, .modeChanged .error reason => if reason.isFault then some .idle else none
  | .abortedMetrics, _ => none

def outcomeMonitor : Monitor RunPhase PicoMsg := ⟨.idle, outcomeStep⟩

/-- The phase a mode is in, at a loop boundary. -/
def runPhase (mode : Mode) : RunPhase := if mode = .playing then .running else .idle

section Invariant

variable {β : Type} {d : Board β} {m m' : Fw β}

/-- The frames sent so far obey the protocol of a run. -/
def Orderly (m : Fw β) : Prop :=
  Lossless m.rest.trace → outcomeMonitor.after (wire m.rest.trace) = some (runPhase m.rest.mode)

theorem Orderly.frame (ho : Orderly m) (hmode : m'.rest.mode = m.rest.mode) (htrace : m.rest.trace <:+ m'.rest.trace)
    (hwire : wire m'.rest.trace = wire m.rest.trace) : Orderly m' := fun hl => by
  rw [hwire, hmode]
  exact ho (hl.earlier htrace)

/-- One more frame, allowed in the phase the mode is in. -/
theorem Orderly.send {msg : PicoMsg} (ho : Orderly m) (hmode : m'.rest.mode = m.rest.mode) {queued : Bool}
    (htrace : m'.rest.trace = .frame msg queued :: m.rest.trace)
    (hstep : outcomeStep (runPhase m.rest.mode) msg = some (runPhase m.rest.mode)) : Orderly m' := fun hl => by
  have hq : queued = true := hl.queued msg (by rw [htrace]; exact List.mem_cons_self)
  have hbefore := ho (hl.earlier (htrace ▸ List.suffix_cons _ _))
  rw [htrace, hq, hmode]
  change outcomeMonitor.after (msg :: wire m.rest.trace) = _
  rw [Monitor.after_cons_of _ hbefore]
  exact hstep

theorem unchanged_step {mode : Mode} {reason : Reason} (hu : Unchanged mode reason) :
    outcomeStep (runPhase mode) (.modeChanged mode reason) = some (runPhase mode) := by
  rcases hu with rfl | rfl | ⟨rfl, rfl | rfl | rfl⟩ | ⟨-, rfl | rfl⟩
  · cases mode <;> rfl
  · cases mode <;> rfl
  all_goals rfl

theorem reply_step {mode : Mode} {msg : PicoMsg} (hm : msg.isReply = true) :
    outcomeStep (runPhase mode) msg = some (runPhase mode) := by
  cases msg <;> cases mode <;> first | rfl | cases hm

theorem changes_target {mode target : Mode} {reason : Reason} (hc : Changes mode target reason) :
    target ≠ .playing := by
  rcases hc with ⟨-, rfl, -⟩ | ⟨-, rfl | rfl, -⟩ | ⟨-, rfl, -⟩ | ⟨-, rfl, -⟩ <;> decide

theorem idle_step {target : Mode} {reason : Reason} (ht : target ≠ .playing) :
    outcomeStep .idle (.modeChanged target reason) = some .idle := by
  cases target <;> first | rfl | exact absurd rfl ht

/-- Out of PLAYING a transition reports what follows an abort. -/
theorem aborted_step {target : Mode} {reason : Reason} (hc : Changes .playing target reason) :
    outcomeStep .abortedMetrics (.modeChanged target reason) = some .idle := by
  rcases hc with ⟨rfl, rfl, -⟩ | ⟨-, -, hm⟩ | ⟨rfl, rfl, -⟩ | ⟨hf, rfl, -⟩
  · rfl
  · cases hm
  · rfl
  · exact if_pos hf

/-- The frames of a transition, from a run in progress or from none. -/
theorem transition_orderly {target : Mode} {reason : Reason} (hj : Joint m) (ho : Orderly m)
    (hc : Changes m.rest.mode target reason) : Orderly (transition d target reason m) := by
  obtain ⟨outcome, queued, htrace, hstop⟩ := transition_trace d target reason m
  intro hl
  have hbefore := ho (hl.earlier ⟨_ :: _ :: _ :: outcome, by rw [htrace]; rfl⟩)
  have hq : queued = true := hl.queued (.modeChanged target reason) (by rw [htrace]; exact List.mem_cons_self)
  have hmode : (transition d target reason m).rest.mode = target := rfl
  have ht := changes_target hc
  rw [hmode, runPhase, if_neg ht, htrace, hq]
  change outcomeMonitor.after (.modeChanged target reason :: wire (outcome ++ m.rest.trace)) = _
  rcases hstop with ⟨hr, rfl⟩ | ⟨hr, metrics, q₁, q₂, rfl⟩
  · have hm : m.rest.mode ≠ .playing := fun h => by rw [hj.running.2 h] at hr; cases hr
    rw [runPhase, if_neg hm] at hbefore
    rw [Monitor.after_cons_of _ (by exact hbefore)]
    exact idle_step ht
  · have hm := hj.running.1 hr
    have h₁ : q₁ = true := hl.queued .playAborted (by rw [htrace]; simp)
    have h₂ : q₂ = true := hl.queued (.playMetrics metrics) (by rw [htrace]; simp)
    rw [hm] at hbefore hc
    rw [h₁, h₂]
    change outcomeMonitor.after (_ :: .playMetrics metrics :: .playAborted :: wire m.rest.trace) = _
    have haborted := (outcomeMonitor.after_cons_of (x := .playAborted) hbefore).trans rfl
    have hmetrics := (outcomeMonitor.after_cons_of (x := .playMetrics metrics) haborted).trans rfl
    rw [Monitor.after_cons_of _ hmetrics]
    exact aborted_step hc

/-- The natural end of a run. -/
theorem finish_orderly (hj : Joint m) (ho : Orderly m) (hr : m.sched.running = true) :
    Orderly (finish d.mainHost .finished m) := by
  have hm := hj.running.1 hr
  obtain ⟨metrics, q₁, q₂, hfinished⟩ := finished_trace d m
  obtain ⟨outcome, queued, htrace, hstop⟩ := transition_trace d .armed .finished (finished d m)
  obtain rfl : outcome = [] := by
    rcases hstop with ⟨-, h⟩ | ⟨h, -⟩
    · exact h
    · cases h
  rw [finish_main, if_neg (not_not_intro hm)]
  intro hl
  rw [htrace] at hl ⊢
  have hq : queued = true := hl.queued _ List.mem_cons_self
  rw [List.nil_append, hfinished] at hl ⊢
  have hbefore := ho (hl.earlier ⟨[_, _, _, _, _, _], rfl⟩)
  have h₁ : q₁ = true := hl.queued .playFinished (by simp)
  have h₂ : q₂ = true := hl.queued (.playMetrics metrics) (by simp)
  rw [hm] at hbefore
  rw [hq, h₁, h₂]
  change outcomeMonitor.after (.modeChanged .armed .finished :: .playMetrics metrics :: .playFinished ::
    wire m.rest.trace) = _
  have hfin := (outcomeMonitor.after_cons_of (x := .playFinished) hbefore).trans rfl
  have hmetrics := (outcomeMonitor.after_cons_of (x := .playMetrics metrics) hfin).trans rfl
  exact outcomeMonitor.after_cons_of hmetrics

theorem launch_orderly (hj : Joint m) (ho : Orderly m) (epoch : UInt64) (hr : m.sched.running = false) :
    Orderly (launch d epoch m) := by
  have hm : m.rest.mode ≠ .playing := fun h => by rw [hj.running.2 h] at hr; cases hr
  obtain ⟨q₁, q₂, htrace⟩ : ∃ q₁ q₂, (launch d epoch m).rest.trace =
      .started epoch :: .frame (.playStarted epoch) q₂ :: .frame (.modeChanged .playing .ok) q₁ :: .entered .playing ::
        .allRelease :: m.rest.trace := ⟨_, _, rfl⟩
  intro hl
  have hmode : (launch d epoch m).rest.mode = .playing := rfl
  rw [hmode, htrace]
  rw [htrace] at hl
  have hbefore := ho (hl.earlier ⟨[_, _, _, _, _], rfl⟩)
  have h₁ : q₁ = true := hl.queued (.modeChanged .playing .ok) (by simp)
  have h₂ : q₂ = true := hl.queued (.playStarted epoch) (by simp)
  rw [runPhase, if_neg hm] at hbefore
  rw [h₁, h₂]
  change outcomeMonitor.after (.playStarted epoch :: .modeChanged .playing .ok :: wire m.rest.trace) = _
  have hopen := (outcomeMonitor.after_cons_of (x := .modeChanged .playing .ok) hbefore).trans rfl
  exact outcomeMonitor.after_cons_of hopen

theorem sendBootReport_orderly (ho : Orderly m) (source : HidSource) (report : Report) :
    Orderly { m with rest := (m.rest.sendBootReport d source report).2 } := by
  rcases sendBootReport_cases d source report m.rest with ⟨-, he⟩ | ⟨-, he⟩ <;> rw [he] <;>
    exact ho.frame rfl (List.suffix_cons _ _) rfl

theorem arming_orderly (hj : Joint m) (ho : Orderly m) (hs : Arming d.mainHost m m') : Orderly m' := by
  rcases arming_cases hs with hq | ⟨hr, -, -, -, hq⟩ | ⟨hr, -, -, -, rfl⟩
  · obtain ⟨board, hrest, -⟩ := hq.rest
    exact ho.frame (by rw [hrest]) (by simp only [hrest, List.suffix_refl]) (by rw [hrest])
  · obtain ⟨board, elapsed, queued, -, hrest⟩ := hq.rest
    refine ho.send (by rw [hrest]) (by rw [hrest]) ?_
    rw [hj.running.1 hr]
    rfl
  · exact finish_orderly hj ho hr

theorem micro_orderly (hj : Joint m) (ho : Orderly m) (hs : Micro d.mainHost m m') : Orderly m' := by
  cases hs with
  | arming step => exact arming_orderly hj ho step
  | refuse event running ready head busy => exact sendBootReport_orderly ho .playback event.report
  | dispatch event running ready head taken =>
    obtain ⟨board, fault, credit, -, hrest, hcredit⟩ := (dispatched_played (d := d) taken).rest
    have htaken : Orderly (⟨m.sched, m.queue, { m.rest with
        board := board
        flowControlFault := fault
        trace := .hid .playback event.report true :: m.rest.trace }⟩ : Fw β) :=
      ho.frame rfl (List.suffix_cons _ _) rfl
    rcases hcredit with ⟨-, rfl⟩ | ⟨-, -, queued, rfl⟩
    · exact htaken.frame (by rw [hrest]) (by simp only [hrest, List.nil_append, List.suffix_refl]) (by rw [hrest]; rfl)
    · refine htaken.send (by rw [hrest]) (by rw [hrest]; rfl) ?_
      exact reply_step rfl

/-- **Every single step keeps the frames of a run in order.** -/
theorem orderly_step (phase : Phase) : ∀ m m' : Fw β, FwStep d phase m m' → Joint m → Orderly m → Orderly m' := by
  intro m m' hs hj ho
  cases hs with
  | tud => exact ho.frame rfl (List.suffix_refl _) rfl
  | board _ b call => exact ho.frame rfl (List.suffix_refl _) rfl
  | keyboard _ k => exact ho.frame rfl (List.suffix_refl _) rfl
  | capture _ timestamp report capture accepts push => exact ho.frame rfl (List.suffix_cons _ _) rfl
  | notify _ reason unchanged => exact ho.send rfl rfl (unchanged_step unchanged)
  | reply _ msg kind => exact ho.send rfl rfl (reply_step kind)
  | handled _ target accepted => exact ho.frame rfl (List.suffix_cons _ _) rfl
  | transition _ target reason changes => exact transition_orderly hj ho changes
  | launch _ epoch armed idle => exact launch_orderly hj ho epoch idle
  | enqueue _ event queue streams push => exact ho.frame rfl (List.suffix_cons _ _) rfl
  | reject _ event => exact ho.frame rfl (List.suffix_cons _ _) rfl
  | queueClear _ armed => exact ho.frame rfl (List.suffix_refl _) rfl
  | queueEnd _ streams => exact ho.frame rfl (List.suffix_refl _) rfl
  | takeFlowFault => exact ho.frame rfl (List.suffix_refl _) rfl
  | release =>
    unfold serviceRelease
    split
    · exact ho
    · have hsent := sendBootReport_orderly (d := d) ho .release Report.releaseAll
      dsimp only
      split
      · exact hsent.frame rfl (List.suffix_refl _) rfl
      · exact hsent
  | record _ event recording head fresh =>
    unfold recordHead
    split
    · exact ho
    · refine ho.send rfl rfl ?_
      rw [recording]
      rfl
  | refusePhysical _ event busy => exact sendBootReport_orderly ho .physical event.report
  | sendPhysical _ event head mode calm taken =>
    have hsent := sendBootReport_orderly (d := d) ho .physical event.report
    exact hsent.frame rfl (List.suffix_refl _) rfl
  | arming step => exact arming_orderly hj ho step
  | play step => exact micro_orderly hj ho step

theorem run_orderly (d : Board β) (board : β) (inputs : List LoopInput) : Orderly (run d board inputs) :=
  (run_invariant (P := fun m : Fw β => Joint m ∧ Orderly m) (fun b => ⟨boot_joint b, fun _ => rfl⟩)
    (fun phase => (joint_step phase).and (orderly_step phase)) board inputs).2.2

end Invariant

/-- **The frames of a run obey the protocol**: on any board, after any iterations that dropped no frame, what reached
the transmitter is accepted by `outcomeMonitor`, which is inside a run exactly while the mode is PLAYING. -/
theorem run_outcome {β : Type} (d : Board β) (board : β) (inputs : List LoopInput)
    (hl : Lossless (run d board inputs).rest.trace) :
    outcomeMonitor.after (wire (run d board inputs).rest.trace) = some (runPhase (run d board inputs).rest.mode) :=
  run_orderly d board inputs hl

/-- One event, armed, ended and played to its end on the bench. -/
def benchPlay : List LoopInput :=
  [⟨[], false, [command .modeSet [2], command .queueEvent [0, 0, 0, 0, 0, 0, 0, 0, 8, 0, 0, 4, 0, 0, 0, 0, 0],
    command .queueEnd [], command .playStart []]⟩, ⟨[], false, []⟩]

theorem run_outcome_bench :
    (wire (run benchBoard true benchPlay).rest.trace).length = 9 ∧
      outcomeMonitor.after (wire (run benchBoard true benchPlay).rest.trace) =
        some (runPhase (run benchBoard true benchPlay).rest.mode) :=
  ⟨by decide +kernel, run_outcome benchBoard true benchPlay (by decide +kernel)⟩

end Pico
end PicoRecorder
