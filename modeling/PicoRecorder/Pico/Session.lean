import PicoRecorder.Pico.Joint
import PicoRecorder.Pico.Tokens
/-!
# Session — physical input does not cross a transition

A transition is an `entered` of the trace: a change of mode, an accepted PLAY_ABORT, an entry into ERROR.  What waits in
the capture FIFO was captured since the last one (`Current`), so what leaves it for HID or for Zero was too.
-/
namespace PicoRecorder
namespace Pico

open Lib (Preserved)

/-- The mode a history ends in. -/
def modeAfter : List Obs → Mode
  | [] => .pass
  | .entered mode :: _ => mode
  | _ :: earlier => modeAfter earlier

/-- Captured in PASS or RECORD, with no transition since. -/
def Current (event : CaptureEvent) (history : List Obs) : Prop :=
  ∃ since before, history = since ++ .captured event :: before ∧ (∀ mode, Obs.entered mode ∉ since) ∧
    (modeAfter before = .pass ∨ modeAfter before = .record)

/-- What a physical report needs for HID to take it, or a RECORD_EVENT to be queued. -/
def Rightful : Obs → List Obs → Prop
  | .hid .physical report true, earlier =>
    (modeAfter earlier = .pass ∨ modeAfter earlier = .record) ∧ ∃ event, event.report = report ∧ Current event earlier
  | .frame (.recordEvent timestampUs report) _, earlier =>
    modeAfter earlier = .record ∧ Current ⟨timestampUs, report⟩ earlier
  | _, _ => True

/-- An entry that neither ends a session nor lets physical input out. -/
def Obs.isPlain : Obs → Bool
  | .entered _ | .hid .physical _ true | .frame (.recordEvent ..) _ => false
  | _ => true

theorem Rightful.plain {o : Obs} (ho : o.isPlain = true) (earlier : List Obs) : Rightful o earlier := by
  unfold Rightful
  split
  · cases ho
  · cases ho
  · trivial

theorem modeAfter_plain : ∀ {later : List Obs}, (∀ o ∈ later, o.isPlain = true) → ∀ earlier,
    modeAfter (later ++ earlier) = modeAfter earlier
  | [], _, _ => rfl
  | o :: later, h, earlier => by
    have ih := modeAfter_plain (fun k hk => h k (List.mem_cons_of_mem o hk)) earlier
    cases o with
    | entered mode => cases h _ List.mem_cons_self
    | _ => exact ih

theorem Current.later {event : CaptureEvent} {earlier : List Obs} (h : Current event earlier) {later : List Obs}
    (hl : ∀ mode, Obs.entered mode ∉ later) : Current event (later ++ earlier) := by
  obtain ⟨since, before, rfl, hs, hm⟩ := h
  refine ⟨later ++ since, before, (List.append_assoc _ _ _).symm, fun mode hmem => ?_, hm⟩
  exact (List.mem_append.1 hmem).elim (hl mode) (hs mode)

theorem not_entered {later : List Obs} (h : ∀ o ∈ later, o.isPlain = true) (mode : Mode) : Obs.entered mode ∉ later :=
  fun hm => nomatch h _ hm

/-- The history agrees with the mode, vouches for all that waits, and had a right to all it let out. -/
structure Sessioned {β : Type} (m : Fw β) : Prop where
  mode : modeAfter m.rest.trace = m.rest.mode
  waiting : ∀ event ∈ m.rest.capture.toList, Current event m.rest.trace
  rightful : ∀ o earlier, o :: earlier <:+ m.rest.trace → Rightful o earlier

section Invariant

variable {β : Type} {d : Board β} {m m' : Fw β}

theorem rightful_append {later trace : List Obs} (hplain : ∀ o ∈ later, o.isPlain = true)
    (h : ∀ o earlier, o :: earlier <:+ trace → Rightful o earlier) :
    ∀ o earlier, o :: earlier <:+ later ++ trace → Rightful o earlier := by
  induction later with
  | nil => exact h
  | cons x later ih =>
    intro o earlier hs
    rcases List.suffix_cons_iff.1 hs with he | hs
    · obtain ⟨rfl, -⟩ := List.cons.inj he
      exact .plain (hplain o List.mem_cons_self) earlier
    · exact ih (fun k hk => hplain k (List.mem_cons_of_mem x hk)) o earlier hs

/-- Steps that add nothing but plain entries. -/
theorem Sessioned.plain (hs : Sessioned m) (later : List Obs) (hplain : ∀ o ∈ later, o.isPlain = true)
    (htrace : m'.rest.trace = later ++ m.rest.trace) (hmode : m'.rest.mode = m.rest.mode)
    (hcapture : ∀ e ∈ m'.rest.capture.toList, e ∈ m.rest.capture.toList) : Sessioned m' where
  mode := by rw [htrace, modeAfter_plain hplain, hmode]; exact hs.mode
  waiting event he := by rw [htrace]; exact (hs.waiting event (hcapture event he)).later (not_entered hplain)
  rightful := by rw [htrace]; exact rightful_append hplain hs.rightful

theorem Sessioned.same (hs : Sessioned m) (htrace : m'.rest.trace = m.rest.trace) (hmode : m'.rest.mode = m.rest.mode)
    (hcapture : m'.rest.capture = m.rest.capture) : Sessioned m' :=
  hs.plain [] (fun _ ho => nomatch ho) htrace hmode (fun _ he => hcapture ▸ he)

theorem Sessioned.note (hs : Sessioned m) {o : Obs} (ho : o.isPlain = true) (htrace : m'.rest.trace = o :: m.rest.trace)
    (hmode : m'.rest.mode = m.rest.mode) (hcapture : m'.rest.capture = m.rest.capture) : Sessioned m' :=
  hs.plain [o] (fun k hk => by rw [List.mem_singleton.1 hk]; exact ho) htrace hmode (fun _ he => hcapture ▸ he)

/-- A transition leaves nothing waiting. -/
theorem Sessioned.enter (hs : Sessioned m) (later before : List Obs) (target : Mode)
    (hlater : ∀ o ∈ later, o.isPlain = true) (hbefore : ∀ o ∈ before, o.isPlain = true)
    (htrace : m'.rest.trace = later ++ .entered target :: (before ++ m.rest.trace)) (hmode : m'.rest.mode = target)
    (hcapture : m'.rest.capture.toList = []) : Sessioned m' where
  mode := by rw [htrace, modeAfter_plain hlater, hmode]; rfl
  waiting _ he := by rw [hcapture] at he; cases he
  rightful := by
    rw [htrace]
    refine rightful_append hlater (fun o earlier h => ?_)
    rcases List.suffix_cons_iff.1 h with he | h
    · obtain ⟨rfl, -⟩ := List.cons.inj he
      trivial
    · exact rightful_append hbefore hs.rightful o earlier h

theorem Stopped.plain {running : Bool} {outcome : List Obs} (h : Stopped running outcome) :
    ∀ o ∈ outcome, o.isPlain = true := by
  rcases h with ⟨-, rfl⟩ | ⟨-, metrics, q₁, q₂, rfl⟩
  · exact fun _ ho => nomatch ho
  · simp [Obs.isPlain]

theorem Sessioned.transition (hs : Sessioned m) (target : Mode) (reason : Reason) :
    Sessioned (transition d target reason m) := by
  obtain ⟨outcome, queued, htrace, hstop⟩ := transition_trace d target reason m
  refine hs.enter [.frame (.modeChanged target reason) queued] (.allRelease :: outcome) target (by simp [Obs.isPlain])
    ?_ htrace rfl ?_
  · intro o ho
    rcases List.mem_cons.1 ho with rfl | ho
    · rfl
    · exact hstop.plain o ho
  · change (clearReleaseAndQueue d m).rest.capture.toList = []
    rw [(clearReleaseAndQueue_spec d m).capture]
    rfl

theorem Sessioned.sendBootReport (hs : Sessioned m) {source : HidSource} {report : Report}
    (hplain : source ≠ .physical ∨ (m.rest.sendBootReport d source report).1 = false) :
    Sessioned { m with rest := (m.rest.sendBootReport d source report).2 } := by
  rcases sendBootReport_cases d source report m.rest with ⟨-, he⟩ | ⟨-, he⟩
  · rw [he]
    exact hs.note (by cases source <;> rfl) rfl rfl rfl
  · rw [he] at hplain ⊢
    refine hs.note ?_ rfl rfl rfl
    cases source with
    | physical => rw [show (d.hidReport report m.rest.board).1 = false from hplain.resolve_left (fun h => h rfl)]; rfl
    | release => rfl
    | playback => rfl

theorem Sessioned.finish (hs : Sessioned m) : Sessioned (finish d.mainHost .finished m) := by
  obtain ⟨metrics, q₁, q₂, htrace⟩ := finished_trace d m
  have hf : Sessioned (finished d m) :=
    hs.plain [.frame (.playMetrics metrics) q₂, .frame .playFinished q₁, .completed .finished metrics]
      (by simp [Obs.isPlain]) htrace rfl (fun _ he => he)
  rw [finish_main]
  split
  · exact hf.note rfl rfl rfl rfl
  · exact hf.transition _ _

theorem Sessioned.arming (hs : Sessioned m) (step : Arming d.mainHost m m') : Sessioned m' := by
  rcases arming_cases step with hq | ⟨-, -, -, -, hq⟩ | ⟨-, -, -, -, rfl⟩
  · obtain ⟨board, hrest, -⟩ := hq.rest
    exact hs.same (by rw [hrest]) (by rw [hrest]) (by rw [hrest])
  · obtain ⟨board, elapsed, queued, -, hrest⟩ := hq.rest
    exact hs.note rfl (by rw [hrest]) (by rw [hrest]) (by rw [hrest])
  · exact hs.finish

theorem Sessioned.micro (hs : Sessioned m) (step : Micro d.mainHost m m') : Sessioned m' := by
  cases step with
  | arming step => exact hs.arming step
  | refuse event running ready head busy => exact hs.sendBootReport (.inl (by decide))
  | dispatch event running ready head taken =>
    obtain ⟨board, fault, credit, -, hrest, hcredit⟩ := (dispatched_played (d := d) taken).rest
    refine hs.plain (credit ++ [.hid .playback event.report true]) ?_ (by rw [hrest]; simp) (by rw [hrest])
      (fun e he => by rw [hrest] at he; exact he)
    rcases hcredit with ⟨-, rfl⟩ | ⟨-, -, queued, rfl⟩ <;> simp [Obs.isPlain, Credit]

/-- **Every single step keeps physical input in its session.** -/
theorem sessioned_step (phase : Phase) : Preserved (FwStep d phase) (Sessioned (β := β)) := by
  intro m m' step hs
  cases step with
  | tud => exact hs.same rfl rfl rfl
  | board _ b call => exact hs.same rfl rfl rfl
  | keyboard _ k => exact hs.same rfl rfl rfl
  | capture _ timestamp report capture accepts push =>
    obtain ⟨hlist, -⟩ := Capture.push_some push
    refine ⟨hs.mode, fun event he => ?_, @rightful_append [_] _ (by simp [Obs.isPlain]) hs.rightful⟩
    change event ∈ capture.toList at he
    rw [hlist, List.mem_append] at he
    rcases he with he | he
    · exact @Current.later event _ (hs.waiting event he) [_] (by simp)
    · rw [List.mem_singleton.1 he]
      exact ⟨[], m.rest.trace, rfl, (fun _ h => nomatch h), by rw [hs.mode]; exact accepts⟩
  | notify _ reason unchanged => exact hs.note rfl rfl rfl rfl
  | reply _ msg kind => exact hs.note (by cases msg <;> first | rfl | cases kind) rfl rfl rfl
  | handled _ target accepted => exact hs.note rfl rfl rfl rfl
  | transition _ target reason changes => exact hs.transition target reason
  | launch _ epoch armed idle =>
    exact hs.enter [.started epoch, .frame (.playStarted epoch) _, .frame (.modeChanged .playing .ok) _] [.allRelease]
      .playing (by simp [Obs.isPlain]) (by simp [Obs.isPlain]) rfl rfl rfl
  | enqueue _ event queue streams push => exact hs.note rfl rfl rfl rfl
  | reject _ event => exact hs.note rfl rfl rfl rfl
  | queueClear _ armed => exact hs.same rfl rfl rfl
  | queueEnd _ streams => exact hs.same rfl rfl rfl
  | takeFlowFault => exact hs.same rfl rfl rfl
  | release =>
    unfold serviceRelease
    split
    · exact hs
    · have hsent : Sessioned { m with rest := (m.rest.sendBootReport d .release Report.releaseAll).2 } :=
        hs.sendBootReport (.inl (by decide))
      dsimp only
      split
      · exact hsent.same rfl rfl rfl
      · exact hsent
  | record _ event recording head fresh =>
    have he : recordHead d event m.rest = { (m.rest.queueFrame d (.recordEvent event.timestampUs event.report)).2 with
        capture := m.rest.capture.markHeadRecorded } := if_neg (by rw [fresh]; decide)
    have hcurrent := hs.waiting event (by rw [Capture.toList_of_peek head]; exact List.mem_cons_self)
    rw [he]
    refine ⟨hs.mode, fun e hmem => ?_, fun o earlier h => ?_⟩
    · change e ∈ m.rest.capture.markHeadRecorded.toList at hmem
      rw [Capture.toList_markHeadRecorded] at hmem
      exact @Current.later e _ (hs.waiting e hmem) [_] (by simp)
    · rcases List.suffix_cons_iff.1 h with heq | h
      · obtain ⟨rfl, rfl⟩ := List.cons.inj heq
        exact ⟨hs.mode.trans recording, hcurrent⟩
      · exact hs.rightful o earlier h
  | refusePhysical _ event busy => exact hs.sendBootReport (.inr busy)
  | sendPhysical _ event head mode calm taken =>
    have hlist := Capture.toList_of_peek head
    have hcurrent := hs.waiting event (by rw [hlist]; exact List.mem_cons_self)
    rw [(sendBootReport_taken _ taken).2.2]
    refine ⟨hs.mode, fun e hmem => ?_, fun o earlier h => ?_⟩
    · change e ∈ m.rest.capture.pop.toList at hmem
      exact @Current.later e _ (hs.waiting e (by rw [hlist]; exact List.mem_cons_of_mem event hmem)) [_] (by simp)
    · rcases List.suffix_cons_iff.1 h with heq | h
      · obtain ⟨rfl, rfl⟩ := List.cons.inj heq
        exact ⟨by rw [hs.mode]; exact mode.imp_right And.left, event, rfl, hcurrent⟩
      · exact hs.rightful o earlier h
  | arming step => exact hs.arming step
  | play step => exact hs.micro step

theorem boot_sessioned (b : β) : Sessioned (boot b) :=
  ⟨rfl, (fun _ he => nomatch he), fun _ _ h => nomatch List.suffix_nil.1 h⟩

/-! ## Leaving ERROR, staying in PASS -/

theorem enterError_error (hm : m.rest.mode = .error) (reason : Reason) :
    (enterError d reason m).rest.mode = .error := by
  rw [enterError, if_neg (fun h => h.2 hm)]
  exact hm

theorem handleModeSet_error (hm : m.rest.mode = .error) {target : UInt8} (ht : target ≠ Mode.pass.byte) :
    (handleModeSet d target m).2.rest.mode = .error := by
  have hopen : ¬((target = Mode.record.byte ∨ target = Mode.armed.byte) ∧ m.rest.mode = .pass) := fun h => by
    rw [hm] at h
    cases h.2
  unfold handleModeSet
  by_cases hlarge : target > Mode.armed.byte
  · rw [if_pos hlarge]
    exact hm
  · rw [if_neg hlarge, if_neg ht, if_neg hopen]
    split <;> exact hm

/-- **Only MODE_SET(PASS) leads out of ERROR.** -/
theorem dispatchCommand_error (hm : m.rest.mode = .error) {c : Frame} (hc : resets c = false) :
    (dispatchCommand d m c).rest.mode = .error := by
  have hqueue : (dispatchQueueCommand d c m).rest.mode = .error := by
    have ha : queueCommandAllowed c.type m.rest.mode = false := by
      rw [hm]
      unfold queueCommandAllowed
      split
      · rfl
      · split <;> simp
    unfold dispatchQueueCommand
    dsimp only
    rw [ha]
    exact enterError_error hm _
  unfold dispatchCommand
  split
  · rename_i ht
    rw [MsgType.ofByte?_eq_some] at ht
    refine handleModeSet_error hm (fun hp => ?_)
    rw [resets, ht, hp] at hc
    cases hc
  · have hne : m.rest.mode ≠ .armed := by rw [hm]; decide
    rw [dispatchPlayStart_refused hne]
    exact hm
  · rw [playAbort, if_pos (by rw [hm]; decide)]
    exact hm
  · exact hm
  · exact hm
  · exact hqueue
  · exact hqueue
  · exact hqueue
  · exact enterError_error hm _

theorem loopOutput_error (hj : Joint m) (hm : m.rest.mode = .error) : (loopOutput d m).rest.mode = .error := by
  have hidle : m.sched.running = false := Bool.eq_false_iff.2 (fun hr => by rw [hj.running.1 hr] at hm; cases hm)
  have hsame := (serviceRelease_sameMode (d := d) m.rest).trans
    (physicalReportDispatch_sameMode (d := d) ((serviceRelease d m.rest).1 = .ready) (serviceRelease d m.rest).2)
  have hflow : ∀ m : Fw β, m.rest.mode = .error → (flowControlCheck d m).rest.mode = .error := fun m hm => by
    unfold flowControlCheck
    split
    · exact enterError_error (m := { m with rest := { m.rest with flowControlFault := false } }) hm _
    · exact hm
  unfold loopOutput
  dsimp only
  generalize physicalReportDispatch d ((serviceRelease d m.rest).1 = .ready) (serviceRelease d m.rest).2 = rest
    at hsame ⊢
  have hchecked := hflow { m with rest := rest } (hsame.1.trans hm)
  rw [task_idle (m := { m with rest := rest }) hidle, watchdogCheck,
    if_pos (fun h => by rw [hchecked] at h; cases h)]
  exact hchecked

/-- Nothing waiting is removed and no release is asked for. -/
def Undisturbed (m m' : Fw β) : Prop :=
  m'.rest.capture = m.rest.capture ∧ m'.rest.releasePending = m.rest.releasePending

theorem enterError_pass (hm : m.rest.mode = .pass) (reason : Reason) : Undisturbed m (enterError d reason m) := by
  rw [enterError, if_neg (fun h => h.1 hm)]
  exact ⟨rfl, rfl⟩

theorem flowControlCheck_pass (hm : m.rest.mode = .pass) : Undisturbed m (flowControlCheck d m) := by
  unfold flowControlCheck
  split
  · exact enterError_pass (m := { m with rest := { m.rest with flowControlFault := false } }) hm _
  · exact ⟨rfl, rfl⟩

theorem dispatchQueueCommand_pass (hm : m.rest.mode = .pass) (c : Frame) :
    Undisturbed m (dispatchQueueCommand d c m) := by
  have ha : queueCommandAllowed c.type m.rest.mode = false := by
    rw [hm]
    unfold queueCommandAllowed
    split
    · rfl
    · split <;> simp
  unfold dispatchQueueCommand
  dsimp only
  rw [ha]
  exact enterError_pass hm _

theorem dispatchCommand_resets (hm : m.rest.mode = .pass) {c : Frame} (hc : resets c = true) :
    Undisturbed m (dispatchCommand d m c) := by
  rw [resets, Bool.and_eq_true, beq_iff_eq, beq_iff_eq] at hc
  unfold dispatchCommand
  rw [hc.1, MsgType.ofByte?_byte]
  dsimp only
  rw [hc.2, handleModeSet, if_neg (by decide), if_pos rfl, if_neg (not_not.2 hm)]
  exact ⟨rfl, rfl⟩

/-- What keeps physical input in its session, at one moment of a run. -/
structure Separated (d : Board β) (m : Fw β) : Prop where
  rightful : ∀ o earlier, o :: earlier <:+ m.rest.trace → Rightful o earlier
  mode : modeAfter m.rest.trace = m.rest.mode
  errorCommand : m.rest.mode = .error → ∀ c, (dispatchCommand d m c).rest.mode ≠ .error → resets c = true
  errorFault : m.rest.mode = .error → ∀ reason, (enterError d reason m).rest.mode = .error
  errorOutput : m.rest.mode = .error → (loopOutput d m).rest.mode = .error
  passCommand : m.rest.mode = .pass → ∀ c, resets c = true → Undisturbed m (dispatchCommand d m c)
  passFault : m.rest.mode = .pass → (∀ reason, Undisturbed m (enterError d reason m)) ∧
    (∀ c, Undisturbed m (dispatchQueueCommand d c m)) ∧ Undisturbed m (flowControlCheck d m)

theorem Sessioned.separated (hs : Sessioned m) (hj : Joint m) : Separated d m where
  rightful := hs.rightful
  mode := hs.mode
  errorCommand hm c hne := by
    by_contra hc
    exact hne (dispatchCommand_error hm (Bool.eq_false_iff.2 hc))
  errorFault hm reason := enterError_error hm reason
  errorOutput hm := loopOutput_error hj hm
  passCommand hm c hc := dispatchCommand_resets hm hc
  passFault hm := ⟨enterError_pass hm, dispatchQueueCommand_pass hm, flowControlCheck_pass hm⟩

/-- ERROR stays for as long as no MODE_SET(PASS) is handled. -/
theorem loopBody_error (hj : Joint m) (hb : Boundary m) (hm : m.rest.mode = .error) (input : LoopInput)
    (hc : ∀ c ∈ input.commands, resets c = false) : (loopBody d m input).rest.mode = .error := by
  have hevents : ∀ (events : List HostEvent) (m : Fw β), m.rest.mode = .error →
      (events.foldl (hostEvent d) m).rest.mode = .error := fun events m hm =>
    Lib.foldl_invariant (P := fun m : Fw β => m.rest.mode = .error)
      (fun m e h => (hostEvent_sameMode (d := d) m e).2.1.trans h) events m hm
  have hcommands : ∀ (cs : List Frame) (m : Fw β), (∀ c ∈ cs, resets c = false) → m.rest.mode = .error →
      (cs.foldl (dispatchCommand d) m).rest.mode = .error := fun cs => by
    induction cs with
    | nil => exact fun _ _ hm => hm
    | cons c cs ih =>
      exact fun m hc hm => ih _ (fun k hk => hc k (List.mem_cons_of_mem c hk))
        (dispatchCommand_error hm (hc c List.mem_cons_self))
  have hjoint : Joint (loopCommands d input m) := (joint_step .input).run (loopCommands_leads input hb).1 hj
  have hstart := hevents input.events { m with rest := { m.rest with board := d.tudTask m.rest.board } } hm
  refine loopOutput_error hjoint (hcommands input.commands _ hc ?_)
  split
  · exact enterError_error hstart _
  · exact hstart

/-- **Physical input never crosses a session**: at every loop boundary and after any commands of an iteration, for
everything HID took and every RECORD_EVENT so far; and ERROR is left by MODE_SET(PASS) alone. -/
theorem physical_stays (d : Board β) (board : β) (inputs : List LoopInput) (input : LoopInput) :
    Separated d (run d board inputs) ∧ Separated d (loopCommands d input (run d board inputs)) ∧
      ((run d board inputs).rest.mode = .error → (loopBody d (run d board inputs) input).rest.mode ≠ .error →
        ∃ c ∈ input.commands, resets c = true) := by
  obtain ⟨hb, hs⟩ := run_invariant (d := d) boot_sessioned sessioned_step board inputs
  have hj := run_joint d board inputs
  refine ⟨hs.separated hj, (midrun_invariant boot_sessioned sessioned_step board inputs input).separated
    (midrun_invariant boot_joint joint_step board inputs input), fun hm hne => ?_⟩
  by_contra hc
  exact hne (loopBody_error hj hb hm input (fun c hmem => Bool.eq_false_iff.2 (fun hr => hc ⟨c, hmem, hr⟩)))

end Invariant

end Pico
end PicoRecorder
