import PicoRecorder.Pico.Joint
/-!
# Record — what a RECORD session hands to Zero

`sessionCaptured` and `sessionRecorded` read the current session off the trace.  Only the head of the FIFO is ever
recorded, so a report that waits behind it is not recorded yet; a MODE_SET(PASS) that arrives then clears it away.
-/
namespace PicoRecorder
namespace Pico

open Lib (Preserved)

/-- The reports accepted into the FIFO since RECORD was entered, oldest first. -/
def sessionCaptured : List Obs → List CaptureEvent
  | [] => []
  | .entered .record :: _ => []
  | .captured event :: trace => sessionCaptured trace ++ [event]
  | _ :: trace => sessionCaptured trace

/-- The RECORD_EVENTs queued since RECORD was entered, oldest first. -/
def sessionRecorded : List Obs → List CaptureEvent
  | [] => []
  | .entered .record :: _ => []
  | .frame (.recordEvent timestampUs report) true :: trace => sessionRecorded trace ++ [⟨timestampUs, report⟩]
  | _ :: trace => sessionRecorded trace

/-- The waiting reports that no RECORD_EVENT was queued for. -/
def Capture.unrecorded (c : Capture) : List CaptureEvent := if c.headRecorded then c.toList.tail else c.toList

/-- Nothing waits behind the head, and the head was recorded. -/
def Capture.Settled (c : Capture) : Prop := c.toList = [] ∨ (c.toList.length = 1 ∧ c.headRecorded = true)

instance (c : Capture) : Decidable c.Settled := inferInstanceAs (Decidable (_ ∨ _))

theorem Capture.unrecorded_eq_nil (c : Capture) : c.unrecorded = [] ↔ c.Settled := by
  unfold unrecorded Settled
  cases c.headRecorded with
  | false => simp
  | true =>
    match c.toList with
    | [] => simp
    | [e] => simp
    | e :: e' :: es => simp

def Obs.isSession : Obs → Bool
  | .entered .record | .captured _ | .frame (.recordEvent ..) _ => true
  | _ => false

theorem session_idle {o : Obs} (ho : o.isSession = false) (trace : List Obs) :
    sessionCaptured (o :: trace) = sessionCaptured trace ∧ sessionRecorded (o :: trace) = sessionRecorded trace := by
  match o, ho with
  | .entered mode, ho => cases mode <;> first | exact ⟨rfl, rfl⟩ | cases ho
  | .frame msg queued, ho => cases msg <;> first | (cases queued <;> exact ⟨rfl, rfl⟩) | cases ho
  | .pushed .., _ | .modeSet .., _ | .allRelease, _ | .hid .., _ | .started _, _ | .completed .., _ => exact ⟨rfl, rfl⟩

section Invariant

variable {β : Type} {d : Board β} {m m' : Fw β}

/-- In RECORD the captured reports are the recorded ones and the ones that still wait to be. -/
def Recording (m : Fw β) : Prop := m.rest.mode = .record → Lossless m.rest.trace →
  sessionCaptured m.rest.trace = sessionRecorded m.rest.trace ++ m.rest.capture.unrecorded

theorem Recording.other (hm : m.rest.mode ≠ .record) : Recording m := fun h => absurd h hm

theorem Recording.frame (hr : Recording m) (hmode : m'.rest.mode = m.rest.mode)
    (hcapture : m'.rest.capture = m.rest.capture) (htrace : m'.rest.trace = m.rest.trace) : Recording m' := by
  intro hm hl
  rw [htrace] at hl ⊢
  rw [hcapture]
  exact hr (hmode ▸ hm) hl

theorem Recording.note (hr : Recording m) {o : Obs} (ho : o.isSession = false) (hmode : m'.rest.mode = m.rest.mode)
    (hcapture : m'.rest.capture = m.rest.capture) (htrace : m'.rest.trace = o :: m.rest.trace) : Recording m' := by
  intro hm hl
  rw [htrace] at hl ⊢
  rw [hcapture, (session_idle ho _).1, (session_idle ho _).2]
  exact hr (hmode ▸ hm) (hl.earlier (List.suffix_cons _ _))

theorem unrecorded_push {c c' : Capture} {t : UInt64} {report : List UInt8} (hp : c.push t report = some c')
    (hflag : c.headRecorded = true → c.toList ≠ []) :
    c'.unrecorded = c.unrecorded ++ [⟨t, Report.ofBytes report⟩] := by
  obtain ⟨hlist, hf⟩ := Capture.push_some hp
  unfold Capture.unrecorded
  rw [hf, hlist]
  split
  · rename_i hr
    exact List.tail_append_of_ne_nil (hflag hr)
  · rfl

theorem transition_recording {target : Mode} {reason : Reason} : Recording (transition d target reason m) := by
  intro hm _
  have ht : target = .record := hm
  obtain ⟨outcome, queued, htrace, -⟩ := transition_trace d target reason m
  have hcapture : (transition d target reason m).rest.capture = m.rest.capture.clear :=
    (clearReleaseAndQueue_spec d m).capture
  rw [htrace, hcapture, ht]
  rw [(session_idle rfl _).1, (session_idle rfl _).2]
  rfl

theorem sendBootReport_recording (hr : Recording m) (source : HidSource) (report : Report) :
    Recording { m with rest := (m.rest.sendBootReport d source report).2 } := by
  rcases sendBootReport_cases d source report m.rest with ⟨-, he⟩ | ⟨-, he⟩ <;> rw [he] <;>
    exact hr.note rfl rfl rfl rfl

theorem arming_recording (hj : Joint m) (hr : Recording m) (hs : Arming d.mainHost m m') : Recording m' := by
  rcases arming_cases hs with hq | ⟨-, -, -, -, hq⟩ | ⟨hrun, -, -, -, rfl⟩
  · obtain ⟨board, hrest, -⟩ := hq.rest
    exact hr.frame (by rw [hrest]) (by rw [hrest]) (by rw [hrest])
  · obtain ⟨board, elapsed, queued, -, hrest⟩ := hq.rest
    exact hr.note rfl (by rw [hrest]) (by rw [hrest]) (by rw [hrest])
  · rw [finish_main, if_neg (not_not_intro (hj.running.1 hrun))]
    exact transition_recording

theorem micro_recording (hj : Joint m) (hr : Recording m) (hs : Micro d.mainHost m m') : Recording m' := by
  cases hs with
  | arming step => exact arming_recording hj hr step
  | refuse event running ready head busy => exact sendBootReport_recording hr .playback event.report
  | dispatch event running ready head taken =>
    obtain ⟨board, fault, credit, -, hrest, -⟩ := (dispatched_played (d := d) taken).rest
    refine .other ?_
    rw [hrest]
    change m.rest.mode ≠ .record
    rw [hj.running.1 running]
    decide

theorem record_recording {event : CaptureEvent} (hr : Recording m) (hp : m.rest.capture.peek = some event)
    (hfresh : m.rest.capture.isHeadRecorded = false) : Recording { m with rest := recordHead d event m.rest } := by
  obtain ⟨queued, board, he⟩ : ∃ queued board, recordHead d event m.rest = { m.rest with
      board := board, capture := m.rest.capture.markHeadRecorded,
      trace := .frame (.recordEvent event.timestampUs event.report) queued :: m.rest.trace } :=
    ⟨_, _, if_neg (by rw [hfresh]; decide)⟩
  rw [he]
  intro hm hl
  have hq : queued = true := hl.queued (.recordEvent event.timestampUs event.report) List.mem_cons_self
  have hbefore := hr hm (hl.earlier (List.suffix_cons _ _))
  have hflag : m.rest.capture.headRecorded = false := by rw [← Capture.isHeadRecorded_of_peek hp]; exact hfresh
  subst hq
  change sessionCaptured m.rest.trace = (sessionRecorded m.rest.trace ++ [event]) ++ _
  rw [hbefore]
  change _ = _ ++ Capture.unrecorded m.rest.capture.markHeadRecorded
  unfold Capture.unrecorded
  rw [hflag, Capture.headRecorded_markHeadRecorded hp, Capture.toList_markHeadRecorded, Capture.toList_of_peek hp]
  simp

/-- **Every single step keeps the account of a RECORD session.** -/
theorem recording_step (phase : Phase) : ∀ m m' : Fw β, FwStep d phase m m' → Joint m → Recording m → Recording m' := by
  intro m m' hs hj hr
  cases hs with
  | tud => exact hr.frame rfl rfl rfl
  | board _ b call => exact hr.frame rfl rfl rfl
  | keyboard _ k => exact hr.frame rfl rfl rfl
  | capture _ timestamp report capture accepts push =>
    intro hm hl
    have hbefore := hr hm (hl.earlier (List.suffix_cons _ _))
    change sessionCaptured m.rest.trace ++ [_] = sessionRecorded m.rest.trace ++ Capture.unrecorded capture
    rw [unrecorded_push push (fun hf => (hj.recorded hf).2), hbefore, List.append_assoc]
  | notify _ reason unchanged => exact hr.note (o := .frame (.modeChanged _ _) _) rfl rfl rfl rfl
  | reply _ msg kind =>
    refine hr.note (o := .frame msg _) ?_ rfl rfl rfl
    cases msg <;> first | rfl | cases kind
  | handled _ target accepted => exact hr.note (o := .modeSet target accepted) rfl rfl rfl rfl
  | transition _ target reason changes => exact transition_recording
  | launch _ epoch armed idle => exact .other (fun h => by cases h)
  | enqueue _ event queue streams push => exact hr.note (o := .pushed event true) rfl rfl rfl rfl
  | reject _ event => exact hr.note (o := .pushed event false) rfl rfl rfl rfl
  | queueClear _ armed => exact hr.frame rfl rfl rfl
  | queueEnd _ streams => exact hr.frame rfl rfl rfl
  | takeFlowFault => exact hr.frame rfl rfl rfl
  | release =>
    unfold serviceRelease
    split
    · exact hr
    · have hsent := sendBootReport_recording (d := d) hr .release Report.releaseAll
      dsimp only
      split
      · exact hsent.frame rfl rfl rfl
      · exact hsent
  | record _ event recording head fresh => exact record_recording hr head fresh
  | refusePhysical _ event busy => exact sendBootReport_recording hr .physical event.report
  | sendPhysical _ event head mode calm taken =>
    rw [(sendBootReport_taken _ taken).2.2]
    intro hm hl
    have hbefore := hr hm (hl.earlier (List.suffix_cons _ _))
    have hflag : m.rest.capture.headRecorded = true := by
      rcases mode with hpass | ⟨-, hrec⟩
      · rw [show m.rest.mode = .record from hm] at hpass; cases hpass
      · rw [← Capture.isHeadRecorded_of_peek head]; exact hrec
    change sessionCaptured m.rest.trace = sessionRecorded m.rest.trace ++ Capture.unrecorded m.rest.capture.pop
    rw [hbefore]
    unfold Capture.unrecorded
    rw [hflag, Capture.headRecorded_pop head, Capture.toList_of_peek head]
    rfl
  | arming step => exact arming_recording hj hr step
  | play step => exact micro_recording hj hr step

theorem midrun_recording (d : Board β) (board : β) (inputs : List LoopInput) (input : LoopInput) :
    Joint (loopCommands d input (run d board inputs)) ∧ Recording (loopCommands d input (run d board inputs)) :=
  midrun_invariant (P := fun m : Fw β => Joint m ∧ Recording m)
    (fun b => ⟨boot_joint b, .other (fun h => by cases h)⟩)
    (fun phase => (joint_step phase).and (recording_step phase)) board inputs input

/-- MODE_SET(PASS) out of any other mode: the acknowledgement is the last frame, behind it only the account of a run. -/
theorem dispatch_pass_trace (hm : m.rest.mode ≠ .pass) : ∃ outcome queued,
    (dispatchCommand d m (command .modeSet [Mode.pass.byte])).rest.trace =
      .modeSet Mode.pass.byte true :: .frame (.modeChanged .pass .ok) queued :: .entered .pass :: .allRelease ::
        (outcome ++ m.rest.trace) ∧ Stopped m.sched.running outcome := by
  have hset : handleModeSet d Mode.pass.byte m = (true, transition d .pass .ok m) := by
    unfold handleModeSet
    rw [if_neg (by decide), if_pos rfl, if_pos hm]
  obtain ⟨outcome, queued, htrace, hstop⟩ := transition_trace d .pass .ok m
  refine ⟨outcome, queued, ?_, hstop⟩
  have hd : dispatchCommand d m (command .modeSet [Mode.pass.byte]) =
      { (handleModeSet d Mode.pass.byte m).2 with
        rest := (handleModeSet d Mode.pass.byte m).2.rest.note
          (.modeSet Mode.pass.byte (handleModeSet d Mode.pass.byte m).1) } := by
    unfold dispatchCommand
    have htype : MsgType.ofByte? (command .modeSet [Mode.pass.byte]).type = some .modeSet :=
      MsgType.ofByte?_byte .modeSet
    rw [htype]
    rfl
  rw [hd, hset, ← htrace]
  rfl

end Invariant

/-- **What a session recorded when PASS is acknowledged**: always a prefix of what it captured, in order, and all of it
exactly when the FIFO holds nothing but a head that was recorded before. -/
theorem session_recorded {β : Type} (d : Board β) (board : β) (inputs : List LoopInput) (input : LoopInput) :
    let m := loopCommands d input (run d board inputs)
    let acked := dispatchCommand d m (command .modeSet [Mode.pass.byte])
    m.rest.mode = .record → Lossless acked.rest.trace →
      sessionRecorded acked.rest.trace <+: sessionCaptured acked.rest.trace ∧
      (sessionRecorded acked.rest.trace = sessionCaptured acked.rest.trace ↔ m.rest.capture.Settled) := by
  intro m acked hm hl
  obtain ⟨hj, hr⟩ := midrun_recording d board inputs input
  obtain ⟨outcome, queued, htrace, hstop⟩ := dispatch_pass_trace (d := d) (m := m) (by rw [hm]; decide)
  obtain rfl : outcome = [] := by
    rcases hstop with ⟨-, h⟩ | ⟨h, -⟩
    · exact h
    · rw [hj.running.1 h] at hm; cases hm
  have htrace : acked.rest.trace = _ := htrace
  have hbefore := hr hm (hl.earlier ⟨[_, _, _, _], by rw [htrace]; rfl⟩)
  have hcap : sessionCaptured acked.rest.trace = sessionCaptured m.rest.trace := by
    rw [htrace, (session_idle rfl _).1, (session_idle rfl _).1, (session_idle rfl _).1, (session_idle rfl _).1]
    rfl
  have hrec : sessionRecorded acked.rest.trace = sessionRecorded m.rest.trace := by
    rw [htrace, (session_idle rfl _).2, (session_idle rfl _).2, (session_idle rfl _).2, (session_idle rfl _).2]
    rfl
  rw [hcap, hrec, hbefore, ← Capture.unrecorded_eq_nil]
  exact ⟨List.prefix_append _ _, ⟨fun h => (List.append_right_eq_self.1 h.symm), fun h => by rw [h, List.append_nil]⟩⟩

/-- RECORD entered from a mounted keyboard, then three reports in one pass of the host stack: the endpoint takes the
first one and is busy for the second. -/
def benchRecord : List LoopInput :=
  [⟨[.mount 1 0 true], false, [command .modeSet [Mode.record.byte]]⟩,
   ⟨[.reportReceived 1 0 [0, 0, 4, 0, 0, 0, 0, 0], .reportReceived 1 0 [0, 0, 5, 0, 0, 0, 0, 0],
     .reportReceived 1 0 [0, 0, 6, 0, 0, 0, 0, 0]], false, []⟩]

/-- **The third report is lost**: it waits behind the busy head when MODE_SET(PASS) clears the FIFO. -/
theorem session_loses_report :
    ¬ ∀ (inputs : List LoopInput) (input : LoopInput),
      let m := loopCommands benchBoard input (run benchBoard true inputs)
      let acked := dispatchCommand benchBoard m (command .modeSet [Mode.pass.byte])
      m.rest.mode = .record → Lossless acked.rest.trace →
        sessionRecorded acked.rest.trace = sessionCaptured acked.rest.trace :=
  fun h => absurd (h benchRecord ⟨[], false, []⟩ (by decide +kernel) (by decide +kernel)) (by decide +kernel)

/-- With two reports the second one is the busy head, recorded already, and the session is whole. -/
theorem session_recorded_bench :
    let m := loopCommands benchBoard ⟨[], false, []⟩ (run benchBoard true
      [⟨[.mount 1 0 true], false, [command .modeSet [Mode.record.byte]]⟩,
       ⟨[.reportReceived 1 0 [0, 0, 4, 0, 0, 0, 0, 0], .reportReceived 1 0 [0, 0, 5, 0, 0, 0, 0, 0]], false, []⟩])
    let acked := dispatchCommand benchBoard m (command .modeSet [Mode.pass.byte])
    (sessionCaptured acked.rest.trace).length = 2 ∧
      sessionRecorded acked.rest.trace = sessionCaptured acked.rest.trace :=
  ⟨by decide +kernel, ((session_recorded benchBoard true _ ⟨[], false, []⟩) (by decide +kernel) (by decide +kernel)).2.2
    (by decide +kernel)⟩

end Pico
end PicoRecorder
