import PicoRecorder.Pico.Stall
/-!
# Underrun — what a pass of the scheduler counts and says

`tally` is what the firmware counted of a run and said about its underruns.  Between two passes it stays as it is
(`Aside`); a pass leaves the run fed, or begins one empty interval.  The board keeps a log of its clock readings, so
that the first observation of an interval has a time.
-/
namespace PicoRecorder
namespace Pico

open Relation (ReflTransGen)

/-- The board with a log of its clock readings, newest first. -/
def Board.logged {β : Type} (d : Board β) : Board (β × List UInt64) where
  tudTask b := (d.tudTask b.1, b.2)
  hidReady b := d.hidReady b.1
  hidReport report b := ((d.hidReport report b.1).1, ((d.hidReport report b.1).2, b.2))
  timeUs64 b := ((d.timeUs64 b.1).1, ((d.timeUs64 b.1).2, (d.timeUs64 b.1).1 :: b.2))
  addAlarmAt target b := ((d.addAlarmAt target b.1).1, ((d.addAlarmAt target b.1).2, b.2))
  cancelAlarm id b := (d.cancelAlarm id b.1, b.2)
  alarmIsr b := ((d.alarmIsr b.1).1, ((d.alarmIsr b.1).2, b.2))
  queueFrame frame b := ((d.queueFrame frame b.1).1, ((d.queueFrame frame b.1).2, b.2))
  stats b := d.stats b.1
  txTask b := (d.txTask b.1, b.2)

/-- How long after the epoch a time is. -/
def elapsedOffset (playbackStartUs timeUs : UInt64) : UInt64 := UInt64.ofNat (timeUs.toNat - playbackStartUs.toNat)

theorem elapsedOffset_eq (playbackStartUs timeUs : UInt64) :
    (if timeUs ≥ playbackStartUs then timeUs - playbackStartUs else 0) = elapsedOffset playbackStartUs timeUs := by
  have hlt : timeUs.toNat - playbackStartUs.toNat < 2 ^ 64 := by
    have := timeUs.toNat_lt
    omega
  rw [← UInt64.toNat_inj, elapsedOffset, UInt64.toNat_ofNat_of_lt' hlt]
  split
  · rename_i hle
    exact UInt64.toNat_sub_of_le _ _ hle
  · rename_i hlt
    have := UInt64.lt_iff_toNat_lt.1 (UInt64.not_le.1 hlt)
    exact (Nat.sub_eq_zero_of_le (Nat.le_of_lt this)).symm

/-! ## What the firmware counts and says -/

/-- The elapsed times of the PLAY_UNDERRUNs since a run was last started, newest first. -/
def notices : List Obs → List UInt64
  | [] => []
  | .started _ :: _ => []
  | .frame (.playUnderrun elapsedOffsetUs _) _ :: trace => elapsedOffsetUs :: notices trace
  | _ :: trace => notices trace

def Obs.isUnderrunFault : Obs → Bool
  | .frame (.modeChanged .error .underrun) _ => true
  | _ => false

/-- How often ERROR was reported for an underrun. -/
def underrunFaults (trace : List Obs) : Nat := trace.countP Obs.isUnderrunFault

/-- An observation that is neither the start of a run nor an underrun. -/
def Obs.isMute : Obs → Bool
  | .started _ | .frame (.playUnderrun ..) _ | .frame (.modeChanged .error .underrun) _ => false
  | _ => true

structure Tally where
  underrunCount : UInt32
  playbackStartUs : UInt64
  notices : List UInt64
  faults : Nat

/-- The tally after a fault of this reason took a run to this mode. -/
def Tally.report (t : Tally) (mode : Mode) (reason : Reason) : Tally :=
  { t with faults := t.faults + if mode = .error ∧ reason = .underrun then 1 else 0 }

@[simp] theorem Tally.report_of_ne (t : Tally) (mode : Mode) {reason : Reason} (h : reason ≠ .underrun) :
    t.report mode reason = t := by simp [Tally.report, h]

theorem notices_cons {o : Obs} (h : o.isMute = true) (trace : List Obs) : notices (o :: trace) = notices trace := by
  cases o with
  | started playbackStartUs => cases h
  | frame msg queued => cases msg <;> first | rfl | cases h
  | _ => rfl

theorem notices_mute {obs : List Obs} (h : ∀ o ∈ obs, o.isMute = true) (trace : List Obs) :
    notices (obs ++ trace) = notices trace := by
  induction obs with
  | nil => rfl
  | cons o obs ih =>
    rw [List.forall_mem_cons] at h
    rw [List.cons_append, notices_cons h.1, ih h.2]

theorem isUnderrunFault_mute {o : Obs} (h : o.isMute = true) : o.isUnderrunFault = false := by
  unfold Obs.isUnderrunFault
  split
  · exact absurd h (by simp [Obs.isMute])
  · rfl

theorem underrunFaults_mute {obs : List Obs} (h : ∀ o ∈ obs, o.isMute = true) (trace : List Obs) :
    underrunFaults (obs ++ trace) = underrunFaults trace := by
  have hnone : obs.countP Obs.isUnderrunFault = 0 :=
    List.countP_eq_zero.2 (fun o ho => by simp [isUnderrunFault_mute (h o ho)])
  rw [underrunFaults, List.countP_append, hnone, Nat.zero_add, underrunFaults]

section Passes

variable {β : Type} {d : Board β} {m : Fw β}

def tally (m : Fw β) : Tally where
  underrunCount := m.sched.underrunCount
  playbackStartUs := m.sched.playbackStartUs
  notices := notices m.rest.trace
  faults := underrunFaults m.rest.trace

/-- What a pass leaves behind for the next one. -/
def pause (m : Fw β) : Bool × Bool × Bool × UInt64 :=
  (m.sched.running, m.sched.waitingForEvent, m.sched.underrunActive, m.sched.underrunSinceUs)

theorem tally_mute {m m' : Fw β} (obs : List Obs) (hcount : m'.sched.underrunCount = m.sched.underrunCount)
    (hepoch : m'.sched.playbackStartUs = m.sched.playbackStartUs) (htrace : m'.rest.trace = obs ++ m.rest.trace)
    (hmute : ∀ o ∈ obs, o.isMute = true) : tally m' = tally m := by
  unfold tally
  rw [hcount, hepoch, htrace, notices_mute hmute, underrunFaults_mute hmute]

theorem tally_modeChanged {m m' : Fw β} {mode : Mode} {reason : Reason} {queued : Bool} (hsched : m'.sched = m.sched)
    (htrace : m'.rest.trace = .frame (.modeChanged mode reason) queued :: m.rest.trace) :
    tally m' = (tally m).report mode reason := by
  have hfault : (Obs.frame (.modeChanged mode reason) queued).isUnderrunFault =
      decide (mode = .error ∧ reason = .underrun) := by
    cases mode <;> cases reason <;> rfl
  have hnotices : notices (.frame (.modeChanged mode reason) queued :: m.rest.trace) = notices m.rest.trace := rfl
  unfold tally Tally.report
  rw [hsched, htrace, hnotices, underrunFaults, List.countP_cons, hfault]
  simp [underrunFaults]

/-! ## What happens between two passes -/

/-- No pass, and no underrun reported: the run is where it was, or over. -/
structure Aside (m m' : Fw β) : Prop where
  tally : tally m' = tally m
  pause : (pause m' = pause m ∧ m'.rest.mode = m.rest.mode) ∨ (m'.sched.running = false ∧ m'.rest.mode ≠ .playing)

theorem Aside.refl (m : Fw β) : Aside m m := ⟨rfl, .inl ⟨rfl, rfl⟩⟩

theorem Aside.trans {m m' n : Fw β} (h : Aside m m') (h' : Aside m' n) : Aside m n := by
  refine ⟨h'.tally.trans h.tally, ?_⟩
  rcases h'.pause with ⟨hpause', hmode'⟩ | hover
  · rcases h.pause with ⟨hpause, hmode⟩ | ⟨hrunning, hmode⟩
    · exact .inl ⟨hpause'.trans hpause, hmode'.trans hmode⟩
    · refine .inr ⟨?_, hmode' ▸ hmode⟩
      exact (congrArg Prod.fst hpause').trans hrunning
  · exact .inr hover

/-- The scheduler is left alone, and what is observed is no underrun. -/
theorem Aside.of_mute {m m' : Fw β} (obs : List Obs) (hsched : m'.sched = m.sched) (hmode : m'.rest.mode = m.rest.mode)
    (htrace : m'.rest.trace = obs ++ m.rest.trace) (hmute : ∀ o ∈ obs, o.isMute = true) : Aside m m' := by
  refine ⟨tally_mute obs (by rw [hsched]) (by rw [hsched]) htrace hmute, .inl ⟨?_, hmode⟩⟩
  unfold Pico.pause
  rw [hsched]

theorem queueFrame_aside (msg : PicoMsg) (h : ∀ queued, (Obs.frame msg queued).isMute = true) (m : Fw β) :
    Aside m { m with rest := (m.rest.queueFrame d msg).2 } :=
  .of_mute [_] rfl rfl rfl (by simp [h])

/-- What the transitions do to the tally: they report their reason. -/
theorem notify_tally (reason : Reason) (m : Fw β) : tally (notify d reason m) = (tally m).report m.rest.mode reason :=
  tally_modeChanged rfl rfl

theorem cancelArmed_sched (h : Host (Rest β)) (m : Fw β) :
    ∃ armed fired, (cancelArmed h m).sched = { m.sched with alarmArmed := armed, alarmFired := fired } := by
  unfold cancelArmed
  dsimp only
  split
  · exact ⟨_, _, rfl⟩
  · exact ⟨m.sched.alarmArmed, _, rfl⟩

theorem stop_count (d : Board β) (m : Fw β) :
    (stop d.stopHost m).sched.underrunCount = m.sched.underrunCount ∧
    (stop d.stopHost m).sched.playbackStartUs = m.sched.playbackStartUs := by
  obtain ⟨armed, fired, hsched⟩ := cancelArmed_sched d.stopHost m
  unfold stop
  split
  · exact ⟨rfl, rfl⟩
  · change (cancelArmed d.stopHost m).sched.underrunCount = _ ∧ (cancelArmed d.stopHost m).sched.playbackStartUs = _
    rw [hsched]
    exact ⟨rfl, rfl⟩

theorem resetSequence_count (s : Scheduler) :
    s.resetSequence.underrunCount = s.underrunCount ∧ s.resetSequence.playbackStartUs = s.playbackStartUs := by
  unfold Scheduler.resetSequence
  split <;> exact ⟨rfl, rfl⟩

theorem stopped_mute {running : Bool} {outcome : List Obs} (h : Stopped running outcome) :
    ∀ o ∈ outcome, o.isMute = true := by
  rcases h with ⟨-, rfl⟩ | ⟨-, metrics, q₁, q₂, rfl⟩
  · simp
  · simp [Obs.isMute]

theorem transition_tally (target : Mode) (reason : Reason) (m : Fw β) :
    tally (transition d target reason m) = (tally m).report target reason := by
  have hcount := resetSequence_count (stop d.stopHost m).sched
  have hstop := stop_count d m
  obtain ⟨outcome, htrace, hstopped⟩ := (clearReleaseAndQueue_spec d m).trace
  have hentered : (enter target (clearReleaseAndQueue d m)).rest.trace =
      (.entered target :: .allRelease :: outcome) ++ m.rest.trace := by
    rw [List.cons_append, List.cons_append, ← htrace]
    rfl
  have hmute : ∀ o ∈ Obs.entered target :: .allRelease :: outcome, o.isMute = true := by
    simpa [Obs.isMute] using stopped_mute hstopped
  have hcleared : tally (enter target (clearReleaseAndQueue d m)) = tally m :=
    tally_mute _ (hcount.1.trans hstop.1) (hcount.2.trans hstop.2) hentered hmute
  rw [← hcleared]
  exact tally_modeChanged rfl rfl

/-- A transition ends the run. -/
theorem transition_aside {target : Mode} {reason : Reason} (m : Fw β) (hr : reason ≠ .underrun)
    (ht : target ≠ .playing) :
    Aside m (transition d target reason m) where
  tally := by rw [transition_tally, Tally.report_of_ne _ _ hr]
  pause := .inr ⟨transition_running d target reason m, ht⟩

theorem notify_aside {reason : Reason} (m : Fw β) (hr : reason ≠ .underrun) : Aside m (notify d reason m) where
  tally := by rw [notify_tally, Tally.report_of_ne _ _ hr]
  pause := .inl ⟨rfl, rfl⟩

theorem enterError_aside {reason : Reason} (m : Fw β) (hr : reason ≠ .underrun) : Aside m (enterError d reason m) := by
  unfold enterError
  split
  · exact transition_aside m hr (by decide)
  · exact notify_aside m hr

theorem handleModeSet_aside (target : UInt8) (m : Fw β) : Aside m (handleModeSet d target m).2 := by
  unfold handleModeSet
  split
  · exact notify_aside m (by decide)
  split
  · split
    · exact transition_aside m (by decide) (by decide)
    · exact notify_aside m (by decide)
  split
  · exact notify_aside m (by decide)
  split
  · refine transition_aside m (by decide) ?_
    unfold targetMode
    split
    · decide
    · split <;> decide
  · exact notify_aside m (by decide)

theorem playAbort_aside (m : Fw β) : Aside m (playAbort d m).2 := by
  unfold playAbort
  split
  · exact notify_aside m (by decide)
  · exact transition_aside m (by decide) (by decide)

theorem acknowledgeQueue_aside (m : Fw β) : Aside m (acknowledgeQueue d m) := by
  have hsent : Aside m { m with rest := (m.rest.sendBufferStatus d m.queue).2 } := queueFrame_aside _ (fun _ => rfl) m
  unfold acknowledgeQueue
  dsimp only
  split
  · exact hsent.trans (enterError_aside _ (by decide))
  · exact hsent

theorem queueEvent_aside (frame : Frame) (m : Fw β) : Aside m (queueEvent d frame m) := by
  have hpushed : ∀ event accepted queue, Aside m ⟨m.sched, queue, m.rest.note (.pushed event accepted)⟩ :=
    fun event accepted queue => .of_mute [.pushed event accepted] rfl rfl rfl (by simp [Obs.isMute])
  unfold queueEvent
  dsimp only
  split
  · exact (hpushed _ false m.queue).trans (enterError_aside _ (by decide))
  · rename_i queue _
    exact (hpushed _ true queue).trans (acknowledgeQueue_aside _)

theorem dispatchQueueCommand_aside (hb : Boundary m) (frame : Frame) :
    Aside m (dispatchQueueCommand d frame m) := by
  unfold dispatchQueueCommand
  dsimp only
  split
  · exact enterError_aside m (by decide)
  rename_i hallowed
  obtain ⟨hclear, -⟩ := queueCommand_streams (by simpa using hallowed)
  split
  · rename_i htype
    have harmed := hclear (MsgType.ofByte?_eq_some.1 htype)
    have hidle := hb.idle (by rw [harmed]; decide)
    have hcount := resetSequence_count m.sched
    have hcleared : Aside m ⟨m.sched.resetSequence, m.queue.clear, m.rest⟩ := by
      refine ⟨tally_mute [] hcount.1 hcount.2 rfl (by simp), .inr ⟨?_, ?_⟩⟩
      · rw [resetSequence_stopped hidle]
        exact hidle
      · rw [harmed]
        decide
    exact hcleared.trans (acknowledgeQueue_aside _)
  · exact queueEvent_aside frame m
  · have hended : Aside m { m with sched := m.sched.markSequenceEnded } := ⟨rfl, .inl ⟨rfl, rfl⟩⟩
    split
    · have hready : Aside m ⟨m.sched.markSequenceEnded, m.queue, (m.rest.queueFrame d .playReady).2⟩ :=
        hended.trans (queueFrame_aside .playReady (fun _ => rfl) _)
      exact hready.trans (acknowledgeQueue_aside _)
    · exact hended.trans (acknowledgeQueue_aside _)
  · exact enterError_aside m (by decide)

/-- The way out of the reports: the mode stays, and no underrun is observed. -/
def Muted (r r' : Rest β) : Prop :=
  r'.mode = r.mode ∧ ∃ obs, r'.trace = obs ++ r.trace ∧ ∀ o ∈ obs, o.isMute = true

theorem Muted.refl (r : Rest β) : Muted r r := ⟨rfl, [], rfl, by simp⟩

theorem Muted.cons {r r' : Rest β} {o : Obs} (htrace : r'.trace = o :: r.trace) (hmode : r'.mode = r.mode)
    (ho : o.isMute = true) : Muted r r' := ⟨hmode, [o], htrace, by simpa using ho⟩

theorem Muted.trans {r r' r'' : Rest β} (h : Muted r r') (h' : Muted r' r'') : Muted r r'' := by
  obtain ⟨hmode, obs, htrace, hmute⟩ := h
  obtain ⟨hmode', obs', htrace', hmute'⟩ := h'
  refine ⟨hmode'.trans hmode, obs' ++ obs, by rw [htrace', htrace, List.append_assoc], fun o ho => ?_⟩
  exact (List.mem_append.1 ho).elim (hmute' o) (hmute o)

theorem Muted.aside {r : Rest β} (h : Muted m.rest r) : Aside m { m with rest := r } := by
  obtain ⟨hmode, obs, htrace, hmute⟩ := h
  exact .of_mute obs rfl hmode htrace hmute

theorem sendBootReport_muted (source : HidSource) (report : Report) (r : Rest β) :
    Muted r (r.sendBootReport d source report).2 := by
  rcases sendBootReport_cases d source report r with ⟨-, he⟩ | ⟨-, he⟩
  · rw [he]
    exact .cons rfl rfl rfl
  · rw [he]
    exact .cons rfl rfl rfl

theorem serviceRelease_muted (r : Rest β) : Muted r (serviceRelease d r).2 := by
  have hsent := sendBootReport_muted (d := d) .release Report.releaseAll r
  unfold serviceRelease
  split
  · exact .refl r
  · dsimp only
    split
    · exact hsent.trans (.refl _)
    · exact hsent

theorem recordHead_muted (event : CaptureEvent) (r : Rest β) : Muted r (recordHead d event r) := by
  unfold recordHead
  split
  · exact .refl r
  · exact .cons rfl rfl rfl

theorem recordLoop_muted (hidOutputReady : Bool) : ∀ (fuel : Nat) (r : Rest β),
    Muted r (recordLoop d hidOutputReady fuel r)
  | 0, r => .refl r
  | fuel + 1, r => by
    unfold recordLoop
    split
    · exact .refl r
    rename_i event _
    have hhead := recordHead_muted (d := d) event r
    have hsent := hhead.trans (sendBootReport_muted (d := d) .physical event.report (recordHead d event r))
    dsimp only
    split
    · exact hhead
    split
    · exact hsent
    · exact hsent.trans (.trans (.refl _) (recordLoop_muted hidOutputReady fuel _))

theorem passLoop_muted : ∀ (fuel : Nat) (r : Rest β), Muted r (passLoop d fuel r)
  | 0, r => .refl r
  | fuel + 1, r => by
    unfold passLoop
    split
    · exact .refl r
    rename_i event _
    have hsent := sendBootReport_muted (d := d) .physical event.report r
    dsimp only
    split
    · exact hsent
    · exact hsent.trans (.trans (.refl _) (passLoop_muted fuel _))

theorem physicalReportDispatch_muted (hidOutputReady : Bool) (r : Rest β) :
    Muted r (physicalReportDispatch d hidOutputReady r) := by
  unfold physicalReportDispatch
  split
  · exact recordLoop_muted hidOutputReady _ r
  split
  · exact .refl r
  · exact passLoop_muted _ r

theorem hostEvent_aside (m : Fw β) (e : HostEvent) : Aside m (hostEvent d m e) := by
  have hmuted : Muted m.rest (hostEvent d m e).rest := by
    refine ⟨(hostEvent_sameMode m e).2.1, ?_⟩
    rcases hostEvent_heard (d := d) m e with ⟨-, htrace⟩ | ⟨-, -, htrace, -⟩ | ⟨event, -, htrace⟩
    · exact ⟨[], htrace, by simp⟩
    · exact ⟨[], htrace, by simp⟩
    · exact ⟨[.captured event], htrace, by simp [Obs.isMute]⟩
  rw [(hostEvent_sameMode (d := d) m e).1]
  exact hmuted.aside

theorem flowControlCheck_aside (m : Fw β) : Aside m (flowControlCheck d m) := by
  unfold flowControlCheck
  split
  · have htaken : Aside m { m with rest := { m.rest with flowControlFault := false } } := Muted.aside (.refl m.rest)
    exact htaken.trans (enterError_aside _ (by decide))
  · exact .refl m

/-- PLAY_START, where it starts a run. -/
def startsRun (m : Fw β) : Statement → Bool
  | .command frame => frame.type == MsgType.playStart.byte && m.rest.mode == .armed
  | _ => false

theorem dispatchCommand_aside (hb : Boundary m) (frame : Frame) (hs : startsRun m (.command frame) = false) :
    Aside m (dispatchCommand d m frame) := by
  unfold dispatchCommand
  split
  · have hset := handleModeSet_aside (d := d) (frame.payload.getD 0 0) m
    exact hset.trans (Muted.aside (.cons rfl rfl rfl))
  · rename_i htype
    have hm : m.rest.mode ≠ .armed := by
      intro hm
      rw [startsRun, hm, MsgType.ofByte?_eq_some.1 htype] at hs
      simp at hs
    have hread : Aside m (readEpoch d m) := Muted.aside (.refl m.rest)
    rw [dispatchPlayStart_refused hm]
    exact hread.trans (notify_aside _ (by decide))
  · exact playAbort_aside m
  · exact queueFrame_aside _ (fun _ => rfl) m
  · exact queueFrame_aside (.picoStatus ..) (fun _ => rfl) m
  · exact dispatchQueueCommand_aside hb frame
  · exact dispatchQueueCommand_aside hb frame
  · exact dispatchQueueCommand_aside hb frame
  · exact enterError_aside m (by decide)

/-- **Between two passes nothing is counted and nothing said**, whatever the main loop does there. -/
theorem exec_aside (hb : Boundary m) (s : Statement) (hstart : startsRun m s = false) (htask : s ≠ .task)
    (hwatchdog : s ≠ .watchdog) : Aside m (exec d m s) := by
  cases s with
  | tudTask => exact Muted.aside (.refl m.rest)
  | host event => exact hostEvent_aside m event
  | uartFault => exact enterError_aside m (by decide)
  | command frame => exact dispatchCommand_aside hb frame hstart
  | output => exact Muted.aside ((serviceRelease_muted m.rest).trans (physicalReportDispatch_muted _ _))
  | task => exact absurd rfl htask
  | flowControl => exact flowControlCheck_aside m
  | watchdog => exact absurd rfl hwatchdog
  | txTask => exact Muted.aside (.refl m.rest)

/-! ## What a pass does -/

/-- In a run with its queue empty and its sequence open. -/
def starved (m : Fw β) : Bool := m.sched.running && m.queue.toList.isEmpty && !m.sched.sequenceEnded

theorem starved_iff (m : Fw β) :
    starved m = true ↔ m.sched.running = true ∧ m.queue.peek = none ∧ m.sched.sequenceEnded = false := by
  simp [starved, Lib.Ring.peek_eq_none, and_assoc]

/-- The scheduler waits in an empty interval that began at `sinceUs`. -/
structure Starving (sinceUs : UInt64) (m : Fw β) : Prop where
  running : m.sched.running = true
  waiting : m.sched.waitingForEvent = true
  active : m.sched.underrunActive = true
  since : m.sched.underrunSinceUs = sinceUs
  empty : m.queue.peek = none
  unended : m.sched.sequenceEnded = false

/-- The run goes on as planned, or is over. -/
structure Fed (t : Tally) (m : Fw β) : Prop where
  tally : tally m = t
  planned : Planned m
  steady : m.rest.mode = .playing → m.sched.running = true
  calm : m.sched.running = true → m.sched.waitingForEvent = false ∧ m.sched.underrunActive = false

/-- The tally with one interval more. -/
def Tally.interval (t : Tally) (timeUs : UInt64) : Tally :=
  { t with
    underrunCount := t.underrunCount + 1
    notices := elapsedOffset t.playbackStartUs timeUs :: t.notices }

end Passes

section Logged

variable {β : Type} {d : Board β} {m : Fw (β × List UInt64)}

/-- An empty interval began at the last reading of the clock. -/
def Dry (t : Tally) (m : Fw (β × List UInt64)) : Prop :=
  ∃ timeUs, m.rest.board.2.head? = some timeUs ∧ Starving timeUs m ∧ tally m = t.interval timeUs

/-- What planning keeps of the surroundings: everything but the board, and of that the log. -/
def Still (r r' : Rest (β × List UInt64)) : Prop := ∃ b, r' = { r with board := (b, r.board.2) }

theorem cancelArmed_still (m : Fw (β × List UInt64)) : Still m.rest (cancelArmed d.logged.mainHost m).rest := by
  unfold cancelArmed
  dsimp only
  split
  · exact ⟨_, rfl⟩
  · exact ⟨_, rfl⟩

/-- **Polling in an empty interval changes nothing.** -/
theorem armNext_starving {sinceUs : UInt64} (h : Starving sinceUs m) :
    Starving sinceUs (armNext d.logged.mainHost m).2 ∧ tally (armNext d.logged.mainHost m).2 = tally m ∧
    (armNext d.logged.mainHost m).1 = false ∧ Still m.rest (armNext d.logged.mainHost m).2.rest := by
  obtain ⟨armed, fired, hsched⟩ := cancelArmed_sched d.logged.mainHost m
  obtain ⟨b, hrest⟩ := cancelArmed_still (d := d) m
  have hqueue := cancelArmed_queue d.logged.mainHost m
  have hdrained : (armNext d.logged.mainHost m) = (false,
      { cancelArmed d.logged.mainHost m with
        sched := { (cancelArmed d.logged.mainHost m).sched with waitingForEvent := true } }) := by
    rw [armNext_empty h.empty, drained, hsched]
    simp only [h.unended, beginUnderrun, hsched, h.active]
    rfl
  rw [hdrained, hsched]
  refine ⟨⟨h.running, rfl, h.active, h.since, ?_, h.unended⟩, ?_, rfl, b, hrest⟩
  · rw [hqueue]
    exact h.empty
  · exact tally_mute [] rfl rfl (by rw [hrest]; rfl) (by simp)

/-- Planning a head ends the interval and says nothing. -/
theorem armNext_planning {event : PlaybackEvent} (hp : m.queue.peek = some event) :
    tally (armNext d.logged.mainHost m).2 = tally m ∧
    (armNext d.logged.mainHost m).2.rest.mode = m.rest.mode ∧
    (armNext d.logged.mainHost m).2.sched.waitingForEvent = false ∧
    (armNext d.logged.mainHost m).2.sched.underrunActive = false := by
  obtain ⟨armed, fired, hsched⟩ := cancelArmed_sched d.logged.mainHost m
  obtain ⟨b, hrest⟩ := cancelArmed_still (d := d) m
  rw [armNext_head hp]
  unfold armIfFuture armAlarm plan
  dsimp only
  rw [hsched, hrest]
  split
  · split
    · exact ⟨tally_mute [] rfl rfl rfl (by simp), rfl, rfl, rfl⟩
    · exact ⟨tally_mute [] rfl rfl rfl (by simp), rfl, rfl, rfl⟩
  · exact ⟨tally_mute [] rfl rfl rfl (by simp), rfl, rfl, rfl⟩

theorem finished_tally (d : Board β) (m : Fw β) : tally (finished d m) = tally m := by
  obtain ⟨metrics, q₁, q₂, htrace⟩ := finished_trace d m
  exact tally_mute [.frame (.playMetrics metrics) q₂, .frame .playFinished q₁, .completed .finished metrics]
    rfl rfl htrace (by simp [Obs.isMute])

theorem finish_fed (d : Board β) (m : Fw β) : Fed (tally m) (finish d.mainHost .finished m) := by
  have hrunning := finish_running (main_settles d) .finished m
  have hover : ∀ {P : Prop}, (finish d.mainHost .finished m).sched.running = true → P := fun hr => by
    rw [hrunning] at hr
    cases hr
  have hsame : tally (finish d.mainHost .finished m) = tally m ∧
      (finish d.mainHost .finished m).rest.mode ≠ .playing := by
    rw [finish_main]
    split
    · rename_i hm
      rw [notify_tally, Tally.report_of_ne _ _ (by decide), finished_tally]
      exact ⟨rfl, hm⟩
    · rw [transition_tally, Tally.report_of_ne _ _ (by decide), finished_tally]
      exact ⟨rfl, nofun⟩
  exact ⟨hsame.1, fun hr => hover hr, fun hm => absurd hm hsame.2, fun hr => hover hr⟩

theorem onUnderrun_logged (elapsedUs : UInt64) (free : UInt16) (r : Rest (β × List UInt64)) :
    ∃ b fault queued, d.logged.mainHost.onUnderrun elapsedUs free r = { r with
      board := (b, r.board.2)
      flowControlFault := fault
      trace := .frame (.playUnderrun elapsedUs free) queued :: r.trace } := by
  change ∃ b fault queued, Rest.faultUnless (r.queueFrame d.logged (.playUnderrun elapsedUs free)) = _
  rw [faultUnless_queueFrame]
  exact ⟨_, _, _, rfl⟩

/-- **A new interval is counted once and told once**, with its first reading of the clock. -/
theorem beginUnderrun_dry (hr : m.sched.running = true) (he : m.queue.peek = none) (hu : m.sched.sequenceEnded = false)
    (hactive : m.sched.underrunActive = false) : Dry (tally m) (beginUnderrun d.logged.mainHost m) := by
  obtain ⟨b, fault, queued, hnotice⟩ := onUnderrun_logged (d := d)
    (elapsedOffset m.sched.playbackStartUs (d.timeUs64 m.rest.board.1).1)
    (UInt16.ofNat (PlaybackQueue.freeCapacity m.queue)) (d.logged.mainHost.timeUs64 m.rest).2
  have hopened : beginUnderrun d.logged.mainHost m =
      { m with
        sched := { m.sched with
          waitingForEvent := true
          underrunActive := true
          underrunSinceUs := (d.timeUs64 m.rest.board.1).1
          underrunCount := m.sched.underrunCount + 1 }
        rest := d.logged.mainHost.onUnderrun (elapsedOffset m.sched.playbackStartUs (d.timeUs64 m.rest.board.1).1)
          (UInt16.ofNat (PlaybackQueue.freeCapacity m.queue)) (d.logged.mainHost.timeUs64 m.rest).2 } := by
    rw [← elapsedOffset_eq]
    unfold beginUnderrun
    rw [if_neg (by rw [hactive]; decide)]
    rfl
  rw [hopened, hnotice]
  refine ⟨(d.timeUs64 m.rest.board.1).1, rfl, ⟨hr, rfl, rfl, rfl, he, hu⟩, ?_⟩
  have hfaults : underrunFaults (.frame
      (.playUnderrun (elapsedOffset m.sched.playbackStartUs (d.timeUs64 m.rest.board.1).1)
        (UInt16.ofNat (PlaybackQueue.freeCapacity m.queue))) queued :: m.rest.trace) = underrunFaults m.rest.trace := by
    simp [underrunFaults, Obs.isUnderrunFault]
  unfold tally Tally.interval
  exact congrArg _ hfaults

/-- What planning needs: an empty queue of an open sequence was not told yet. -/
structure Due (t : Tally) (m : Fw (β × List UInt64)) : Prop where
  tally : tally m = t
  steady : m.rest.mode = .playing → m.sched.running = true
  fresh : m.sched.running = true → m.sched.underrunActive = true → m.queue.peek = none → m.sched.sequenceEnded = true

/-- **What `arm_next` comes to**: the run goes on or is over, or an empty interval began. -/
theorem armNext_due {t : Tally} (hr : m.sched.running = true) (h : Due t m) :
    Fed t (armNext d.logged.mainHost m).2 ∨ Dry t (armNext d.logged.mainHost m).2 := by
  obtain ⟨armed, fired, hsched⟩ := cancelArmed_sched d.logged.mainHost m
  obtain ⟨b, hrest⟩ := cancelArmed_still (d := d) m
  have hqueue := cancelArmed_queue d.logged.mainHost m
  have htally : tally (cancelArmed d.logged.mainHost m) = t := by
    rw [← h.tally]
    exact tally_mute [] (by rw [hsched]) (by rw [hsched]) (by rw [hrest]; rfl) (by simp)
  cases hp : m.queue.peek with
  | some event =>
    obtain ⟨hsame, hmode, hwaiting, hactive⟩ := armNext_planning (d := d) hp
    have hrunning : (armNext d.logged.mainHost m).2.sched.running = true :=
      (armNext_running (by rw [armNext_head hp])).trans hr
    exact .inl ⟨hsame.trans h.tally, armNext_planned (main_settles _) m, fun _ => hrunning,
      fun _ => ⟨hwaiting, hactive⟩⟩
  | none =>
    rw [armNext_empty hp, drained]
    by_cases he : m.sched.sequenceEnded = true
    · rw [if_pos (by rw [hsched]; exact he), ← htally]
      exact .inl (finish_fed d.logged _)
    · rw [if_neg (by rw [hsched]; exact he), ← htally]
      refine .inr (beginUnderrun_dry ?_ ?_ ?_ ?_)
      · rw [hsched]
        exact hr
      · rw [hqueue]
        exact hp
      · rw [hsched]
        exact Bool.eq_false_iff.2 he
      · rw [hsched]
        exact Bool.eq_false_iff.2 (fun hactive => he (h.fresh hr hactive hp))

theorem armNext_dry {t : Tally} (h : Dry t m) : Dry t (armNext d.logged.mainHost m).2 := by
  obtain ⟨timeUs, hlog, hstarving, htally⟩ := h
  obtain ⟨hstill, hsame, -, b, hrest⟩ := armNext_starving (d := d) hstarving
  refine ⟨timeUs, ?_, hstill, hsame.trans htally⟩
  rw [hrest]
  exact hlog

/-- Between two rounds of the task loop, and before one plans again. -/
def Passing (t : Tally) (m : Fw (β × List UInt64)) : Prop := Fed t m ∨ Dry t m
def Planning (t : Tally) (m : Fw (β × List UInt64)) : Prop := Due t m ∨ Dry t m

/-- The head was looked at and stays where it is. -/
theorem Fed.look {t : Tally} {m' : Fw (β × List UInt64)} (h : Fed t m) (obs : List Obs)
    (hsched : m'.sched = { m.sched with alarmFired := false }) (hqueue : m'.queue = m.queue)
    (hmode : m'.rest.mode = m.rest.mode) (htrace : m'.rest.trace = obs ++ m.rest.trace)
    (hmute : ∀ o ∈ obs, o.isMute = true) : Fed t m' where
  tally := (tally_mute obs (by rw [hsched]) (by rw [hsched]) htrace hmute).trans h.tally
  planned hr hw := by
    rw [hsched] at hr hw
    rw [hqueue]
    exact h.planned hr hw
  steady hm := by
    rw [hmode] at hm
    rw [hsched]
    exact h.steady hm
  calm hr := by
    rw [hsched] at hr ⊢
    exact h.calm hr

theorem due_rest (h : Host (Rest (β × List UInt64))) (hb : ∀ r, ∃ b, (h.timeUs64 r).2 = { r with board := b })
    (hi : ∀ r, ∃ b, (h.alarmIsr r).2 = { r with board := b }) :
    ∃ b, (due h m).2.rest = { m.rest with board := b } := by
  obtain ⟨b, hisr⟩ := hi m.rest
  unfold due interrupt
  dsimp only
  split
  · exact ⟨b, hisr⟩
  · obtain ⟨b', hclock⟩ := hb (h.alarmIsr m.rest).2
    rw [hclock, hisr]
    exact ⟨b', rfl⟩

theorem due_logged (d : Board β) (m : Fw (β × List UInt64)) :
    ∃ b, (due d.logged.mainHost m).2.rest = { m.rest with board := b } :=
  due_rest _ (fun _ => ⟨_, rfl⟩) (fun _ => ⟨_, rfl⟩)

theorem dispatched_due {t : Tally} {event : PlaybackEvent} (h : Fed t m) (hr : m.sched.running = true)
    (htaken : (d.logged.mainHost.sendReport event.report m.rest).1 = true) :
    Due t (dispatched d.logged.mainHost { m with rest := (d.logged.mainHost.sendReport event.report m.rest).2 }) := by
  have hplayed := dispatched_played (d := d.logged) htaken
  obtain ⟨b, fault, credit, -, hrest, hcredit⟩ := hplayed.rest
  refine ⟨?_, fun _ => hplayed.running.trans hr, fun _ hactive => ?_⟩
  · rw [← h.tally]
    refine tally_mute (credit ++ [.hid .playback event.report true]) rfl rfl ?_ ?_
    · rw [hrest, List.append_assoc]
      rfl
    · rcases hcredit with ⟨-, rfl⟩ | ⟨-, -, queued, rfl⟩
      · simp [Obs.isMute]
      · simp [Obs.isMute, Credit]
  · rw [hplayed.underrunActive, (h.calm hr).2] at hactive
    cases hactive

/-- **A pass of the scheduler** begins at most one empty interval, and leaves with it. -/
theorem taskLoop_passing {t : Tally} (fuel : Nat) (m : Fw (β × List UInt64)) (h : Passing t m) :
    Passing t (taskLoop d.logged.mainHost fuel m) := by
  have hfed : ∀ {m : Fw (β × List UInt64)}, Passing t m → m.sched.waitingForEvent = false → Fed t m := by
    rintro m (hfed | ⟨_, -, hstarving, -⟩) hw
    · exact hfed
    · rw [hstarving.waiting] at hw
      cases hw
  refine taskLoop_rule (P := Passing t) (Q := Planning t) ?wait ?next ?head ?early ?refuse ?take fuel m h
  case wait =>
    rintro m (hfed | hdry) _
    · refine .inl ⟨hfed.tally, hfed.steady, fun hr hactive => ?_⟩
      rw [(hfed.calm hr).2] at hactive
      cases hactive
    · exact .inr hdry
  case next =>
    rintro m hr (hdue | hdry)
    · exact armNext_due hr hdue
    · exact .inr (armNext_dry hdry)
  case head => exact fun m h hr hw => (hfed h hw).planned hr hw
  case early =>
    intro m h _ hw _
    obtain ⟨b, hrest⟩ := due_logged d m
    exact .inl ((hfed h hw).look [] (due_sched _ m) (due_queue _ m) (by rw [hrest]) (by rw [hrest]; rfl) (by simp))
  case refuse =>
    intro m event h _ hw _ _ hbusy
    obtain ⟨b, hrest⟩ := due_logged d m
    obtain ⟨hmode, obs, htrace, hmute⟩ := sendBootReport_muted (d := d.logged) .playback event.report
      (due d.logged.mainHost m).2.rest
    refine .inl ((hfed h hw).look obs (due_sched _ m) (due_queue _ m) ?_ ?_ hmute)
    · exact hmode.trans (by rw [hrest])
    · exact htrace.trans (by rw [hrest])
  case take =>
    intro m event h hr hw _ _ htaken
    obtain ⟨b, hrest⟩ := due_logged d m
    have hlooked : Fed t (due d.logged.mainHost m).2 :=
      (hfed h hw).look [] (due_sched _ m) (due_queue _ m) (by rw [hrest]) (by rw [hrest]; rfl) (by simp)
    refine .inl (dispatched_due hlooked ?_ htaken)
    rw [due_sched]
    exact hr

end Logged

end Pico
end PicoRecorder
