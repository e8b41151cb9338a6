import PicoRecorder.Pico.Joint
/-!
# Credit — the playback queue and what the Pico says about it

While a sequence is open the scheduler changes the number of queued events one by one, and `Tick` lists the frames it
says so with: nothing for a pop from a queue with room, a BUFFER_STATUS for the first pop from a full one, a
PLAY_UNDERRUN where there is nothing to pop.  A frame that is lost on the way leaves the Pico `Lost`: in ERROR, or about
to be.
-/
namespace PicoRecorder
namespace Pico

open Relation (ReflTransGen)
open Lib (Preserved)

/-- The frames a part of the trace sent, oldest first. -/
def sent (obs : List Obs) : List PicoMsg := (wire obs).reverse

theorem wire_append : ∀ newer older : List Obs, wire (newer ++ older) = wire newer ++ wire older
  | [], _ => rfl
  | .frame msg true :: newer, older => congrArg (msg :: ·) (wire_append newer older)
  | .frame _ false :: newer, older => wire_append newer older
  | .captured _ :: newer, older => wire_append newer older
  | .pushed _ _ :: newer, older => wire_append newer older
  | .modeSet _ _ :: newer, older => wire_append newer older
  | .entered _ :: newer, older => wire_append newer older
  | .allRelease :: newer, older => wire_append newer older
  | .hid _ _ _ :: newer, older => wire_append newer older
  | .started _ :: newer, older => wire_append newer older
  | .completed _ _ :: newer, older => wire_append newer older

@[simp] theorem sent_nil : sent [] = [] := rfl

theorem sent_append (newer older : List Obs) : sent (newer ++ older) = sent older ++ sent newer := by
  simp [sent, wire_append]

@[simp] theorem sent_frame (msg : PicoMsg) (queued : Bool) (obs : List Obs) :
    sent (.frame msg queued :: obs) = sent obs ++ if queued then [msg] else [] := by
  cases queued <;> simp [sent, wire]

/-- The frames that tell the Zero how much room there is. -/
def PicoMsg.tellsCredit : PicoMsg → Bool
  | .bufferStatus .. | .playUnderrun .. => true
  | _ => false

/-- One change of the number of queued events, and the frames that go with it. -/
inductive Tick : Nat → List PicoMsg → Nat → Prop
  | quiet (count : Nat) (msgs : List PicoMsg) (silent : ∀ msg ∈ msgs, msg.tellsCredit = false) : Tick count msgs count
  | starve (elapsed : UInt64) (free : UInt16) : Tick 0 [.playUnderrun elapsed free] 0
  | pop (count : Nat) (room : count + 1 < playbackQueueCapacity) : Tick (count + 1) [] count
  | edge (mode : Mode) : Tick playbackQueueCapacity [.bufferStatus mode 511 1] 511

inductive Ticks : Nat → List PicoMsg → Nat → Prop
  | nil (count : Nat) : Ticks count [] count
  | snoc {before msgs between more after} (ticks : Ticks before msgs between) (tick : Tick between more after) :
      Ticks before (msgs ++ more) after

theorem Tick.ticks {before after : Nat} {msgs : List PicoMsg} (h : Tick before msgs after) : Ticks before msgs after :=
  .snoc (.nil before) h

theorem Ticks.trans {before between after : Nat} {msgs more : List PicoMsg} (h : Ticks before msgs between)
    (h' : Ticks between more after) : Ticks before (msgs ++ more) after := by
  induction h' with
  | nil => rw [List.append_nil]; exact h
  | snoc _ tick ih => rw [← List.append_assoc]; exact .snoc ih tick

section Steps

variable {β : Type} {d : Board β}

/-- In ERROR, or with the flow-control fault set that the current iteration turns into it. -/
def Lost (m : Fw β) : Prop := m.rest.mode = .error ∨ m.rest.flowControlFault = true

theorem not_lost {m : Fw β} : ¬Lost m ↔ m.rest.mode ≠ .error ∧ m.rest.flowControlFault = false := by
  simp [Lost]

/-- What happens from one state to the other, unless the Pico is lost. -/
def Granted (m m' : Fw β) : Prop :=
  ∃ obs, m'.rest.trace = obs ++ m.rest.trace ∧ (¬Lost m' → ¬Lost m ∧ Ticks m.queue.count (sent obs) m'.queue.count)

theorem Granted.refl (m : Fw β) : Granted m m := ⟨[], rfl, fun h => ⟨h, .nil _⟩⟩

theorem Granted.trans {m m' m'' : Fw β} (h : Granted m m') (h' : Granted m' m'') : Granted m m'' := by
  obtain ⟨obs, htrace, hticks⟩ := h
  obtain ⟨obs', htrace', hticks'⟩ := h'
  refine ⟨obs' ++ obs, by rw [htrace', htrace, List.append_assoc], fun hlost => ?_⟩
  obtain ⟨hlost', hticks'⟩ := hticks' hlost
  obtain ⟨hlost, hticks⟩ := hticks hlost'
  rw [sent_append]
  exact ⟨hlost, hticks.trans hticks'⟩

/-- Nothing about the queue. -/
theorem Granted.quiet {m m' : Fw β} (obs : List Obs) (htrace : m'.rest.trace = obs ++ m.rest.trace)
    (hsilent : ∀ msg ∈ sent obs, msg.tellsCredit = false) (hqueue : m'.queue = m.queue)
    (hmode : m'.rest.mode = m.rest.mode) (hfault : m'.rest.flowControlFault = m.rest.flowControlFault) :
    Granted m m' := by
  refine ⟨obs, htrace, fun hlost => ⟨?_, ?_⟩⟩
  · rwa [not_lost, hmode, hfault, ← not_lost] at hlost
  · rw [hqueue]
    exact (Tick.quiet _ _ hsilent).ticks

/-- A state that is lost grants nothing. -/
theorem Granted.lost {m m' : Fw β} (obs : List Obs) (htrace : m'.rest.trace = obs ++ m.rest.trace) (hlost : Lost m') :
    Granted m m' := ⟨obs, htrace, fun h => absurd hlost h⟩

/-! ## The scheduler -/

/-- The part of a state that an open sequence keeps while the scheduler runs. -/
def Running (m m' : Fw β) : Prop :=
  Granted m m' ∧ m'.sched.sequenceEnded = m.sched.sequenceEnded ∧ m'.rest.mode = m.rest.mode

theorem arming_running {m m' : Fw β} (hs : Arming d.mainHost m m') (hopen : m.sched.sequenceEnded = false) :
    Running m m' := by
  rcases arming_cases hs with hq | ⟨-, -, hempty, -, hq⟩ | ⟨-, -, -, hended, -⟩
  · obtain ⟨board, hrest, -⟩ := hq.rest
    refine ⟨.quiet [] (by rw [hrest]; rfl) (by simp) hq.queue (by rw [hrest]) (by rw [hrest]), hq.sequenceEnded, ?_⟩
    rw [hrest]
  · obtain ⟨board, elapsed, queued, -, hrest⟩ := hq.rest
    refine ⟨⟨[.frame (.playUnderrun elapsed _) queued], by rw [hrest]; rfl, fun hlost => ?_⟩, hq.sequenceEnded,
      by rw [hrest]⟩
    have hcount : m.queue.count = 0 := (Lib.Ring.toList_eq_nil _).1 hempty
    -- The notice was queued, or the fault would be set.
    rw [not_lost, hrest] at hlost
    obtain ⟨hmode, hfault⟩ := hlost
    obtain ⟨hcalm, hqueued⟩ := Bool.or_eq_false_iff.1 hfault
    refine ⟨not_lost.2 ⟨hmode, hcalm⟩, ?_⟩
    rw [hq.queue, hcount, sent_frame, if_pos (by simpa using hqueued)]
    exact (Tick.starve elapsed _).ticks
  · rw [hopen] at hended
    cases hended

theorem freeCapacity_zero {queue : PlaybackQueue} :
    PlaybackQueue.freeCapacity queue = 0 ↔ queue.count = playbackQueueCapacity := by
  have := queue.count_le
  unfold PlaybackQueue.freeCapacity
  omega

theorem count_pop {queue : PlaybackQueue} {event : PlaybackEvent} (head : queue.peek = some event) :
    queue.count = queue.pop.count + 1 := by
  have h := congrArg List.length (Lib.Ring.toList_of_peek _ _ head)
  rwa [List.length_cons, Lib.Ring.length_toList, Lib.Ring.length_toList] at h

theorem dispatched_running {m : Fw β} {event : PlaybackEvent} (head : m.queue.peek = some event)
    (taken : (d.mainHost.sendReport event.report m.rest).1 = true) (hopen : m.sched.sequenceEnded = false) :
    Running m (dispatched d.mainHost { m with rest := (d.mainHost.sendReport event.report m.rest).2 }) := by
  have hpop := count_pop head
  have hplayed := dispatched_played (d := d) taken
  obtain ⟨board, fault, credit, -, hrest, -⟩ := hplayed.rest
  refine ⟨?_, hplayed.sequenceEnded, (congrArg Rest.mode hrest).trans rfl⟩
  obtain ⟨-, -, hsent⟩ := sendBootReport_taken (d := d) .playback taken
  change Granted m (dispatched d.mainHost { m with rest := (m.rest.sendBootReport d .playback event.report).2 })
  rw [hsent]
  unfold dispatched
  dsimp only
  rw [hopen, Bool.not_false, Bool.and_true]
  by_cases hfull : PlaybackQueue.freeCapacity m.queue = 0
  · obtain ⟨frame, queued, hcredit⟩ := onBufferAvailable_main d m.queue.pop { m.rest with
      board := (d.hidReport event.report m.rest.board).2
      trace := .hid .playback event.report true :: m.rest.trace }
    rw [if_pos (beq_iff_eq.2 hfull), hcredit]
    have hcount := freeCapacity_zero.1 hfull
    refine ⟨[Credit m.rest.mode m.queue.pop queued, .hid .playback event.report true], rfl, fun hlost => ?_⟩
    obtain ⟨hmode, hfault⟩ := not_lost.1 hlost
    obtain ⟨hcalm, hqueued⟩ := Bool.or_eq_false_iff.1 hfault
    refine ⟨not_lost.2 ⟨hmode, hcalm⟩, ?_⟩
    have hafter : m.queue.pop.count = 511 := Nat.succ.inj (hpop.symm.trans hcount)
    have hfree : PlaybackQueue.freeCapacity m.queue.pop = 1 := by unfold PlaybackQueue.freeCapacity; rw [hafter]; rfl
    rw [Credit, sent_frame, if_pos (by simpa using hqueued), hcount, hfree, hafter]
    exact (Tick.edge m.rest.mode).ticks
  · rw [if_neg (fun h => hfull (beq_iff_eq.1 h))]
    refine ⟨[.hid .playback event.report true], rfl, fun hlost => ⟨hlost, ?_⟩⟩
    show Ticks m.queue.count [] m.queue.pop.count
    rw [hpop]
    have hroom : m.queue.pop.count + 1 < playbackQueueCapacity :=
      hpop ▸ Nat.lt_of_le_of_ne m.queue.count_le (mt freeCapacity_zero.2 hfull)
    exact (Tick.pop _ hroom).ticks

theorem sendBootReport_quiet (source : HidSource) (report : Report) (r : Rest β) :
    ∃ obs, (r.sendBootReport d source report).2.trace = obs ++ r.trace ∧ sent obs = [] := by
  rcases sendBootReport_cases d source report r with ⟨-, he⟩ | ⟨-, he⟩ <;> rw [he] <;> exact ⟨[_], rfl, rfl⟩

theorem micro_running {m m' : Fw β} (hs : Micro d.mainHost m m') (hopen : m.sched.sequenceEnded = false) :
    Running m m' := by
  cases hs with
  | arming step => exact arming_running step hopen
  | refuse event running ready head busy =>
    obtain ⟨obs, htrace, hsilent⟩ := sendBootReport_quiet (d := d) .playback event.report m.rest
    obtain ⟨hmode, hfault⟩ := sendBootReport_sameMode (d := d) .playback event.report m.rest
    exact ⟨.quiet obs htrace (by simp [hsilent]) rfl hmode hfault, rfl, hmode⟩
  | dispatch event running ready head taken => exact dispatched_running head taken hopen

theorem Running.trans {m m' m'' : Fw β} (h : Running m m') (h' : Running m' m'') : Running m m'' :=
  ⟨h.1.trans h'.1, h'.2.1.trans h.2.1, h'.2.2.trans h.2.2⟩

/-- Any steps of a relation that keeps an open sequence `Running`. -/
theorem running_steps {R : Fw β → Fw β → Prop}
    (hR : ∀ m m', R m m' → m.sched.sequenceEnded = false → Running m m') {m m' : Fw β} (hs : ReflTransGen R m m')
    (hopen : m.sched.sequenceEnded = false) : Running m m' := by
  induction hs with
  | refl => exact ⟨.refl m, rfl, rfl⟩
  | tail _ step ih => exact ih.trans (hR _ _ step (ih.2.1.trans hopen))

/-! ## The statements of the main loop -/

theorem mem_sent {msg : PicoMsg} : ∀ {obs : List Obs}, msg ∈ sent obs ↔ .frame msg true ∈ obs
  | [] => by simp
  | o :: obs => by
    have hobs : msg ∈ sent (o :: obs) ↔ msg ∈ sent obs ∨ msg ∈ sent [o] := by
      rw [show o :: obs = [o] ++ obs from rfl, sent_append, List.mem_append]
    rw [hobs, mem_sent, List.mem_cons, or_comm]
    refine or_congr_left ?_
    cases o with
    | frame told queued => cases queued <;> simp [sent, wire]
    | _ => simp [sent, wire]

/-- The trace has more, all of a kind. -/
def Adds (kind : Obs → Bool) (m m' : Fw β) : Prop :=
  ∃ obs, m'.rest.trace = obs ++ m.rest.trace ∧ ∀ o ∈ obs, kind o = true

/-- What the trace has more, all frames of a kind. -/
def Tells (kind : PicoMsg → Bool) (m m' : Fw β) : Prop :=
  ∃ obs, m'.rest.trace = obs ++ m.rest.trace ∧ ∀ msg ∈ sent obs, kind msg = true

section Adds

variable {kind kind' : Obs → Bool} {m m' m'' : Fw β}

theorem Adds.refl (m : Fw β) : Adds kind m m := ⟨[], rfl, nofun⟩

theorem Adds.trans (h : Adds kind m m') (h' : Adds kind m' m'') : Adds kind m m'' := by
  obtain ⟨obs, htrace, hkind⟩ := h
  obtain ⟨obs', htrace', hkind'⟩ := h'
  refine ⟨obs' ++ obs, by rw [htrace', htrace, List.append_assoc], fun o ho => ?_⟩
  exact (List.mem_append.1 ho).elim (hkind' o) (hkind o)

theorem Adds.one {o : Obs} (htrace : m'.rest.trace = o :: m.rest.trace) (ho : kind o = true) : Adds kind m m' :=
  ⟨[o], htrace, fun _ h => List.mem_singleton.1 h ▸ ho⟩

theorem Adds.same (htrace : m'.rest.trace = m.rest.trace) : Adds kind m m' := ⟨[], htrace, nofun⟩

theorem Adds.mono (h : Adds kind m m') (hkind : ∀ o, kind o = true → kind' o = true) : Adds kind' m m' := by
  obtain ⟨obs, htrace, hadds⟩ := h
  exact ⟨obs, htrace, fun o ho => hkind o (hadds o ho)⟩

theorem Adds.tells {told : PicoMsg → Bool} (h : Adds kind m m')
    (hkind : ∀ msg, kind (.frame msg true) = true → told msg = true) : Tells told m m' := by
  obtain ⟨obs, htrace, hadds⟩ := h
  exact ⟨obs, htrace, fun msg hm => hkind msg (hadds _ (mem_sent.1 hm))⟩

end Adds

section Tells

variable {kind : PicoMsg → Bool} {m m' m'' : Fw β}

theorem Tells.refl (m : Fw β) : Tells kind m m := ⟨[], rfl, nofun⟩

theorem Tells.trans (h : Tells kind m m') (h' : Tells kind m' m'') : Tells kind m m'' := by
  obtain ⟨obs, htrace, hkind⟩ := h
  obtain ⟨obs', htrace', hkind'⟩ := h'
  refine ⟨obs' ++ obs, by rw [htrace', htrace, List.append_assoc], fun msg hm => ?_⟩
  rw [sent_append] at hm
  exact (List.mem_append.1 hm).elim (hkind msg) (hkind' msg)

theorem Tells.frame {msg : PicoMsg} {queued : Bool} (htrace : m'.rest.trace = .frame msg queued :: m.rest.trace)
    (hkind : kind msg = true) : Tells kind m m' := by
  refine ⟨[.frame msg queued], htrace, fun msg' hm => ?_⟩
  cases queued with
  | false => cases hm
  | true =>
    obtain rfl : msg' = msg := by simpa using hm
    exact hkind

theorem Tells.silent {o : Obs} (htrace : m'.rest.trace = o :: m.rest.trace) (ho : sent [o] = []) : Tells kind m m' :=
  ⟨[o], htrace, by simp [ho]⟩

theorem Tells.same (htrace : m'.rest.trace = m.rest.trace) : Tells kind m m' := ⟨[], htrace, nofun⟩

theorem Tells.running (h : Tells (fun msg => !msg.tellsCredit) m m') (hqueue : m'.queue = m.queue)
    (hsame : SameMode m.rest m'.rest) : Granted m m' := by
  obtain ⟨obs, htrace, hsilent⟩ := h
  exact .quiet obs htrace (fun msg hm => by simpa using hsilent msg hm) hqueue hsame.1 hsame.2

end Tells

/-- What every frame of the main loop is but an acknowledgement in ARMED. -/
def PicoMsg.unasked : PicoMsg → Bool
  | .bufferStatus .armed _ _ => false
  | _ => true

/-- What is neither a report taken from the queue, nor PLAY_FINISHED, nor an acknowledgement in ARMED. -/
def Obs.isRoutine : Obs → Bool
  | .hid .playback _ taken => !taken
  | .frame .playFinished _ => false
  | .frame msg _ => msg.unasked
  | _ => true

def Obs.isCaptured : Obs → Bool
  | .captured _ => true
  | _ => false

def Obs.isFrom (source : HidSource) : Obs → Bool
  | .hid other _ _ => other = source
  | _ => false

def Obs.isHid : Obs → Bool
  | .hid .. => true
  | _ => false

/-- A report given to HID that is not from the queue, or a RECORD_EVENT. -/
def Obs.isForwarded : Obs → Bool
  | .hid source _ _ => source ≠ .playback
  | .frame (.recordEvent ..) _ => true
  | _ => false

section Routine

variable {m m' : Fw β}

theorem Adds.unasked (h : Adds Obs.isRoutine m m') : Tells PicoMsg.unasked m m' :=
  h.tells (fun msg hm => by cases msg <;> first | rfl | exact hm)

theorem Adds.captured (h : Adds Obs.isCaptured m m') : Adds Obs.isRoutine m m' :=
  h.mono (fun o ho => by cases o <;> first | rfl | cases ho)

theorem Adds.hid {source : HidSource} (h : Adds (Obs.isFrom source) m m') : Adds Obs.isHid m m' :=
  h.mono (fun o ho => by cases o <;> first | rfl | cases ho)

theorem Adds.submitted {source : HidSource} (h : Adds (Obs.isFrom source) m m') (hsource : source ≠ .playback) :
    Adds Obs.isForwarded m m' := by
  refine h.mono (fun o ho => ?_)
  cases o with
  | hid other report taken =>
    obtain rfl : other = source := of_decide_eq_true ho
    exact decide_eq_true hsource
  | _ => cases ho

theorem Adds.forwarded (h : Adds Obs.isForwarded m m') : Adds Obs.isRoutine m m' := by
  refine h.mono (fun o ho => ?_)
  cases o with
  | hid source report taken => cases source <;> first | rfl | cases ho
  | frame msg queued => cases msg <;> first | rfl | cases ho
  | _ => cases ho

end Routine

theorem stopped_routine {running : Bool} {outcome : List Obs} (h : Stopped running outcome) :
    ∀ o ∈ outcome, o.isRoutine = true := by
  rcases h with ⟨-, rfl⟩ | ⟨-, metrics, q₁, q₂, rfl⟩
  · nofun
  · simp [Obs.isRoutine, PicoMsg.unasked]

theorem transition_adds (target : Mode) (reason : Reason) (m : Fw β) :
    Adds Obs.isRoutine m (transition d target reason m) := by
  obtain ⟨outcome, queued, htrace, hstop⟩ := transition_trace d target reason m
  refine ⟨.frame (.modeChanged target reason) queued :: .entered target :: .allRelease :: outcome, htrace,
    fun o ho => ?_⟩
  simp only [List.mem_cons] at ho
  rcases ho with rfl | rfl | rfl | ho
  · rfl
  · rfl
  · rfl
  · exact stopped_routine hstop o ho

theorem notify_adds (reason : Reason) (m : Fw β) : Adds Obs.isRoutine m (notify d reason m) := .one rfl rfl

theorem enterError_adds (reason : Reason) (m : Fw β) : Adds Obs.isRoutine m (enterError d reason m) := by
  unfold enterError
  split
  · exact transition_adds _ _ _
  · exact notify_adds _ _

theorem hostEvent_adds (m : Fw β) (e : HostEvent) : Adds Obs.isCaptured m (hostEvent d m e) := by
  cases e with
  | mount devAddr interface isKeyboard =>
    simp only [hostEvent]
    split
    · exact .refl m
    split
    · exact .refl m
    · exact .same rfl
  | umount devAddr interface =>
    simp only [hostEvent]
    split
    · exact .refl m
    · exact .same rfl
  | reportReceived devAddr interface report =>
    simp only [hostEvent]
    split
    · exact .same rfl
    split
    · exact .one rfl rfl
    · exact .same rfl

/-- The statements up to the first command. -/
def poll (d : Board β) (events : List HostEvent) (m : Fw β) : Fw β :=
  events.foldl (hostEvent d) { m with rest := { m.rest with board := d.tudTask m.rest.board } }

/-- The safety release and the captured reports. -/
def forward (d : Board β) (m : Fw β) : Fw β :=
  let released := serviceRelease d m.rest
  { m with rest := physicalReportDispatch d (released.1 = .ready) released.2 }

def transmit (d : Board β) (m : Fw β) : Fw β := { m with rest := { m.rest with board := d.txTask m.rest.board } }

/-- These and the functions between them are the loop body. -/
theorem loopBody_eq (d : Board β) (events : List HostEvent) (commands : List Frame) (m : Fw β) :
    loopBody d m ⟨events, false, commands⟩ =
      transmit d (watchdogCheck d (flowControlCheck d (task d.mainHost (forward d
        (commands.foldl (dispatchCommand d) (poll d events m)))))) := rfl

theorem poll_same (events : List HostEvent) (m : Fw β) :
    Adds Obs.isCaptured m (poll d events m) ∧ poll d events m = { m with rest := (poll d events m).rest } ∧
      SameMode m.rest (poll d events m).rest := by
  refine Lib.foldl_invariant
    (P := fun n : Fw β => Adds Obs.isCaptured m n ∧ n = { m with rest := n.rest } ∧ SameMode m.rest n.rest)
    (fun n e h => ?_) events _ ⟨.same rfl, rfl, rfl, rfl⟩
  obtain ⟨hadds, hrest, hsame⟩ := h
  obtain ⟨hrest', hsame'⟩ := hostEvent_sameMode (d := d) n e
  refine ⟨hadds.trans (hostEvent_adds n e), ?_, hsame.trans hsame'⟩
  rw [hrest', hrest]

theorem sendBootReport_adds (source : HidSource) (report : Report) (m : Fw β) :
    Adds (Obs.isFrom source) m { m with rest := (m.rest.sendBootReport d source report).2 } := by
  rcases sendBootReport_cases d source report m.rest with ⟨-, he⟩ | ⟨-, he⟩ <;> rw [he] <;>
    exact .one rfl (decide_eq_true rfl)

theorem serviceRelease_adds (m : Fw β) :
    Adds (Obs.isFrom .release) m { m with rest := (serviceRelease d m.rest).2 } := by
  unfold serviceRelease
  split
  · exact .refl m
  · have hsent : Adds (Obs.isFrom .release)
      m { m with rest := (m.rest.sendBootReport d .release Report.releaseAll).2 } :=
      sendBootReport_adds .release Report.releaseAll m
    dsimp only
    split <;> exact hsent

theorem recordHead_adds (event : CaptureEvent) (m : Fw β) :
    Adds Obs.isForwarded m { m with rest := recordHead d event m.rest } := by
  unfold recordHead
  split
  · exact .refl m
  · exact .one rfl rfl

theorem sendPhysical_adds (report : Report) (m : Fw β) :
    Adds (Obs.isFrom .physical) m { m with rest := (m.rest.sendBootReport d .physical report).2 } :=
  sendBootReport_adds .physical report m

theorem recordLoop_adds (hidOutputReady : Bool) : ∀ (fuel : Nat) (m : Fw β),
    Adds Obs.isForwarded m { m with rest := recordLoop d hidOutputReady fuel m.rest }
  | 0, m => .refl m
  | fuel + 1, m => by
    unfold recordLoop
    split
    · exact .refl m
    · rename_i event _
      have hhead := recordHead_adds (d := d) event m
      have hsent := hhead.trans ((sendPhysical_adds (d := d) event.report _).submitted (by decide))
      dsimp only
      split
      · exact hhead
      split
      · exact hsent
      · exact hsent.trans (.trans (.same rfl) (recordLoop_adds hidOutputReady fuel { m with rest := _ }))

theorem passLoop_adds : ∀ (fuel : Nat) (m : Fw β),
    Adds (Obs.isFrom .physical) m { m with rest := passLoop d fuel m.rest }
  | 0, m => .refl m
  | fuel + 1, m => by
    unfold passLoop
    split
    · exact .refl m
    · rename_i event _
      have hsent := sendPhysical_adds (d := d) event.report m
      dsimp only
      split
      · exact hsent
      · exact hsent.trans (.trans (.same rfl) (passLoop_adds fuel { m with rest := _ }))

theorem forward_adds (m : Fw β) : Adds Obs.isForwarded m (forward d m) := by
  unfold forward physicalReportDispatch
  have hrelease := (serviceRelease_adds (d := d) m).submitted (by decide)
  dsimp only
  split
  · exact hrelease.trans (recordLoop_adds _ _ _)
  split
  · exact hrelease
  · exact hrelease.trans ((passLoop_adds _ _).submitted (by decide))

/-- Outside RECORD no RECORD_EVENT is sent. -/
theorem forward_hid {m : Fw β} (hm : m.rest.mode ≠ .record) : Adds Obs.isHid m (forward d m) := by
  have hmode : (serviceRelease d m.rest).2.mode ≠ .record := by
    rw [serviceRelease_mode]
    exact hm
  unfold forward physicalReportDispatch
  have hrelease := (serviceRelease_adds (d := d) m).hid
  dsimp only
  rw [if_neg hmode]
  split
  · exact hrelease
  · exact hrelease.trans (passLoop_adds _ _).hid

theorem arming_tells {m m' : Fw β} (hs : Arming d.mainHost m m') : Tells PicoMsg.unasked m m' := by
  rcases arming_cases hs with hq | ⟨-, -, -, -, hq⟩ | ⟨-, -, -, -, rfl⟩
  · obtain ⟨board, hrest, -⟩ := hq.rest
    exact .same (by rw [hrest])
  · obtain ⟨board, elapsed, queued, -, hrest⟩ := hq.rest
    exact .frame (by rw [hrest]) rfl
  · obtain ⟨metrics, q₁, q₂, hf⟩ := finished_trace d m
    have hfinished : Tells PicoMsg.unasked m (finished d m) := by
      refine ⟨[.frame (.playMetrics metrics) q₂, .frame .playFinished q₁, .completed .finished metrics], hf, ?_⟩
      cases q₁ <;> cases q₂ <;> simp [sent, wire, PicoMsg.unasked]
    rw [finish_main]
    split
    · exact hfinished.trans (notify_adds _ _).unasked
    · exact hfinished.trans (transition_adds _ _ _).unasked

/-- A credit is granted only in PLAYING. -/
theorem micro_tells {m m' : Fw β} (hs : Micro d.mainHost m m') (hp : m.sched.running = true → m.rest.mode = .playing) :
    Tells PicoMsg.unasked m m' := by
  cases hs with
  | arming step => exact arming_tells step
  | refuse event running ready head busy =>
    exact (sendBootReport_adds .playback event.report m).tells (fun msg hm => by cases hm)
  | dispatch event running ready head taken =>
    obtain ⟨board, fault, credit, -, hrest, hcredit⟩ := (dispatched_played (d := d) taken).rest
    refine ⟨credit ++ [.hid .playback event.report true], by rw [hrest, List.append_assoc]; rfl, fun msg hm => ?_⟩
    rcases hcredit with ⟨-, rfl⟩ | ⟨-, -, queued, rfl⟩
    · cases hm
    · rw [Credit, hp running] at hm
      cases queued with
      | false => cases hm
      | true =>
        obtain rfl := List.mem_singleton.1 hm
        rfl

theorem task_boundary {m : Fw β} (hb : Boundary m) : Boundary (task d.mainHost m) where
  planned := task_planned (main_settles d) hb.planned
  playing := Preserved.run (P := fun m : Fw β => m.sched.running = true → m.rest.mode = .playing)
    (fun _ _ step hp => micro_playing step hp) (task_micro (main_settles d) hb.planned) hb.playing

theorem task_tells {m : Fw β} (hb : Boundary m) : Tells PicoMsg.unasked m (task d.mainHost m) := by
  have hrun := Preserved.run
    (P := fun n : Fw β => Tells PicoMsg.unasked m n ∧ (n.sched.running = true → n.rest.mode = .playing))
    (fun _ _ step h => ⟨h.1.trans (micro_tells step h.2), micro_playing step h.2⟩)
    (task_micro (main_settles d) hb.planned) ⟨.refl m, hb.playing⟩
  exact hrun.1

theorem flowControlCheck_adds (m : Fw β) : Adds Obs.isRoutine m (flowControlCheck d m) := by
  unfold flowControlCheck
  split
  · exact .trans (.same rfl) (enterError_adds _ { m with rest := { m.rest with flowControlFault := false } })
  · exact .refl m

theorem watchdogCheck_adds (m : Fw β) : Adds Obs.isRoutine m (watchdogCheck d m) := by
  unfold watchdogCheck
  split
  · exact .refl m
  · dsimp only
    split
    · exact .trans (.same rfl) (enterError_adds _ (readEpoch d m))
    · exact .same rfl

theorem handleModeSet_adds (target : UInt8) (m : Fw β) : Adds Obs.isRoutine m (handleModeSet d target m).2 := by
  unfold handleModeSet
  split
  · exact notify_adds _ _
  split
  · dsimp only
    split
    · exact transition_adds _ _ _
    · exact notify_adds _ _
  split
  · exact notify_adds _ _
  split
  · exact transition_adds _ _ _
  · exact notify_adds _ _

/-! ## An open sequence -/

/-- A sequence is open, or the Pico is in ERROR. -/
structure Opened (m : Fw β) : Prop where
  boundary : Boundary m
  opened : m.sched.sequenceEnded = false
  mode : m.rest.mode = .armed ∨ m.rest.mode = .playing ∨ m.rest.mode = .error

/-- What a statement of the main loop does while a sequence is open. -/
def Continues (m m' : Fw β) : Prop := Granted m m' ∧ Opened m'

theorem Continues.trans {m m' m'' : Fw β} (h : Continues m m') (h' : Continues m' m'') : Continues m m'' :=
  ⟨h.1.trans h'.1, h'.2⟩

variable {m : Fw β}

/-- Only what the sequence does not depend on changes. -/
theorem Opened.rest (h : Opened m) (rest : Rest β)
    (htells : Tells (fun msg => !msg.tellsCredit) m { m with rest := rest }) (hsame : SameMode m.rest rest) :
    Continues m { m with rest := rest } :=
  ⟨htells.running rfl hsame, h.boundary.frame rfl rfl hsame.1, h.opened, by rw [hsame.1]; exact h.mode⟩

theorem enterError_opened (h : Opened m) (reason : Reason) (hfault : reason.isFault = true) :
    Continues m (enterError d reason m) ∧ Lost (enterError d reason m) := by
  obtain ⟨obs, htrace, -⟩ := enterError_adds (d := d) reason m
  have hleads : Leads d .output m (enterError d reason m) := enterError_leads reason h.boundary hfault
  have herror : (enterError d reason m).rest.mode = .error ∧ (enterError d reason m).sched.sequenceEnded = false := by
    unfold enterError
    by_cases hm : m.rest.mode ≠ .pass ∧ m.rest.mode ≠ .error
    · rw [if_pos hm]
      exact ⟨rfl, (clearReleaseAndQueue_spec d m).sequenceEnded⟩
    · rw [if_neg hm]
      refine ⟨?_, h.opened⟩
      rcases h.mode with hmode | hmode | hmode
      · exact absurd ⟨by rw [hmode]; decide, by rw [hmode]; decide⟩ hm
      · exact absurd ⟨by rw [hmode]; decide, by rw [hmode]; decide⟩ hm
      · exact hmode
  exact ⟨⟨.lost obs htrace (.inl herror.1), hleads.2, herror.2, .inr (.inr herror.1)⟩, .inl herror.1⟩

theorem poll_continues (h : Opened m) (events : List HostEvent) : Continues m (poll d events m) := by
  obtain ⟨hadds, hrest, hsame⟩ := poll_same (d := d) events m
  rw [hrest] at hadds ⊢
  exact h.rest _ (hadds.tells (fun msg hm => by cases hm)) hsame

/-- Nothing captured goes out in these modes. -/
theorem forward_continues (h : Opened m) : Continues m (forward d m) := by
  have hmode : m.rest.mode ≠ .record ∧ m.rest.mode ≠ .pass := by
    rcases h.mode with hmode | hmode | hmode <;> rw [hmode] <;> decide
  have hforward : forward d m = { m with rest := (serviceRelease d m.rest).2 } := by
    unfold forward physicalReportDispatch
    dsimp only
    rw [serviceRelease_mode, if_neg hmode.1, if_pos (by simp [hmode.2])]
  rw [hforward]
  exact h.rest _ ((serviceRelease_adds m).tells (fun msg hm => by cases hm)) (serviceRelease_sameMode m.rest)

theorem task_running (h : Opened m) : Running m (task d.mainHost m) :=
  running_steps (fun _ _ step => micro_running step) (task_micro (main_settles d) h.boundary.planned) h.opened

theorem task_continues (h : Opened m) : Continues m (task d.mainHost m) := by
  obtain ⟨hgranted, hopened, hmode⟩ := task_running (d := d) h
  exact ⟨hgranted, task_boundary h.boundary, hopened.trans h.opened, by rw [hmode]; exact h.mode⟩

/-- The fault of a lost frame is ERROR after this. -/
theorem flowControlCheck_continues (h : Opened m) : Continues m (flowControlCheck d m) := by
  unfold flowControlCheck
  by_cases hfault : m.rest.flowControlFault = true
  · rw [if_pos hfault]
    have htaken : Opened { m with rest := { m.rest with flowControlFault := false } } :=
      ⟨h.boundary.frame rfl rfl rfl, h.opened, h.mode⟩
    obtain ⟨⟨⟨obs, htrace, -⟩, hopened⟩, hlost⟩ := enterError_opened (d := d) htaken .protocolError rfl
    exact ⟨.lost obs htrace hlost, hopened⟩
  · rw [if_neg hfault]
    exact ⟨.refl m, h⟩

theorem watchdogCheck_continues (h : Opened m) : Continues m (watchdogCheck d m) := by
  unfold watchdogCheck
  split
  · exact ⟨.refl m, h⟩
  · have hclock : Continues m (readEpoch d m) := h.rest _ (.same rfl) ⟨rfl, rfl⟩
    dsimp only
    split
    · exact hclock.trans (enterError_opened hclock.2 .underrun rfl).1
    · exact hclock

theorem transmit_continues (h : Opened m) : Continues m (transmit d m) := h.rest _ (.same rfl) ⟨rfl, rfl⟩

theorem count_push {queue queue' : PlaybackQueue} {offsetUs : UInt64} {report : List UInt8}
    (h : PlaybackQueue.push queue offsetUs report = some queue') :
    queue.count < playbackQueueCapacity ∧ queue'.count = queue.count + 1 := by
  unfold PlaybackQueue.push at h
  split at h
  · cases h
  · obtain ⟨hlist, hroom⟩ := Lib.Ring.toList_push _ _ _ h
    have hlength := congrArg List.length hlist
    rw [List.length_append, Lib.Ring.length_toList, Lib.Ring.length_toList] at hlength
    exact ⟨by rwa [Lib.Ring.length_toList] at hroom, hlength⟩

/-- An event was queued and acknowledged, or the Pico is lost. -/
def Accepts (m m' : Fw β) : Prop :=
  Opened m' ∧ ∃ obs, m'.rest.trace = obs ++ m.rest.trace ∧ (¬Lost m' → ¬Lost m ∧
    m.queue.count < playbackQueueCapacity ∧ m'.queue.count = m.queue.count + 1 ∧
    sent obs = [.bufferStatus m.rest.mode (UInt16.ofNat m'.queue.count)
      (UInt16.ofNat (PlaybackQueue.freeCapacity m'.queue))])

/-- The status an acknowledgement reports. -/
def Fw.status (m : Fw β) : PicoMsg :=
  .bufferStatus m.rest.mode (UInt16.ofNat m.queue.count) (UInt16.ofNat (PlaybackQueue.freeCapacity m.queue))

theorem acknowledgeQueue_opened (h : Opened m) :
    Opened (acknowledgeQueue d m) ∧ ∃ obs, (acknowledgeQueue d m).rest.trace = obs ++ m.rest.trace ∧
      (¬Lost (acknowledgeQueue d m) → ¬Lost m ∧ (acknowledgeQueue d m).queue = m.queue ∧ sent obs = [m.status]) := by
  have htrace : (m.rest.sendBufferStatus d m.queue).2.trace =
      .frame m.status (m.rest.sendBufferStatus d m.queue).1 :: m.rest.trace := rfl
  have hsent : Opened { m with rest := (m.rest.sendBufferStatus d m.queue).2 } :=
    ⟨h.boundary.frame rfl rfl rfl, h.opened, h.mode⟩
  unfold acknowledgeQueue
  dsimp only
  cases hqueued : (m.rest.sendBufferStatus d m.queue).1 with
  | true =>
    rw [hqueued] at htrace
    exact ⟨hsent, [.frame m.status true], htrace, fun hlost => ⟨hlost, rfl, rfl⟩⟩
  | false =>
    rw [hqueued] at htrace
    obtain ⟨⟨⟨obs, hobs, -⟩, hopened⟩, hlost⟩ := enterError_opened (d := d) hsent .protocolError rfl
    refine ⟨hopened, obs ++ [.frame m.status false], ?_, fun hnot => absurd hlost hnot⟩
    rw [List.append_assoc]
    exact hobs.trans (congrArg (obs ++ ·) htrace)

theorem dispatch_queueEvent (h : Opened m) {frame : Frame} (htype : frame.type = MsgType.queueEvent.byte) :
    Accepts m (dispatchCommand d m frame) := by
  have hdispatch : dispatchCommand d m frame = dispatchQueueCommand d frame m := by
    unfold dispatchCommand
    rw [htype, MsgType.ofByte?_byte]
  rw [hdispatch]
  unfold dispatchQueueCommand
  dsimp only
  by_cases hallowed : queueCommandAllowed frame.type m.rest.mode = true
  · rw [if_neg (by simp [hallowed]), htype, MsgType.ofByte?_byte]
    dsimp only
    unfold queueEvent
    dsimp only
    generalize (⟨UInt64.ofNat (leNat (frame.payload.take 8)), Report.ofBytes ((frame.payload.drop 9).take 8)⟩ :
      PlaybackEvent) = event
    cases hpush : PlaybackQueue.push m.queue (UInt64.ofNat (leNat (frame.payload.take 8)))
        ((frame.payload.drop 9).take 8) with
    | none =>
      have hrejected : Opened { m with rest := m.rest.note (.pushed event false) } :=
        ⟨h.boundary.frame rfl rfl rfl, h.opened, h.mode⟩
      obtain ⟨⟨⟨obs, htrace, -⟩, hopened⟩, hlost⟩ := enterError_opened (d := d) hrejected .protocolError rfl
      refine ⟨hopened, obs ++ [.pushed event false], ?_, fun hnot => absurd hlost hnot⟩
      rw [List.append_assoc]
      exact htrace
    | some queue =>
      obtain ⟨hroom, hcount⟩ := count_push hpush
      have hpushed : Opened ⟨m.sched, queue, m.rest.note (.pushed event true)⟩ :=
        ⟨h.boundary.queue (PlaybackQueue.toList_push hpush) _ rfl, h.opened, h.mode⟩
      obtain ⟨hopened, obs, htrace, hstatus⟩ := acknowledgeQueue_opened (d := d) hpushed
      refine ⟨hopened, obs ++ [.pushed event true], ?_, fun hnot => ?_⟩
      · rw [List.append_assoc]
        exact htrace
      · obtain ⟨hlive, hqueue, hsent⟩ := hstatus hnot
        dsimp only
        rw [hqueue, sent_append, hsent]
        exact ⟨hlive, hroom, hcount, rfl⟩
  · rw [if_pos (by simpa using hallowed)]
    obtain ⟨⟨⟨obs, htrace, -⟩, hopened⟩, hlost⟩ := enterError_opened (d := d) h .protocolError rfl
    exact ⟨hopened, obs, htrace, fun hnot => absurd hlost hnot⟩

theorem launch_trace (d : Board β) (epoch : UInt64) (m : Fw β) : ∃ q₁ q₂, (launch d epoch m).rest.trace =
    [.started epoch, .frame (.playStarted epoch) q₂, .frame (.modeChanged .playing .ok) q₁, .entered .playing,
      .allRelease] ++ m.rest.trace := ⟨_, _, rfl⟩

theorem dispatch_playStart (h : Opened m) {frame : Frame} (htype : frame.type = MsgType.playStart.byte) :
    Continues m (dispatchCommand d m frame) := by
  have hdispatch : dispatchCommand d m frame = dispatchPlayStart d m := by
    unfold dispatchCommand
    rw [htype, MsgType.ofByte?_byte]
  rw [hdispatch]
  have hboundary := (dispatchPlayStart_leads (d := d) h.boundary).2
  by_cases hm : m.rest.mode = .armed
  · have hidle := h.boundary.idle (by rw [hm]; decide)
    rw [dispatchPlayStart_armed hm] at hboundary ⊢
    have hlaunch : Granted m (launch d (d.timeUs64 m.rest.board).1 (readEpoch d m)) := by
      obtain ⟨q₁, q₂, htrace⟩ := launch_trace d (d.timeUs64 m.rest.board).1 (readEpoch d m)
      refine ⟨_, htrace, fun hlost => ⟨?_, (Tick.quiet m.queue.count _ ?_).ticks⟩⟩
      · have hfault : m.rest.flowControlFault = false := (not_lost.1 hlost).2
        exact not_lost.2 ⟨by rw [hm]; decide, hfault⟩
      · cases q₁ <;> cases q₂ <;> simp [sent, wire, PicoMsg.tellsCredit]
    obtain ⟨hgranted, hopened, hmode⟩ := running_steps (fun _ _ step => arming_running step)
      (start_arming (h := d.mainHost)
        (m := { launch d (d.timeUs64 m.rest.board).1 (readEpoch d m) with sched := m.sched })
        (d.timeUs64 m.rest.board).1 hidle) h.opened
    exact ⟨hlaunch.trans hgranted, hboundary, hopened.trans h.opened, .inr (.inl hmode)⟩
  · rw [dispatchPlayStart_refused hm]
    exact h.rest _ (.frame rfl rfl) ⟨rfl, rfl⟩

/-! ## Before a sequence is open -/

/-- A statement says nothing about the queue in ARMED. -/
def Reserved (m m' : Fw β) : Prop := Tells PicoMsg.unasked m m' ∧ Boundary m'

theorem poll_reserved (hb : Boundary m) (events : List HostEvent) : Reserved m (poll d events m) := by
  obtain ⟨hadds, hrest, hsame⟩ := poll_same (d := d) events m
  rw [hrest] at hadds ⊢
  exact ⟨hadds.captured.unasked, hb.frame rfl rfl hsame.1⟩

theorem forward_mode (m : Fw β) : (forward d m).rest.mode = m.rest.mode :=
  (physicalReportDispatch_sameMode _ _).1.trans (serviceRelease_mode m.rest)

theorem forward_reserved (hb : Boundary m) : Reserved m (forward d m) :=
  ⟨(forward_adds m).forwarded.unasked, hb.frame rfl rfl (forward_mode m)⟩

theorem task_reserved (hb : Boundary m) : Reserved m (task d.mainHost m) := ⟨task_tells hb, task_boundary hb⟩

theorem flowControlCheck_reserved (hb : Boundary m) : Reserved m (flowControlCheck d m) :=
  ⟨(flowControlCheck_adds m).unasked, (flowControlCheck_leads hb).2⟩

theorem watchdogCheck_reserved (hb : Boundary m) : Reserved m (watchdogCheck d m) :=
  ⟨(watchdogCheck_adds m).unasked, (watchdogCheck_leads hb).2⟩

theorem transmit_reserved (hb : Boundary m) : Reserved m (transmit d m) := ⟨.same rfl, hb.frame rfl rfl rfl⟩

theorem dispatch_modeSet_reserved (hb : Boundary m) {frame : Frame} (htype : frame.type = MsgType.modeSet.byte) :
    Reserved m (dispatchCommand d m frame) := by
  refine ⟨?_, (dispatchCommand_leads hb frame).2⟩
  unfold dispatchCommand
  rw [htype, MsgType.ofByte?_byte]
  exact (handleModeSet_adds _ m).unasked.trans (.silent rfl rfl)

/-- The queue is empty and the Zero has been told. -/
def Begun (m m' : Fw β) : Prop :=
  Opened m' ∧ m'.queue.count = 0 ∧
    ∃ obs, m'.rest.trace = obs ++ m.rest.trace ∧ sent obs = [.bufferStatus .armed 0 512]

/-- **QUEUE_CLEAR opens a sequence** and is acknowledged in ARMED, or it is an error. -/
theorem dispatch_queueClear (hb : Boundary m) {frame : Frame} (htype : frame.type = MsgType.queueClear.byte) :
    Reserved m (dispatchCommand d m frame) ∨ Begun m (dispatchCommand d m frame) := by
  have hboundary : Boundary (dispatchCommand d m frame) := (dispatchCommand_leads hb frame).2
  have hdispatch : dispatchCommand d m frame = dispatchQueueCommand d frame m := by
    unfold dispatchCommand
    rw [htype, MsgType.ofByte?_byte]
  rw [hdispatch] at hboundary ⊢
  unfold dispatchQueueCommand at hboundary ⊢
  dsimp only at hboundary ⊢
  by_cases hallowed : queueCommandAllowed frame.type m.rest.mode = true
  · have harmed : m.rest.mode = .armed := (queueCommand_streams hallowed).1 htype
    have hidle := hb.idle (by rw [harmed]; decide)
    rw [if_neg (by simp [hallowed]), htype, MsgType.ofByte?_byte] at hboundary ⊢
    dsimp only at hboundary ⊢
    have htrace : (m.rest.sendBufferStatus d m.queue.clear).2.trace = .frame (.bufferStatus m.rest.mode 0 512)
        (m.rest.sendBufferStatus d m.queue.clear).1 :: m.rest.trace := rfl
    unfold acknowledgeQueue at hboundary ⊢
    dsimp only at hboundary ⊢
    cases hqueued : (m.rest.sendBufferStatus d m.queue.clear).1 with
    | true =>
      rw [hqueued, harmed] at htrace
      rw [hqueued] at hboundary
      refine .inr ⟨⟨hboundary, ?_, .inl harmed⟩, rfl, [.frame (.bufferStatus .armed 0 512) true], htrace, rfl⟩
      show m.sched.resetSequence.sequenceEnded = false
      rw [resetSequence_stopped hidle]
    | false =>
      rw [hqueued] at htrace hboundary
      refine .inl ⟨?_, hboundary⟩
      exact .trans ⟨[.frame _ false], htrace, nofun⟩ (enterError_adds .protocolError
        ⟨m.sched.resetSequence, m.queue.clear, (m.rest.sendBufferStatus d m.queue.clear).2⟩).unasked
  · rw [if_pos (by simpa using hallowed)] at hboundary ⊢
    exact .inl ⟨(enterError_adds _ _).unasked, hboundary⟩

/-! ## Whether or not a frame was lost -/

/-- The queue changes one by one, and a frame that goes with a change may be missing where the queue is empty. -/
def Counts (m m' : Fw β) : Prop :=
  ∃ obs, m'.rest.trace = obs ++ m.rest.trace ∧ Ticks m.queue.count (sent obs) m'.queue.count

theorem Counts.refl (m : Fw β) : Counts m m := ⟨[], rfl, .nil _⟩

theorem Counts.trans {m m' m'' : Fw β} (h : Counts m m') (h' : Counts m' m'') : Counts m m'' := by
  obtain ⟨obs, htrace, hticks⟩ := h
  obtain ⟨obs', htrace', hticks'⟩ := h'
  refine ⟨obs' ++ obs, by rw [htrace', htrace, List.append_assoc], ?_⟩
  rw [sent_append]
  exact hticks.trans hticks'

theorem Counts.quiet {m m' : Fw β} (obs : List Obs) (htrace : m'.rest.trace = obs ++ m.rest.trace)
    (hsilent : ∀ msg ∈ sent obs, msg.tellsCredit = false) (hqueue : m'.queue = m.queue) : Counts m m' :=
  ⟨obs, htrace, by rw [hqueue]; exact (Tick.quiet _ _ hsilent).ticks⟩

theorem Tells.counts {m m' : Fw β} (h : Tells (fun msg => !msg.tellsCredit) m m') (hqueue : m'.queue = m.queue) :
    Counts m m' := by
  obtain ⟨obs, htrace, hsilent⟩ := h
  exact .quiet obs htrace (fun msg hm => by simpa using hsilent msg hm) hqueue

theorem Granted.counts {m m' : Fw β} (h : Granted m m') (hlive : ¬Lost m') : Counts m m' := by
  obtain ⟨obs, htrace, hticks⟩ := h
  exact ⟨obs, htrace, (hticks hlive).2⟩

/-- Planning the next event takes none. -/
theorem arming_counts {m m' : Fw β} (hs : Arming d.mainHost m m') (hopen : m.sched.sequenceEnded = false) :
    Counts m m' ∧ m'.sched.sequenceEnded = false := by
  rcases arming_cases hs with hq | ⟨-, -, hempty, -, hq⟩ | ⟨-, -, -, hended, -⟩
  · obtain ⟨board, hrest, -⟩ := hq.rest
    exact ⟨.quiet [] (by rw [hrest]; rfl) (by simp) hq.queue, hq.sequenceEnded.trans hopen⟩
  · obtain ⟨board, elapsed, queued, -, hrest⟩ := hq.rest
    have hcount : m.queue.count = 0 := (Lib.Ring.toList_eq_nil _).1 hempty
    refine ⟨⟨[.frame (.playUnderrun elapsed _) queued], by rw [hrest]; rfl, ?_⟩, hq.sequenceEnded.trans hopen⟩
    rw [hq.queue, hcount, sent_frame]
    cases queued with
    | true => exact (Tick.starve elapsed _).ticks
    | false => exact .nil 0
  · rw [hopen] at hended
    cases hended

theorem enterError_enters (h : Opened m) (reason : Reason) : (enterError d reason m).rest.mode = .error := by
  unfold enterError
  split
  · rfl
  · rename_i hm
    rcases h.mode with hmode | hmode | hmode
    · exact absurd ⟨by rw [hmode]; decide, by rw [hmode]; decide⟩ hm
    · exact absurd ⟨by rw [hmode]; decide, by rw [hmode]; decide⟩ hm
    · exact hmode

theorem flowControlCheck_error (h : Opened m) (hfault : m.rest.flowControlFault = true) :
    (flowControlCheck d m).rest.mode = .error := by
  have htaken : Opened { m with rest := { m.rest with flowControlFault := false } } :=
    ⟨h.boundary.frame rfl rfl rfl, h.opened, h.mode⟩
  unfold flowControlCheck
  rw [if_pos hfault]
  exact enterError_enters htaken .protocolError

theorem watchdogCheck_counts (h : Opened m) : (watchdogCheck d m).rest.mode = .error ∨
    Counts m (watchdogCheck d m) ∧ (watchdogCheck d m).rest.mode = m.rest.mode := by
  unfold watchdogCheck
  split
  · exact .inr ⟨.refl m, rfl⟩
  · have hclock : Continues m (readEpoch d m) := h.rest _ (.same rfl) ⟨rfl, rfl⟩
    dsimp only
    split
    · exact .inl (enterError_enters hclock.2 .underrun)
    · exact .inr ⟨.quiet [] rfl nofun rfl, rfl⟩

theorem dispatch_playStart_counts (h : Opened m) {frame : Frame} (htype : frame.type = MsgType.playStart.byte) :
    Counts m (dispatchCommand d m frame) ∧ (m.rest.mode = .error → (dispatchCommand d m frame).rest.mode = .error) := by
  have hdispatch : dispatchCommand d m frame = dispatchPlayStart d m := by
    unfold dispatchCommand
    rw [htype, MsgType.ofByte?_byte]
  rw [hdispatch]
  by_cases hm : m.rest.mode = .armed
  · have hidle := h.boundary.idle (by rw [hm]; decide)
    rw [dispatchPlayStart_armed hm]
    refine ⟨?_, fun herror => by rw [hm] at herror; cases herror⟩
    have hlaunch : Counts m (launch d (d.timeUs64 m.rest.board).1 (readEpoch d m)) := by
      obtain ⟨q₁, q₂, htrace⟩ := launch_trace d (d.timeUs64 m.rest.board).1 (readEpoch d m)
      exact .quiet _ htrace (by cases q₁ <;> cases q₂ <;> simp [sent, wire, PicoMsg.tellsCredit]) rfl
    have hplan := start_arming (h := d.mainHost)
      (m := { launch d (d.timeUs64 m.rest.board).1 (readEpoch d m) with sched := m.sched })
      (d.timeUs64 m.rest.board).1 hidle
    refine hlaunch.trans (Preserved.run (P := fun m' => Counts _ m' ∧ m'.sched.sequenceEnded = false)
      (fun _ _ step hc => ?_) hplan ⟨.refl _, h.opened⟩).1
    obtain ⟨hcounts, hopen⟩ := arming_counts step hc.2
    exact ⟨hc.1.trans hcounts, hopen⟩
  · rw [dispatchPlayStart_refused hm]
    exact ⟨Tells.counts (.frame rfl rfl) rfl, id⟩

theorem acknowledgeQueue_counts (h : Opened m) :
    (acknowledgeQueue d m).rest.mode = .error ∨ (acknowledgeQueue d m).queue = m.queue ∧
      (acknowledgeQueue d m).rest.trace = .frame m.status true :: m.rest.trace := by
  have htrace : (m.rest.sendBufferStatus d m.queue).2.trace =
      .frame m.status (m.rest.sendBufferStatus d m.queue).1 :: m.rest.trace := rfl
  have hsent : Opened { m with rest := (m.rest.sendBufferStatus d m.queue).2 } :=
    ⟨h.boundary.frame rfl rfl rfl, h.opened, h.mode⟩
  unfold acknowledgeQueue
  dsimp only
  cases hqueued : (m.rest.sendBufferStatus d m.queue).1 with
  | true =>
    rw [hqueued] at htrace
    exact .inr ⟨rfl, htrace⟩
  | false => exact .inl (enterError_enters hsent .protocolError)

/-- An event is queued and acknowledged, or the Pico is in ERROR. -/
theorem dispatch_queueEvent_counts (h : Opened m) {frame : Frame} (htype : frame.type = MsgType.queueEvent.byte) :
    (dispatchCommand d m frame).rest.mode = .error ∨ m.rest.mode ≠ .error ∧
      (dispatchCommand d m frame).queue.count = m.queue.count + 1 ∧ ∃ mode obs,
        (dispatchCommand d m frame).rest.trace = obs ++ m.rest.trace ∧
          sent obs = [.bufferStatus mode (UInt16.ofNat (dispatchCommand d m frame).queue.count)
            (UInt16.ofNat (PlaybackQueue.freeCapacity (dispatchCommand d m frame).queue))] := by
  have hdispatch : dispatchCommand d m frame = dispatchQueueCommand d frame m := by
    unfold dispatchCommand
    rw [htype, MsgType.ofByte?_byte]
  rw [hdispatch]
  unfold dispatchQueueCommand
  dsimp only
  by_cases hallowed : queueCommandAllowed frame.type m.rest.mode = true
  · have hlive : m.rest.mode ≠ .error := fun herror => by
      rw [htype, herror] at hallowed
      cases hallowed
    rw [if_neg (by simp [hallowed]), htype, MsgType.ofByte?_byte]
    dsimp only
    unfold queueEvent
    dsimp only
    generalize (⟨UInt64.ofNat (leNat (frame.payload.take 8)), Report.ofBytes ((frame.payload.drop 9).take 8)⟩ :
      PlaybackEvent) = event
    cases hpush : PlaybackQueue.push m.queue (UInt64.ofNat (leNat (frame.payload.take 8)))
        ((frame.payload.drop 9).take 8) with
    | none =>
      have hrejected : Opened { m with rest := m.rest.note (.pushed event false) } :=
        ⟨h.boundary.frame rfl rfl rfl, h.opened, h.mode⟩
      exact .inl (enterError_enters hrejected .protocolError)
    | some queue =>
      obtain ⟨-, hcount⟩ := count_push hpush
      have hpushed : Opened ⟨m.sched, queue, m.rest.note (.pushed event true)⟩ :=
        ⟨h.boundary.queue (PlaybackQueue.toList_push hpush) _ rfl, h.opened, h.mode⟩
      rcases acknowledgeQueue_counts (d := d) hpushed with herror | ⟨hqueue, htrace⟩
      · exact .inl herror
      · dsimp only
        rw [hqueue]
        exact .inr ⟨hlive, hcount, _, [_, .pushed event true], htrace, rfl⟩
  · rw [if_pos (by simpa using hallowed)]
    exact .inl (enterError_enters h _)

end Steps
end Pico
end PicoRecorder
