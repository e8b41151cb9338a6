import PicoRecorder.Pico.Delivery
/-!
# Deadlines — no event is handed over before its time

The permission to dispatch is one flag that an interrupt sets and that does not say which deadline it belongs to.  A
`Clockwork` is what the SDK promises of its clock and its alarms.  The tape of a run is a history variable, and
`punctual` reads it: it replays the queue and looks at the time of every report offered to HID.
-/
namespace PicoRecorder
namespace Pico

open Lib (Monitor)

/-- What goes on the tape.  `handed` has the time at which a report was offered and whether HID took it. -/
inductive Mark where
  | started (playbackStartUs : UInt64)
  | pushed (event : PlaybackEvent)
  | cleared
  | ended
  | clock (timeUs : UInt64)
  | handed (report : Report) (timeUs : UInt64) (taken : Bool)
  | completed (reason : Reason) (metrics : Metrics)

/-- The surroundings' state and the tape, newest mark first. -/
structure Tape (ε : Type) where
  env : ε
  marks : List Mark

section Taped

variable {ε : Type} (S : Surroundings ε) (now : ε → UInt64)

/-- The surroundings with the tape running; `now` is the time it is, whether or not anyone reads the clock. -/
def Surroundings.taped : Host (Tape ε) where
  timeUs64 w := ((S.timeUs64 w.env).1, ⟨(S.timeUs64 w.env).2, .clock (S.timeUs64 w.env).1 :: w.marks⟩)
  addAlarmAt target w := ((S.addAlarmAt target w.env).1, { w with env := (S.addAlarmAt target w.env).2 })
  cancelAlarm id w := { w with env := S.cancelAlarm id w.env }
  alarmIsr w := ((S.alarmIsr w.env).1, { w with env := (S.alarmIsr w.env).2 })
  sendReport report w :=
    ((S.sendReport report w.env).1,
      ⟨(S.sendReport report w.env).2, .handed report (now w.env) (S.sendReport report w.env).1 :: w.marks⟩)
  onComplete reason metrics m :=
    { m with rest := ⟨S.onComplete reason metrics m.rest.env, .completed reason metrics :: m.rest.marks⟩ }
  onUnderrun elapsed free w := { w with env := S.onUnderrun elapsed free w.env }
  onBufferAvailable queue w := { w with env := S.onBufferAvailable queue w.env }

/-- What the main loop does with the scheduler.  `clear` is QUEUE_CLEAR, which no run ever sees. -/
inductive Act where
  | start (playbackStartUs : UInt64)
  | stop
  | push (offsetUs : UInt64) (report : List UInt8)
  | markSequenceEnded
  | clear
  | task

def Act.apply (m : Machine (Tape ε)) : Act → Machine (Tape ε)
  | .start playbackStartUs =>
    if m.sched.running then m
    else Pico.start (S.taped now) playbackStartUs
      { m with rest := { m.rest with marks := .started playbackStartUs :: m.rest.marks } }
  | .stop => Pico.stop (S.taped now) m
  | .push offsetUs report =>
    match PlaybackQueue.push m.queue offsetUs report with
    | some queue =>
      { m with
        queue := queue
        rest := { m.rest with marks := .pushed ⟨offsetUs, Report.ofBytes report⟩ :: m.rest.marks } }
    | none => m
  | .markSequenceEnded =>
    { m with sched := m.sched.markSequenceEnded, rest := { m.rest with marks := .ended :: m.rest.marks } }
  | .clear =>
    if m.sched.running then m
    else
      { sched := m.sched.resetSequence
        queue := m.queue.clear
        rest := { m.rest with marks := .cleared :: m.rest.marks } }
  | .task => Pico.task (S.taped now) m

/-- Any use of the scheduler from its initialisation on. -/
def drive (env : ε) (acts : List Act) : Machine (Tape ε) :=
  acts.foldl (Act.apply S now) ⟨Scheduler.init, PlaybackQueue.init, ⟨env, []⟩⟩

/-- The calls that have nothing to do with alarms. -/
inductive PlainCall : ε → ε → Prop
  | timeUs64 (e) : PlainCall e (S.timeUs64 e).2
  | sendReport (report) (e) : PlainCall e (S.sendReport report e).2
  | onComplete (reason metrics) (e) : PlainCall e (S.onComplete reason metrics e)
  | onUnderrun (elapsed free) (e) : PlainCall e (S.onUnderrun elapsed free e)
  | onBufferAvailable (queue) (e) : PlainCall e (S.onBufferAvailable queue e)

/-- **The SDK's clock and alarm pool.**  The clock is monotone.  `pending e id target` says that the callback of alarm
`id` may still run, or ran and was not asked for yet: an alarm runs at or after its target and not once it was
cancelled.  One that `add_alarm_at` gives no positive id for runs inside that call or not at all.  That a callback runs
at most once is not needed. -/
structure Clockwork (pending : ε → Int → UInt64 → Prop) : Prop where
  reads : ∀ e, now e ≤ (S.timeUs64 e).1 ∧ (S.timeUs64 e).1 ≤ now (S.timeUs64 e).2
  call : ∀ {e e'}, PlainCall S e e' → now e ≤ now e' ∧ ∀ id target, pending e' id target → pending e id target
  add_now : ∀ target e, now e ≤ now (S.addAlarmAt target e).2
  add : ∀ target e id target', pending (S.addAlarmAt target e).2 id target' → pending e id target' ∨
    (id = (S.addAlarmAt target e).1 ∧ target' = target)
  cancel_now : ∀ id e, now e ≤ now (S.cancelAlarm id e)
  cancel : ∀ id' e id target, pending (S.cancelAlarm id' e) id target → pending e id target ∧ id ≠ id'
  isr_now : ∀ e, now e ≤ now (S.alarmIsr e).2
  isr : ∀ e, (S.alarmIsr e).1 = true → ∃ id target, pending e id target ∧ target ≤ now (S.alarmIsr e).2
  isr_pending : ∀ e id target, pending (S.alarmIsr e).2 id target → pending e id target ∧ 0 < id

end Taped

/-! ## Reading the tape -/

/-- The queue as the tape tells it, the epoch of the last start, and the offset of an event HID just took, until the
clock says when. -/
structure Replay where
  queue : List PlaybackEvent
  epoch : UInt64
  taken : Option UInt64

/-- Not before its time, where that is a 64-bit time at all. -/
def InTime (playbackStartUs offsetUs timeUs : UInt64) : Prop :=
  playbackStartUs.toNat + offsetUs.toNat < 2 ^ 64 → playbackStartUs.toNat + offsetUs.toNat ≤ timeUs.toNat

instance (playbackStartUs offsetUs timeUs : UInt64) : Decidable (InTime playbackStartUs offsetUs timeUs) :=
  inferInstanceAs (Decidable (_ → _))

/-- The report offered is the head's and in time, and so is the moment it counts as dispatched. -/
def punctualStep (r : Replay) : Mark → Option Replay
  | .started playbackStartUs => some { r with epoch := playbackStartUs, taken := none }
  | .pushed event => some { r with queue := r.queue ++ [event] }
  | .cleared => some { r with queue := [] }
  | .clock timeUs =>
    match r.taken with
    | none => some r
    | some offsetUs => if InTime r.epoch offsetUs timeUs then some { r with taken := none } else none
  | .handed report timeUs taken =>
    match r.queue with
    | [] => none
    | event :: rest =>
      if event.report = report ∧ InTime r.epoch event.offsetUs timeUs then
        some (if taken then { r with queue := rest, taken := some event.offsetUs } else r)
      else none
  | .ended | .completed .. => some r

def punctual : Monitor Replay Mark := ⟨⟨[], 0, none⟩, punctualStep⟩

/-- What the tape tells is what the scheduler has. -/
def Told {ε : Type} (m : Machine (Tape ε)) : Prop :=
  punctual.after m.rest.marks = some ⟨m.queue.toList, m.sched.playbackStartUs, none⟩

section Sound

variable {ε : Type} {S : Surroundings ε} {now : ε → UInt64} {pending : ε → Int → UInt64 → Prop}

/-- Nothing can give permission any more. -/
structure Silent (pending : ε → Int → UInt64 → Prop) (s : Scheduler) (e : ε) : Prop where
  unfired : s.alarmFired = false
  none : ∀ id target, ¬pending e id target

/-- Whatever can give permission is cancelled before the next plan. -/
structure Tidy (pending : ε → Int → UInt64 → Prop) (s : Scheduler) (e : ε) : Prop where
  armed : ∀ id target, pending e id target → s.alarmArmed = true ∧ s.alarmId = id
  unfired : s.alarmArmed = false → s.alarmFired = false

/-- A permission given is one for the deadline planned. -/
structure Sounding (now : ε → UInt64) (pending : ε → Int → UInt64 → Prop) (s : Scheduler) (e : ε) : Prop where
  fired : s.alarmFired = true → s.nextDeadlineUs ≤ now e
  target : ∀ id target, pending e id target → target = s.nextDeadlineUs
  armed : ∀ id target, pending e id target → 0 < id → s.alarmArmed = true ∧ s.alarmId = id

variable {s : Scheduler} {e e' : ε}

theorem Silent.tidy (h : Silent pending s e) : Tidy pending s e where
  armed id target hp := absurd hp (h.none id target)
  unfired _ := h.unfired

theorem Silent.call (C : Clockwork S now pending) (hc : PlainCall S e e') (h : Silent pending s e) :
    Silent pending s e' where
  unfired := h.unfired
  none id target hp := h.none id target ((C.call hc).2 id target hp)

theorem Tidy.call (C : Clockwork S now pending) (hc : PlainCall S e e') (h : Tidy pending s e) : Tidy pending s e' where
  armed id target hp := h.armed id target ((C.call hc).2 id target hp)
  unfired := h.unfired

theorem Sounding.call (C : Clockwork S now pending) (hc : PlainCall S e e') (h : Sounding now pending s e) :
    Sounding now pending s e' where
  fired hf := UInt64.le_trans (h.fired hf) (C.call hc).1
  target id target hp := h.target id target ((C.call hc).2 id target hp)
  armed id target hp := h.armed id target ((C.call hc).2 id target hp)

variable {m : Machine (Tape ε)}

/-- No callback is left once the armed alarm was cancelled. -/
theorem cancelArmed_none (C : Clockwork S now pending)
    (h : ∀ id target, pending m.rest.env id target → 0 < id → m.sched.alarmArmed = true ∧ m.sched.alarmId = id) :
    ∀ id target, ¬pending (cancelArmed (S.taped now) m).rest.env id target := by
  intro id target
  unfold cancelArmed
  dsimp only
  by_cases harmed : (interrupt (S.taped now) m).sched.alarmArmed = true
  · rw [if_pos harmed]
    intro hp
    obtain ⟨hp, hne⟩ := C.cancel _ _ id target hp
    obtain ⟨hp, hpos⟩ := C.isr_pending _ id target hp
    exact hne (h id target hp hpos).2.symm
  · rw [if_neg harmed]
    intro hp
    obtain ⟨hp, hpos⟩ := C.isr_pending _ id target hp
    exact harmed (h id target hp hpos).1

/-- **Cancelling silences**: what was armed cannot fire any more, and what had fired is dropped. -/
theorem cancelArmed_silent (C : Clockwork S now pending) (h : Tidy pending m.sched m.rest.env) :
    Silent pending (cancelArmed (S.taped now) m).sched (cancelArmed (S.taped now) m).rest.env := by
  refine ⟨?_, cancelArmed_none C (fun id target hp _ => h.armed id target hp)⟩
  unfold cancelArmed
  dsimp only
  split
  · rfl
  · rename_i harmed
    have hunarmed : m.sched.alarmArmed = false := Bool.eq_false_iff.2 harmed
    have hquiet : (S.alarmIsr m.rest.env).1 = false := by
      refine Bool.eq_false_iff.2 (fun hr => ?_)
      obtain ⟨id, target, hp, -⟩ := C.isr _ hr
      exact harmed (h.armed id target hp).1
    change ((S.alarmIsr m.rest.env).1 || m.sched.alarmFired) = false
    rw [hquiet, h.unfired hunarmed]
    rfl

/-- **The alarm armed is the planned deadline's.** -/
theorem armIfFuture_sounding (C : Clockwork S now pending) (h : Silent pending m.sched m.rest.env) :
    Sounding now pending (armIfFuture (S.taped now) m).sched (armIfFuture (S.taped now) m).rest.env := by
  have hread := h.call C (.timeUs64 m.rest.env)
  have hsilent : Sounding now pending m.sched (S.timeUs64 m.rest.env).2 := by
    refine ⟨fun hf => ?_, fun id target hp => absurd hp (hread.none id target),
      fun id target hp => absurd hp (hread.none id target)⟩
    rw [h.unfired] at hf
    cases hf
  unfold armIfFuture
  dsimp only
  split
  · unfold armAlarm
    dsimp only
    have hadd : ∀ id target, pending (S.addAlarmAt m.sched.nextDeadlineUs (S.timeUs64 m.rest.env).2).2 id target →
        id = (S.addAlarmAt m.sched.nextDeadlineUs (S.timeUs64 m.rest.env).2).1 ∧ target = m.sched.nextDeadlineUs :=
      fun id target hp => (C.add _ _ id target hp).resolve_left (hread.none id target)
    have hunfired : ∀ {P : Prop}, m.sched.alarmFired = true → P := fun hf => by
      rw [h.unfired] at hf
      cases hf
    split
    · refine ⟨hunfired, fun id target hp => (hadd id target hp).2, fun id target hp _ => ⟨rfl, ?_⟩⟩
      exact (hadd id target hp).1.symm
    · rename_i hid
      refine ⟨hunfired, fun id target hp => (hadd id target hp).2, fun id target hp hpos => ?_⟩
      rw [(hadd id target hp).1] at hpos
      exact absurd hpos hid
  · exact hsilent

/-- **What `due` says is right**, and no permission outlives it: the flag is down, and an alarm still to come is
armed. -/
theorem due_sound (C : Clockwork S now pending) (h : Sounding now pending m.sched m.rest.env) :
    Sounding now pending (due (S.taped now) m).2.sched (due (S.taped now) m).2.rest.env ∧
    Tidy pending (due (S.taped now) m).2.sched (due (S.taped now) m).2.rest.env ∧
    ((due (S.taped now) m).1 = true → m.sched.nextDeadlineUs ≤ now (due (S.taped now) m).2.rest.env) := by
  have hasked : Sounding now pending { m.sched with alarmFired := false } (S.alarmIsr m.rest.env).2 := by
    refine ⟨nofun, fun id target hp => ?_, fun id target hp => ?_⟩
    · exact h.target id target (C.isr_pending _ id target hp).1
    · exact h.armed id target (C.isr_pending _ id target hp).1
  have htidy : Tidy pending { m.sched with alarmFired := false } (S.alarmIsr m.rest.env).2 := by
    refine ⟨fun id target hp => ?_, fun _ => rfl⟩
    obtain ⟨hp, hpos⟩ := C.isr_pending _ id target hp
    exact h.armed id target hp hpos
  have hrang : ((S.alarmIsr m.rest.env).1 || m.sched.alarmFired) = true →
      m.sched.nextDeadlineUs ≤ now (S.alarmIsr m.rest.env).2 := by
    intro hf
    rcases Bool.or_eq_true_iff.1 hf with hr | hf
    · obtain ⟨id, target, hp, hle⟩ := C.isr _ hr
      rw [← h.target id target hp]
      exact hle
    · exact UInt64.le_trans (h.fired hf) (C.isr_now _)
  unfold due
  dsimp only
  split
  · rename_i hf
    exact ⟨hasked, htidy, fun _ => hrang hf⟩
  · have hc := PlainCall.timeUs64 (S := S) (S.alarmIsr m.rest.env).2
    refine ⟨hasked.call C hc, htidy.call C hc, fun hready => ?_⟩
    have hle : m.sched.nextDeadlineUs ≤ (S.timeUs64 (S.alarmIsr m.rest.env).2).1 := by
      refine UInt64.not_lt.1 (fun hlt => ?_)
      rw [Bool.not_eq_true', decide_eq_false_iff_not] at hready
      exact hready hlt
    exact UInt64.le_trans hle (C.reads _).2

/-! ## Every pass keeps the time -/

/-- Between two calls: where the scheduler waits for an event or does not run nothing can give permission; otherwise the
head's deadline is planned. -/
structure OnTime (now : ε → UInt64) (pending : ε → Int → UInt64 → Prop) (m : Machine (Tape ε)) : Prop where
  silent : m.sched.running = false ∨ m.sched.waitingForEvent = true → Silent pending m.sched m.rest.env
  planned : m.sched.running = true → m.sched.waitingForEvent = false →
    Sounding now pending m.sched m.rest.env ∧
    ∃ event, m.queue.peek = some event ∧ m.sched.nextDeadlineUs = m.sched.playbackStartUs + event.offsetUs
  told : Told m

/-- A mark that is no news to the replay. -/
theorem Told.idle {m' : Machine (Tape ε)} (h : Told m) (mark : Mark)
    (hmark : ∀ queue epoch, punctualStep ⟨queue, epoch, none⟩ mark = some ⟨queue, epoch, none⟩)
    (hmarks : m'.rest.marks = mark :: m.rest.marks) (hq : m'.queue.toList = m.queue.toList)
    (hepoch : m'.sched.playbackStartUs = m.sched.playbackStartUs) : Told m' := by
  unfold Told
  rw [hmarks, hq, hepoch, Monitor.after_cons_of _ h]
  exact hmark _ _

theorem Told.frame {m' : Machine (Tape ε)} (h : Told m) (hmarks : m'.rest.marks = m.rest.marks)
    (hq : m'.queue = m.queue) (hepoch : m'.sched.playbackStartUs = m.sched.playbackStartUs) : Told m' := by
  unfold Told
  rw [hmarks, hq, hepoch]
  exact h

theorem finish_onTime (C : Clockwork S now pending) (reason : Reason) (h : Silent pending m.sched m.rest.env)
    (ht : Told m) : OnTime now pending (finish (S.taped now) reason m) where
  silent _ := ⟨h.unfired, (h.call C (.onComplete reason _ m.rest.env)).none⟩
  planned hr := by cases hr
  told := ht.idle (.completed reason _) (fun _ _ => rfl) rfl rfl rfl

theorem beginUnderrun_onTime (C : Clockwork S now pending) (h : Silent pending m.sched m.rest.env) (ht : Told m) :
    OnTime now pending (beginUnderrun (S.taped now) m) := by
  have hwaiting := beginUnderrun_waiting (S.taped now) m
  refine ⟨fun _ => ?_, fun _ hw => ?_, ?_⟩
  · unfold beginUnderrun
    split
    · exact ⟨h.unfired, h.none⟩
    · have hread := h.call C (.timeUs64 m.rest.env)
      exact ⟨h.unfired, (hread.call C (.onUnderrun _ _ _)).none⟩
  · rw [hwaiting] at hw
    cases hw
  · unfold beginUnderrun
    split
    · exact ht
    · exact ht.idle (.clock _) (fun _ _ => rfl) rfl rfl rfl

theorem drained_onTime (C : Clockwork S now pending) (h : Silent pending m.sched m.rest.env) (ht : Told m) :
    OnTime now pending (drained (S.taped now) m) := by
  unfold drained
  split
  · exact finish_onTime C .finished h ht
  · exact beginUnderrun_onTime C h ht

/-- Arming an alarm reads the clock once. -/
theorem armIfFuture_marks (S : Surroundings ε) (now : ε → UInt64) (m : Machine (Tape ε)) :
    ∃ timeUs, (armIfFuture (S.taped now) m).rest.marks = .clock timeUs :: m.rest.marks := by
  unfold armIfFuture armAlarm
  dsimp only
  split
  · split <;> exact ⟨_, rfl⟩
  · exact ⟨_, rfl⟩

theorem cancelArmed_told (ht : Told m) : Told (cancelArmed (S.taped now) m) := by
  unfold cancelArmed
  dsimp only
  split <;> exact ht.frame rfl rfl rfl

/-- **Planning keeps the time**, whatever was armed before. -/
theorem armNext_onTime (C : Clockwork S now pending) (hr : m.sched.running = true)
    (h : Tidy pending m.sched m.rest.env) (ht : Told m) : OnTime now pending (armNext (S.taped now) m).2 := by
  have hsilent := cancelArmed_silent C h
  have htold : Told (cancelArmed (S.taped now) m) := cancelArmed_told ht
  cases hhead : m.queue.peek with
  | none =>
    rw [armNext_empty hhead]
    exact drained_onTime C hsilent htold
  | some event =>
    rw [armNext_head hhead]
    -- the plan only writes the deadline and ends the wait
    have hplan : Silent pending (plan event (cancelArmed (S.taped now) m)).sched
        (plan event (cancelArmed (S.taped now) m)).rest.env := ⟨hsilent.unfired, hsilent.none⟩
    obtain ⟨hwaiting, hepoch, hdeadline⟩ := armIfFuture_plan (S.taped now) (plan event (cancelArmed (S.taped now) m))
    obtain ⟨timeUs, hmarks⟩ := armIfFuture_marks S now (plan event (cancelArmed (S.taped now) m))
    have hqueue := armIfFuture_queue (S.taped now) (plan event (cancelArmed (S.taped now) m))
    refine ⟨fun hidle => ?_, fun _ _ => ⟨armIfFuture_sounding C hplan, event, ?_, ?_⟩, ?_⟩
    · rcases hidle with hstopped | hw
      · rw [armIfFuture_running] at hstopped
        have hrunning := (cancelArmed_running (S.taped now) m).trans hr
        exact absurd (hrunning.symm.trans hstopped) (by decide)
      · rw [hwaiting] at hw
        cases hw
    · rw [hqueue]
      exact (congrArg Lib.Ring.peek (cancelArmed_queue _ m)).trans hhead
    · rw [hepoch, hdeadline]
      rfl
    · exact htold.idle (.clock timeUs) (fun _ _ => rfl) hmarks (congrArg Lib.Ring.toList hqueue) hepoch

/-- A deadline that has come has come as a natural number, unless the sum wrapped. -/
theorem inTime_of_le {playbackStartUs offsetUs timeUs : UInt64} (h : playbackStartUs + offsetUs ≤ timeUs) :
    InTime playbackStartUs offsetUs timeUs := by
  intro hfits
  rw [UInt64.le_iff_toNat_le, UInt64.toNat_add, Nat.mod_eq_of_lt hfits] at h
  exact h

/-- **A report is offered on time**: the replay follows the offer. -/
theorem handed_told {event : PlaybackEvent} (ht : Told m) (hhead : m.queue.peek = some event)
    (hdeadline : m.sched.nextDeadlineUs = m.sched.playbackStartUs + event.offsetUs)
    (hdue : m.sched.nextDeadlineUs ≤ now m.rest.env) (taken : Bool) :
    punctual.after (.handed event.report (now m.rest.env) taken :: m.rest.marks) =
      some (if taken then ⟨m.queue.pop.toList, m.sched.playbackStartUs, some event.offsetUs⟩
        else ⟨m.queue.toList, m.sched.playbackStartUs, none⟩) := by
  rw [Monitor.after_cons_of _ ht, Lib.Ring.toList_of_peek _ _ hhead]
  exact if_pos ⟨rfl, inTime_of_le (hdeadline ▸ hdue)⟩

/-- The dispatch time is read after the report was taken. -/
theorem dispatched_marks (C : Clockwork S now pending) (m : Machine (Tape ε)) : ∃ timeUs,
    (dispatched (S.taped now) m).rest.marks = .clock timeUs :: m.rest.marks ∧
    (dispatched (S.taped now) m).sched =
      m.sched.recordLateness (clampLateness timeUs m.sched.nextDeadlineUs) ∧ now m.rest.env ≤ timeUs := by
  unfold dispatched
  dsimp only
  split
  · have hcalled := (C.call (.onBufferAvailable m.queue.pop m.rest.env)).1
    exact ⟨_, rfl, rfl, UInt64.le_trans hcalled (C.reads _).1⟩
  · exact ⟨_, rfl, rfl, (C.reads _).1⟩

theorem due_told (ht : Told m) : Told (due (S.taped now) m).2 := by
  unfold due
  dsimp only
  split
  · exact ht.frame rfl rfl rfl
  · exact ht.idle (.clock _) (fun _ _ => rfl) rfl rfl rfl

/-- A planned event whose deadline was just looked at. -/
structure Ready (now : ε → UInt64) (pending : ε → Int → UInt64 → Prop) (m : Machine (Tape ε)) (event : PlaybackEvent) :
    Prop where
  running : m.sched.running = true
  waiting : m.sched.waitingForEvent = false
  sounding : Sounding now pending m.sched m.rest.env
  tidy : Tidy pending m.sched m.rest.env
  head : m.queue.peek = some event
  deadline : m.sched.nextDeadlineUs = m.sched.playbackStartUs + event.offsetUs
  told : Told m

variable {event : PlaybackEvent}

theorem due_ready (C : Clockwork S now pending) (h : OnTime now pending m) (hr : m.sched.running = true)
    (hw : m.sched.waitingForEvent = false) : ∃ event, Ready now pending (due (S.taped now) m).2 event ∧
      ((due (S.taped now) m).1 = true →
        (due (S.taped now) m).2.sched.nextDeadlineUs ≤ now (due (S.taped now) m).2.rest.env) := by
  obtain ⟨hsounding, event, hhead, hdeadline⟩ := h.planned hr hw
  obtain ⟨hsounding, htidy, hready⟩ := due_sound C hsounding
  have hsched := due_sched (S.taped now) m
  refine ⟨event, ⟨?_, ?_, hsounding, htidy, ?_, ?_, due_told h.told⟩, ?_⟩
  · rw [hsched]
    exact hr
  · rw [hsched]
    exact hw
  · rw [due_queue]
    exact hhead
  · rw [hsched]
    exact hdeadline
  · rw [hsched]
    exact hready

theorem Ready.onTime (h : Ready now pending m event) : OnTime now pending m where
  silent hidle := by
    rcases hidle with hstop | hwait
    · exact absurd (h.running.symm.trans hstop) (by decide)
    · exact absurd (h.waiting.symm.trans hwait) (by decide)
  planned _ _ := ⟨h.sounding, event, h.head, h.deadline⟩
  told := h.told

/-- A refused report stays the head, with its deadline. -/
theorem Ready.refuse (C : Clockwork S now pending) (h : Ready now pending m event)
    (hdue : m.sched.nextDeadlineUs ≤ now m.rest.env) (hbusy : (S.sendReport event.report m.rest.env).1 = false) :
    OnTime now pending { m with rest := ((S.taped now).sendReport event.report m.rest).2 } := by
  have hcall := PlainCall.sendReport (S := S) event.report m.rest.env
  have hoffer := handed_told h.told h.head h.deadline hdue (S.sendReport event.report m.rest.env).1
  refine Ready.onTime ⟨h.running, h.waiting, h.sounding.call C hcall, h.tidy.call C hcall, h.head, h.deadline, ?_⟩
  rw [hbusy] at hoffer
  refine Eq.trans ?_ hoffer
  simp [Surroundings.taped, hbusy]

/-- What `dispatched` does past the endpoint leaves the alarms as they are. -/
theorem dispatched_tidy (C : Clockwork S now pending) (h : Tidy pending m.sched m.rest.env) :
    Tidy pending (dispatched (S.taped now) m).sched (dispatched (S.taped now) m).rest.env := by
  unfold dispatched
  dsimp only
  split
  · have hcalled := (h.call C (.onBufferAvailable m.queue.pop m.rest.env)).call C (.timeUs64 _)
    exact ⟨hcalled.armed, hcalled.unfired⟩
  · have hcalled := h.call C (.timeUs64 m.rest.env)
    exact ⟨hcalled.armed, hcalled.unfired⟩

/-- A taken report leaves the queue, and what is left of the alarms can be cancelled. -/
theorem Ready.dispatch (C : Clockwork S now pending) (h : Ready now pending m event)
    (hdue : m.sched.nextDeadlineUs ≤ now m.rest.env) (htaken : (S.sendReport event.report m.rest.env).1 = true) :
    let m' := dispatched (S.taped now) { m with rest := ((S.taped now).sendReport event.report m.rest).2 }
    m'.sched.running = true ∧ Tidy pending m'.sched m'.rest.env ∧ Told m' := by
  intro m'
  have hoffer := handed_told h.told h.head h.deadline hdue true
  have hsent := C.call (.sendReport event.report m.rest.env)
  obtain ⟨timeUs, hmarks, hsched, htime⟩ :=
    dispatched_marks C { m with rest := ((S.taped now).sendReport event.report m.rest).2 }
  refine ⟨?_, dispatched_tidy C ?_, ?_⟩
  · exact (congrArg Scheduler.running hsched).trans h.running
  · exact h.tidy.call C (.sendReport event.report m.rest.env)
  · have hmarks : m'.rest.marks = .clock timeUs :: .handed event.report (now m.rest.env) true :: m.rest.marks := by
      rw [← htaken]
      exact hmarks
    have hepoch : m'.sched.playbackStartUs = m.sched.playbackStartUs :=
      (congrArg Scheduler.playbackStartUs hsched).trans rfl
    have hlate : m.sched.playbackStartUs + event.offsetUs ≤ timeUs := by
      rw [← h.deadline]
      exact UInt64.le_trans hdue (UInt64.le_trans hsent.1 htime)
    unfold Told
    rw [hmarks, hepoch, Monitor.after_cons_of _ hoffer]
    exact if_pos (inTime_of_le hlate)

/-- **The task loop keeps the time**: what one round plans the next one waits for. -/
theorem taskLoop_onTime (C : Clockwork S now pending) (fuel : Nat) (m : Machine (Tape ε)) (h : OnTime now pending m) :
    OnTime now pending (taskLoop (S.taped now) fuel m) := by
  refine taskLoop_rule (Q := fun m => Tidy pending m.sched m.rest.env ∧ Told m)
    ?wait ?next ?head ?early ?refuse ?take fuel m h
  case wait =>
    intro m h hw
    exact ⟨(h.silent (.inr hw)).tidy, h.told⟩
  case next =>
    intro m hr h
    exact armNext_onTime C hr h.1 h.2
  case head =>
    intro m h hr hw
    obtain ⟨-, event, hhead, -⟩ := h.planned hr hw
    rw [hhead]
    exact Option.some_ne_none event
  case early =>
    intro m h hr hw _
    obtain ⟨event, hready, -⟩ := due_ready C h hr hw
    exact hready.onTime
  case refuse =>
    intro m event h hr hw hdue hhead hbusy
    obtain ⟨event', hready, hle⟩ := due_ready C h hr hw
    have hsame := hready.head
    rw [due_queue, hhead] at hsame
    obtain rfl := Option.some.inj hsame
    exact hready.refuse C (hle hdue) hbusy
  case take =>
    intro m event h hr hw hdue hhead htaken
    obtain ⟨event', hready, hle⟩ := due_ready C h hr hw
    have hsame := hready.head
    rw [due_queue, hhead] at hsame
    obtain rfl := Option.some.inj hsame
    exact (hready.dispatch C (hle hdue) htaken).2

theorem OnTime.armed (h : OnTime now pending m) : ∀ id target, pending m.rest.env id target → 0 < id →
    m.sched.alarmArmed = true ∧ m.sched.alarmId = id := by
  intro id target hp
  by_cases hidle : m.sched.running = false ∨ m.sched.waitingForEvent = true
  · exact absurd hp ((h.silent hidle).none id target)
  · rw [not_or, Bool.not_eq_false, Bool.not_eq_true] at hidle
    exact (h.planned hidle.1 hidle.2).1.armed id target hp

theorem stop_onTime (C : Clockwork S now pending) (h : OnTime now pending m) :
    OnTime now pending (stop (S.taped now) m) := by
  unfold stop
  split
  · exact h
  · exact finish_onTime C .aborted ⟨rfl, cancelArmed_none C h.armed⟩ ((cancelArmed_told h.told).frame rfl rfl rfl)

theorem start_onTime (C : Clockwork S now pending) (playbackStartUs : UInt64) (h : OnTime now pending m)
    (hr : m.sched.running = false) : OnTime now pending (start (S.taped now) playbackStartUs
      { m with rest := { m.rest with marks := .started playbackStartUs :: m.rest.marks } }) := by
  unfold start
  rw [if_neg (by simp [hr])]
  have hsilent := h.silent (.inl hr)
  have htidy : Tidy pending (m.sched.started playbackStartUs) m.rest.env :=
    ⟨fun id target hp => absurd hp (hsilent.none id target), fun _ => rfl⟩
  refine armNext_onTime C rfl htidy ?_
  exact Monitor.after_cons_of punctual h.told

theorem push_onTime {queue : PlaybackQueue} {event : PlaybackEvent} (h : OnTime now pending m)
    (hq : queue.toList = m.queue.toList ++ [event]) : OnTime now pending
      { m with queue := queue, rest := { m.rest with marks := .pushed event :: m.rest.marks } } := by
  refine ⟨h.silent, fun hr hw => ?_, ?_⟩
  · obtain ⟨hsounding, first, hhead, hdeadline⟩ := h.planned hr hw
    refine ⟨hsounding, first, ?_, hdeadline⟩
    rw [Lib.Ring.peek_eq] at hhead ⊢
    rw [hq, List.head?_append, hhead]
    rfl
  · unfold Told
    rw [Monitor.after_cons_of _ h.told, hq]
    rfl

theorem markSequenceEnded_onTime (h : OnTime now pending m) : OnTime now pending
    { m with sched := m.sched.markSequenceEnded, rest := { m.rest with marks := .ended :: m.rest.marks } } := by
  refine ⟨fun hidle => ?_, fun hr hw => ?_, h.told.idle .ended (fun _ _ => rfl) rfl rfl rfl⟩
  · have hsilent := h.silent hidle
    exact ⟨hsilent.unfired, hsilent.none⟩
  · obtain ⟨hsounding, hhead⟩ := h.planned hr hw
    exact ⟨⟨hsounding.fired, hsounding.target, hsounding.armed⟩, hhead⟩

theorem clear_onTime (h : OnTime now pending m) (hr : m.sched.running = false) : OnTime now pending
    ⟨m.sched.resetSequence, m.queue.clear, { m.rest with marks := .cleared :: m.rest.marks }⟩ := by
  have hreset : m.sched.resetSequence =
      { m.sched with sequenceEnded := false, waitingForEvent := false, underrunActive := false } := by
    unfold Scheduler.resetSequence
    rw [if_neg (by simp [hr])]
  rw [hreset]
  have hsilent := h.silent (.inl hr)
  refine ⟨fun _ => ⟨hsilent.unfired, hsilent.none⟩, fun hrun => ?_, ?_⟩
  · exact absurd (hr.symm.trans hrun) (by decide)
  · exact Monitor.after_cons_of punctual h.told

theorem apply_onTime (C : Clockwork S now pending) (act : Act) (h : OnTime now pending m) :
    OnTime now pending (act.apply S now m) := by
  cases act with
  | start playbackStartUs =>
    simp only [Act.apply]
    split
    · exact h
    · rename_i hr
      exact start_onTime C playbackStartUs h (Bool.eq_false_iff.2 hr)
  | stop => exact stop_onTime C h
  | push offsetUs report =>
    simp only [Act.apply]
    split
    · rename_i queue hpush
      exact push_onTime h (PlaybackQueue.toList_push hpush)
    · exact h
  | markSequenceEnded => exact markSequenceEnded_onTime h
  | clear =>
    simp only [Act.apply]
    split
    · exact h
    · rename_i hr
      exact clear_onTime h (Bool.eq_false_iff.2 hr)
  | task => exact taskLoop_onTime C _ m h

theorem init_onTime (env : ε) (h : ∀ id target, ¬pending env id target) :
    OnTime now pending ⟨Scheduler.init, PlaybackQueue.init, ⟨env, []⟩⟩ where
  silent _ := ⟨rfl, h⟩
  planned hr := by cases hr
  told := rfl

theorem drive_onTime (C : Clockwork S now pending) (env : ε) (h : ∀ id target, ¬pending env id target)
    (acts : List Act) : OnTime now pending (drive S now env acts) :=
  Lib.foldl_invariant (f := Act.apply S now) (P := OnTime now pending) (fun _ act hm => apply_onTime C act hm) acts _
    (init_onTime env h)

end Sound

/-- A clock that moves on at every reading, one alarm, and an endpoint that takes every report. -/
def benchPool (stepUs : UInt64) : Surroundings (UInt64 × Option UInt64) where
  timeUs64 e := (e.1, (if e.1 ≤ e.1 + stepUs then e.1 + stepUs else e.1, e.2))
  addAlarmAt target e := (1, (e.1, some target))
  cancelAlarm id e := (e.1, if id = 1 then none else e.2)
  alarmIsr e := if e.2.any (· ≤ e.1) then (true, (e.1, none)) else (false, e)
  sendReport _ e := (true, e)
  onComplete _ _ e := e
  onUnderrun _ _ e := e
  onBufferAvailable _ e := e

theorem benchPool_moves (stepUs : UInt64) (e : UInt64 × Option UInt64) : e.1 ≤ ((benchPool stepUs).timeUs64 e).2.1 := by
  simp only [benchPool]
  split
  · assumption
  · exact UInt64.le_refl _

theorem benchPool_clockwork (stepUs : UInt64) :
    Clockwork (benchPool stepUs) Prod.fst (fun e id target => id = 1 ∧ e.2 = some target) where
  reads e := ⟨UInt64.le_refl _, benchPool_moves stepUs e⟩
  call hc := by
    cases hc with
    | timeUs64 => exact ⟨benchPool_moves stepUs _, fun _ _ hp => hp⟩
    | _ => exact ⟨UInt64.le_refl _, fun _ _ hp => hp⟩
  add_now _ _ := UInt64.le_refl _
  add target e id target' hp := .inr ⟨hp.1, (Option.some.inj hp.2).symm⟩
  cancel_now _ _ := UInt64.le_refl _
  cancel id' e id target hp := by
    obtain ⟨rfl, hp⟩ := hp
    by_cases hid : id' = 1
    · simp [benchPool, hid] at hp
    · exact ⟨⟨rfl, by simpa [benchPool, hid] using hp⟩, fun h => hid h.symm⟩
  isr_now e := by
    simp only [benchPool]
    split <;> exact UInt64.le_refl _
  isr e hrang := by
    simp only [benchPool] at hrang ⊢
    split at hrang
    · rename_i hdue
      obtain ⟨target, hsome, hle⟩ := (Option.any_eq_true _ _).1 hdue
      refine ⟨1, target, ⟨rfl, hsome⟩, ?_⟩
      rw [if_pos hdue]
      simpa using hle
    · cases hrang
  isr_pending e id target hp := by
    simp only [benchPool] at hp
    split at hp
    · cases hp.2
    · exact ⟨hp, by rw [hp.1]; decide⟩

end Pico
end PicoRecorder
