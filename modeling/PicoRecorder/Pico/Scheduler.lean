import PicoRecorder.Lib.Run
import PicoRecorder.Pico.Queues
/-!
# Scheduler — the playback scheduler (`playback_scheduler.c`)

The scheduler, the queue it drains and everything else it can reach are one `Machine`; the hardware calls and the four
callbacks are a `Host`.  The alarm interrupt may run between any two steps of the main loop.  It only sets
`alarm_fired`, so `interrupt` stands in front of each place that reads or resets that flag.

`Micro` lists every single thing the scheduler does while it runs, with the guard it does it under.
-/
namespace PicoRecorder
namespace Pico

open Relation (ReflTransGen)

def schedulerMaxSamples : Nat := 2048
def watchdogTimeoutUs : UInt64 := 2000000

/-- `pico_playback_scheduler_t`, without the queue and the callbacks.  The lateness fields are integers: the clamp keeps
each sample inside 32 bits. -/
structure Scheduler where
  running : Bool
  sequenceEnded : Bool
  waitingForEvent : Bool
  underrunActive : Bool
  playbackStartUs : UInt64
  nextDeadlineUs : UInt64
  underrunSinceUs : UInt64
  alarmFired : Bool
  alarmId : Int
  alarmArmed : Bool
  dispatchedCount : UInt32
  underrunCount : UInt32
  minLatenessUs : Int
  maxLatenessUs : Int
  sumLatenessUs : Int
  latenessSamples : List Int
  samplesTruncated : Bool
  deriving DecidableEq, Repr

/-- `pico_playback_scheduler_init`. -/
def Scheduler.init : Scheduler where
  running := false
  sequenceEnded := false
  waitingForEvent := false
  underrunActive := false
  playbackStartUs := 0
  nextDeadlineUs := 0
  underrunSinceUs := 0
  alarmFired := false
  alarmId := 0
  alarmArmed := false
  dispatchedCount := 0
  underrunCount := 0
  minLatenessUs := 0
  maxLatenessUs := 0
  sumLatenessUs := 0
  latenessSamples := []
  samplesTruncated := false

namespace Scheduler

/-- `record_lateness`. -/
def recordLateness (s : Scheduler) (lateness : Int) : Scheduler :=
  let first := s.dispatchedCount == 0
  let room := s.latenessSamples.length < schedulerMaxSamples
  { s with
    minLatenessUs := if first || lateness < s.minLatenessUs then lateness else s.minLatenessUs
    maxLatenessUs := if first || s.maxLatenessUs < lateness then lateness else s.maxLatenessUs
    sumLatenessUs := s.sumLatenessUs + lateness
    dispatchedCount := s.dispatchedCount + 1
    latenessSamples := if room then s.latenessSamples ++ [lateness] else s.latenessSamples
    samplesTruncated := if room then s.samplesTruncated else true }

/-- The shifting loop of `sort_samples`, over the sorted prefix read backwards. -/
def insertSample (key : Int) : List Int → List Int
  | [] => [key]
  | x :: xs => if x > key then x :: insertSample key xs else key :: x :: xs

/-- `sort_samples`. -/
def sortSamples (samples : List Int) : List Int :=
  (samples.foldl (fun sorted key => insertSample key sorted) []).reverse

/-- `percentile`. -/
def percentile (sorted : List Int) (p : Nat) : Int :=
  if sorted.length = 0 then 0
  else
    let rank := (p * sorted.length + 99) / 100
    let rank := if rank < 1 then 1 else rank
    let rank := if rank > sorted.length then sorted.length else rank
    sorted.getD (rank - 1) 0

/-- The metrics `finish` hands over, once the samples are sorted. -/
def metrics (s : Scheduler) : Metrics where
  dispatchedCount := s.dispatchedCount
  underrunCount := s.underrunCount
  minLatenessUs := s.minLatenessUs
  maxLatenessUs := s.maxLatenessUs
  sumLatenessUs := s.sumLatenessUs
  p95LatenessUs := percentile s.latenessSamples 95
  p99LatenessUs := percentile s.latenessSamples 99
  samplesTruncated := s.samplesTruncated

/-- `pico_playback_scheduler_reset_sequence`. -/
def resetSequence (s : Scheduler) : Scheduler :=
  if s.running then s else { s with sequenceEnded := false, waitingForEvent := false, underrunActive := false }

/-- `pico_playback_scheduler_mark_sequence_ended`. -/
def markSequenceEnded (s : Scheduler) : Scheduler := { s with sequenceEnded := true }

/-- `pico_playback_scheduler_watchdog_expired`. -/
def watchdogExpired (s : Scheduler) (nowUs : UInt64) : Bool :=
  s.underrunActive && s.underrunSinceUs ≤ nowUs && watchdogTimeoutUs ≤ nowUs - s.underrunSinceUs

/-- What `start` resets before it plans the head. -/
def started (s : Scheduler) (playbackStartUs : UInt64) : Scheduler :=
  { s with
    running := true
    waitingForEvent := false
    underrunActive := false
    playbackStartUs := playbackStartUs
    nextDeadlineUs := playbackStartUs
    alarmArmed := false
    alarmFired := false
    dispatchedCount := 0
    underrunCount := 0
    minLatenessUs := 0
    maxLatenessUs := 0
    sumLatenessUs := 0
    latenessSamples := []
    samplesTruncated := false }

end Scheduler

/-- The difference of the two clocks read as signed, clamped to 32 bits.  C leaves it undefined where it needs more than
64 bits; here it is exact there too. -/
def clampLateness (dispatchTimeUs deadlineUs : UInt64) : Int :=
  let lateness := dispatchTimeUs.toInt64.toInt - deadlineUs.toInt64.toInt
  if lateness > 2147483647 then 2147483647 else if lateness < -2147483648 then -2147483648 else lateness

/-- The scheduler, its queue, and the rest of the world. -/
structure Machine (ρ : Type) where
  sched : Scheduler
  queue : PlaybackQueue
  rest : ρ

/-- The SDK calls and the callbacks.  `alarmIsr` says whether the interrupt ran since it was last asked. -/
structure Host (ρ : Type) where
  timeUs64 : ρ → UInt64 × ρ
  addAlarmAt : UInt64 → ρ → Int × ρ
  cancelAlarm : Int → ρ → ρ
  alarmIsr : ρ → Bool × ρ
  sendReport : Report → ρ → Bool × ρ
  onComplete : Reason → Metrics → Machine ρ → Machine ρ
  onUnderrun : UInt64 → UInt16 → ρ → ρ
  onBufferAvailable : PlaybackQueue → ρ → ρ

section Code

variable {ρ : Type} (h : Host ρ)

/-- `alarm_isr`, if it ran. -/
def interrupt (m : Machine ρ) : Machine ρ :=
  { m with
    sched := { m.sched with alarmFired := (h.alarmIsr m.rest).1 || m.sched.alarmFired }
    rest := (h.alarmIsr m.rest).2 }

/-- `finish`. -/
def finish (reason : Reason) (m : Machine ρ) : Machine ρ :=
  let sched := { m.sched with
    running := false, latenessSamples := Scheduler.sortSamples m.sched.latenessSamples }
  h.onComplete reason sched.metrics { m with sched := sched }

/-- `begin_underrun`. -/
def beginUnderrun (m : Machine ρ) : Machine ρ :=
  if m.sched.underrunActive then { m with sched := { m.sched with waitingForEvent := true } }
  else
    let now := h.timeUs64 m.rest
    let elapsed := if now.1 ≥ m.sched.playbackStartUs then now.1 - m.sched.playbackStartUs else 0
    { m with
      sched := { m.sched with
        waitingForEvent := true
        underrunActive := true
        underrunSinceUs := now.1
        underrunCount := m.sched.underrunCount + 1 }
      rest := h.onUnderrun elapsed (UInt16.ofNat (PlaybackQueue.freeCapacity m.queue)) now.2 }

/-- What an empty queue means: the end of a marked sequence, an underrun of an open one. -/
def drained (m : Machine ρ) : Machine ρ :=
  if m.sched.sequenceEnded then finish h .finished m else beginUnderrun h m

/-- The alarm is cancelled and its flag dropped. -/
def disarm (m : Machine ρ) : Machine ρ :=
  { m with
    sched := { m.sched with alarmArmed := false, alarmFired := false }
    rest := h.cancelAlarm m.sched.alarmId m.rest }

/-- No alarm is armed any more. -/
def cancelArmed (m : Machine ρ) : Machine ρ :=
  let m := interrupt h m
  if m.sched.alarmArmed then disarm h m else m

/-- The head's absolute deadline replaces the last one, and the wait for an event is over. -/
def plan (event : PlaybackEvent) (m : Machine ρ) : Machine ρ :=
  { m with sched := { m.sched with
      waitingForEvent := false
      underrunActive := false
      nextDeadlineUs := m.sched.playbackStartUs + event.offsetUs } }

def armAlarm (m : Machine ρ) : Machine ρ :=
  let alarm := h.addAlarmAt m.sched.nextDeadlineUs m.rest
  if alarm.1 > 0 then
    { m with sched := { m.sched with alarmId := alarm.1, alarmArmed := true }, rest := alarm.2 }
  else { m with rest := alarm.2 }

/-- An alarm is armed only for a deadline still in the future. -/
def armIfFuture (m : Machine ρ) : Machine ρ :=
  let now := h.timeUs64 m.rest
  let m := { m with rest := now.2 }
  if now.1 < m.sched.nextDeadlineUs then armAlarm h m else m

/-- `arm_next`. -/
def armNext (m : Machine ρ) : Bool × Machine ρ :=
  let m := cancelArmed h m
  match m.queue.peek with
  | none => (false, drained h m)
  | some event => (true, armIfFuture h (plan event m))

/-- `pico_playback_scheduler_start`. -/
def start (playbackStartUs : UInt64) (m : Machine ρ) : Machine ρ :=
  if m.sched.running then m
  else (armNext h { m with sched := m.sched.started playbackStartUs }).2

/-- `pico_playback_scheduler_stop`. -/
def stop (m : Machine ρ) : Machine ρ :=
  if !m.sched.running then m
  else
    let m := cancelArmed h m
    finish h .aborted { m with sched := { m.sched with alarmFired := false } }

/-- `atomic_exchange` of the flag, or else the clock against the deadline. -/
def due (m : Machine ρ) : Bool × Machine ρ :=
  let m := interrupt h m
  let cleared := { m with sched := { m.sched with alarmFired := false } }
  if m.sched.alarmFired then (true, cleared)
  else
    let now := h.timeUs64 cleared.rest
    (!(now.1 < cleared.sched.nextDeadlineUs), { cleared with rest := now.2 })

/-- What `task` does once `send_report` took the head: pop it, grant credit on the edge from full, account for it. -/
def dispatched (m : Machine ρ) : Machine ρ :=
  let queueWasFull := PlaybackQueue.freeCapacity m.queue == 0
  let queue := m.queue.pop
  let rest := if queueWasFull && !m.sched.sequenceEnded then h.onBufferAvailable queue m.rest else m.rest
  let now := h.timeUs64 rest
  { sched := m.sched.recordLateness (clampLateness now.1 m.sched.nextDeadlineUs), queue := queue, rest := now.2 }

/-- A run that waits for an event plans again before anything else. -/
def wake (m : Machine ρ) : Bool × Machine ρ := if m.sched.waitingForEvent then armNext h m else (true, m)

/-- The loop of `pico_playback_scheduler_task`.  An iteration that goes round again popped an event, so one more than
the queue's length is fuel enough (`taskLoop_mono`). -/
def taskLoop : Nat → Machine ρ → Machine ρ
  | 0, m => m
  | fuel + 1, m =>
    if !m.sched.running then m
    else
      let woken := wake h m
      if !woken.1 then woken.2
      else
        let ready := due h woken.2
        if !ready.1 then ready.2
        else
          match ready.2.queue.peek with
          | none => drained h ready.2
          | some event =>
            let sent := h.sendReport event.report ready.2.rest
            if !sent.1 then { ready.2 with rest := sent.2 }
            else
              let next := armNext h (dispatched h { ready.2 with rest := sent.2 })
              if !next.1 then next.2 else taskLoop fuel next.2

/-- `pico_playback_scheduler_task`. -/
def task (m : Machine ρ) : Machine ρ := taskLoop h (m.queue.count + 1) m

end Code

/-! ## What one step can do -/

/-- What planning the next event and looking at the clock consist of: nothing is submitted. -/
inductive Arming {ρ : Type} (h : Host ρ) : Machine ρ → Machine ρ → Prop
  | clock (m) : Arming h m { m with rest := (h.timeUs64 m.rest).2 }
  | interrupt (m) : Arming h m (interrupt h m)
  | exchange (m) : Arming h m { m with sched := { m.sched with alarmFired := false } }
  | disarm (m) (armed : m.sched.alarmArmed = true) : Arming h m (disarm h m)
  | plan (m) (event) (running : m.sched.running = true) (unarmed : m.sched.alarmArmed = false)
      (head : m.queue.peek = some event) : Arming h m (plan event m)
  | arm (m) (running : m.sched.running = true) (unarmed : m.sched.alarmArmed = false)
      (nonempty : m.queue.peek ≠ none) : Arming h m (armAlarm h m)
  | underrun (m) (running : m.sched.running = true) (unarmed : m.sched.alarmArmed = false)
      (empty : m.queue.peek = none) (unended : m.sched.sequenceEnded = false) : Arming h m (beginUnderrun h m)
  | finish (m) (running : m.sched.running = true) (unarmed : m.sched.alarmArmed = false)
      (empty : m.queue.peek = none) (ended : m.sched.sequenceEnded = true) : Arming h m (finish h .finished m)

/-- Everything a task call consists of. -/
inductive Micro {ρ : Type} (h : Host ρ) : Machine ρ → Machine ρ → Prop
  | arming {m m'} (step : Arming h m m') : Micro h m m'
  | refuse (m) (event) (running : m.sched.running = true) (ready : ∃ m₀, due h m₀ = (true, m))
      (head : m.queue.peek = some event) (busy : (h.sendReport event.report m.rest).1 = false) :
      Micro h m { m with rest := (h.sendReport event.report m.rest).2 }
  | dispatch (m) (event) (running : m.sched.running = true) (ready : ∃ m₀, due h m₀ = (true, m))
      (head : m.queue.peek = some event) (taken : (h.sendReport event.report m.rest).1 = true) :
      Micro h m (dispatched h { m with rest := (h.sendReport event.report m.rest).2 })

/-- A run that is not waiting for an event has one at the head of its queue. -/
def Planned {ρ : Type} (m : Machine ρ) : Prop :=
  m.sched.running = true → m.sched.waitingForEvent = false → m.queue.peek ≠ none

/-- A completion callback leaves the run completed. -/
def Host.Settles {ρ : Type} (h : Host ρ) : Prop :=
  ∀ reason metrics m, m.sched.running = false → (h.onComplete reason metrics m).sched.running = false

section Facts

variable {ρ : Type} {h : Host ρ} {m : Machine ρ}

theorem due_sched (h : Host ρ) (m : Machine ρ) : (due h m).2.sched = { m.sched with alarmFired := false } := by
  unfold due
  dsimp only
  split <;> rfl

theorem due_queue (h : Host ρ) (m : Machine ρ) : (due h m).2.queue = m.queue := by
  unfold due
  dsimp only
  split <;> rfl

theorem armAlarm_queue (h : Host ρ) (m : Machine ρ) : (armAlarm h m).queue = m.queue := by
  unfold armAlarm
  dsimp only
  split <;> rfl

theorem armAlarm_running (h : Host ρ) (m : Machine ρ) : (armAlarm h m).sched.running = m.sched.running := by
  unfold armAlarm
  dsimp only
  split <;> rfl

theorem armIfFuture_queue (h : Host ρ) (m : Machine ρ) : (armIfFuture h m).queue = m.queue := by
  unfold armIfFuture
  dsimp only
  split
  · exact armAlarm_queue h _
  · rfl

theorem armIfFuture_running (h : Host ρ) (m : Machine ρ) :
    (armIfFuture h m).sched.running = m.sched.running := by
  unfold armIfFuture
  dsimp only
  split
  · exact armAlarm_running h _
  · rfl

theorem beginUnderrun_running (h : Host ρ) (m : Machine ρ) :
    (beginUnderrun h m).sched.running = m.sched.running := by
  unfold beginUnderrun
  split <;> rfl

theorem beginUnderrun_waiting (h : Host ρ) (m : Machine ρ) : (beginUnderrun h m).sched.waitingForEvent = true := by
  unfold beginUnderrun
  split <;> rfl

theorem cancelArmed_queue (h : Host ρ) (m : Machine ρ) : (cancelArmed h m).queue = m.queue := by
  unfold cancelArmed
  dsimp only
  split <;> rfl

theorem cancelArmed_running (h : Host ρ) (m : Machine ρ) : (cancelArmed h m).sched.running = m.sched.running := by
  unfold cancelArmed
  dsimp only
  split <;> rfl

theorem cancelArmed_unarmed (h : Host ρ) (m : Machine ρ) : (cancelArmed h m).sched.alarmArmed = false := by
  unfold cancelArmed
  dsimp only
  split
  · rfl
  · rename_i ha
    exact Bool.eq_false_iff.2 ha

theorem armNext_empty (he : m.queue.peek = none) : armNext h m = (false, drained h (cancelArmed h m)) := by
  have hq : (cancelArmed h m).queue.peek = none := by rw [cancelArmed_queue, he]
  unfold armNext
  simp only [hq]

theorem armNext_head {event : PlaybackEvent} (he : m.queue.peek = some event) :
    armNext h m = (true, armIfFuture h (plan event (cancelArmed h m))) := by
  have hq : (cancelArmed h m).queue.peek = some event := by rw [cancelArmed_queue, he]
  unfold armNext
  simp only [hq]

theorem armNext_queue (hn : (armNext h m).1 = true) : (armNext h m).2.queue = m.queue := by
  cases hp : m.queue.peek with
  | none => rw [armNext_empty hp] at hn; cases hn
  | some event =>
    rw [armNext_head hp]
    exact (armIfFuture_queue h _).trans (cancelArmed_queue h m)

theorem armNext_running (hn : (armNext h m).1 = true) : (armNext h m).2.sched.running = m.sched.running := by
  cases hp : m.queue.peek with
  | none => rw [armNext_empty hp] at hn; cases hn
  | some event =>
    rw [armNext_head hp]
    exact (armIfFuture_running h _).trans (cancelArmed_running h m)

theorem armNext_nonempty (hn : (armNext h m).1 = true) : (armNext h m).2.queue.peek ≠ none := by
  cases hp : m.queue.peek with
  | none => rw [armNext_empty hp] at hn; cases hn
  | some event => rw [armNext_queue hn, hp]; exact Option.some_ne_none _

theorem armIfFuture_plan (h : Host ρ) (m : Machine ρ) :
    (armIfFuture h m).sched.waitingForEvent = m.sched.waitingForEvent ∧
    (armIfFuture h m).sched.playbackStartUs = m.sched.playbackStartUs ∧
    (armIfFuture h m).sched.nextDeadlineUs = m.sched.nextDeadlineUs := by
  unfold armIfFuture armAlarm
  dsimp only
  split
  · split <;> exact ⟨rfl, rfl, rfl⟩
  · exact ⟨rfl, rfl, rfl⟩

theorem armNext_waiting (hn : (armNext h m).1 = true) : (armNext h m).2.sched.waitingForEvent = false := by
  cases hp : m.queue.peek with
  | none => rw [armNext_empty hp] at hn; cases hn
  | some event =>
    rw [armNext_head hp]
    exact (armIfFuture_plan h _).1

theorem finish_running (hs : h.Settles) (reason : Reason) (m : Machine ρ) :
    (finish h reason m).sched.running = false := hs _ _ _ rfl

theorem drained_planned (hs : h.Settles) (m : Machine ρ) : Planned (drained h m) := by
  intro hr hw
  unfold drained at hr hw
  split at hr
  · rw [finish_running hs] at hr; cases hr
  · rename_i he
    rw [if_neg he, beginUnderrun_waiting] at hw
    cases hw

theorem armNext_planned (hs : h.Settles) (m : Machine ρ) : Planned (armNext h m).2 := by
  cases hp : m.queue.peek with
  | none => rw [armNext_empty hp]; exact drained_planned hs _
  | some event =>
    intro _ _
    exact armNext_nonempty (by rw [armNext_head hp])

theorem wake_queue (hw : (wake h m).1 = true) : (wake h m).2.queue = m.queue := by
  unfold wake at hw ⊢
  split at hw
  · rename_i hwait
    rw [if_pos hwait]
    exact armNext_queue hw
  · rename_i hwait
    rw [if_neg hwait]

theorem wake_running (hw : (wake h m).1 = true) : (wake h m).2.sched.running = m.sched.running := by
  unfold wake at hw ⊢
  split at hw
  · rename_i hwait
    rw [if_pos hwait]
    exact armNext_running hw
  · rename_i hwait
    rw [if_neg hwait]

theorem wake_nonempty (hp : Planned m) (hr : m.sched.running = true) (hw : (wake h m).1 = true) :
    m.queue.peek ≠ none := by
  unfold wake at hw
  split at hw
  · rw [← armNext_queue hw]
    exact armNext_nonempty hw
  · rename_i hwait
    exact hp hr (Bool.eq_false_iff.2 hwait)

theorem wake_planned (hs : h.Settles) (hp : Planned m) : Planned (wake h m).2 := by
  unfold wake
  split
  · exact armNext_planned hs m
  · exact hp

theorem due_planned (hp : Planned m) : Planned (due h m).2 := by
  intro hr hw
  rw [due_sched] at hr hw
  rw [due_queue]
  exact hp hr hw

/-! ## The scheduler's functions as runs of single steps -/

theorem cancelArmed_arming (h : Host ρ) (m : Machine ρ) : ReflTransGen (Arming h) m (cancelArmed h m) := by
  unfold cancelArmed
  dsimp only
  split
  · rename_i ha
    exact (ReflTransGen.single (.interrupt m)).tail (.disarm _ ha)
  · exact .single (.interrupt m)

theorem due_arming (h : Host ρ) (m : Machine ρ) : ReflTransGen (Arming h) m (due h m).2 := by
  have hex := (ReflTransGen.single (Arming.interrupt (h := h) m)).tail (.exchange _)
  unfold due
  dsimp only
  split
  · exact hex
  · exact hex.tail (.clock _)

theorem armNext_arming (hr : m.sched.running = true) : ReflTransGen (Arming h) m (armNext h m).2 := by
  have hcancel := cancelArmed_arming h m
  have hun := cancelArmed_unarmed h m
  have hrun : (cancelArmed h m).sched.running = true := by rw [cancelArmed_running, hr]
  cases hp : m.queue.peek with
  | none =>
    have hempty : (cancelArmed h m).queue.peek = none := by rw [cancelArmed_queue, hp]
    rw [armNext_empty hp]
    unfold drained
    dsimp only
    split
    · rename_i he
      exact hcancel.tail (.finish _ hrun hun hempty he)
    · rename_i he
      exact hcancel.tail (.underrun _ hrun hun hempty (Bool.eq_false_iff.2 he))
  | some event =>
    have hhead : (cancelArmed h m).queue.peek = some event := by rw [cancelArmed_queue, hp]
    have hplan := hcancel.tail (.plan _ event hrun hun hhead)
    rw [armNext_head hp]
    unfold armIfFuture
    dsimp only
    split
    · exact (hplan.tail (.clock _)).tail (.arm _ hrun hun (by rw [plan, hhead]; exact Option.some_ne_none _))
    · exact hplan.tail (.clock _)

theorem wake_arming (hr : m.sched.running = true) : ReflTransGen (Arming h) m (wake h m).2 := by
  unfold wake
  split
  · exact armNext_arming hr
  · exact .refl

theorem Arming.micro {m m' : Machine ρ} (hs : ReflTransGen (Arming h) m m') : ReflTransGen (Micro h) m m' :=
  ReflTransGen.mono (fun _ _ step => Micro.arming step) _ _ hs

/-- **The task loop is a run of single steps**, and leaves the next event planned. -/
theorem taskLoop_micro (hs : h.Settles) : ∀ (fuel : Nat) (m : Machine ρ), Planned m →
    ReflTransGen (Micro h) m (taskLoop h fuel m) ∧ Planned (taskLoop h fuel m)
  | 0, m, hp => ⟨.refl, hp⟩
  | fuel + 1, m, hp => by
    unfold taskLoop
    dsimp only
    split
    · exact ⟨.refl, hp⟩
    rename_i hrun
    have hr : m.sched.running = true := by simpa using hrun
    have hsteps := Arming.micro (wake_arming (h := h) hr)
    have hplanned := wake_planned hs hp (h := h)
    split
    · exact ⟨hsteps, hplanned⟩
    rename_i hwoken
    have hw : (wake h m).1 = true := by simpa using hwoken
    have hsteps := hsteps.trans (Arming.micro (due_arming h _))
    have hplanned := due_planned hplanned (h := h)
    split
    · exact ⟨hsteps, hplanned⟩
    rename_i hready
    have hready : (due h (wake h m).2).1 = true := by simpa using hready
    have hq : (due h (wake h m).2).2.queue = m.queue := by rw [due_queue, wake_queue hw]
    have hr' : (due h (wake h m).2).2.sched.running = true := by rw [due_sched]; exact (wake_running hw).trans hr
    have hdue : ∃ m₀, due h m₀ = (true, (due h (wake h m).2).2) := ⟨(wake h m).2, Prod.ext hready rfl⟩
    split
    · rename_i hnone
      rw [hq] at hnone
      exact absurd hnone (wake_nonempty hp hr hw)
    rename_i event hhead
    split
    · rename_i hbusy
      exact ⟨hsteps.tail (.refuse _ event hr' hdue hhead (by simpa using hbusy)), hplanned⟩
    rename_i htaken
    have hsteps := hsteps.tail (.dispatch _ event hr' hdue hhead (by simpa using htaken))
    have hsteps := hsteps.trans (Arming.micro (armNext_arming (h := h) (m := dispatched h _) hr'))
    split
    · exact ⟨hsteps, armNext_planned hs _⟩
    · obtain ⟨hrest, hlast⟩ := taskLoop_micro hs fuel _ (armNext_planned hs _)
      exact ⟨hsteps.trans hrest, hlast⟩

/-- **More fuel than the queue is long changes nothing**: a round that goes on has popped an event. -/
theorem taskLoop_fuel (h : Host ρ) : ∀ (fuel : Nat) (m : Machine ρ), m.queue.toList.length < fuel →
    taskLoop h (fuel + 1) m = taskLoop h fuel m
  | 0, _, hlt => absurd hlt (Nat.not_lt_zero _)
  | fuel + 1, m, hlt => by
    rw [taskLoop, taskLoop]
    dsimp only
    split
    · rfl
    split
    · rfl
    rename_i hw
    have hw : (wake h m).1 = true := by simpa using hw
    split
    · rfl
    have hq : (due h (wake h m).2).2.queue = m.queue := by rw [due_queue, wake_queue hw]
    cases hhead : (due h (wake h m).2).2.queue.peek with
    | none => rfl
    | some event =>
      dsimp only
      split
      · rfl
      split
      · rfl
      rename_i hn
      have hn := armNext_queue (h := h) (by simpa using hn)
      refine taskLoop_fuel h fuel _ ?_
      rw [hq] at hhead
      have hpop := congrArg List.length (Lib.Ring.toList_of_peek _ _ hhead)
      rw [List.length_cons] at hpop
      rw [hn]
      change (due h (wake h m).2).2.queue.pop.toList.length < fuel
      rw [hq]
      omega

theorem task_micro (hs : h.Settles) (hp : Planned m) : ReflTransGen (Micro h) m (task h m) :=
  (taskLoop_micro hs _ m hp).1

theorem task_planned (hs : h.Settles) (hp : Planned m) : Planned (task h m) := (taskLoop_micro hs _ m hp).2

/-- **The rule of the task loop**: `P` holds between rounds, `Q` is what planning needs. -/
theorem taskLoop_rule {P Q : Machine ρ → Prop}
    (wait : ∀ m, P m → m.sched.waitingForEvent = true → Q m)
    (next : ∀ m, m.sched.running = true → Q m → P (armNext h m).2)
    (head : ∀ m, P m → m.sched.running = true → m.sched.waitingForEvent = false → m.queue.peek ≠ none)
    (early : ∀ m, P m → m.sched.running = true → m.sched.waitingForEvent = false → (due h m).1 = false → P (due h m).2)
    (refuse : ∀ m event, P m → m.sched.running = true → m.sched.waitingForEvent = false → (due h m).1 = true →
      m.queue.peek = some event → (h.sendReport event.report (due h m).2.rest).1 = false →
      P { (due h m).2 with rest := (h.sendReport event.report (due h m).2.rest).2 })
    (take : ∀ m event, P m → m.sched.running = true → m.sched.waitingForEvent = false → (due h m).1 = true →
      m.queue.peek = some event → (h.sendReport event.report (due h m).2.rest).1 = true →
      Q (dispatched h { (due h m).2 with rest := (h.sendReport event.report (due h m).2.rest).2 })) :
    ∀ (fuel : Nat) (m : Machine ρ), P m → P (taskLoop h fuel m)
  | 0, m, hm => hm
  | fuel + 1, m, hm => by
    unfold taskLoop
    dsimp only
    split
    · exact hm
    rename_i hrun
    have hr : m.sched.running = true := by simpa using hrun
    have hwake : P (wake h m).2 ∧ ((wake h m).1 = true → (wake h m).2.sched.waitingForEvent = false) := by
      unfold wake
      split
      · rename_i hw
        exact ⟨next m hr (wait m hm hw), armNext_waiting⟩
      · rename_i hw
        exact ⟨hm, fun _ => Bool.eq_false_iff.2 hw⟩
    split
    · exact hwake.1
    rename_i hwoken
    have hw : (wake h m).1 = true := by simpa using hwoken
    have hr' := (wake_running hw).trans hr
    have hw' := hwake.2 hw
    split
    · rename_i hearly
      exact early _ hwake.1 hr' hw' (by simpa using hearly)
    rename_i hready
    have hready : (due h (wake h m).2).1 = true := by simpa using hready
    have hq : (due h (wake h m).2).2.queue = (wake h m).2.queue := due_queue h _
    have hrunning : (due h (wake h m).2).2.sched.running = true := by rw [due_sched]; exact hr'
    split
    · rename_i hnone
      rw [hq] at hnone
      exact absurd hnone (head _ hwake.1 hr' hw')
    rename_i event hhead
    rw [hq] at hhead
    split
    · rename_i hbusy
      exact refuse _ event hwake.1 hr' hw' hready hhead (by simpa using hbusy)
    rename_i htaken
    have htake := take _ event hwake.1 hr' hw' hready hhead (by simpa using htaken)
    have hnext := next (dispatched h { (due h (wake h m).2).2 with
      rest := (h.sendReport event.report (due h (wake h m).2).2.rest).2 }) hrunning htake
    split
    · exact hnext
    · exact taskLoop_rule wait next head early refuse take fuel _ hnext

/-- A run that waits plans first, and then its task loop is that of a run that does not. -/
theorem taskLoop_waiting (hr : m.sched.running = true) (hw : m.sched.waitingForEvent = true) (fuel : Nat) :
    taskLoop h (fuel + 1) m =
      if (armNext h m).1 then taskLoop h (fuel + 1) (armNext h m).2 else (armNext h m).2 := by
  have hwake : wake h m = armNext h m := if_pos hw
  by_cases hn : (armNext h m).1 = true
  · have hrunning := (armNext_running hn).trans hr
    have hawake : wake h (armNext h m).2 = (true, (armNext h m).2) := if_neg (by rw [armNext_waiting hn]; decide)
    rw [if_pos hn, taskLoop, taskLoop]
    simp only [hr, hrunning, hwake, hawake, hn, Bool.not_true, Bool.false_eq_true, if_false]
  · rw [if_neg hn, taskLoop]
    simp only [hr, hwake, hn]
    rfl

theorem start_planned (hs : h.Settles) (t : UInt64) (hp : Planned m) : Planned (start h t m) := by
  unfold start
  split
  · exact hp
  · exact armNext_planned hs _

theorem start_arming (t : UInt64) (hr : m.sched.running = false) :
    ReflTransGen (Arming h) { m with sched := m.sched.started t } (start h t m) := by
  unfold start
  rw [if_neg (by rw [hr]; exact Bool.false_ne_true)]
  exact armNext_arming rfl

theorem stop_running (hs : h.Settles) (m : Machine ρ) : (stop h m).sched.running = false := by
  unfold stop
  split
  · rename_i hr
    simpa using hr
  · exact finish_running hs _ _

end Facts

end Pico
end PicoRecorder
