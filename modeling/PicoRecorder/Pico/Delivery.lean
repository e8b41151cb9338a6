import PicoRecorder.Pico.Scheduler
/-!
# Delivery — a run of the scheduler submits exactly the queued events

A run is `start` on any queue and then any sequence of pushes, end marks, task calls, stops and alarm interrupts, in any
surroundings.  The log of the run is a history variable: what was pushed, what HID took, and each completion.
-/
namespace PicoRecorder
namespace Pico

open Relation (ReflTransGen)
open Lib (Preserved)

inductive Entry where
  | pushed (event : PlaybackEvent)
  | ended
  | submitted (report : Report)
  | completed (reason : Reason) (metrics : Metrics)

/-- Clock, alarm pool, HID endpoint and callbacks, with any answers at all. -/
structure Surroundings (ε : Type) where
  timeUs64 : ε → UInt64 × ε
  addAlarmAt : UInt64 → ε → Int × ε
  cancelAlarm : Int → ε → ε
  alarmIsr : ε → Bool × ε
  sendReport : Report → ε → Bool × ε
  onComplete : Reason → Metrics → ε → ε
  onUnderrun : UInt64 → UInt16 → ε → ε
  onBufferAvailable : PlaybackQueue → ε → ε

/-- The surroundings' state and the log, newest entry first. -/
structure World (ε : Type) where
  env : ε
  log : List Entry

def Surroundings.host {ε : Type} (S : Surroundings ε) : Host (World ε) where
  timeUs64 w := ((S.timeUs64 w.env).1, { w with env := (S.timeUs64 w.env).2 })
  addAlarmAt at_ w := ((S.addAlarmAt at_ w.env).1, { w with env := (S.addAlarmAt at_ w.env).2 })
  cancelAlarm id w := { w with env := S.cancelAlarm id w.env }
  alarmIsr w := ((S.alarmIsr w.env).1, { w with env := (S.alarmIsr w.env).2 })
  sendReport report w :=
    ((S.sendReport report w.env).1,
      { env := (S.sendReport report w.env).2,
        log := if (S.sendReport report w.env).1 then .submitted report :: w.log else w.log })
  onComplete reason metrics m :=
    { m with rest := { env := S.onComplete reason metrics m.rest.env, log := .completed reason metrics :: m.rest.log } }
  onUnderrun elapsed free w := { w with env := S.onUnderrun elapsed free w.env }
  onBufferAvailable queue w := { w with env := S.onBufferAvailable queue w.env }

inductive Op where
  | push (offsetUs : UInt64) (report : List UInt8)
  | markSequenceEnded
  | task
  | stop
  | alarmIsr

section Run

variable {ε : Type} (S : Surroundings ε)

def Op.apply (m : Machine (World ε)) : Op → Machine (World ε)
  | .push offsetUs report =>
    match PlaybackQueue.push m.queue offsetUs report with
    | some queue =>
      { m with queue := queue, rest := { m.rest with log := .pushed ⟨offsetUs, Report.ofBytes report⟩ :: m.rest.log } }
    | none => m
  | .markSequenceEnded =>
    { m with sched := m.sched.markSequenceEnded, rest := { m.rest with log := .ended :: m.rest.log } }
  | .task => Pico.task S.host m
  | .stop => Pico.stop S.host m
  | .alarmIsr => { m with sched := { m.sched with alarmFired := true } }

/-- A run of the scheduler: started on a queue with an empty log, then driven. -/
def playRun (sched : Scheduler) (queue : PlaybackQueue) (env : ε) (epoch : UInt64) (ops : List Op) :
    Machine (World ε) :=
  ops.foldl (Op.apply S) (start S.host epoch ⟨sched, queue, ⟨env, []⟩⟩)

end Run

/-- The reports HID took, in the order it took them. -/
def submitted : List Entry → List Report
  | [] => []
  | .submitted report :: log => submitted log ++ [report]
  | _ :: log => submitted log

/-- The events the queue accepted, in order. -/
def pushed : List Entry → List PlaybackEvent
  | [] => []
  | .pushed event :: log => pushed log ++ [event]
  | _ :: log => pushed log

def reports (events : List PlaybackEvent) : List Report := events.map (·.report)

@[simp] theorem reports_append (xs ys : List PlaybackEvent) : reports (xs ++ ys) = reports xs ++ reports ys :=
  List.map_append

theorem submitted_append : ∀ (later earlier : List Entry),
    submitted (later ++ earlier) = submitted earlier ++ submitted later
  | [], earlier => by simp [submitted]
  | x :: later, earlier => by
    cases x <;> simp [submitted, submitted_append later earlier]

theorem pushed_append : ∀ (later earlier : List Entry), pushed (later ++ earlier) = pushed earlier ++ pushed later
  | [], earlier => by simp [pushed]
  | x :: later, earlier => by
    cases x <;> simp [pushed, pushed_append later earlier]

/-! ## The invariant -/

section Invariant

variable {ε : Type} {S : Surroundings ε} {initial : List PlaybackEvent} {ended₀ : Bool}

/-- A run in progress: what HID took and what still waits are what was there and what came. -/
structure Live (initial : List PlaybackEvent) (ended₀ : Bool) (m : Machine (World ε)) : Prop where
  running : m.sched.running = true
  balance : submitted m.rest.log ++ reports m.queue.toList = reports (initial ++ pushed m.rest.log)
  uncompleted : ∀ reason metrics, Entry.completed reason metrics ∉ m.rest.log
  ended : m.sched.sequenceEnded = true → ended₀ = true ∨ Entry.ended ∈ m.rest.log
  counted : m.sched.dispatchedCount = UInt32.ofNat (submitted m.rest.log).length

/-- What the log says at the moment of a completion. -/
structure Completion (initial : List PlaybackEvent) (ended₀ : Bool) (reason : Reason) (metrics : Metrics)
    (earlier : List Entry) : Prop where
  delivered : submitted earlier <+: reports (initial ++ pushed earlier)
  first : ∀ reason metrics, Entry.completed reason metrics ∉ earlier
  kind : reason = .finished ∨ reason = .aborted
  all : reason = .finished →
    submitted earlier = reports (initial ++ pushed earlier) ∧ (ended₀ = true ∨ Entry.ended ∈ earlier)
  counted : metrics.dispatchedCount = UInt32.ofNat (submitted earlier).length

/-- Only pushes and end marks are logged after the completion. -/
structure Over (initial : List PlaybackEvent) (ended₀ : Bool) (m : Machine (World ε)) : Prop where
  stopped : m.sched.running = false
  log : ∃ later reason metrics earlier, m.rest.log = later ++ .completed reason metrics :: earlier ∧
    (∀ x ∈ later, (∃ event, x = .pushed event) ∨ x = .ended) ∧ Completion initial ended₀ reason metrics earlier

def Delivering (initial : List PlaybackEvent) (ended₀ : Bool) (m : Machine (World ε)) : Prop :=
  Live initial ended₀ m ∨ Over initial ended₀ m

theorem settles (S : Surroundings ε) : S.host.Settles := fun _ _ _ hr => hr

theorem Live.over {m : Machine (World ε)} {reason : Reason} (hl : Live initial ended₀ m)
    (hr : reason = .aborted ∨ (reason = .finished ∧ m.queue.toList = [] ∧ m.sched.sequenceEnded = true)) :
    Over initial ended₀ (finish S.host reason m) := by
  refine ⟨rfl, [], reason, _, m.rest.log, rfl, by simp, ?_⟩
  refine ⟨⟨_, hl.balance⟩, hl.uncompleted, ?_, fun hf => ?_, hl.counted⟩
  · rcases hr with rfl | ⟨rfl, _⟩
    · exact .inr rfl
    · exact .inl rfl
  · rcases hr with rfl | ⟨-, hq, he⟩
    · cases hf
    · have hb := hl.balance
      rw [hq] at hb
      exact ⟨by simpa [reports] using hb, hl.ended he⟩

theorem Delivering.frame {m m' : Machine (World ε)} (hd : Delivering initial ended₀ m) (hq : m'.queue = m.queue)
    (hlog : m'.rest.log = m.rest.log) (hr : m'.sched.running = m.sched.running)
    (he : m'.sched.sequenceEnded = m.sched.sequenceEnded)
    (hc : m'.sched.dispatchedCount = m.sched.dispatchedCount) : Delivering initial ended₀ m' := by
  rcases hd with hl | ho
  · refine .inl ⟨?_, ?_, ?_, ?_, ?_⟩
    · rw [hr]; exact hl.running
    · rw [hq, hlog]; exact hl.balance
    · rw [hlog]; exact hl.uncompleted
    · rw [he, hlog]; exact hl.ended
    · rw [hc, hlog]; exact hl.counted
  · refine .inr ⟨?_, ?_⟩
    · rw [hr]; exact ho.stopped
    · rw [hlog]; exact ho.log

theorem Delivering.live {m : Machine (World ε)} (hd : Delivering initial ended₀ m) (hr : m.sched.running = true) :
    Live initial ended₀ m := by
  rcases hd with hl | ho
  · exact hl
  · rw [ho.stopped] at hr; cases hr

theorem Live.submit {m : Machine (World ε)} {event : PlaybackEvent} (hl : Live initial ended₀ m)
    (head : m.queue.peek = some event) (taken : (S.host.sendReport event.report m.rest).1 = true) :
    Live initial ended₀ (dispatched S.host { m with rest := (S.host.sendReport event.report m.rest).2 }) := by
  have hlog : (dispatched S.host { m with rest := (S.host.sendReport event.report m.rest).2 }).rest.log =
      .submitted event.report :: m.rest.log := by
    have ht : (S.sendReport event.report m.rest.env).1 = true := taken
    unfold dispatched
    dsimp only
    split <;> simp [Surroundings.host, ht]
  have hq := Lib.Ring.toList_of_peek _ _ head
  refine ⟨hl.running, ?_, ?_, ?_, ?_⟩
  · have hb := hl.balance
    rw [hq] at hb
    rw [hlog]
    simpa [submitted, pushed, reports, dispatched] using hb
  · rw [hlog]
    simpa using hl.uncompleted
  · intro he
    rw [hlog]
    exact (hl.ended he).imp_right (List.mem_cons_of_mem _)
  · rw [hlog]
    change m.sched.dispatchedCount + 1 = _
    rw [hl.counted, submitted, List.length_append, List.length_singleton]
    exact UInt32.toNat.inj (by simp)

theorem delivering_arming {m m' : Machine (World ε)} (hs : Arming S.host m m') (hd : Delivering initial ended₀ m) :
    Delivering initial ended₀ m' := by
  cases hs with
  | clock => exact hd.frame rfl rfl rfl rfl rfl
  | interrupt => exact hd.frame rfl rfl rfl rfl rfl
  | exchange => exact hd.frame rfl rfl rfl rfl rfl
  | disarm armed => exact hd.frame rfl rfl rfl rfl rfl
  | plan event running unarmed head => exact hd.frame rfl rfl rfl rfl rfl
  | arm running unarmed nonempty =>
    unfold armAlarm
    dsimp only
    split <;> exact hd.frame rfl rfl rfl rfl rfl
  | underrun running unarmed empty unended =>
    unfold beginUnderrun
    split <;> exact hd.frame rfl rfl rfl rfl rfl
  | finish running unarmed empty ended =>
    exact .inr ((hd.live running).over (.inr ⟨rfl, (Lib.Ring.peek_eq_none _).1 empty, ended⟩))

/-- **A single step of a live run** delivers the head or nothing, or ends the run. -/
theorem delivering_micro : Preserved (Micro S.host) (Delivering (ε := ε) initial ended₀) := by
  intro m m' hs hd
  cases hs with
  | arming step => exact delivering_arming step hd
  | refuse event running ready head busy =>
    have hb : (S.sendReport event.report m.rest.env).1 = false := busy
    refine hd.frame rfl ?_ rfl rfl rfl
    simp [Surroundings.host, hb]
  | dispatch event running ready head taken => exact .inl ((hd.live running).submit head taken)

theorem delivering_run {m m' : Machine (World ε)} (hs : ReflTransGen (Micro S.host) m m')
    (hd : Delivering initial ended₀ m) : Delivering initial ended₀ m' :=
  Preserved.run delivering_micro hs hd

theorem Live.push {m : Machine (World ε)} {event : PlaybackEvent} {queue : PlaybackQueue}
    (hl : Live initial ended₀ m) (hq : queue.toList = m.queue.toList ++ [event]) :
    Live initial ended₀ { m with queue := queue, rest := { m.rest with log := .pushed event :: m.rest.log } } := by
  refine ⟨hl.running, ?_, ?_, ?_, hl.counted⟩
  · have hb := hl.balance
    simp only [reports_append] at hb
    simp only [submitted, pushed, hq, reports_append, ← List.append_assoc, hb]
  · simpa using hl.uncompleted
  · intro he
    exact (hl.ended he).imp_right (List.mem_cons_of_mem _)

/-- An entry that may follow the completion. -/
theorem Over.log_cons {m : Machine (World ε)} {x : Entry} (ho : Over initial ended₀ m)
    (hx : (∃ event, x = .pushed event) ∨ x = .ended) {m' : Machine (World ε)}
    (hr : m'.sched.running = m.sched.running) (hlog : m'.rest.log = x :: m.rest.log) : Over initial ended₀ m' := by
  obtain ⟨later, reason, metrics, earlier, hl, hquiet, hc⟩ := ho.log
  refine ⟨by rw [hr, ho.stopped], x :: later, reason, metrics, earlier, by rw [hlog, hl]; rfl, ?_, hc⟩
  intro y hy
  rcases List.mem_cons.1 hy with rfl | hy
  · exact hx
  · exact hquiet y hy

theorem stop_delivering {m : Machine (World ε)} (hd : Delivering initial ended₀ m) :
    Delivering initial ended₀ (Pico.stop S.host m) := by
  unfold Pico.stop
  split
  · exact hd
  · rename_i hr
    have hc := (delivering_run (Arming.micro (cancelArmed_arming S.host m)) hd).live
      (by rw [cancelArmed_running]; simpa using hr)
    refine .inr (Live.over ⟨hc.running, hc.balance, hc.uncompleted, hc.ended, hc.counted⟩ (.inl rfl))

theorem apply_delivering (m : Machine (World ε)) (op : Op) (hd : Planned m ∧ Delivering initial ended₀ m) :
    Planned (op.apply S m) ∧ Delivering initial ended₀ (op.apply S m) := by
  obtain ⟨hp, hd⟩ := hd
  cases op with
  | push offsetUs report =>
    cases hq : PlaybackQueue.push m.queue offsetUs report with
    | none => simp only [Op.apply, hq]; exact ⟨hp, hd⟩
    | some queue =>
      simp only [Op.apply, hq]
      have hqueue := PlaybackQueue.toList_push hq
      refine ⟨fun _ _ => ?_, ?_⟩
      · rw [Ne, Lib.Ring.peek_eq_none, hqueue]
        simp
      · rcases hd with hl | ho
        · exact .inl (hl.push hqueue)
        · exact .inr (ho.log_cons (.inl ⟨_, rfl⟩) rfl rfl)
  | markSequenceEnded =>
    refine ⟨hp, ?_⟩
    rcases hd with hl | ho
    · refine .inl ⟨hl.running, hl.balance, ?_, fun _ => .inr (by simp [Op.apply]), hl.counted⟩
      simpa [Op.apply] using hl.uncompleted
    · exact .inr (ho.log_cons (.inr rfl) rfl rfl)
  | task => exact ⟨task_planned (settles S) hp, delivering_run (task_micro (settles S) hp) hd⟩
  | stop =>
    refine ⟨fun hr => ?_, stop_delivering hd⟩
    have hstop := stop_running (settles S) m
    exact absurd (hstop.symm.trans hr) (by decide)
  | alarmIsr => exact ⟨hp, hd.frame rfl rfl rfl rfl rfl⟩

theorem playRun_delivering (S : Surroundings ε) (sched : Scheduler) (queue : PlaybackQueue) (env : ε) (epoch : UInt64)
    (ops : List Op) (hidle : sched.running = false) :
    Delivering queue.toList sched.sequenceEnded (playRun S sched queue env epoch ops) := by
  have hstart : Live queue.toList sched.sequenceEnded
      (⟨sched.started epoch, queue, ⟨env, []⟩⟩ : Machine (World ε)) :=
    ⟨rfl, by simp [submitted, pushed], by simp, fun he => .inl he, rfl⟩
  have hplan : Planned (⟨sched, queue, ⟨env, []⟩⟩ : Machine (World ε)) := fun hr => by rw [hidle] at hr; cases hr
  refine (Lib.foldl_invariant (apply_delivering (S := S)) ops _ ⟨start_planned (settles S) epoch hplan, ?_⟩).2
  exact delivering_run (Arming.micro (start_arming epoch hidle)) (.inl hstart)

theorem submitted_quiet : ∀ {later : List Entry}, (∀ x ∈ later, (∃ event, x = .pushed event) ∨ x = .ended) →
    submitted later = []
  | [], _ => rfl
  | x :: later, h => by
    have hl : submitted later = [] := submitted_quiet (fun y hy => h y (List.mem_cons_of_mem _ hy))
    rcases h x (by simp) with ⟨event, rfl⟩ | rfl
    · exact hl
    · exact hl

theorem uncompleted_quiet {later : List Entry} (h : ∀ x ∈ later, (∃ event, x = .pushed event) ∨ x = .ended)
    (reason : Reason) (metrics : Metrics) : Entry.completed reason metrics ∉ later := by
  intro hm
  rcases h _ hm with ⟨event, he⟩ | he <;> cases he

theorem Delivering.in_order {m : Machine (World ε)} (hd : Delivering initial ended₀ m) :
    submitted m.rest.log <+: reports (initial ++ pushed m.rest.log) := by
  rcases hd with hl | ho
  · exact ⟨_, hl.balance⟩
  · obtain ⟨later, reason, metrics, earlier, hlog, hquiet, hc⟩ := ho.log
    have hlater := submitted_quiet hquiet
    have hs : submitted (.completed reason metrics :: earlier) = submitted earlier := rfl
    have hp : pushed (.completed reason metrics :: earlier) = pushed earlier := rfl
    rw [hlog, submitted_append, pushed_append, hlater, List.append_nil, hs, hp, ← List.append_assoc, reports_append]
    exact hc.delivered.trans (List.prefix_append _ _)

/-- **Any completion in the log is the one of the run.** -/
theorem Delivering.completion {m : Machine (World ε)} (hd : Delivering initial ended₀ m) {later earlier : List Entry}
    {reason : Reason} {metrics : Metrics} (hlog : m.rest.log = later ++ .completed reason metrics :: earlier) :
    (∀ x ∈ later, (∃ event, x = .pushed event) ∨ x = .ended) ∧ Completion initial ended₀ reason metrics earlier := by
  rcases hd with hl | ho
  · exact absurd (hlog ▸ by simp) (hl.uncompleted reason metrics)
  · obtain ⟨later', reason', metrics', earlier', hlog', hquiet, hc⟩ := ho.log
    obtain ⟨rfl, hx, rfl⟩ := Lib.split_unique (P := fun x => ∃ reason metrics, x = Entry.completed reason metrics)
      (hlog'.symm.trans hlog)
      (fun z hz ⟨r, x, he⟩ => uncompleted_quiet hquiet r x (he ▸ hz))
      (fun z hz ⟨r, x, he⟩ => hc.first r x (he ▸ hz)) ⟨reason, metrics, rfl⟩
    cases hx
    exact ⟨hquiet, hc⟩

end Invariant

/-- **A run delivers exactly the queued events.**  What HID took is, in order, a prefix of what the queue held at the
start and what was pushed during the run.  The run completes at most once and submits nothing afterwards; a `FINISHED`
completion has delivered everything pushed before it, of a sequence marked ended, and the count it reports is the number
of reports taken. -/
theorem playRun_delivers {ε : Type} (S : Surroundings ε) (sched : Scheduler) (queue : PlaybackQueue) (env : ε)
    (epoch : UInt64) (ops : List Op) (hidle : sched.running = false) :
    let log := (playRun S sched queue env epoch ops).rest.log
    submitted log <+: reports (queue.toList ++ pushed log) ∧
    ∀ later reason metrics earlier, log = later ++ .completed reason metrics :: earlier →
      submitted later = [] ∧
      (∀ reason' metrics', .completed reason' metrics' ∉ later ∧ .completed reason' metrics' ∉ earlier) ∧
      (reason = .finished ∨ reason = .aborted) ∧
      (reason = .finished → submitted earlier = reports (queue.toList ++ pushed earlier) ∧
        (sched.sequenceEnded = true ∨ .ended ∈ earlier)) ∧
      ((submitted earlier).length < 2 ^ 32 → metrics.dispatchedCount.toNat = (submitted earlier).length) := by
  have hd := playRun_delivering S sched queue env epoch ops hidle
  refine ⟨hd.in_order, fun later reason metrics earlier hlog => ?_⟩
  obtain ⟨hquiet, hc⟩ := hd.completion hlog
  refine ⟨submitted_quiet hquiet, fun r x => ⟨uncompleted_quiet hquiet r x, hc.first r x⟩, hc.kind, hc.all, ?_⟩
  intro hlt
  rw [hc.counted]
  exact UInt32.toNat_ofNat_of_lt' hlt

/-- Surroundings whose clock stands at 7 and whose endpoint takes every report. -/
def steadySurroundings : Surroundings Unit where
  timeUs64 _ := (7, ())
  addAlarmAt _ _ := (0, ())
  cancelAlarm _ _ := ()
  alarmIsr _ := (false, ())
  sendReport _ _ := (true, ())
  onComplete _ _ _ := ()
  onUnderrun _ _ _ := ()
  onBufferAvailable _ _ := ()

/-- A key goes down, and comes up. -/
theorem playRun_delivers_tap :
    let log := (playRun steadySurroundings Scheduler.init PlaybackQueue.init () 5
      [.push 1 [0, 0, 4, 0, 0, 0, 0, 0], .push 2 [0, 0, 0, 0, 0, 0, 0, 0], .task, .markSequenceEnded, .task,
        .task]).rest.log
    submitted log = [Report.ofBytes [0, 0, 4, 0, 0, 0, 0, 0], Report.ofBytes [0, 0, 0, 0, 0, 0, 0, 0]] ∧
      submitted log <+: reports (PlaybackQueue.init.toList ++ pushed log) :=
  ⟨by decide +kernel, (playRun_delivers steadySurroundings _ _ _ _ _ rfl).1⟩

end Pico
end PicoRecorder
