import Mathlib.Algebra.Order.Floor.Div
import Mathlib.Data.List.Sort
import PicoRecorder.Pico.Deadlines
/-!
# Statistics — PLAY_METRICS against the list of latenesses

The scheduler keeps a running minimum, maximum and sum, and the first 2048 samples.  `Describes` says what the metrics
of a run are to be, `account` reads the dispatches of each run off the tape, and `Measured` is what the scheduler's
fields have to do with them.
-/
namespace PicoRecorder
namespace Pico

/-! ## Sorting and ranks -/

/-- The sample of rank `⌈p n / 100⌉` in ascending order, and `0` when there is none. -/
def nearestRank (p : Nat) (samples : List Int) : Int :=
  (samples.insertionSort (· ≤ ·)).getD ((p * samples.length) ⌈/⌉ 100 - 1) 0

theorem insertSample_eq (key : Int) : ∀ xs : List Int, Scheduler.insertSample key xs = xs.orderedInsert (· ≥ ·) key
  | [] => rfl
  | x :: xs => by
    rw [Scheduler.insertSample, List.orderedInsert_cons, insertSample_eq key xs]
    by_cases h : x > key
    · rw [if_pos h, if_neg (by omega)]
    · rw [if_neg h, if_pos (by omega)]

/-- The insertion loop leaves the samples in descending order, read backwards. -/
theorem foldl_insertSample (samples : List Int) :
    samples.foldl (fun sorted key => Scheduler.insertSample key sorted) [] = samples.reverse.insertionSort (· ≥ ·) := by
  rw [List.insertionSort, List.foldr_reverse]
  congr 1
  funext sorted key
  exact insertSample_eq key sorted

theorem sortSamples_perm (samples : List Int) : (Scheduler.sortSamples samples).Perm samples := by
  unfold Scheduler.sortSamples
  rw [foldl_insertSample]
  exact (List.reverse_perm _).trans ((List.perm_insertionSort _ _).trans (List.reverse_perm _))

theorem sortSamples_sorted (samples : List Int) : (Scheduler.sortSamples samples).Pairwise (· ≤ ·) := by
  unfold Scheduler.sortSamples
  rw [foldl_insertSample, List.pairwise_reverse]
  exact List.pairwise_insertionSort (· ≥ ·) samples.reverse

/-- **`sort_samples` sorts**: there is one ascending order of the samples. -/
theorem sortSamples_eq {samples samples' : List Int} (h : samples.Perm samples') :
    Scheduler.sortSamples samples = samples'.insertionSort (· ≤ ·) := by
  refine List.Perm.eq_of_pairwise' (sortSamples_sorted samples) (List.pairwise_insertionSort (· ≤ ·) samples') ?_
  exact (sortSamples_perm samples).trans (h.trans (List.perm_insertionSort _ _).symm)

/-- **`percentile` is the nearest rank**: neither clamp of the rank is ever needed. -/
theorem percentile_eq {p : Nat} (hp : 0 < p) (hle : p ≤ 100) {samples samples' : List Int} (h : samples.Perm samples') :
    Scheduler.percentile (Scheduler.sortSamples samples) p = nearestRank p samples' := by
  unfold Scheduler.percentile nearestRank
  have hlength : (Scheduler.sortSamples samples).length = samples'.length :=
    ((sortSamples_perm samples).trans h).length_eq
  rw [hlength, sortSamples_eq h, Nat.ceilDiv_eq_add_pred_div]
  by_cases hempty : samples'.length = 0
  · rw [if_pos hempty, List.length_eq_zero_iff.1 hempty]
    rfl
  · have hpos : samples'.length ≤ p * samples'.length := Nat.le_mul_of_pos_left _ hp
    have hmul : p * samples'.length ≤ 100 * samples'.length := Nat.mul_le_mul_right _ hle
    have hrank : ¬(p * samples'.length + 99) / 100 < 1 := by omega
    have hlast : ¬(p * samples'.length + 99) / 100 > samples'.length := by omega
    rw [if_neg hempty]
    dsimp only
    rw [if_neg hrank, if_neg hlast, Nat.add_sub_assoc (by decide)]

/-! ## What the metrics are to be -/

/-- The statistics of a list of latenesses, oldest first. -/
structure Describes (metrics : Metrics) (latenesses : List Int) : Prop where
  minimum : metrics.minLatenessUs = latenesses.min?.getD 0
  maximum : metrics.maxLatenessUs = latenesses.max?.getD 0
  total : metrics.sumLatenessUs = latenesses.sum
  p95 : metrics.p95LatenessUs = nearestRank 95 (latenesses.take schedulerMaxSamples)
  p99 : metrics.p99LatenessUs = nearestRank 99 (latenesses.take schedulerMaxSamples)
  truncated : metrics.samplesTruncated = true ↔ schedulerMaxSamples < latenesses.length

/-- What the scheduler's fields have to do with the latenesses of the run.  The samples are sorted once it is over. -/
structure Measured (s : Scheduler) (latenesses : List Int) : Prop where
  count : s.dispatchedCount = UInt32.ofNat latenesses.length
  minimum : latenesses.length < 2 ^ 32 → s.minLatenessUs = latenesses.min?.getD 0
  maximum : latenesses.length < 2 ^ 32 → s.maxLatenessUs = latenesses.max?.getD 0
  total : s.sumLatenessUs = latenesses.sum
  samples : s.latenessSamples.Perm (latenesses.take schedulerMaxSamples)
  truncated : s.samplesTruncated = true ↔ schedulerMaxSamples < latenesses.length

theorem min_concat (xs : List Int) (x : Int) :
    (xs ++ [x]).min?.getD 0 = if xs = [] ∨ x < xs.min?.getD 0 then x else xs.min?.getD 0 := by
  cases xs with
  | nil => simp
  | cons y ys =>
    rw [List.cons_append, List.min?_cons', List.min?_cons', List.foldl_append]
    simp only [List.foldl_cons, List.foldl_nil, Option.getD_some, reduceCtorEq, false_or]
    split <;> omega

theorem max_concat (xs : List Int) (x : Int) :
    (xs ++ [x]).max?.getD 0 = if xs = [] ∨ xs.max?.getD 0 < x then x else xs.max?.getD 0 := by
  cases xs with
  | nil => simp
  | cons y ys =>
    rw [List.cons_append, List.max?_cons', List.max?_cons', List.foldl_append]
    simp only [List.foldl_cons, List.foldl_nil, Option.getD_some, reduceCtorEq, false_or]
    split <;> omega

variable {s : Scheduler} {latenesses : List Int}

theorem Measured.first (h : Measured s latenesses) (hlt : latenesses.length < 2 ^ 32) :
    (s.dispatchedCount == 0) = true ↔ latenesses = [] := by
  have hcount : s.dispatchedCount.toNat = latenesses.length := by
    rw [h.count]
    exact UInt32.toNat_ofNat_of_lt' hlt
  rw [beq_iff_eq, ← UInt32.toNat_inj, hcount, UInt32.toNat_zero, List.length_eq_zero_iff]

/-- **One dispatch more**: minimum, maximum and sum take it in, and the samples as long as there is room. -/
theorem Measured.record (h : Measured s latenesses) (lateness : Int) :
    Measured (s.recordLateness lateness) (latenesses ++ [lateness]) := by
  have hlength : (latenesses ++ [lateness]).length = latenesses.length + 1 := by simp
  have hsampled : s.latenessSamples.length = min latenesses.length schedulerMaxSamples := by
    rw [h.samples.length_eq, List.length_take, Nat.min_comm]
  refine ⟨?_, fun hlt => ?_, fun hlt => ?_, ?_, ?_, ?_⟩
  · change s.dispatchedCount + 1 = _
    rw [h.count, hlength]
    exact UInt32.toNat.inj (by simp)
  · rw [hlength] at hlt
    simp only [Scheduler.recordLateness, Bool.or_eq_true, decide_eq_true_eq, h.first (show _ < _ by omega)]
    rw [min_concat, h.minimum (by omega)]
  · rw [hlength] at hlt
    simp only [Scheduler.recordLateness, Bool.or_eq_true, decide_eq_true_eq, h.first (show _ < _ by omega)]
    rw [max_concat, h.maximum (by omega)]
  · simp [Scheduler.recordLateness, h.total]
  · unfold Scheduler.recordLateness
    dsimp only
    by_cases hroom : latenesses.length < schedulerMaxSamples
    · rw [if_pos (by omega), List.take_of_length_le (by omega)]
      have hall := h.samples
      rw [List.take_of_length_le (by omega)] at hall
      exact hall.append_right [lateness]
    · rw [if_neg (by omega), List.take_append_of_le_length (by omega)]
      exact h.samples
  · unfold Scheduler.recordLateness
    dsimp only
    rw [hlength]
    by_cases hroom : latenesses.length < schedulerMaxSamples
    · rw [if_pos (by omega), h.truncated]
      omega
    · rw [if_neg (by omega)]
      exact iff_of_true rfl (by omega)

theorem Measured.init (h : s.dispatchedCount = 0 ∧ s.minLatenessUs = 0 ∧ s.maxLatenessUs = 0 ∧ s.sumLatenessUs = 0 ∧
    s.latenessSamples = [] ∧ s.samplesTruncated = false) : Measured s [] := by
  obtain ⟨hcount, hmin, hmax, hsum, hsamples, htruncated⟩ := h
  refine ⟨hcount, fun _ => hmin, fun _ => hmax, hsum, ?_, ?_⟩
  · rw [hsamples]
    exact .refl _
  · simp [htruncated]

/-- What `finish` hands over. -/
theorem Measured.describes (h : Measured s latenesses) (hlt : latenesses.length < 2 ^ 32) :
    Describes { s with running := false, latenessSamples := Scheduler.sortSamples s.latenessSamples }.metrics
      latenesses where
  minimum := h.minimum hlt
  maximum := h.maximum hlt
  total := h.total
  p95 := percentile_eq (by decide) (by decide) h.samples
  p99 := percentile_eq (by decide) (by decide) h.samples
  truncated := h.truncated

/-! ## Dispatches, off the tape -/

/-- A report HID took: the epoch of its run, its offset, and the clock after it was taken. -/
structure Dispatch where
  playbackStartUs : UInt64
  offsetUs : UInt64
  timeUs : UInt64
  deriving DecidableEq

def clampTo32 (x : Int) : Int := if x > 2147483647 then 2147483647 else if x < -2147483648 then -2147483648 else x

/-- How late an event was, over the integers. -/
def Dispatch.lateness (x : Dispatch) : Int :=
  clampTo32 (x.timeUs.toNat - (x.playbackStartUs.toNat + x.offsetUs.toNat : Nat))

/-- What the code makes of it, with its deadline and its signed view of both times. -/
def Dispatch.recorded (x : Dispatch) : Int := clampLateness x.timeUs (x.playbackStartUs + x.offsetUs)

/-- The deadline is a 64-bit time, and a positive one as `int64_t` exactly if the dispatch time is. -/
def Dispatch.Representable (x : Dispatch) : Prop :=
  x.playbackStartUs.toNat + x.offsetUs.toNat < 2 ^ 64 ∧
  (x.playbackStartUs.toNat + x.offsetUs.toNat < 2 ^ 63 ↔ x.timeUs.toNat < 2 ^ 63)

instance (x : Dispatch) : Decidable x.Representable := inferInstanceAs (Decidable (_ ∧ _))

theorem toInt64_toInt (t : UInt64) :
    t.toInt64.toInt = if t.toNat < 2 ^ 63 then (t.toNat : Int) else t.toNat - 2 ^ 64 := by
  change t.toBitVec.toInt = _
  rw [BitVec.toInt_eq_toNat_cond]
  change (if 2 * t.toNat < 2 ^ 64 then (t.toNat : Int) else t.toNat - ((2 ^ 64 : Nat) : Int)) = _
  split <;> split <;> omega

/-- **The recorded lateness is the lateness** of a representable dispatch. -/
theorem Dispatch.Representable.recorded {x : Dispatch} (h : x.Representable) : x.recorded = x.lateness := by
  obtain ⟨hfits, hside⟩ := h
  have hdeadline : (x.playbackStartUs + x.offsetUs).toNat = x.playbackStartUs.toNat + x.offsetUs.toNat := by
    rw [UInt64.toNat_add, Nat.mod_eq_of_lt hfits]
  have hdifference : x.timeUs.toInt64.toInt - (x.playbackStartUs + x.offsetUs).toInt64.toInt =
      x.timeUs.toNat - (x.playbackStartUs.toNat + x.offsetUs.toNat : Nat) := by
    rw [toInt64_toInt, toInt64_toInt, hdeadline]
    by_cases hpositive : x.timeUs.toNat < 2 ^ 63
    · rw [if_pos hpositive, if_pos (hside.2 hpositive)]
    · rw [if_neg hpositive, if_neg (fun hlt => hpositive (hside.1 hlt))]
      omega
  unfold Dispatch.recorded Dispatch.lateness clampLateness
  dsimp only
  rw [hdifference]
  rfl

/-- What the tape accounts for: the queue, the run in progress or the last one, and the metrics of every run that ended
with its dispatches. -/
structure Ledger where
  queue : List PlaybackEvent
  epoch : UInt64
  taken : Option UInt64
  dispatches : List Dispatch
  results : List (Metrics × List Dispatch)

def Ledger.enter (a : Ledger) : Mark → Ledger
  | .started playbackStartUs => { a with epoch := playbackStartUs, taken := none, dispatches := [] }
  | .pushed event => { a with queue := a.queue ++ [event] }
  | .cleared => { a with queue := [] }
  | .clock timeUs =>
    match a.taken with
    | none => a
    | some offsetUs => { a with taken := none, dispatches := a.dispatches ++ [⟨a.epoch, offsetUs, timeUs⟩] }
  | .handed _ _ true =>
    match a.queue with
    | [] => a
    | event :: rest => { a with queue := rest, taken := some event.offsetUs }
  | .handed _ _ false | .ended => a
  | .completed _ metrics => { a with results := a.results ++ [(metrics, a.dispatches)] }

def account : List Mark → Ledger
  | [] => ⟨[], 0, none, [], []⟩
  | mark :: marks => (account marks).enter mark

section Audit

variable {ε : Type} {S : Surroundings ε} {now : ε → UInt64}

/-- Every run that ended was described by what the scheduler recorded. -/
def Settled (results : List (Metrics × List Dispatch)) : Prop :=
  ∀ result ∈ results, result.2.length < 2 ^ 32 → Describes result.1 (result.2.map Dispatch.recorded)

/-- The books agree with the scheduler, whatever it does next. -/
structure Booked (m : Machine (Tape ε)) : Prop where
  queue : (account m.rest.marks).queue = m.queue.toList
  epoch : (account m.rest.marks).epoch = m.sched.playbackStartUs
  taken : (account m.rest.marks).taken = none
  measured : Measured m.sched ((account m.rest.marks).dispatches.map Dispatch.recorded)
  settled : Settled (account m.rest.marks).results

/-- Between two calls the head's deadline is planned as well. -/
structure Audited (m : Machine (Tape ε)) : Prop where
  booked : Booked m
  planned : m.sched.running = true → m.sched.waitingForEvent = false →
    ∃ event, m.queue.peek = some event ∧ m.sched.nextDeadlineUs = m.sched.playbackStartUs + event.offsetUs

variable {m m' : Machine (Tape ε)}

theorem Measured.frame {s s' : Scheduler} {latenesses : List Int} (h : Measured s latenesses)
    (hcount : s'.dispatchedCount = s.dispatchedCount) (hmin : s'.minLatenessUs = s.minLatenessUs)
    (hmax : s'.maxLatenessUs = s.maxLatenessUs) (hsum : s'.sumLatenessUs = s.sumLatenessUs)
    (hsamples : s'.latenessSamples.Perm s.latenessSamples) (htruncated : s'.samplesTruncated = s.samplesTruncated) :
    Measured s' latenesses where
  count := hcount.trans h.count
  minimum hlt := hmin.trans (h.minimum hlt)
  maximum hlt := hmax.trans (h.maximum hlt)
  total := hsum.trans h.total
  samples := hsamples.trans h.samples
  truncated := by
    rw [htruncated]
    exact h.truncated

/-- A step that touches neither the queue nor a figure, with a mark that is no news to the books. -/
theorem Booked.frame (h : Booked m) (hmarks : account m'.rest.marks = account m.rest.marks)
    (hqueue : m'.queue = m.queue) (hepoch : m'.sched.playbackStartUs = m.sched.playbackStartUs)
    (hmeasured : ∀ latenesses, Measured m.sched latenesses → Measured m'.sched latenesses) : Booked m' where
  queue := by
    rw [hmarks, hqueue]
    exact h.queue
  epoch := by
    rw [hmarks, hepoch]
    exact h.epoch
  taken := by
    rw [hmarks]
    exact h.taken
  measured := by
    rw [hmarks]
    exact hmeasured _ h.measured
  settled := by
    rw [hmarks]
    exact h.settled

/-- The clock is news only where a report was just taken. -/
theorem Booked.clock (h : Booked m) (timeUs : UInt64) :
    account (.clock timeUs :: m.rest.marks) = account m.rest.marks := by
  change (account m.rest.marks).enter (.clock timeUs) = _
  unfold Ledger.enter
  rw [h.taken]

theorem finish_booked (S : Surroundings ε) (now : ε → UInt64) (reason : Reason) (h : Booked m) :
    Booked (finish (S.taped now) reason m) where
  queue := h.queue
  epoch := h.epoch
  taken := h.taken
  measured := h.measured.frame rfl rfl rfl rfl (sortSamples_perm _) rfl
  settled := by
    intro result hmem
    change result ∈ (account m.rest.marks).results ++ [_] at hmem
    rcases List.mem_append.1 hmem with hmem | hmem
    · exact h.settled result hmem
    · rw [List.mem_singleton.1 hmem]
      intro hlt
      refine h.measured.describes ?_
      rw [List.length_map]
      exact hlt

theorem beginUnderrun_booked (S : Surroundings ε) (now : ε → UInt64) (h : Booked m) :
    Booked (beginUnderrun (S.taped now) m) := by
  unfold beginUnderrun
  split
  · exact h.frame rfl rfl rfl (fun _ hm => hm.frame rfl rfl rfl rfl (.refl _) rfl)
  · exact h.frame (h.clock _) rfl rfl (fun _ hm => hm.frame rfl rfl rfl rfl (.refl _) rfl)

theorem cancelArmed_booked (S : Surroundings ε) (now : ε → UInt64) (h : Booked m) :
    Booked (cancelArmed (S.taped now) m) := by
  unfold cancelArmed
  dsimp only
  split <;> exact h.frame rfl rfl rfl (fun _ hm => hm.frame rfl rfl rfl rfl (.refl _) rfl)

theorem armIfFuture_booked (S : Surroundings ε) (now : ε → UInt64) (h : Booked m) :
    Booked (armIfFuture (S.taped now) m) := by
  unfold armIfFuture armAlarm
  dsimp only
  split
  · split <;> exact h.frame (h.clock _) rfl rfl (fun _ hm => hm.frame rfl rfl rfl rfl (.refl _) rfl)
  · exact h.frame (h.clock _) rfl rfl (fun _ hm => hm)

theorem armNext_audited (S : Surroundings ε) (now : ε → UInt64) (h : Booked m) :
    Audited (armNext (S.taped now) m).2 := by
  have hcancelled := cancelArmed_booked S now h
  cases hhead : m.queue.peek with
  | none =>
    rw [armNext_empty hhead]
    unfold drained
    split
    · exact ⟨finish_booked S now .finished hcancelled, fun hr => by cases hr⟩
    · refine ⟨beginUnderrun_booked S now hcancelled, fun _ hw => ?_⟩
      rw [beginUnderrun_waiting] at hw
      cases hw
  | some event =>
    rw [armNext_head hhead]
    have hplanned : Booked (plan event (cancelArmed (S.taped now) m)) :=
      hcancelled.frame rfl rfl rfl (fun _ hm => hm.frame rfl rfl rfl rfl (.refl _) rfl)
    obtain ⟨-, hepoch, hdeadline⟩ := armIfFuture_plan (S.taped now) (plan event (cancelArmed (S.taped now) m))
    refine ⟨armIfFuture_booked S now hplanned, fun _ _ => ⟨event, ?_, ?_⟩⟩
    · rw [armIfFuture_queue]
      exact (congrArg Lib.Ring.peek (cancelArmed_queue _ m)).trans hhead
    · rw [hepoch, hdeadline]
      rfl

theorem due_booked (S : Surroundings ε) (now : ε → UInt64) (h : Booked m) : Booked (due (S.taped now) m).2 := by
  unfold due
  dsimp only
  split
  · exact h.frame rfl rfl rfl (fun _ hm => hm.frame rfl rfl rfl rfl (.refl _) rfl)
  · exact h.frame (h.clock _) rfl rfl (fun _ hm => hm.frame rfl rfl rfl rfl (.refl _) rfl)

theorem dispatched_frame (S : Surroundings ε) (now : ε → UInt64) (m : Machine (Tape ε)) : ∃ timeUs,
    (dispatched (S.taped now) m).rest.marks = .clock timeUs :: m.rest.marks ∧
    (dispatched (S.taped now) m).sched = m.sched.recordLateness (clampLateness timeUs m.sched.nextDeadlineUs) := by
  unfold dispatched
  dsimp only
  split <;> exact ⟨_, rfl, rfl⟩

/-- **A dispatch is booked** with the epoch and the offset its deadline was planned from. -/
theorem dispatched_booked {event : PlaybackEvent} (h : Booked m) (hhead : m.queue.peek = some event)
    (hdeadline : m.sched.nextDeadlineUs = m.sched.playbackStartUs + event.offsetUs)
    (htaken : (S.sendReport event.report m.rest.env).1 = true) :
    Booked (dispatched (S.taped now) { m with rest := ((S.taped now).sendReport event.report m.rest).2 }) := by
  obtain ⟨timeUs, hmarks, hsched⟩ :=
    dispatched_frame S now { m with rest := ((S.taped now).sendReport event.report m.rest).2 }
  generalize hm' :
    dispatched (S.taped now) { m with rest := ((S.taped now).sendReport event.report m.rest).2 } = m' at *
  have hpopped : m'.queue = m.queue.pop := by rw [← hm']; rfl
  replace hmarks : m'.rest.marks = .clock timeUs :: .handed event.report (now m.rest.env) true :: m.rest.marks := by
    rw [hmarks, ← htaken]
    rfl
  replace hsched : m'.sched = m.sched.recordLateness (clampLateness timeUs m.sched.nextDeadlineUs) := hsched
  have hqueue : (account m.rest.marks).queue = event :: m.queue.pop.toList := by
    rw [h.queue, Lib.Ring.toList_of_peek _ _ hhead]
  have haccount : account m'.rest.marks = { account m.rest.marks with
      queue := m.queue.pop.toList
      taken := none
      dispatches := (account m.rest.marks).dispatches ++ [⟨m.sched.playbackStartUs, event.offsetUs, timeUs⟩] } := by
    rw [hmarks, account, account]
    simp only [Ledger.enter, hqueue, h.epoch]
  refine ⟨?_, ?_, ?_, ?_, ?_⟩
  · rw [haccount, hpopped]
  · rw [haccount, hsched]
    exact h.epoch
  · rw [haccount]
  · rw [haccount, hsched, hdeadline, List.map_append]
    exact h.measured.record _
  · rw [haccount]
    exact h.settled

theorem taskLoop_audited (S : Surroundings ε) (now : ε → UInt64) (fuel : Nat) (m : Machine (Tape ε)) (h : Audited m) :
    Audited (taskLoop (S.taped now) fuel m) := by
  refine taskLoop_rule (Q := Booked) ?wait ?next ?head ?early ?refuse ?take fuel m h
  case wait =>
    intro m h _
    exact h.booked
  case next =>
    intro m _ h
    exact armNext_audited S now h
  case head =>
    intro m h hr hw
    obtain ⟨event, hhead, -⟩ := h.planned hr hw
    rw [hhead]
    exact Option.some_ne_none event
  case early =>
    intro m h hr hw _
    refine ⟨due_booked S now h.booked, fun _ _ => ?_⟩
    rw [due_queue, due_sched]
    exact h.planned hr hw
  case refuse =>
    intro m event h hr hw _ _ hbusy
    have hbusy : (S.sendReport event.report (due (S.taped now) m).2.rest.env).1 = false := hbusy
    have hplanned := h.planned hr hw
    rw [← due_queue (S.taped now) m] at hplanned
    refine ⟨(due_booked S now h.booked).frame ?_ rfl rfl (fun _ hm => hm), fun _ _ => ?_⟩
    · change account (.handed event.report _ (S.sendReport event.report _).1 :: _) = _
      rw [hbusy]
      rfl
    · change ∃ event, (due (S.taped now) m).2.queue.peek = some event ∧
        (due (S.taped now) m).2.sched.nextDeadlineUs = (due (S.taped now) m).2.sched.playbackStartUs + event.offsetUs
      rw [due_sched]
      exact hplanned
  case take =>
    intro m event h hr hw _ hhead htaken
    obtain ⟨event', hhead', hdeadline⟩ := h.planned hr hw
    rw [hhead] at hhead'
    obtain rfl := Option.some.inj hhead'
    refine dispatched_booked (due_booked S now h.booked) ?_ ?_ htaken
    · rw [due_queue]
      exact hhead
    · rw [due_sched]
      exact hdeadline

theorem start_audited (S : Surroundings ε) (now : ε → UInt64) (playbackStartUs : UInt64) (h : Audited m)
    (hr : m.sched.running = false) : Audited (start (S.taped now) playbackStartUs
      { m with rest := { m.rest with marks := .started playbackStartUs :: m.rest.marks } }) := by
  unfold start
  rw [if_neg (by simp [hr])]
  refine armNext_audited S now ⟨h.booked.queue, rfl, rfl, ?_, h.booked.settled⟩
  exact Measured.init ⟨rfl, rfl, rfl, rfl, rfl, rfl⟩

theorem stop_audited (S : Surroundings ε) (now : ε → UInt64) (h : Audited m) : Audited (stop (S.taped now) m) := by
  unfold stop
  split
  · exact h
  · have hcancelled := cancelArmed_booked S now h.booked
    refine ⟨finish_booked S now .aborted ?_, fun hr => by cases hr⟩
    exact hcancelled.frame rfl rfl rfl (fun _ hm => hm.frame rfl rfl rfl rfl (.refl _) rfl)

theorem push_audited {queue : PlaybackQueue} {event : PlaybackEvent} (h : Audited m)
    (hq : queue.toList = m.queue.toList ++ [event]) :
    Audited { m with queue := queue, rest := { m.rest with marks := .pushed event :: m.rest.marks } } := by
  refine ⟨⟨?_, h.booked.epoch, h.booked.taken, h.booked.measured, h.booked.settled⟩, fun hr hw => ?_⟩
  · change (account m.rest.marks).queue ++ [event] = _
    rw [h.booked.queue, hq]
  · obtain ⟨first, hhead, hdeadline⟩ := h.planned hr hw
    refine ⟨first, ?_, hdeadline⟩
    rw [Lib.Ring.peek_eq] at hhead ⊢
    rw [hq, List.head?_append, hhead]
    rfl

theorem clear_audited (h : Audited m) (hr : m.sched.running = false) :
    Audited ⟨m.sched.resetSequence, m.queue.clear, { m.rest with marks := .cleared :: m.rest.marks }⟩ := by
  have hreset : m.sched.resetSequence =
      { m.sched with sequenceEnded := false, waitingForEvent := false, underrunActive := false } := by
    unfold Scheduler.resetSequence
    rw [if_neg (by simp [hr])]
  rw [hreset]
  refine ⟨⟨rfl, h.booked.epoch, h.booked.taken, ?_, h.booked.settled⟩, fun hrun => ?_⟩
  · exact h.booked.measured.frame rfl rfl rfl rfl (.refl _) rfl
  · exact absurd (hr.symm.trans hrun) (by decide)

theorem apply_audited (S : Surroundings ε) (now : ε → UInt64) (act : Act) (h : Audited m) :
    Audited (act.apply S now m) := by
  cases act with
  | start playbackStartUs =>
    simp only [Act.apply]
    split
    · exact h
    · rename_i hr
      exact start_audited S now playbackStartUs h (Bool.eq_false_iff.2 hr)
  | stop => exact stop_audited S now h
  | push offsetUs report =>
    simp only [Act.apply]
    split
    · rename_i queue hpush
      exact push_audited h (PlaybackQueue.toList_push hpush)
    · exact h
  | markSequenceEnded =>
    have hsched : ∀ latenesses, Measured m.sched latenesses → Measured m.sched.markSequenceEnded latenesses :=
      fun _ hm => hm.frame rfl rfl rfl rfl (.refl _) rfl
    exact ⟨h.booked.frame rfl rfl rfl hsched, h.planned⟩
  | clear =>
    simp only [Act.apply]
    split
    · exact h
    · rename_i hr
      exact clear_audited h (Bool.eq_false_iff.2 hr)
  | task => exact taskLoop_audited S now _ m h

theorem drive_audited (S : Surroundings ε) (now : ε → UInt64) (env : ε) (acts : List Act) :
    Audited (drive S now env acts) := by
  refine Lib.foldl_invariant (P := Audited) (fun _ act hm => apply_audited S now act hm)
    acts _ ⟨?_, fun hr => by cases hr⟩
  exact ⟨rfl, rfl, rfl, .init ⟨rfl, rfl, rfl, rfl, rfl, rfl⟩, by simp [Settled, account]⟩

end Audit

/-- **PLAY_METRICS is exactly the statistics of the run**: of every run that completed, whatever ran before it, with
fewer than 2³² dispatches, all of them representable. -/
theorem metrics_describe {ε : Type} (S : Surroundings ε) (now : ε → UInt64) (env : ε) (acts : List Act) :
    ∀ result ∈ (account (drive S now env acts).rest.marks).results,
      result.2.length < 2 ^ 32 → (∀ x ∈ result.2, x.Representable) →
        Describes result.1 (result.2.map Dispatch.lateness) := by
  intro result hmem hlt hrepresentable
  have hdescribes := (drive_audited S now env acts).booked.settled result hmem hlt
  rw [List.map_congr_left (fun x hx => (hrepresentable x hx).recorded)] at hdescribes
  exact hdescribes

/-! ## No dispatch before its time -/

/-- **A tape that passes as punctual** has every dispatch in time, and its books are its replay. -/
theorem punctual_account : ∀ {marks : List Mark} {r : Replay}, punctual.after marks = some r →
    (account marks).queue = r.queue ∧ (account marks).epoch = r.epoch ∧ (account marks).taken = r.taken ∧
    ∀ x ∈ (account marks).dispatches, InTime x.playbackStartUs x.offsetUs x.timeUs
  | [], r, h => by
    obtain rfl : (⟨[], 0, none⟩ : Replay) = r := Option.some.inj h
    exact ⟨rfl, rfl, rfl, by simp [account]⟩
  | mark :: marks, r, h => by
    rw [Lib.Monitor.after_cons, Option.bind_eq_some_iff] at h
    obtain ⟨r₀, h₀, hstep⟩ := h
    obtain ⟨hqueue, hepoch, htaken, hdispatches⟩ := punctual_account h₀
    change punctualStep r₀ mark = some r at hstep
    rw [account]
    cases mark with
    | started playbackStartUs =>
      cases hstep
      exact ⟨hqueue, rfl, rfl, by simp [Ledger.enter]⟩
    | pushed event =>
      cases hstep
      exact ⟨congrArg (· ++ [event]) hqueue, hepoch, htaken, hdispatches⟩
    | cleared =>
      cases hstep
      exact ⟨rfl, hepoch, htaken, hdispatches⟩
    | ended =>
      cases hstep
      exact ⟨hqueue, hepoch, htaken, hdispatches⟩
    | completed reason metrics =>
      cases hstep
      exact ⟨hqueue, hepoch, htaken, hdispatches⟩
    | clock timeUs =>
      unfold punctualStep at hstep
      unfold Ledger.enter
      dsimp only at hstep ⊢
      rw [htaken]
      cases ht : r₀.taken with
      | none =>
        rw [ht] at hstep
        cases hstep
        exact ⟨hqueue, hepoch, by rw [htaken], hdispatches⟩
      | some offsetUs =>
        rw [ht] at hstep
        dsimp only at hstep
        split at hstep
        · rename_i hin
          cases hstep
          refine ⟨hqueue, hepoch, rfl, fun x hx => ?_⟩
          rcases List.mem_append.1 hx with hx | hx
          · exact hdispatches x hx
          · rw [List.mem_singleton.1 hx, hepoch]
            exact hin
        · cases hstep
    | handed report timeUs taken =>
      unfold punctualStep at hstep
      dsimp only at hstep
      cases hq : r₀.queue with
      | nil =>
        rw [hq] at hstep
        cases hstep
      | cons event rest =>
        rw [hq] at hstep
        dsimp only at hstep
        split at hstep
        · cases taken with
          | true =>
            cases hstep
            simp only [Ledger.enter, hqueue, hq]
            exact ⟨rfl, hepoch, rfl, hdispatches⟩
          | false =>
            cases hstep
            exact ⟨hqueue, hepoch, htaken, hdispatches⟩
        · cases hstep

/-- **A dispatch in time is recorded as late.** -/
theorem Dispatch.Representable.nonneg {x : Dispatch} (h : x.Representable)
    (hin : InTime x.playbackStartUs x.offsetUs x.timeUs) : 0 ≤ x.recorded := by
  have hlate := hin h.1
  rw [h.recorded]
  unfold Dispatch.lateness clampTo32
  split
  · decide
  · split <;> omega

/-- **No event is handed over early**, in any use of the scheduler: every report offered is the head's, at or after its
deadline where that is a 64-bit time.  The samples are the recorded latenesses of the dispatches, and those are not
negative as long as the deadline and the dispatch lie on the same side of 2⁶³. -/
theorem never_early {ε : Type} {S : Surroundings ε} {now : ε → UInt64} {pending : ε → Int → UInt64 → Prop}
    (C : Clockwork S now pending) (env : ε) (hidle : ∀ id target, ¬pending env id target) (acts : List Act) :
    let m := drive S now env acts
    (∃ r, punctual.after m.rest.marks = some r) ∧
    m.sched.latenessSamples.Perm
      (((account m.rest.marks).dispatches.map Dispatch.recorded).take schedulerMaxSamples) ∧
    ∀ x ∈ (account m.rest.marks).dispatches, x.Representable → 0 ≤ x.recorded := by
  intro m
  have htold := (drive_onTime C env hidle acts).told
  have haudited := drive_audited S now env acts
  refine ⟨⟨_, htold⟩, haudited.booked.measured.samples, fun x hx hrepresentable => hrepresentable.nonneg ?_⟩
  exact (punctual_account htold).2.2.2 x hx

/-- A report due at once, offered first when a stall of 2⁶³ microseconds is over. -/
def benchStall : List Act := [.push 0 [0, 0, 4, 0, 0, 0, 0, 0], .start 0, .task]

/-- **The latest dispatch of all is recorded as the earliest.** -/
theorem stall_recorded_early :
    ¬ ∀ acts : List Act,
      ∀ lateness ∈ (drive (benchPool 0x8000000000000000) Prod.fst (0, none) acts).sched.latenessSamples, 0 ≤ lateness :=
  fun h => absurd (h benchStall (-2147483648) (by decide +kernel)) (by decide)

/-- Two events, each by its alarm. -/
def benchTake : List Act :=
  [.push 0 [0, 0, 4, 0, 0, 0, 0, 0], .push 100 [0, 0, 0, 0, 0, 0, 0, 0], .markSequenceEnded, .start 5, .task]

theorem benchTake_dispatches : (account (drive (benchPool 40) Prod.fst (0, none) benchTake).rest.marks).dispatches =
    [⟨5, 0, 40⟩, ⟨5, 100, 120⟩] := by decide +kernel

theorem never_early_take :
    (∃ r, punctual.after (drive (benchPool 40) Prod.fst (0, none) benchTake).rest.marks = some r) ∧
      0 ≤ (⟨5, 100, 120⟩ : Dispatch).recorded := by
  have htake := never_early (benchPool_clockwork 40) (0, none) (by simp) benchTake
  refine ⟨htake.1, htake.2.2 _ ?_ (by decide)⟩
  rw [benchTake_dispatches]
  simp

/-- **A wrapped deadline makes an event late that came far too early**: the offset is the last one a double gives. -/
theorem wrap_recorded_late :
    ¬ ∀ acts : List Act, ∀ result ∈ (account (drive (benchPool 10) Prod.fst (5000, none) acts).rest.marks).results,
      result.2.length < 2 ^ 32 → Describes result.1 (result.2.map Dispatch.lateness) := by
  intro h
  have hwrong := (h [.push 0xFFFFFFFFFFFFF800 [0, 0, 4, 0, 0, 0, 0, 0], .markSequenceEnded, .start 5000, .task]
    (⟨1, 0, 2068, 2068, 2068, 2068, 2068, false⟩, [⟨5000, 0xFFFFFFFFFFFFF800, 5020⟩]) (by decide +kernel)
    (by decide)).minimum
  exact absurd hwrong (by decide)

theorem metrics_describe_take :
    Describes ⟨2, 0, 15, 35, 50, 35, 35, false⟩ [35, 15] :=
  metrics_describe (benchPool 40) Prod.fst (0, none) benchTake
    (⟨2, 0, 15, 35, 50, 35, 35, false⟩, [⟨5, 0, 40⟩, ⟨5, 100, 120⟩]) (by decide +kernel) (by decide) (by decide)

end Pico
end PicoRecorder
