import PicoRecorder.Pico.Underrun
/-!
# Watchdog — the empty intervals of a run

A scheduler pass looks at the queue when it comes and when it leaves it.  `Watch` follows the empty intervals of a run
from these looks alone, with the clock as the passes read it; the firmware's flags, its counter, its notices and its
watchdog are compared with that.
-/
namespace PicoRecorder
namespace Pico

section Logged

variable {β : Type} {d : Board β} {m : Fw (β × List UInt64)}

/-! ## The watch -/

/-- The empty interval that is open, by the reading it was first observed with, and the first readings of all that began
since the run was started, newest first. -/
structure Watch where
  since : Option UInt64
  begun : List UInt64

/-- A pass: an empty interval it does not find any more is over, and one it leaves is the one it found or a new one. -/
def Watch.pass (w : Watch) (m m' : Fw (β × List UInt64)) : Watch :=
  if starved m' then
    match (if starved m then w.since else none) with
    | some timeUs => ⟨some timeUs, w.begun⟩
    | none => ⟨some (m'.rest.board.2.headD 0), m'.rest.board.2.headD 0 :: w.begun⟩
  else ⟨none, w.begun⟩

theorem Watch.pass_opens (w : Watch) {m m' : Fw (β × List UInt64)} (hfull : ¬starved m = true)
    (hleft : starved m' = true) :
    w.pass m m' = ⟨some (m'.rest.board.2.headD 0), m'.rest.board.2.headD 0 :: w.begun⟩ := by
  unfold Watch.pass
  rw [if_pos hleft, if_neg hfull]

structure Watched (β : Type) where
  fw : Fw (β × List UInt64)
  watch : Watch

/-- A statement under watch: the scheduler's passes are the start of a run and its task calls. -/
def observe (d : Board β) (w : Watched β) (s : Statement) : Watched β :=
  let fw := exec d.logged w.fw s
  if startsRun w.fw s then ⟨fw, (⟨none, []⟩ : Watch).pass w.fw fw⟩
  else
    match s with
    | .task => ⟨fw, w.watch.pass w.fw fw⟩
    | _ => ⟨fw, w.watch⟩

/-- What the firmware has is what the watch saw. -/
structure Accurate (w : Watched β) : Prop where
  boundary : Boundary w.fw
  steady : w.fw.rest.mode = .playing → w.fw.sched.running = true
  count : w.fw.sched.underrunCount = UInt32.ofNat w.watch.begun.length
  notices : notices w.fw.rest.trace = w.watch.begun.map (elapsedOffset w.fw.sched.playbackStartUs)
  waiting : w.fw.sched.running = true → w.fw.sched.waitingForEvent = w.fw.sched.underrunActive
  active : w.fw.sched.running = true → w.fw.sched.underrunActive = w.watch.since.isSome
  since : w.fw.sched.running = true → ∀ timeUs, w.watch.since = some timeUs → w.fw.sched.underrunSinceUs = timeUs

theorem Accurate.aside {w : Watched β} {m' : Fw (β × List UInt64)} (h : Accurate w) (hb : Boundary m')
    (haside : Aside w.fw m') : Accurate ⟨m', w.watch⟩ := by
  have hcount : m'.sched.underrunCount = w.fw.sched.underrunCount := congrArg Tally.underrunCount haside.tally
  have hepoch : m'.sched.playbackStartUs = w.fw.sched.playbackStartUs := congrArg Tally.playbackStartUs haside.tally
  have hnotices : Pico.notices m'.rest.trace = Pico.notices w.fw.rest.trace := congrArg Tally.notices haside.tally
  have hsame : m'.sched.running = true → pause m' = pause w.fw := fun hr => by
    rcases haside.pause with ⟨hpause, -⟩ | ⟨hover, -⟩
    · exact hpause
    · rw [hover] at hr
      cases hr
  simp only [pause, Prod.mk.injEq] at hsame
  refine ⟨hb, fun hm => ?_, hcount.trans h.count, ?_, fun hr => ?_, fun hr => ?_, fun hr timeUs hsince => ?_⟩
  · rcases haside.pause with ⟨hpause, hmode⟩ | ⟨-, hmode⟩
    · exact (congrArg Prod.fst hpause).trans (h.steady (hmode ▸ hm))
    · exact absurd hm hmode
  · rw [hnotices, hepoch]
    exact h.notices
  · obtain ⟨hrun, hwaiting, hactive, -⟩ := hsame hr
    rw [hwaiting, hactive]
    exact h.waiting (hrun ▸ hr)
  · obtain ⟨hrun, -, hactive, -⟩ := hsame hr
    rw [hactive]
    exact h.active (hrun ▸ hr)
  · obtain ⟨hrun, -, -, hsinceUs⟩ := hsame hr
    rw [hsinceUs]
    exact h.since (hrun ▸ hr) timeUs hsince

/-- **A pass is watched accurately** where it does not find the interval the watch knows. -/
theorem Passing.accurate {t : Tally} {w : Watch} {m m' : Fw (β × List UInt64)} (h : Passing t m') (hb : Boundary m')
    (hfound : (if starved m then w.since else none) = none) (hcount : t.underrunCount = UInt32.ofNat w.begun.length)
    (hnotices : t.notices = w.begun.map (elapsedOffset t.playbackStartUs)) : Accurate ⟨m', w.pass m m'⟩ := by
  rcases h with hfed | ⟨timeUs, hlog, hstarving, htally⟩
  · have hfull : ¬starved m' = true := fun hstarved => by
      obtain ⟨hr, hp, -⟩ := (starved_iff m').1 hstarved
      exact hfed.planned hr (hfed.calm hr).1 hp
    have hpass : w.pass m m' = ⟨none, w.begun⟩ := if_neg hfull
    have hcounted : m'.sched.underrunCount = t.underrunCount := congrArg Tally.underrunCount hfed.tally
    have hepoch : m'.sched.playbackStartUs = t.playbackStartUs := congrArg Tally.playbackStartUs hfed.tally
    have htold : Pico.notices m'.rest.trace = t.notices := congrArg Tally.notices hfed.tally
    rw [hpass]
    refine ⟨hb, hfed.steady, hcounted.trans hcount, ?_, fun hr => ?_, fun hr => (hfed.calm hr).2, fun _ _ => nofun⟩
    · rw [htold, hepoch]
      exact hnotices
    · rw [(hfed.calm hr).1, (hfed.calm hr).2]
  · have hstarved : starved m' = true := (starved_iff m').2 ⟨hstarving.running, hstarving.empty, hstarving.unended⟩
    have hpass : w.pass m m' = ⟨some timeUs, timeUs :: w.begun⟩ := by
      unfold Watch.pass
      rw [if_pos hstarved, hfound, List.headD_eq_head?_getD, hlog]
      rfl
    have hcounted : m'.sched.underrunCount = t.underrunCount + 1 := congrArg Tally.underrunCount htally
    have hepoch : m'.sched.playbackStartUs = t.playbackStartUs := congrArg Tally.playbackStartUs htally
    have htold : Pico.notices m'.rest.trace = elapsedOffset t.playbackStartUs timeUs :: t.notices :=
      congrArg Tally.notices htally
    rw [hpass]
    refine ⟨hb, fun _ => hstarving.running, ?_, ?_, fun _ => hstarving.waiting.trans hstarving.active.symm,
      fun _ => hstarving.active, fun _ t ht => ?_⟩
    · rw [hcounted, hcount, List.length_cons, UInt32.ofNat_add]
      rfl
    · rw [htold, hepoch, hnotices, List.map_cons]
    · rw [← Option.some.inj ht]
      exact hstarving.since

theorem Passing.faults {t : Tally} (h : Passing t m) : underrunFaults m.rest.trace = t.faults := by
  rcases h with hfed | ⟨timeUs, -, -, htally⟩
  · exact congrArg Tally.faults hfed.tally
  · exact congrArg Tally.faults htally

theorem Passing.epoch {t : Tally} (h : Passing t m) : m.sched.playbackStartUs = t.playbackStartUs := by
  rcases h with hfed | ⟨timeUs, -, -, htally⟩
  · exact congrArg Tally.playbackStartUs hfed.tally
  · exact congrArg Tally.playbackStartUs htally

/-- **What a task call finds**: the interval the watch knows, which goes on; a run to go on with; or none. -/
theorem task_cases {w : Watched β} (h : Accurate w) :
    (starved w.fw = true ∧ w.watch.since.isSome ∧ starved (task d.logged.mainHost w.fw) = true ∧
      Aside w.fw (task d.logged.mainHost w.fw)) ∨
    (¬starved w.fw = true ∧ Passing (tally w.fw) (task d.logged.mainHost w.fw)) ∨
    (w.fw.sched.running = false ∧ task d.logged.mainHost w.fw = w.fw) := by
  by_cases hr : w.fw.sched.running = true
  · by_cases hstarved : starved w.fw = true
    · obtain ⟨-, hempty, hopen⟩ := (starved_iff w.fw).1 hstarved
      have hwaiting : w.fw.sched.waitingForEvent = true := by
        by_contra hw
        exact h.boundary.planned hr (Bool.eq_false_iff.2 hw) hempty
      have hactive : w.fw.sched.underrunActive = true := (h.waiting hr).symm.trans hwaiting
      have hsince := (h.active hr).symm.trans hactive
      obtain ⟨hstill, htally, hfalse, b, hrest⟩ := armNext_starving (d := d) ⟨hr, hwaiting, hactive, rfl, hempty, hopen⟩
      have htask : task d.logged.mainHost w.fw = (armNext d.logged.mainHost w.fw).2 := by
        rw [task, taskLoop_waiting hr hwaiting, hfalse]
        rfl
      have hpause : pause (armNext d.logged.mainHost w.fw).2 = pause w.fw := by
        unfold pause
        rw [hstill.running, hstill.waiting, hstill.active, hstill.since, hr, hwaiting, hactive]
      rw [htask]
      exact .inl ⟨hstarved, hsince, (starved_iff _).2 ⟨hstill.running, hstill.empty, hstill.unended⟩,
        htally, .inl ⟨hpause, by rw [hrest]⟩⟩
    · refine .inr (.inl ⟨hstarved, ?_⟩)
      by_cases hwaiting : w.fw.sched.waitingForEvent = true
      · have hdue : Due (tally w.fw) w.fw := by
          refine ⟨rfl, h.steady, fun _ _ hempty => ?_⟩
          by_contra hopen
          exact hstarved ((starved_iff w.fw).2 ⟨hr, hempty, Bool.eq_false_iff.2 hopen⟩)
        have hnext := armNext_due (d := d) hr hdue
        rw [task, taskLoop_waiting hr hwaiting]
        split
        · exact taskLoop_passing _ _ hnext
        · exact hnext
      · have hquiet : w.fw.sched.waitingForEvent = false := Bool.eq_false_iff.2 hwaiting
        have hfed : Fed (tally w.fw) w.fw :=
          ⟨rfl, h.boundary.planned, h.steady, fun _ => ⟨hquiet, (h.waiting hr).symm.trans hquiet⟩⟩
        exact taskLoop_passing _ _ (.inl hfed)
  · have hidle : w.fw.sched.running = false := Bool.eq_false_iff.2 hr
    exact .inr (.inr ⟨hidle, task_idle hidle⟩)

theorem task_accurate {w : Watched β} (h : Accurate w) : Accurate (observe d w .task) := by
  have hb : Boundary (task d.logged.mainHost w.fw) := exec_boundary h.boundary .task
  change Accurate ⟨task d.logged.mainHost w.fw, w.watch.pass w.fw (task d.logged.mainHost w.fw)⟩
  rcases task_cases (d := d) h with ⟨hfound, hsince, hleft, haside⟩ | ⟨hfull, hpassing⟩ | ⟨hidle, htask⟩
  · obtain ⟨timeUs, hsince⟩ := Option.isSome_iff_exists.1 hsince
    have hpass : w.watch.pass w.fw (task d.logged.mainHost w.fw) = w.watch := by
      unfold Watch.pass
      rw [if_pos hleft, if_pos hfound, hsince]
      dsimp only
      rw [← hsince]
    rw [hpass]
    exact h.aside hb haside
  · exact hpassing.accurate hb (if_neg hfull) h.count h.notices
  · have hstopped : ¬starved w.fw = true := fun hs => by
      rw [((starved_iff w.fw).1 hs).1] at hidle
      cases hidle
    have hpass : w.watch.pass w.fw w.fw = ⟨none, w.watch.begun⟩ := if_neg hstopped
    have hover : ∀ {P : Prop}, w.fw.sched.running = true → P := fun hr => by
      rw [hidle] at hr
      cases hr
    rw [htask] at hb ⊢
    rw [hpass]
    exact ⟨hb, h.steady, h.count, h.notices, fun hr => hover hr, fun hr => hover hr, fun hr => hover hr⟩

/-- The start of a run is a pass like any other, with nothing counted yet. -/
theorem start_passing {w : Watched β} (h : Accurate w) {s : Statement} (hs : startsRun w.fw s = true) :
    ∃ playbackStartUs, Passing ⟨0, playbackStartUs, [], underrunFaults w.fw.rest.trace⟩ (exec d.logged w.fw s) := by
  cases s with
  | command frame =>
    simp only [startsRun, Bool.and_eq_true, beq_iff_eq] at hs
    obtain ⟨htype, harmed⟩ := hs
    have hidle := h.boundary.idle (by rw [harmed]; decide)
    let epoch := (d.logged.timeUs64 w.fw.rest.board).1
    let launched := launch d.logged epoch (readEpoch d.logged w.fw)
    have hexec : exec d.logged w.fw (.command frame) = (armNext d.logged.mainHost launched).2 := by
      change dispatchCommand d.logged w.fw frame = _
      unfold dispatchCommand
      rw [htype, MsgType.ofByte?_byte]
      dsimp only
      rw [dispatchPlayStart_armed harmed]
      unfold start
      rw [if_neg (by change ¬w.fw.sched.running = true; rw [hidle]; decide)]
      rfl
    have hfaults : underrunFaults launched.rest.trace = underrunFaults w.fw.rest.trace := by
      obtain ⟨q₁, q₂, htrace⟩ : ∃ q₁ q₂, launched.rest.trace = [.started epoch, .frame (.playStarted epoch) q₂,
          .frame (.modeChanged .playing .ok) q₁, .entered .playing, .allRelease] ++ w.fw.rest.trace := ⟨_, _, rfl⟩
      rw [htrace]
      simp [underrunFaults, Obs.isUnderrunFault]
    have hdue : Due ⟨0, epoch, [], underrunFaults w.fw.rest.trace⟩ launched :=
      ⟨hfaults ▸ rfl, fun _ => rfl, fun _ hactive => by cases hactive⟩
    exact ⟨epoch, hexec ▸ armNext_due rfl hdue⟩
  | _ => cases hs

theorem start_accurate {w : Watched β} (h : Accurate w) {s : Statement} (hs : startsRun w.fw s = true) :
    Accurate (observe d w s) := by
  have hobserve : observe d w s = ⟨exec d.logged w.fw s, (⟨none, []⟩ : Watch).pass w.fw (exec d.logged w.fw s)⟩ :=
    if_pos hs
  obtain ⟨playbackStartUs, hpassing⟩ := start_passing (d := d) h hs
  rw [hobserve]
  refine hpassing.accurate (exec_boundary h.boundary s) ?_ rfl rfl
  split <;> rfl

/-- The watchdog runs in PLAYING, and the open interval has lasted two seconds. -/
def Expired (d : Board β) (w : Watched β) (s : Statement) : Prop :=
  s = .watchdog ∧ w.fw.rest.mode = .playing ∧ ∃ timeUs, w.watch.since = some timeUs ∧
    timeUs.toNat + 2000000 ≤ (d.timeUs64 w.fw.rest.board.1).1.toNat

/-- ERROR is entered, and reported as an underrun. -/
def EntersUnderrun (m m' : Fw (β × List UInt64)) : Prop :=
  m.rest.mode ≠ .error ∧ m'.rest.mode = .error ∧ underrunFaults m'.rest.trace = underrunFaults m.rest.trace + 1

theorem watchdogExpired_iff (s : Scheduler) (nowUs : UInt64) : s.watchdogExpired nowUs = true ↔
    s.underrunActive = true ∧ s.underrunSinceUs.toNat + 2000000 ≤ nowUs.toNat := by
  have htimeout : (2000000 : UInt64).toNat = 2000000 := rfl
  unfold Scheduler.watchdogExpired watchdogTimeoutUs
  simp only [Bool.and_eq_true, decide_eq_true_eq, UInt64.le_iff_toNat_le, htimeout, and_assoc]
  refine and_congr_right (fun _ => ⟨fun ⟨hle, hlasted⟩ => ?_, fun hlasted => ?_⟩)
  · rw [UInt64.toNat_sub_of_le _ _ (UInt64.le_iff_toNat_le.2 hle)] at hlasted
    omega
  · have hle : s.underrunSinceUs.toNat ≤ nowUs.toNat := by omega
    rw [UInt64.toNat_sub_of_le _ _ (UInt64.le_iff_toNat_le.2 hle)]
    omega

/-- **What the watchdog does**, on an accurate watch. -/
theorem watchdog_exec {w : Watched β} (h : Accurate w) :
    (Expired d w .watchdog ∧
      exec d.logged w.fw .watchdog = transition d.logged .error .underrun (readEpoch d.logged w.fw)) ∨
    (¬Expired d w .watchdog ∧ Aside w.fw (exec d.logged w.fw .watchdog)) := by
  have hread : Aside w.fw (readEpoch d.logged w.fw) := Muted.aside (.refl w.fw.rest)
  change (_ ∧ watchdogCheck d.logged w.fw = _) ∨ (_ ∧ Aside w.fw (watchdogCheck d.logged w.fw))
  unfold watchdogCheck
  by_cases hm : w.fw.rest.mode = .playing
  · have hr := h.steady hm
    have hiff : w.fw.sched.watchdogExpired (d.timeUs64 w.fw.rest.board.1).1 = true ↔ Expired d w .watchdog := by
      rw [watchdogExpired_iff, h.active hr, Option.isSome_iff_exists]
      constructor
      · rintro ⟨⟨timeUs, hsince⟩, hlasted⟩
        rw [h.since hr timeUs hsince] at hlasted
        exact ⟨rfl, hm, timeUs, hsince, hlasted⟩
      · rintro ⟨-, -, timeUs, hsince, hlasted⟩
        rw [h.since hr timeUs hsince]
        exact ⟨⟨timeUs, hsince⟩, hlasted⟩
    rw [if_neg (not_not_intro hm)]
    dsimp only
    split
    · rename_i hexpired
      refine .inl ⟨hiff.1 hexpired, ?_⟩
      exact if_pos (by change w.fw.rest.mode ≠ .pass ∧ w.fw.rest.mode ≠ .error; rw [hm]; decide)
    · rename_i hexpired
      exact .inr ⟨fun he => hexpired (hiff.2 he), hread⟩
  · rw [if_pos hm]
    exact .inr ⟨fun he => hm he.2.1, .refl w.fw⟩

theorem watchdog_accurate {w : Watched β} (h : Accurate w) : Accurate (observe d w .watchdog) := by
  have hb : Boundary (exec d.logged w.fw .watchdog) := exec_boundary h.boundary .watchdog
  change Accurate ⟨exec d.logged w.fw .watchdog, w.watch⟩
  rcases watchdog_exec (d := d) h with ⟨-, hexec⟩ | ⟨-, haside⟩
  · rw [hexec] at hb ⊢
    have htally := transition_tally (d := d.logged) .error .underrun (readEpoch d.logged w.fw)
    have hover : ∀ {P : Prop}, (transition d.logged .error .underrun (readEpoch d.logged w.fw)).sched.running = true →
        P :=
      fun hr => by
        rw [transition_running] at hr
        cases hr
    have hcount := congrArg Tally.underrunCount htally
    have hepoch := congrArg Tally.playbackStartUs htally
    have htold := congrArg Tally.notices htally
    refine ⟨hb, nofun, hcount.trans h.count, ?_, fun hr => hover hr, fun hr => hover hr, fun hr => hover hr⟩
    exact htold.trans (h.notices.trans (congrArg (fun epoch => w.watch.begun.map (elapsedOffset epoch)) hepoch.symm))
  · exact h.aside hb haside

theorem observe_accurate {w : Watched β} (h : Accurate w) (s : Statement) : Accurate (observe d w s) := by
  by_cases hs : startsRun w.fw s = true
  · exact start_accurate h hs
  · have hstart : startsRun w.fw s = false := Bool.eq_false_iff.2 hs
    by_cases htask : s = .task
    · exact htask ▸ task_accurate h
    by_cases hwatchdog : s = .watchdog
    · exact hwatchdog ▸ watchdog_accurate h
    have hobserve : observe d w s = ⟨exec d.logged w.fw s, w.watch⟩ := by
      unfold observe
      rw [hstart]
      cases s <;> first | rfl | exact absurd rfl htask
    rw [hobserve]
    exact h.aside (exec_boundary h.boundary s) (exec_aside h.boundary s hstart htask hwatchdog)

theorem boot_accurate (board : β) : Accurate (⟨boot (board, []), ⟨none, []⟩⟩ : Watched β) where
  boundary := boot_boundary _
  steady := nofun
  count := rfl
  notices := rfl
  waiting := nofun
  active := nofun
  since := nofun

/-- A run of the firmware under watch. -/
def watched (d : Board β) (board : β) (statements : List Statement) : Watched β :=
  statements.foldl (observe d) ⟨boot (board, []), ⟨none, []⟩⟩

theorem watched_accurate (board : β) (statements : List Statement) : Accurate (watched d board statements) :=
  Lib.foldl_invariant (P := Accurate) (fun _ s hw => observe_accurate hw s) statements _ (boot_accurate board)

/-- No other statement says so. -/
theorem underrunFaults_exec {w : Watched β} (h : Accurate w) {s : Statement} (hs : s ≠ .watchdog) :
    underrunFaults (exec d.logged w.fw s).rest.trace = underrunFaults w.fw.rest.trace := by
  by_cases hstart : startsRun w.fw s = true
  · obtain ⟨playbackStartUs, hpassing⟩ := start_passing (d := d) h hstart
    exact hpassing.faults
  by_cases htask : s = .task
  · rw [htask]
    rcases task_cases (d := d) h with ⟨-, -, -, haside⟩ | ⟨-, hpassing⟩ | ⟨-, htask⟩
    · exact congrArg Tally.faults haside.tally
    · exact hpassing.faults
    · exact congrArg (fun m => underrunFaults m.rest.trace) htask
  · exact congrArg Tally.faults (exec_aside h.boundary s (Bool.eq_false_iff.2 hstart) htask hs).tally

/-- **ERROR is entered for an underrun exactly when the watchdog finds an interval of two seconds.** -/
theorem enters_iff {w : Watched β} (h : Accurate w) (s : Statement) :
    EntersUnderrun w.fw (exec d.logged w.fw s) ↔ Expired d w s := by
  constructor
  · rintro ⟨-, -, hfaults⟩
    by_cases hs : s = .watchdog
    · subst hs
      rcases watchdog_exec (d := d) h with ⟨hexpired, -⟩ | ⟨-, haside⟩
      · exact hexpired
      · have hsame : underrunFaults (exec d.logged w.fw .watchdog).rest.trace = underrunFaults w.fw.rest.trace :=
          congrArg Tally.faults haside.tally
        omega
    · have hsame := underrunFaults_exec (d := d) h hs
      omega
  · intro hexpired
    obtain rfl := hexpired.1
    rcases watchdog_exec (d := d) h with ⟨-, hexec⟩ | ⟨hnot, -⟩
    · have htally := transition_tally (d := d.logged) .error .underrun (readEpoch d.logged w.fw)
      rw [hexec]
      exact ⟨by rw [hexpired.2.1]; decide, rfl, congrArg Tally.faults htally⟩
    · exact absurd hexpired hnot

end Logged

/-- **Underruns are accounted for exactly**, at every moment of every run: as many notices as empty intervals began,
each with the time since the epoch it was first observed at, as many counted modulo 2³², and ERROR entered for an
underrun by a watchdog that finds the open interval two seconds old, and by nothing else.  What a task call leaves with
events to play or at the end of its sequence has no open interval. -/
theorem underrun_exact {β : Type} (d : Board β) (board : β) (statements : List Statement) :
    let w := watched d board statements
    w.fw.sched.underrunCount = UInt32.ofNat w.watch.begun.length ∧
    notices w.fw.rest.trace = w.watch.begun.map (elapsedOffset w.fw.sched.playbackStartUs) ∧
    (∀ s, EntersUnderrun w.fw (exec d.logged w.fw s) ↔ Expired d w s) ∧
    (starved (exec d.logged w.fw .task) = false → (observe d w .task).watch.since = none) := by
  intro w
  have haccurate : Accurate w := watched_accurate board statements
  refine ⟨haccurate.count, haccurate.notices, enters_iff haccurate, fun hfull => ?_⟩
  have hpass : w.watch.pass w.fw (exec d.logged w.fw .task) = ⟨none, w.watch.begun⟩ := if_neg (by rw [hfull]; decide)
  exact congrArg Watch.since hpass

/-! ## A counter of 32 bits -/

/-- A board at time zero that takes every report and every frame. -/
def benchEager : Board Unit where
  tudTask b := b
  hidReady _ := true
  hidReport _ b := (true, b)
  timeUs64 b := (0, b)
  addAlarmAt _ b := (0, b)
  cancelAlarm _ b := b
  alarmIsr b := (false, b)
  queueFrame _ b := (true, b)
  stats _ := ⟨false, false, false, false⟩
  txTask b := b

/-- A QUEUE_EVENT that is due at once. -/
def benchEvent : Frame := command .queueEvent [0, 0, 0, 0, 0, 0, 0, 0, 8, 0, 0, 4, 0, 0, 0, 0, 0]

/-- The run waits for events, since the epoch zero. -/
structure Hungry (w : Watched Unit) : Prop where
  accurate : Accurate w
  starved : starved w.fw = true
  epoch : w.fw.sched.playbackStartUs = 0

/-- The event is queued. -/
theorem feed_exec {m : Fw (Unit × List UInt64)} (hm : m.rest.mode = .playing) (he : m.queue.toList = []) :
    let m' := exec benchEager.logged m (.command benchEvent)
    m'.sched = m.sched ∧ m'.rest.mode = .playing ∧ ∃ event, event.offsetUs = 0 ∧ m'.queue.toList = [event] := by
  intro m'
  obtain ⟨queue, hpush⟩ : ∃ queue, PlaybackQueue.push m.queue 0 [0, 0, 4, 0, 0, 0, 0, 0] = some queue := by
    obtain ⟨queue, hpush⟩ := Lib.Ring.push_isSome m.queue ⟨0, Report.ofBytes [0, 0, 4, 0, 0, 0, 0, 0]⟩
      (by rw [he]; decide)
    exact ⟨queue, hpush⟩
  have hexec : m' = acknowledgeQueue benchEager.logged { m with
      queue := queue, rest := m.rest.note (.pushed ⟨0, Report.ofBytes [0, 0, 4, 0, 0, 0, 0, 0]⟩ true) } := by
    change dispatchQueueCommand benchEager.logged benchEvent m = _
    unfold dispatchQueueCommand
    rw [hm]
    change queueEvent benchEager.logged benchEvent m = _
    have hpushed : PlaybackQueue.push m.queue (UInt64.ofNat (leNat (benchEvent.payload.take 8)))
        ((benchEvent.payload.drop 9).take 8) = some queue := hpush
    simp only [queueEvent, hpushed]
    rfl
  rw [hexec]
  refine ⟨rfl, hm, ⟨0, Report.ofBytes [0, 0, 4, 0, 0, 0, 0, 0]⟩, rfl, ?_⟩
  change queue.toList = _
  rw [PlaybackQueue.toList_push hpush, he]
  rfl

/-- A deadline of zero is always due. -/
theorem due_zero {ρ : Type} (h : Host ρ) {m : Machine ρ} (hdeadline : m.sched.nextDeadlineUs = 0) :
    (due h m).1 = true := by
  unfold due interrupt
  dsimp only
  split
  · rfl
  · rw [hdeadline]
    simp [UInt64.lt_iff_toNat_lt]

/-- A run whose queue ran empty waits. -/
theorem armNext_starved {β : Type} (h : Host (Rest β)) {m : Fw β} (hr : m.sched.running = true)
    (hp : m.queue.peek = none) (hu : m.sched.sequenceEnded = false) :
    (armNext h m).1 = false ∧ starved (armNext h m).2 = true := by
  obtain ⟨armed, fired, hsched⟩ := cancelArmed_sched h m
  have hqueue := cancelArmed_queue h m
  rw [armNext_empty hp, drained, if_neg (by rw [hsched, hu]; decide), starved_iff, beginUnderrun_running, hsched]
  refine ⟨rfl, hr, ?_⟩
  unfold beginUnderrun
  split
  · exact ⟨hqueue ▸ hp, by rw [hsched]; exact hu⟩
  · exact ⟨hqueue ▸ hp, by rw [hsched]; exact hu⟩

/-- The event goes out, and the run waits again. -/
theorem task_hungry {m : Fw (Unit × List UInt64)} {event : PlaybackEvent} (hr : m.sched.running = true)
    (hw : m.sched.waitingForEvent = true) (hu : m.sched.sequenceEnded = false) (hepoch : m.sched.playbackStartUs = 0)
    (hq : m.queue.toList = [event]) (hoffset : event.offsetUs = 0) :
    starved (task benchEager.logged.mainHost m) = true := by
  have hp : m.queue.peek = some event := by rw [Lib.Ring.peek_eq, hq]; rfl
  have hn : (armNext benchEager.logged.mainHost m).1 = true := by rw [armNext_head hp]
  obtain ⟨armed, fired, hsched⟩ := cancelArmed_sched benchEager.logged.mainHost m
  have hplanned : (armNext benchEager.logged.mainHost m).2.sched.nextDeadlineUs = 0 ∧
      (armNext benchEager.logged.mainHost m).2.sched.sequenceEnded = false := by
    rw [armNext_head hp]
    unfold armIfFuture armAlarm plan
    dsimp only
    rw [hsched]
    dsimp only
    rw [hepoch, hoffset]
    exact ⟨rfl, hu⟩
  have hrunning := (armNext_running hn).trans hr
  have hqueue := armNext_queue hn
  have hdue := due_zero benchEager.logged.mainHost hplanned.1
  have hhead : (due benchEager.logged.mainHost (armNext benchEager.logged.mainHost m).2).2.queue.peek = some event := by
    rw [due_queue, hqueue, hp]
  have hnext := armNext_starved benchEager.logged.mainHost
    (m := dispatched benchEager.logged.mainHost
      { (due benchEager.logged.mainHost (armNext benchEager.logged.mainHost m).2).2 with
        rest := (benchEager.logged.mainHost.sendReport event.report
          (due benchEager.logged.mainHost (armNext benchEager.logged.mainHost m).2).2.rest).2 })
    (by change (due _ _).2.sched.running = true; rw [due_sched]; exact hrunning)
    (by
      change (due _ _).2.queue.pop.peek = none
      rw [due_queue, hqueue, Lib.Ring.peek_eq_none, Lib.Ring.toList_pop, hq]
      rfl)
    (by change (due _ _).2.sched.sequenceEnded = false; rw [due_sched]; exact hplanned.2)
  have hwake : wake benchEager.logged.mainHost (armNext benchEager.logged.mainHost m).2 =
      (true, (armNext benchEager.logged.mainHost m).2) := if_neg (by rw [armNext_waiting hn]; decide)
  have htaken : (benchEager.logged.mainHost.sendReport event.report
      (due benchEager.logged.mainHost (armNext benchEager.logged.mainHost m).2).2.rest).1 = true := rfl
  rw [task, taskLoop_waiting hr hw, if_pos hn, taskLoop]
  simp only [hrunning, hwake, hdue, hhead, htaken, hnext.1, Bool.not_true, Bool.not_false, Bool.false_eq_true, if_false,
    if_true]
  exact hnext.2

theorem hungry_cycle {w : Watched Unit} (h : Hungry w) :
    let w' := [Statement.command benchEvent, .task].foldl (observe benchEager) w
    Hungry w' ∧ w'.watch.begun.length = w.watch.begun.length + 1 := by
  intro w'
  obtain ⟨hr, hp, hu⟩ := (starved_iff w.fw).1 h.starved
  obtain ⟨hsched, hmode, event, hoffset, hqueue⟩ := feed_exec (h.accurate.boundary.playing hr)
    ((Lib.Ring.peek_eq_none _).1 hp)
  have hwaiting : w.fw.sched.waitingForEvent = true := by
    by_contra hw
    exact h.accurate.boundary.planned hr (Bool.eq_false_iff.2 hw) hp
  have hfed : Accurate (⟨exec benchEager.logged w.fw (.command benchEvent), w.watch⟩ : Watched Unit) :=
    observe_accurate (d := benchEager) h.accurate (.command benchEvent)
  have hfull : ¬starved (exec benchEager.logged w.fw (.command benchEvent)) = true := by
    simp [starved, hqueue]
  have hagain : starved (task benchEager.logged.mainHost (exec benchEager.logged w.fw (.command benchEvent))) = true :=
    task_hungry (by rw [hsched]; exact hr) (by rw [hsched]; exact hwaiting) (by rw [hsched]; exact hu)
      (by rw [hsched]; exact h.epoch) hqueue hoffset
  have hpassing : Passing (tally (exec benchEager.logged w.fw (.command benchEvent)))
      (task benchEager.logged.mainHost (exec benchEager.logged w.fw (.command benchEvent))) := by
    rcases task_cases (d := benchEager) hfed with ⟨hstarved, -⟩ | ⟨-, hpassing⟩ | ⟨hidle, -⟩
    · exact absurd hstarved hfull
    · exact hpassing
    · rw [hsched, hr] at hidle
      cases hidle
  have hlonger : w'.watch.begun.length = w.watch.begun.length + 1 := by
    change (Watch.pass w.watch (exec benchEager.logged w.fw (.command benchEvent))
      (task benchEager.logged.mainHost (exec benchEager.logged w.fw (.command benchEvent)))).begun.length = _
    rw [Watch.pass_opens w.watch hfull hagain]
    rfl
  refine ⟨⟨task_accurate hfed, hagain, ?_⟩, hlonger⟩
  rw [← h.epoch, ← hsched]
  exact hpassing.epoch

/-- PLAY_START with an empty queue, and then one event after the other. -/
def benchTrickle (n : Nat) : List Statement :=
  [.command (command .modeSet [2]), .command (command .playStart [])] ++
    (List.replicate n [.command benchEvent, .task]).flatten

theorem trickle_hungry : ∀ n : Nat,
    Hungry (watched benchEager () (benchTrickle n)) ∧
      (watched benchEager () (benchTrickle n)).watch.begun.length = n + 1
  | 0 => ⟨⟨watched_accurate () (benchTrickle 0), by decide +kernel, by decide +kernel⟩, by decide +kernel⟩
  | n + 1 => by
    obtain ⟨hhungry, hlength⟩ := trickle_hungry n
    have hmore : watched benchEager () (benchTrickle (n + 1)) =
        [Statement.command benchEvent, .task].foldl (observe benchEager) (watched benchEager () (benchTrickle n)) := by
      unfold watched benchTrickle
      rw [← List.foldl_append, List.replicate_succ', List.flatten_append, ← List.append_assoc]
      rfl
    obtain ⟨hhungry', hlength'⟩ := hungry_cycle hhungry
    rw [hmore]
    exact ⟨hhungry', hlength'.trans (congrArg (· + 1) hlength)⟩

/-- **After 2³² empty intervals the counter reads zero.** -/
theorem underrunCount_wraps :
    ¬ ∀ (d : Board Unit) (board : Unit) (statements : List Statement),
      (watched d board statements).fw.sched.underrunCount.toNat = (watched d board statements).watch.begun.length := by
  intro h
  obtain ⟨hhungry, hlength⟩ := trickle_hungry (2 ^ 32 - 1)
  have hcount := h benchEager () (benchTrickle (2 ^ 32 - 1))
  rw [hhungry.accurate.count, hlength] at hcount
  exact absurd hcount (by decide)

end Pico
end PicoRecorder
