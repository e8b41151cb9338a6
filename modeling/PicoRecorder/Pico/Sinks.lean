import PicoRecorder.Pico.Steps
/-!
# Sinks — the two consumers of a captured report

In RECORD the head of the FIFO goes to Zero and to HID, each with its own progress, over one read cursor and one flag.
`Sink` lists what can happen to the FIFO and to the endpoint; `Account` says how far the two are in the current session.
-/
namespace PicoRecorder
namespace Pico

open Relation (ReflTransGen)
open Lib (Preserved)

def Obs.isEntered : Obs → Bool
  | .entered _ => true
  | _ => false

/-- What was observed since a mode was last entered, newest first, and the mode. -/
def sinceEntry (trace : List Obs) : List Obs := trace.takeWhile (fun o => !o.isEntered)

def entry : List Obs → Option Mode
  | [] => none
  | .entered mode :: _ => some mode
  | _ :: trace => entry trace

/-- The reports the FIFO accepted, oldest first. -/
def accepted : List Obs → List CaptureEvent
  | [] => []
  | .captured event :: obs => accepted obs ++ [event]
  | _ :: obs => accepted obs

/-- The RECORD_EVENTs sent, whether or not they fitted into the transmitter. -/
def recordEvents : List Obs → List CaptureEvent
  | [] => []
  | .frame (.recordEvent timestampUs report) _ :: obs => recordEvents obs ++ [⟨timestampUs, report⟩]
  | _ :: obs => recordEvents obs

/-- The captured reports HID took. -/
def forwarded : List Obs → List Report
  | [] => []
  | .hid .physical report true :: obs => forwarded obs ++ [report]
  | _ :: obs => forwarded obs

/-- What concerns neither the FIFO nor its sinks: no entry, no report taken in and none sent. -/
def Obs.isAside : Obs → Bool
  | .entered _ | .captured _ | .frame (.recordEvent ..) _ | .hid _ _ true => false
  | _ => true

theorem sinks_aside {o : Obs} (ho : o.isAside = true) (obs : List Obs) :
    accepted (o :: obs) = accepted obs ∧ recordEvents (o :: obs) = recordEvents obs ∧
      forwarded (o :: obs) = forwarded obs := by
  match o, ho with
  | .frame msg queued, ho => cases msg <;> first | exact ⟨rfl, rfl, rfl⟩ | cases ho
  | .hid source report false, _ => cases source <;> exact ⟨rfl, rfl, rfl⟩
  | .pushed .., _ | .modeSet .., _ | .allRelease, _ | .started _, _ | .completed .., _ => exact ⟨rfl, rfl, rfl⟩

theorem isEntered_aside {o : Obs} (ho : o.isAside = true) : o.isEntered = false := by
  cases o <;> first | rfl | cases ho

theorem sinceEntry_cons {o : Obs} (ho : o.isEntered = false) (trace : List Obs) :
    sinceEntry (o :: trace) = o :: sinceEntry trace := by simp [sinceEntry, ho]

theorem entry_cons {o : Obs} (ho : o.isEntered = false) (trace : List Obs) : entry (o :: trace) = entry trace := by
  cases o <;> first | rfl | cases ho

/-! ## What can happen to the FIFO -/

/-- The part of a state the sinks depend on. -/
structure View where
  mode : Mode
  capture : Capture
  releasePending : Bool
  trace : List Obs

def Rest.view {β : Type} (r : Rest β) : View := ⟨r.mode, r.capture, r.releasePending, r.trace⟩

/-- One thing that happens.  Reports are taken in only where `hears` holds, and where `gated` holds none is forwarded
while a release is owed. -/
inductive Sink (hears gated : Prop) : View → View → Prop
  | aside (v) (o) (idle : o.isAside = true) : Sink hears gated v { v with trace := o :: v.trace }
  | push (v) (timestampUs report capture) (heard : hears) (push : v.capture.push timestampUs report = some capture) :
      Sink hears gated v
        { v with capture := capture, trace := .captured ⟨timestampUs, Report.ofBytes report⟩ :: v.trace }
  | record (v) (event queued) (recording : v.mode = .record) (head : v.capture.peek = some event)
      (fresh : v.capture.isHeadRecorded = false) :
      Sink hears gated v { v with
        capture := v.capture.markHeadRecorded
        trace := .frame (.recordEvent event.timestampUs event.report) queued :: v.trace }
  | forward (v) (event : CaptureEvent) (head : v.capture.peek = some event)
      (mode : v.mode = .pass ∨ v.mode = .record ∧ v.capture.isHeadRecorded = true)
      (calm : gated → v.releasePending = false) :
      Sink hears gated v { v with capture := v.capture.pop, trace := .hid .physical event.report true :: v.trace }
  | release (v) (owed : v.releasePending = true) :
      Sink hears gated v
        { v with releasePending := false, trace := .hid .release Report.releaseAll true :: v.trace }
  | play (v) (report) (playing : v.mode = .playing) :
      Sink hears gated v { v with trace := .hid .playback report true :: v.trace }
  | enter (v) (target) :
      Sink hears gated v ⟨target, v.capture.clear, true, .entered target :: .allRelease :: v.trace⟩

variable {hears gated : Prop}

theorem sink_asides (v : View) : ∀ obs : List Obs, (∀ o ∈ obs, o.isAside = true) →
    ReflTransGen (Sink hears gated) v { v with trace := obs ++ v.trace }
  | [], _ => .refl
  | o :: obs, h => (sink_asides v obs (fun o' ho' => h o' (List.mem_cons_of_mem _ ho'))).tail
    (.aside { v with trace := obs ++ v.trace } o (h o (List.mem_cons_self ..)))

section Code

variable {β : Type} {d : Board β}

theorem sendBootReport_busy (source : HidSource) (report : Report) {r : Rest β}
    (h : (r.sendBootReport d source report).1 = false) :
    ReflTransGen (Sink hears gated) r.view (r.sendBootReport d source report).2.view := by
  rcases sendBootReport_cases d source report r with ⟨-, he⟩ | ⟨-, he⟩
  · rw [he]
    exact .single (.aside r.view (.hid source report false) rfl)
  · rw [he] at h ⊢
    have h : (d.hidReport report r.board).1 = false := h
    rw [h]
    exact .single (.aside r.view (.hid source report false) rfl)

theorem recordHead_sink {event : CaptureEvent} {r : Rest β} (hmode : r.mode = .record)
    (hpeek : r.capture.peek = some event) :
    ReflTransGen (Sink hears gated) r.view (recordHead d event r).view := by
  unfold recordHead
  by_cases hrecorded : r.capture.isHeadRecorded = true
  · rw [if_pos hrecorded]
  · rw [if_neg hrecorded]
    exact .single (.record r.view event _ hmode hpeek (Bool.eq_false_iff.2 hrecorded))

theorem recordLoop_sink (hidOutputReady : Bool) : ∀ (fuel : Nat) (r : Rest β), r.mode = .record →
    (gated → hidOutputReady = true → r.releasePending = false) →
    ReflTransGen (Sink hears gated) r.view (recordLoop d hidOutputReady fuel r).view
  | 0, r, _, _ => .refl
  | fuel + 1, r, hmode, hcalm => by
    unfold recordLoop
    cases hpeek : r.capture.peek with
    | none => exact .refl
    | some event =>
      have hrecord : ReflTransGen (Sink hears gated) r.view (recordHead d event r).view := recordHead_sink hmode hpeek
      obtain ⟨hpeek', hrecorded⟩ := recordHead_capture (d := d) hpeek
      have hmode' := (recordHead_mode (d := d) event r).trans hmode
      have howed := recordHead_releasePending (d := d) event r
      dsimp only
      by_cases hready : hidOutputReady = true
      · rw [if_neg (by simp [hready])]
        by_cases htaken : ((recordHead d event r).sendBootReport d .physical event.report).1 = true
        · rw [if_neg (by simp [htaken])]
          refine (hrecord.trans ?_).trans
            (recordLoop_sink hidOutputReady fuel _ ((sendBootReport_mode _ _ _).trans hmode')
              (fun hg hr => (sendBootReport_releasePending _ _ _).trans (howed.trans (hcalm hg hr))))
          rw [(sendBootReport_taken _ htaken).2.2]
          exact .single (.forward (recordHead d event r).view event hpeek' (.inr ⟨hmode', hrecorded⟩)
            (fun hg => howed.trans (hcalm hg hready)))
        · rw [if_pos (by simpa using htaken)]
          exact hrecord.trans (sendBootReport_busy .physical _ (by simpa using htaken))
      · rw [if_pos (by simpa using hready)]
        exact hrecord

theorem passLoop_sink : ∀ (fuel : Nat) (r : Rest β), r.mode = .pass → (gated → r.releasePending = false) →
    ReflTransGen (Sink hears gated) r.view (passLoop d fuel r).view
  | 0, r, _, _ => .refl
  | fuel + 1, r, hmode, hcalm => by
    unfold passLoop
    cases hpeek : r.capture.peek with
    | none => exact .refl
    | some event =>
      dsimp only
      by_cases htaken : (r.sendBootReport d .physical event.report).1 = true
      · rw [if_neg (by simp [htaken])]
        refine ReflTransGen.trans ?_ (passLoop_sink fuel _ ((sendBootReport_mode _ _ _).trans hmode)
          (fun hg => (sendBootReport_releasePending _ _ _).trans (hcalm hg)))
        rw [(sendBootReport_taken _ htaken).2.2]
        exact .single (.forward r.view event hpeek (.inl hmode) hcalm)
      · rw [if_pos (by simpa using htaken)]
        exact sendBootReport_busy .physical _ (by simpa using htaken)

/-- `pico_physical_report_dispatch`, whatever `hid_output_ready` is. -/
theorem physicalReportDispatch_sink {hidOutputReady : Bool} {r : Rest β}
    (hcalm : gated → hidOutputReady = true → r.releasePending = false) :
    ReflTransGen (Sink hears gated) r.view (physicalReportDispatch d hidOutputReady r).view := by
  unfold physicalReportDispatch
  by_cases hrecord : r.mode = .record
  · rw [if_pos hrecord]
    exact recordLoop_sink hidOutputReady _ r hrecord hcalm
  · rw [if_neg hrecord]
    by_cases hpass : hidOutputReady = true ∧ r.mode = .pass
    · rw [if_neg (by simp [hpass])]
      exact passLoop_sink _ r hpass.2 (fun hg => hcalm hg hpass.1)
    · rw [if_pos (by cases hidOutputReady <;> simp_all)]

/-! ## The transitions -/

theorem sink_send (msg : PicoMsg) (h : ∀ queued, (Obs.frame msg queued).isAside = true) (r : Rest β) :
    ReflTransGen (Sink hears gated) r.view (r.queueFrame d msg).2.view := .single (.aside r.view _ (h _))

theorem stopped_aside {running : Bool} {outcome : List Obs} (hs : Stopped running outcome) :
    ∀ o ∈ outcome, o.isAside = true := by
  rcases hs with ⟨-, rfl⟩ | ⟨-, metrics, q₁, q₂, rfl⟩
  · simp
  · simp [Obs.isAside]

/-- What every transition with the callbacks of `main.c` does to the FIFO: empty it, owe a release, enter the mode. -/
theorem entered_sink (v : View) (target : Mode) (reason : Reason) (queued : Bool) {outcome : List Obs}
    (h : ∀ o ∈ outcome, o.isAside = true) :
    ReflTransGen (Sink hears gated) v ⟨target, v.capture.clear, true,
      .frame (.modeChanged target reason) queued :: .entered target :: .allRelease :: (outcome ++ v.trace)⟩ := by
  have henter : ReflTransGen (Sink hears gated) v
      ⟨target, v.capture.clear, true, .entered target :: .allRelease :: (outcome ++ v.trace)⟩ :=
    (sink_asides v outcome h).tail (.enter { v with trace := outcome ++ v.trace } target)
  exact henter.tail (.aside ⟨target, v.capture.clear, true, _⟩ (.frame (.modeChanged target reason) queued) rfl)

theorem transition_sink (target : Mode) (reason : Reason) (m : Fw β) :
    ReflTransGen (Sink hears gated) m.rest.view (transition d target reason m).rest.view := by
  have hspec := clearReleaseAndQueue_spec d m
  obtain ⟨outcome, htrace, hstop⟩ := hspec.trace
  have hview : (transition d target reason m).rest.view = ⟨target, m.rest.capture.clear, true,
      .frame (.modeChanged target reason) (d.queueFrame (PicoMsg.modeChanged target reason).toFrame
        (clearReleaseAndQueue d m).rest.board).1 :: .entered target :: .allRelease :: (outcome ++ m.rest.trace)⟩ := by
    rw [← htrace, ← hspec.capture]
    rfl
  rw [hview]
  exact entered_sink m.rest.view target reason _ (stopped_aside hstop)

theorem notify_sink (reason : Reason) (m : Fw β) :
    ReflTransGen (Sink hears gated) m.rest.view (notify d reason m).rest.view :=
  sink_send _ (fun _ => rfl) m.rest

theorem handleModeSet_sink (target : UInt8) (m : Fw β) :
    ReflTransGen (Sink hears gated) m.rest.view (handleModeSet d target m).2.rest.view := by
  unfold handleModeSet
  split
  · exact notify_sink _ m
  split
  · by_cases hm : m.rest.mode ≠ .pass
    · simp only [if_pos hm]
      exact transition_sink _ _ m
    · simp only [if_neg hm]
      exact notify_sink _ m
  split
  · exact notify_sink _ m
  split
  · exact transition_sink _ _ m
  · exact notify_sink _ m

theorem playStart_sink (m : Fw β) : ReflTransGen (Sink hears gated) m.rest.view (playStart d m).2.rest.view := by
  unfold playStart
  split
  · exact notify_sink _ m
  · exact entered_sink m.rest.view .playing .ok _ (stopped_aside (.inl ⟨rfl, rfl⟩))

theorem playAbort_sink (m : Fw β) : ReflTransGen (Sink hears gated) m.rest.view (playAbort d m).2.rest.view := by
  unfold playAbort
  split
  · exact notify_sink _ m
  · exact transition_sink _ _ m

theorem playFinish_sink (m : Fw β) : ReflTransGen (Sink hears gated) m.rest.view (playFinish d m).2.rest.view := by
  unfold playFinish
  split
  · exact notify_sink _ m
  · exact transition_sink _ _ m

theorem enterError_sink (reason : Reason) (m : Fw β) :
    ReflTransGen (Sink hears gated) m.rest.view (enterError d reason m).rest.view := by
  unfold enterError
  split
  · exact transition_sink _ _ m
  · exact notify_sink _ m

theorem serviceRelease_sink (r : Rest β) : ReflTransGen (Sink hears gated) r.view (serviceRelease d r).2.view := by
  unfold serviceRelease
  by_cases howed : r.releasePending = true
  · rw [if_neg (by simp [howed])]
    dsimp only
    by_cases htaken : (r.sendBootReport d .release Report.releaseAll).1 = true
    · rw [if_pos htaken, (sendBootReport_taken _ htaken).2.2]
      exact .single (.release r.view howed)
    · rw [if_neg htaken]
      exact sendBootReport_busy .release _ (by simpa using htaken)
  · rw [if_pos (by simpa using howed)]

end Code

/-! ## The two lists stay in step -/

/-- How far the two sinks are: what both have seen has left the FIFO, and its head may have gone to Zero already. -/
def Account (obs : List Obs) (c : Capture) : Prop :=
  (c.headRecorded = true → c.toList ≠ []) ∧ ∃ popped,
    accepted obs = popped ++ c.toList ∧ forwarded obs = popped.map CaptureEvent.report ∧
    recordEvents obs = popped ++ (if c.headRecorded then c.toList.take 1 else [])

/-- Zero has a prefix of what was captured, HID a prefix of what Zero has, and at most one report less. -/
def InStep (obs : List Obs) : Prop :=
  recordEvents obs <+: accepted obs ∧ forwarded obs <+: (recordEvents obs).map CaptureEvent.report ∧
  (recordEvents obs).length ≤ (forwarded obs).length + 1

theorem Account.inStep {obs : List Obs} {c : Capture} (h : Account obs c) : InStep obs := by
  obtain ⟨-, popped, ha, hf, hr⟩ := h
  have hhead : (if c.headRecorded then c.toList.take 1 else []) <+: c.toList := by
    split
    · exact List.take_prefix 1 _
    · exact List.nil_prefix
  have hone : (if c.headRecorded then c.toList.take 1 else []).length ≤ 1 := by
    split
    · exact List.length_take_le 1 _
    · exact Nat.zero_le 1
  refine ⟨?_, ?_, ?_⟩
  · rw [hr, ha]
    exact (List.prefix_append_right_inj popped).2 hhead
  · rw [hr, hf, List.map_append]
    exact List.prefix_append _ _
  · rw [hr, hf, List.length_append, List.length_map]
    exact Nat.add_le_add_left hone _

/-- The session a moment is in, and how it stands there; `past` ranges over every earlier moment. -/
structure Sunk (v : View) : Prop where
  mode : entry v.trace = some .record ↔ v.mode = .record
  now : v.mode = .record → Account (sinceEntry v.trace) v.capture
  past : ∀ past, past <:+ v.trace → entry past = some .record → InStep (sinceEntry past)

theorem Sunk.grow {v v' : View} {o : Obs} (htrace : v'.trace = o :: v.trace)
    (hmode : entry v'.trace = some .record ↔ v'.mode = .record)
    (hnow : v'.mode = .record → Account (sinceEntry v'.trace) v'.capture) (hs : Sunk v) : Sunk v' := by
  refine ⟨hmode, hnow, fun past hp he => ?_⟩
  rw [htrace, List.suffix_cons_iff] at hp
  rcases hp with rfl | hp
  · rw [← htrace] at he ⊢
    exact (hnow (hmode.1 he)).inStep
  · exact hs.past past hp he

theorem Sunk.advance {v v' : View} {o : Obs} (htrace : v'.trace = o :: v.trace) (ho : o.isEntered = false)
    (hmode : v'.mode = v.mode)
    (hnow : v.mode = .record → Account (sinceEntry v.trace) v.capture → Account (o :: sinceEntry v.trace) v'.capture)
    (hs : Sunk v) : Sunk v' := by
  refine hs.grow htrace ?_ ?_
  · rw [htrace, entry_cons ho, hmode]
    exact hs.mode
  · intro hm
    rw [hmode] at hm
    rw [htrace, sinceEntry_cons ho]
    exact hnow hm (hs.now hm)

theorem sink_sunk : Preserved (Sink hears gated) Sunk := by
  intro v v' hstep hs
  cases hstep with
  | aside o idle =>
    refine hs.advance rfl (isEntered_aside idle) rfl (fun _ hacc => ?_)
    obtain ⟨ha, hr, hf⟩ := sinks_aside idle (sinceEntry v.trace)
    unfold Account
    rw [ha, hr, hf]
    exact hacc
  | push timestampUs report capture heard push =>
    refine hs.advance rfl rfl rfl (fun _ ⟨hhead, popped, ha, hf, hr⟩ => ?_)
    obtain ⟨hlist, hflag⟩ := Capture.push_some push
    have hne : capture.toList ≠ [] := by simp [hlist]
    refine ⟨fun _ => hne, popped, ?_, hf, ?_⟩
    · simp [accepted, ha, hlist]
    · change recordEvents (sinceEntry v.trace) = _
      rw [hr, hflag, hlist]
      by_cases hrecorded : v.capture.headRecorded = true
      · rw [if_pos hrecorded, if_pos hrecorded, List.take_append_of_le_length]
        exact List.length_pos_iff.2 (hhead hrecorded)
      · rw [if_neg hrecorded, if_neg hrecorded]
  | record event queued recording head fresh =>
    refine hs.advance rfl rfl rfl (fun _ ⟨_, popped, ha, hf, hr⟩ => ?_)
    have hlist := Capture.toList_of_peek head
    rw [Capture.isHeadRecorded_of_peek head] at fresh
    refine ⟨fun _ => by simp [hlist], popped, by simpa [accepted] using ha, hf, ?_⟩
    change recordEvents (sinceEntry v.trace) ++ [event] = _
    rw [hr, fresh, Capture.headRecorded_markHeadRecorded head, Capture.toList_markHeadRecorded, hlist]
    simp
  | forward event head mode calm =>
    refine hs.advance rfl rfl rfl (fun hm ⟨_, popped, ha, hf, hr⟩ => ?_)
    have hlist := Capture.toList_of_peek head
    have hrecorded : v.capture.headRecorded = true := by
      rcases mode with hpass | ⟨-, hrecorded⟩
      · rw [hpass] at hm
        cases hm
      · rw [← Capture.isHeadRecorded_of_peek head]
        exact hrecorded
    have hfresh := Capture.headRecorded_pop head
    refine ⟨fun h => (Bool.false_ne_true (hfresh ▸ h)).elim, popped ++ [event], ?_, ?_, ?_⟩
    · simp [accepted, ha, hlist]
    · simp [forwarded, hf]
    · change recordEvents (sinceEntry v.trace) = _
      rw [hr, hrecorded, hfresh, hlist]
      simp
  | release owed => exact hs.advance rfl rfl rfl (fun _ hacc => hacc)
  | play report playing => exact hs.advance rfl rfl rfl (fun _ hacc => hacc)
  | enter target =>
    have hrelease : Sunk { v with trace := .allRelease :: v.trace } :=
      hs.advance (o := .allRelease) rfl rfl rfl (fun _ hacc => hacc)
    refine hrelease.grow rfl ?_ (fun _ => ?_)
    · simp [entry]
    · exact ⟨by simp, [], by simp [sinceEntry, Obs.isEntered, accepted, forwarded, recordEvents]⟩

/-! ## Any order of calls -/

/-- One call on the FIFO or on the mode, in any order and in any mode.  Between two of them the endpoint and the
transmitter may have become anything. -/
inductive SinkOp (β : Type) where
  | push (timestampUs : UInt64) (report : List UInt8)
  | dispatch (hidOutputReady : Bool)
  | release
  | modeSet (target : UInt8)
  | playStart
  | playAbort
  | playFinish
  | fault (reason : Reason)
  | board (board : β)

section Calls

variable {β : Type} (d : Board β)

/-- `pico_keyboard_capture_push` on the firmware's FIFO. -/
def pushCapture (timestampUs : UInt64) (report : List UInt8) (r : Rest β) : Rest β :=
  match r.capture.push timestampUs report with
  | some capture =>
    { r with capture := capture, trace := .captured ⟨timestampUs, Report.ofBytes report⟩ :: r.trace }
  | none => r

def callSink (m : Fw β) : SinkOp β → Fw β
  | .push timestampUs report => { m with rest := pushCapture timestampUs report m.rest }
  | .dispatch hidOutputReady => { m with rest := physicalReportDispatch d hidOutputReady m.rest }
  | .release => { m with rest := (serviceRelease d m.rest).2 }
  | .modeSet target => (handleModeSet d target m).2
  | .playStart => (playStart d m).2
  | .playAbort => (playAbort d m).2
  | .playFinish => (playFinish d m).2
  | .fault reason => enterError d reason m
  | .board board => { m with rest := { m.rest with board := board } }

theorem pushCapture_sink (timestampUs : UInt64) (report : List UInt8) (r : Rest β) :
    ReflTransGen (Sink True gated) r.view (pushCapture timestampUs report r).view := by
  unfold pushCapture
  split
  · rename_i capture hpush
    exact .single (.push r.view timestampUs report capture trivial hpush)
  · exact .refl

variable {d}

theorem callSink_sink (m : Fw β) (op : SinkOp β) :
    ReflTransGen (Sink True False) m.rest.view (callSink d m op).rest.view := by
  cases op with
  | push timestampUs report => exact pushCapture_sink timestampUs report m.rest
  | dispatch hidOutputReady => exact physicalReportDispatch_sink False.elim
  | release => exact serviceRelease_sink m.rest
  | modeSet target => exact handleModeSet_sink target m
  | playStart => exact playStart_sink m
  | playAbort => exact playAbort_sink m
  | playFinish => exact playFinish_sink m
  | fault reason => exact enterError_sink reason m
  | board board => exact .refl

theorem boot_sunk (b : β) : Sunk (boot b).rest.view where
  mode := by simp [boot, Rest.view, entry]
  now h := by cases h
  past past hp he := by
    rw [List.suffix_nil.1 hp] at he
    cases he

end Calls

/-- **RECORD's two sinks stay in step**: at every moment of every session of every run of calls, Zero has been sent a
prefix of the reports the FIFO accepted and HID has taken a prefix of those, at most one report behind. -/
theorem sinks_in_step {β : Type} (d : Board β) (board : β) (ops : List (SinkOp β)) :
    let m := ops.foldl (callSink d) (boot board)
    (entry m.rest.trace = some .record ↔ m.rest.mode = .record) ∧
    ∀ past, past <:+ m.rest.trace → entry past = some .record →
      recordEvents (sinceEntry past) <+: accepted (sinceEntry past) ∧
      forwarded (sinceEntry past) <+: (recordEvents (sinceEntry past)).map CaptureEvent.report ∧
      (recordEvents (sinceEntry past)).length ≤ (forwarded (sinceEntry past)).length + 1 := by
  have hsunk := Lib.foldl_invariant (f := callSink d) (P := fun m : Fw β => Sunk m.rest.view)
    (fun m op hm => sink_sunk.run (callSink_sink m op) hm) ops (boot board) (boot_sunk board)
  exact ⟨hsunk.mode, hsunk.past⟩

/-- Three reports in RECORD before the endpoint was free for the first of them. -/
def benchSinks : List (SinkOp Bool) :=
  [.modeSet Mode.record.byte, .release, .push 1 [0, 0, 4, 0, 0, 0, 0, 0], .push 2 [0, 0, 5, 0, 0, 0, 0, 0],
    .dispatch true, .push 3 [0, 0, 6, 0, 0, 0, 0, 0], .board true, .dispatch true, .dispatch false]

/-- The first report was refused once and went to Zero once; the second one is recorded and waits, the third behind
it. -/
theorem sinks_in_step_bench :
    let m := benchSinks.foldl (callSink benchBoard) (boot true)
    (accepted (sinceEntry m.rest.trace)).length = 3 ∧ (recordEvents (sinceEntry m.rest.trace)).length = 2 ∧
    (forwarded (sinceEntry m.rest.trace)).length = 1 ∧
    recordEvents (sinceEntry m.rest.trace) <+: accepted (sinceEntry m.rest.trace) :=
  ⟨by decide +kernel, by decide +kernel, by decide +kernel,
    ((sinks_in_step benchBoard true benchSinks).2 _ (List.suffix_refl _) (by decide +kernel)).1⟩

end Pico
end PicoRecorder
