import PicoRecorder.Link.Rig
/-!
# Wakeup — a feeder without credit hears of room

The Pico tells of room once, when the first event leaves a full queue.  The newest BUFFER_STATUS the Zero has not used
yet, or the credit it holds if there is none, is positive whenever the queue has room, unless the Pico is lost: that is
what every statement of the loop and every step of the session keeps.
-/
namespace PicoRecorder
namespace Link

open Pico (Fw Board LoopInput Frame MsgType PicoMsg Opened Lost Tick Ticks playbackQueueCapacity)
open PiZero (Request MODE_ARMED)
open PiZero.Playback (isStatus isCredit freeOf stateOf underrunFreeOf blocked Feeds)

theorem isCredit_toFrame (msg : PicoMsg) : isCredit msg.toFrame = msg.tellsCredit := by cases msg <;> rfl

theorem freeOf_bufferStatus (state : Pico.Mode) (queued free : UInt16) :
    freeOf (PicoMsg.bufferStatus state queued free).toFrame = free.toNat := by
  have hpayload : ((PicoMsg.bufferStatus state queued free).toFrame.payload.drop 3).take 2 =
      Pico.leBytes 2 free.toNat := by
    simp [PicoMsg.toFrame, PicoMsg.payload, List.take_of_length_le]
  rw [freeOf, hpayload, Pico.leNat_leBytes 2 free.toNat free.toNat_lt]

/-! ## The newest status -/

/-- The credit after the statuses of a stream. -/
def newest (credit : Nat) (stream : List Frame) : Nat :=
  stream.foldl (fun credit frame => if isStatus frame then freeOf frame else credit) credit

theorem newest_append (credit : Nat) (stream more : List Frame) :
    newest credit (stream ++ more) = newest (newest credit stream) more := List.foldl_append

theorem newest_silent : ∀ {stream : List Frame} (credit : Nat), (∀ frame ∈ stream, isStatus frame = false) →
    newest credit stream = credit
  | [], _, _ => rfl
  | frame :: stream, credit, h => by
    have hframe : (if isStatus frame = true then freeOf frame else credit) = credit := by
      simp [h frame List.mem_cons_self]
    rw [newest, List.foldl_cons, hframe]
    exact newest_silent credit (fun other hother => h other (List.mem_cons_of_mem frame hother))

theorem newest_positive : ∀ {stream : List Frame} {credit : Nat}, 0 < newest credit stream →
    0 < credit ∨ ∃ frame ∈ stream, isStatus frame = true ∧ 0 < freeOf frame
  | [], _, h => .inl h
  | frame :: stream, credit, h => by
    rw [newest, List.foldl_cons] at h
    rcases newest_positive h with hcredit | ⟨other, hother, htells⟩
    · by_cases hstatus : isStatus frame = true
      · rw [if_pos hstatus] at hcredit
        exact .inr ⟨frame, List.mem_cons_self, hstatus, hcredit⟩
      · rw [if_neg hstatus] at hcredit
        exact .inl hcredit
    · exact .inr ⟨other, List.mem_cons_of_mem frame hother, htells⟩

/-- A status that is used as credit leaves the newest one as it is. -/
theorem newest_used (credit : Nat) {before after : List Frame} {frame : Frame} (hstatus : isStatus frame = true)
    (hbefore : ∀ f ∈ before, isStatus f = false) (up : List Frame) :
    newest (freeOf frame) (before ++ after ++ up) = newest credit (before ++ frame :: after ++ up) := by
  have hskip : ∀ (credit : Nat) (rest : List Frame), newest credit (before ++ rest) = newest credit rest := by
    intro credit rest
    rw [newest_append, newest_silent credit hbefore]
  rw [List.append_assoc, hskip, List.append_assoc, hskip]
  exact congrArg (newest · (after ++ up)) (if_pos hstatus).symm

/-- A frame that is no status says nothing. -/
theorem newest_other (credit : Nat) (before after : List Frame) {frame : Frame} (h : isStatus frame = false) :
    newest credit (before ++ after) = newest credit (before ++ frame :: after) := by
  rw [newest_append, newest_append]
  exact congrArg (fun credit => newest credit after) (if_neg (by simp [h])).symm

/-- More credit is no less room. -/
theorem newest_mono : ∀ {stream : List Frame} {credit more : Nat}, (0 < credit → 0 < more) → 0 < newest credit stream →
    0 < newest more stream
  | [], _, _, h, hc => h hc
  | frame :: stream, credit, more, h, hc => by
    rw [newest, List.foldl_cons] at hc ⊢
    refine newest_mono (fun hcredit => ?_) hc
    by_cases hstatus : isStatus frame = true
    · rwa [if_pos hstatus] at hcredit ⊢
    · rw [if_neg hstatus] at hcredit ⊢
      exact h hcredit

/-- There is room, and the Zero knows or will hear of it. -/
def Told (count credit : Nat) : Prop := count ≠ playbackQueueCapacity → 0 < credit

theorem tick_told {count count' credit : Nat} {msgs : List PicoMsg} (h : Tick count msgs count')
    (htold : Told count credit) :
    Told count' (newest credit (msgs.map PicoMsg.toFrame)) := by
  cases h with
  | quiet _ _ silent =>
    have hsilent : ∀ frame ∈ msgs.map PicoMsg.toFrame, isStatus frame = false := by
      intro frame hframe
      obtain ⟨msg, hmsg, rfl⟩ := List.mem_map.1 hframe
      have hcredit := silent msg hmsg
      cases msg <;> first | rfl | cases hcredit
    rw [newest_silent _ hsilent]
    exact htold
  | starve elapsed free => exact htold
  | pop count room => exact fun _ => htold (by omega)
  | edge mode =>
    intro _
    change 0 < freeOf (PicoMsg.bufferStatus mode 511 1).toFrame
    rw [freeOf_bufferStatus]
    decide

theorem ticks_told {count count' credit : Nat} {msgs : List PicoMsg} (h : Ticks count msgs count')
    (htold : Told count credit) :
    Told count' (newest credit (msgs.map PicoMsg.toFrame)) := by
  induction h with
  | nil => exact htold
  | snoc _ tick ih =>
    rw [List.map_append, newest_append]
    exact tick_told tick ih

/-! ## While a sequence is open -/

/-- The commands of a feeding session. -/
def isFeed (frame : Frame) : Prop := frame.type = MsgType.queueEvent.byte ∨ frame.type = MsgType.playStart.byte

section Feeding

variable {β : Type} {d : Board β} {board : β} {stream : List Frame} {w : Receiver β} {credit : Nat}

variable (d board) in
/-- The sequence is open, only its events and PLAY_START are on their way, and the Zero knows of room or will hear of
it. -/
structure Fed (credit : Nat) (stream : List Frame) (w : Receiver β) : Prop where
  loop : w.InLoop d board
  opened : Opened w.fw
  down : Spoken isFeed w.down
  told : ¬Lost w.fw → Told w.fw.queue.count (newest credit stream)

theorem Fed.goes (h : Fed d board credit stream w) {v : Receiver β} {fw : Fw β} {stage : Stage} (hfw : v.fw = w.fw)
    (hdown : Spoken isFeed v.down) (hloop : (v.goes fw stage).1.InLoop d board) (hcontinues : Pico.Continues w.fw fw) :
    Fed d board credit (stream ++ (v.goes fw stage).2) (v.goes fw stage).1 := by
  obtain ⟨⟨obs, htrace, hgranted⟩, hopened⟩ := hcontinues
  rw [← hfw] at htrace
  rw [Receiver.goes_of_trace htrace] at hloop ⊢
  refine ⟨hloop, hopened, hdown, fun hlive => ?_⟩
  obtain ⟨hlive', hticks⟩ := hgranted hlive
  rw [newest_append]
  exact ticks_told hticks (h.told hlive')

theorem Told.accepted {count : Nat} {state : Pico.Mode} {queued : UInt16} (hcount : count ≤ playbackQueueCapacity)
    (credit : Nat) : Told count (newest credit
      [(PicoMsg.bufferStatus state queued (UInt16.ofNat (playbackQueueCapacity - count))).toFrame]) := by
  intro hroom
  have hcapacity : playbackQueueCapacity - count < UInt16.size := Nat.lt_of_le_of_lt (Nat.sub_le _ _) (by decide)
  change 0 < freeOf (PicoMsg.bufferStatus state queued _).toFrame
  rw [freeOf_bufferStatus, UInt16.toNat_ofNat_of_lt' hcapacity]
  omega

/-- A command of the session. -/
theorem Fed.receive (h : Fed d board credit stream w) (hstage : w.stage = .command) :
    Fed d board credit (stream ++ (w.receive d).2) (w.receive d).1 := by
  have hloop := h.loop.receive (d := d) hstage
  cases hw : w.down with
  | nil =>
    rw [Receiver.receive_nil hw, List.append_nil]
    exact h
  | cons bytes down =>
    obtain ⟨frame, hbytes, hframe⟩ := h.down bytes (by simp [hw])
    have hdown : Spoken isFeed down := fun other hother => h.down other (by simp [hw, hother])
    rw [Receiver.receive_cons hw hbytes] at hloop ⊢
    rcases hframe with hevent | hstart
    · obtain ⟨hopened, obs, htrace, haccepts⟩ := Pico.dispatch_queueEvent (d := d) h.opened hevent
      rw [Receiver.goes_of_trace (w := { w with down := down, overran := _ }) htrace] at hloop ⊢
      refine ⟨hloop, hopened, hdown, fun hlive => ?_⟩
      obtain ⟨-, -, -, hsent⟩ := haccepts hlive
      rw [hsent, newest_append]
      exact Told.accepted (Pico.dispatchCommand d w.fw frame).queue.count_le _
    · exact h.goes (v := { w with down := down, overran := _ }) rfl hdown hloop
        (Pico.dispatch_playStart (d := d) h.opened hstart)

theorem steady_fed : Steady d (Fed d board credit) := by
  intro stream w s h
  have hloop := h.loop.step s
  rcases Receiver.step_cases d w s with hs | ⟨fw, stage, hmoves, hs⟩ | ⟨hstage, hs⟩
  · rw [hs, List.append_nil]
    exact h
  · rw [hs] at hloop ⊢
    exact h.goes rfl h.down hloop (hmoves.continues h.opened)
  · rw [hs]
    exact h.receive hstage

/-- QUEUE_CLEAR opens it, with the whole queue free. -/
theorem opens_fed : Opens d board (Fed d board 0) where
  steady := steady_fed
  begun {stream w} _ hloop hopened hcount _ hdown _ := by
    refine ⟨hloop, hopened, hdown ▸ Spoken.nil, fun _ _ => ?_⟩
    rw [newest_append]
    change 0 < freeOf (PicoMsg.bufferStatus .armed 0 512).toFrame
    rw [freeOf_bufferStatus]
    decide

/-- A status is used as credit. -/
theorem Fed.used {before after up : List Frame} {frame : Frame} (hstatus : isStatus frame = true)
    (hbefore : ∀ f ∈ before, isStatus f = false) (h : Fed d board credit (before ++ frame :: after ++ up) w) :
    Fed d board (freeOf frame) (before ++ after ++ up) w :=
  ⟨h.loop, h.opened, h.down, by rw [newest_used credit hstatus hbefore]; exact h.told⟩

theorem Fed.other {before after up : List Frame} {frame : Frame} (hstatus : isStatus frame = false)
    (h : Fed d board credit (before ++ frame :: after ++ up) w) : Fed d board credit (before ++ after ++ up) w := by
  refine ⟨h.loop, h.opened, h.down, ?_⟩
  have htold := h.told
  rw [List.append_assoc, List.cons_append, ← newest_other credit before (after ++ up) hstatus,
    ← List.append_assoc] at htold
  exact htold

theorem Fed.more {more : Nat} (hmore : 0 < credit → 0 < more) (h : Fed d board credit stream w) :
    Fed d board more stream w :=
  ⟨h.loop, h.opened, h.down, fun hlive hroom => newest_mono hmore (h.told hlive hroom)⟩

theorem Fed.snoc {bytes : List UInt8} {frame : Frame} (hbytes : Pico.decodeFrame bytes = .ok frame)
    (hframe : isFeed frame) (h : Fed d board credit stream w) :
    Fed d board credit stream { w with down := w.down ++ [bytes] } :=
  ⟨h.loop, h.opened, h.down.snoc hbytes hframe, h.told⟩

theorem status_of_credit {frames : List Frame} (h : ∀ f ∈ frames, isCredit f = false) :
    ∀ f ∈ frames, isStatus f = false :=
  fun f hf => (Bool.or_eq_false_iff.1 (h f hf)).1

/-- The cable does what a session relies on. -/
theorem cable_feeds (patience : Nat) : Feeds (cable d patience) (fun _ => True) (fun w => w.pico.InLoop d board)
    (fun frames w => Idle d board (frames ++ w.up) w.pico)
    (fun frames w => Clearing d board (Fed d board 0) (frames ++ w.up) w.pico)
    (fun _ credit frames w => Fed d board credit (frames ++ w.up) w.pico)
    (fun frames w => Fed d board 0 (frames ++ w.up) w.pico) (fun w => w.pico.InLoop d board) where
  idle_carries := steady_idle.carries patience
  cleared_carries := (steady_clearing opens_fed).carries patience
  fed_carries _ _ := steady_fed.carries patience
  starved_carries := steady_fed.carries patience
  over_carries := ⟨Rig.next_loop, Rig.next_loop, Rig.next_loop⟩
  idle_safe h := h.1.loop
  cleared_safe h := h.elim (fun h => h.1.loop) Fed.loop
  fed_safe h := h.loop
  starved_safe h := h.loop
  over_safe h := h
  idle_modeSet h := steady_idle.write patience _ (fun _ _ h => h.modeSet MODE_ARMED) h
  idle_answered _ h := by
    rw [List.append_assoc] at h ⊢
    exact h.answered
  clear h := steady_idle.write patience _ (fun _ _ h => h.clears _) h
  acknowledge {before frame after w} hstatus harmed hbefore h := by
    rcases h with ⟨hclearing, -⟩ | hfed
    · exact absurd harmed (hclearing.unarmed frame (by simp) hstatus)
    · exact hfed.used hstatus hbefore
  send {o c frames w r} hvalid hevent _ h := by
    obtain ⟨offsetUs, report, rfl⟩ := hevent
    exact steady_fed.write patience _ (fun _ _ h => h.snoc (decode_request hvalid) (.inl rfl)) h
  confirm hstatus hbefore h := h.used hstatus hbefore
  starve _ h := h
  credit_none {before frame after w} hstatus hbefore hzero h := by
    have hused := h.used hstatus (status_of_credit hbefore)
    rwa [hzero] at hused
  credit hstatus hbefore _ h := h.used hstatus (status_of_credit hbefore)
  underrun_none hunderrun _ _ h := h.other (by rw [isStatus, hunderrun]; rfl)
  underrun hunderrun _ hpositive h := (h.more (fun _ => hpositive)).other (by rw [isStatus, hunderrun]; rfl)
  playStart h := steady_fed.write patience _
    (fun _ _ h => h.snoc (decode_request (r := .playStart) trivial) (.inr rfl)) h
  other hcredit h := h.other (Bool.or_eq_false_iff.1 hcredit).1
  finish h := h.loop
  over_write _ h := Rig.next_loop h

end Feeding

/-- **A feeder without credit is never left without a wake-up.**  From any reachable state of the firmware, with nothing
on the cable and no frame put aside, however the session and the Pico's main loop interleave, however long the frames
take and whatever the transmitter drops: when the Zero waits for credit, the queue is full and its sequence still open,
or a BUFFER_STATUS that grants some is on its way or was read and not used, or the Pico is in ERROR or will be at the
end of this iteration. -/
theorem starved_wakes {β : Type} (d : Board β) (board : β) (inputs : List LoopInput) (script : List Moment)
    (patience : Nat) (p : PiZero.Playback) (returnToPass : Bool) :
    Lib.wp
      (do
        discard (PiZero.Playback.start (cable d patience))
        PiZero.Playback.finish (cable d patience) returnToPass)
      (fun _ t => t.link.pico.InLoop d board)
      (fun e t => t.link.pico.InLoop d board ∧ (e = .suspended → blocked t.history = true →
        Lost t.link.pico.fw ∨
          (t.link.pico.fw.queue.count = playbackQueueCapacity ∧ t.link.pico.fw.sched.sequenceEnded = false) ∨
            ∃ frame ∈ t.pending ++ t.link.up, isStatus frame = true ∧ 0 < freeOf frame))
      ⟨[], p, Rig.opening d board inputs script, []⟩ := by
  refine Lib.wp_mono (PiZero.Playback.session_feeds (cable_feeds patience) returnToPass _
    (opening_idle d board inputs script) rfl) (fun _ t ht => ?_) (fun e t ht => ?_)
  · exact ht.elim (fun ⟨_, _, hentry⟩ => absurd trivial hentry) id
  · obtain ⟨hloop, hblocked⟩ := ht.elim (fun ⟨_, _, hentry⟩ => absurd trivial hentry) id
    refine ⟨hloop, fun he hb => ?_⟩
    obtain ⟨deferred, hdeferred, hfed⟩ := hblocked he hb
    by_cases hlost : Lost t.link.pico.fw
    · exact .inl hlost
    by_cases hfull : t.link.pico.fw.queue.count = playbackQueueCapacity
    · exact .inr (.inl ⟨hfull, hfed.opened.opened⟩)
    right
    right
    rcases newest_positive (hfed.told hlost hfull) with hzero | ⟨frame, hframe, hstatus, hfree⟩
    · exact absurd hzero (Nat.lt_irrefl 0)
    · refine ⟨frame, ?_, hstatus, hfree⟩
      rw [List.append_assoc] at hframe
      rcases List.mem_append.1 hframe with hd | hrest
      · rw [status_of_credit hdeferred frame hd] at hstatus
        cases hstatus
      · exact hrest

end Link
end PicoRecorder
