import PicoRecorder.Link.Wakeup
/-!
# Overrun — the credit of a feeder and the room in the Pico's queue

An account of what is between the status the Zero used last and the queue as it is: the events pushed since, the frames
that told of them, and the pops.  The queue is never fuller than it was then and the events since, and the Zero sends no
more than there was room for.  A PLAY_UNDERRUN that was put aside while the Zero waited for acknowledgements tells of
room that may be filled by now, so the account holds until such a notice is read as credit.
-/
namespace PicoRecorder
namespace Link

open Pico (Fw Board LoopInput Frame MsgType PicoMsg Opened Lost Tick Ticks Counts playbackQueueCapacity)
open PiZero (Request MODE_ARMED MODE_PASS)
open PiZero.Playback (isStatus isCredit freeOf stateOf underrunFreeOf blocked Feeds)

theorem snoc_eq_append {α : Type} {xs before after : List α} {x y : α} (h : xs ++ [x] = before ++ y :: after) :
    (after = [] ∧ x = y ∧ xs = before) ∨ ∃ rest, after = rest ++ [x] ∧ xs = before ++ y :: rest := by
  rcases List.eq_nil_or_concat' after with rfl | ⟨rest, z, rfl⟩
  · obtain ⟨rfl, hlast⟩ := List.append_inj' h rfl
    cases hlast
    exact .inl ⟨rfl, rfl, rfl⟩
  · obtain ⟨rfl, hlast⟩ := List.append_inj' (show xs ++ [x] = (before ++ y :: rest) ++ [z] by simpa using h) rfl
    cases hlast
    exact .inr ⟨rest, rfl, rfl⟩

theorem append_eq_append_fresh {α : Type} {xs ys before after : List α} {x : α} (h : xs ++ x :: ys = before ++ after)
    (hfresh : x ∉ before) : ∃ between, xs = before ++ between ∧ after = between ++ x :: ys := by
  rcases List.append_eq_append_iff.1 h with ⟨rest, rfl, hrest⟩ | ⟨rest, rfl, rfl⟩
  · cases rest with
    | nil => exact ⟨[], by simp, hrest.symm⟩
    | cons first rest =>
      obtain ⟨rfl, -⟩ := List.cons.inj hrest
      exact absurd (by simp) hfresh
  · exact ⟨rest, rfl, rfl⟩

/-! ## The account -/

/-- From a queue of `start` events: the pushes, the frames that tell of credit, and the events queued in the end. -/
inductive Flow (start : Nat) : Nat → List Frame → Nat → Prop
  | nil : Flow start 0 [] start
  | push {pushes credits count frame} (flow : Flow start pushes credits count) (room : count < playbackQueueCapacity)
    (status : isStatus frame = true) (free : freeOf frame = playbackQueueCapacity - (count + 1)) :
    Flow start (pushes + 1) (credits ++ [frame]) (count + 1)
  | pop {pushes credits count} (flow : Flow start pushes credits (count + 1))
      (room : count + 1 < playbackQueueCapacity) :
    Flow start pushes credits count
  | edge {pushes credits frame} (flow : Flow start pushes credits playbackQueueCapacity)
      (status : isStatus frame = true)
    (free : freeOf frame = 1) : Flow start pushes (credits ++ [frame]) (playbackQueueCapacity - 1)
  | starve {pushes credits frame} (flow : Flow start pushes credits 0) (notice : isStatus frame = false) :
    Flow start pushes (credits ++ [frame]) 0

section Account

variable {start pushes count : Nat} {told : List Frame} {frame : Frame}

theorem Flow.count_le (h : Flow start pushes told count) : count ≤ start + pushes := by
  induction h with
  | nil => exact Nat.le_refl _
  | push _ _ _ _ ih => omega
  | pop _ _ ih => omega
  | edge _ _ _ ih => omega
  | starve => exact Nat.zero_le _

/-- Without a status there was no push, and a queue that was full still is. -/
theorem Flow.silent (h : Flow start pushes told count) (hsilent : ∀ f ∈ told, isStatus f = false) :
    pushes = 0 ∧ count ≤ start ∧ (start = playbackQueueCapacity → count = playbackQueueCapacity ∧ told = []) := by
  have hfirst : ∀ {credits : List Frame} {frame : Frame}, (∀ f ∈ credits ++ [frame], isStatus f = false) →
      isStatus frame = false ∧ ∀ f ∈ credits, isStatus f = false := fun h =>
    ⟨h _ (by simp), fun f hf => h f (List.mem_append_left _ hf)⟩
  induction h with
  | nil => exact ⟨rfl, Nat.le_refl _, fun h => ⟨h, rfl⟩⟩
  | push _ _ status =>
    rw [(hfirst hsilent).1] at status
    cases status
  | edge _ status =>
    rw [(hfirst hsilent).1] at status
    cases status
  | pop _ room ih =>
    obtain ⟨hpushes, hle, hfull⟩ := ih hsilent
    exact ⟨hpushes, by omega, fun h => by have := (hfull h).1; omega⟩
  | starve _ _ ih =>
    obtain ⟨hpushes, -, hfull⟩ := ih (hfirst hsilent).2
    exact ⟨hpushes, Nat.zero_le _, fun h => by cases (hfull h).1⟩

/-- From a full queue, with nothing pushed, the first credit is that of the first pop. -/
theorem Flow.head (h : Flow start pushes told count) (hstart : start = playbackQueueCapacity) (hpushes : pushes = 0) :
    ∀ f ∈ told.head?, isStatus f = true := by
  induction h with
  | nil => exact nofun
  | push => cases hpushes
  | pop _ _ ih => exact ih hpushes
  | @edge _ credits frame _ status _ ih =>
    cases credits with
    | nil =>
      intro f hf
      cases hf
      exact status
    | cons first credits => exact ih hpushes
  | @starve _ credits frame flow _ ih =>
    cases credits with
    | nil =>
      have hfull := (flow.silent nofun).2.2 hstart
      cases hfull.1
    | cons first credits => exact ih hpushes

/-- What the first status of the account is: the acknowledgement of a push, or the first pop from a queue that was
full. -/
def Settles (start pushes : Nat) (frame : Frame) (after : List Frame) (count : Nat) : Prop :=
  freeOf frame ≤ playbackQueueCapacity ∧
    ((0 < pushes ∧ playbackQueueCapacity - freeOf frame ≤ start + 1 ∧
        Flow (playbackQueueCapacity - freeOf frame) (pushes - 1) after count) ∨
      (pushes = 0 ∧ start = playbackQueueCapacity ∧ freeOf frame = 1 ∧ Flow (playbackQueueCapacity - 1) 0 after count))

/-- **The account goes on from the first status**, with one push less or from the first pop of a full queue. -/
theorem Flow.first (h : Flow start pushes told count) (hroom : start + pushes ≤ playbackQueueCapacity)
    {before after : List Frame} (hcredits : told = before ++ frame :: after)
    (hbefore : ∀ f ∈ before, isStatus f = false) (hstatus : isStatus frame = true) :
    Settles start pushes frame after count := by
  induction h generalizing after with
  | nil => exact absurd hcredits (by simp)
  | @push pushes credits count last flow room status free ih =>
    rcases snoc_eq_append hcredits with ⟨rfl, rfl, rfl⟩ | ⟨rest, rfl, hrest⟩
    · obtain ⟨rfl, hle, -⟩ := flow.silent hbefore
      have hcount : playbackQueueCapacity - freeOf last = count + 1 := by omega
      refine ⟨by omega, .inl ⟨Nat.zero_lt_one, by omega, ?_⟩⟩
      rw [hcount]
      exact .nil
    · obtain ⟨hfree, ⟨hpushed, hstart, hflow⟩ | ⟨rfl, hfull, -, -⟩⟩ := ih (by omega) hrest
      · refine ⟨hfree, .inl ⟨by omega, hstart, ?_⟩⟩
        have hflow' := hflow.push room status free
        rwa [Nat.sub_add_cancel hpushed] at hflow'
      · omega
  | pop _ room ih =>
    obtain ⟨hfree, ⟨hpushed, hstart, hflow⟩ | ⟨hpushes, hfull, hone, hflow⟩⟩ := ih hroom hcredits
    · exact ⟨hfree, .inl ⟨hpushed, hstart, hflow.pop room⟩⟩
    · exact ⟨hfree, .inr ⟨hpushes, hfull, hone, hflow.pop room⟩⟩
  | @edge pushes credits last flow status free ih =>
    rcases snoc_eq_append hcredits with ⟨rfl, rfl, rfl⟩ | ⟨rest, rfl, hrest⟩
    · obtain ⟨rfl, hle, -⟩ := flow.silent hbefore
      exact ⟨by rw [free]; decide, .inr ⟨rfl, by omega, free, .nil⟩⟩
    · obtain ⟨hfree, ⟨hpushed, hstart, hflow⟩ | ⟨hpushes, hfull, hone, hflow⟩⟩ := ih hroom hrest
      · exact ⟨hfree, .inl ⟨hpushed, hstart, hflow.edge status free⟩⟩
      · exact ⟨hfree, .inr ⟨hpushes, hfull, hone, hflow.edge status free⟩⟩
  | @starve pushes credits last flow notice ih =>
    rcases snoc_eq_append hcredits with ⟨rfl, rfl, rfl⟩ | ⟨rest, rfl, hrest⟩
    · rw [notice] at hstatus
      cases hstatus
    · obtain ⟨hfree, ⟨hpushed, hstart, hflow⟩ | ⟨hpushes, hfull, hone, hflow⟩⟩ := ih hroom hrest
      · exact ⟨hfree, .inl ⟨hpushed, hstart, hflow.starve notice⟩⟩
      · exact ⟨hfree, .inr ⟨hpushes, hfull, hone, hflow.starve notice⟩⟩

/-- The frames that tell of credit. -/
def credits (stream : List Frame) : List Frame := stream.filter isCredit

@[simp] theorem credits_nil : credits [] = [] := rfl

theorem credits_append (stream more : List Frame) : credits (stream ++ more) = credits stream ++ credits more :=
  List.filter_append ..

theorem isStatus_bufferStatus (state : Pico.Mode) (queued free : UInt16) :
    isStatus (PicoMsg.bufferStatus state queued free).toFrame = true := rfl

theorem Flow.tick {count' : Nat} {msgs : List PicoMsg} (h : Flow start pushes told count)
    (htick : Tick count msgs count') : Flow start pushes (told ++ credits (msgs.map PicoMsg.toFrame)) count' := by
  cases htick with
  | quiet _ _ silent =>
    have hnone : credits (msgs.map PicoMsg.toFrame) = [] := by
      refine List.filter_eq_nil_iff.2 (fun frame hframe => ?_)
      obtain ⟨msg, hmsg, rfl⟩ := List.mem_map.1 hframe
      rw [isCredit_toFrame, silent msg hmsg]
      exact Bool.false_ne_true
    rw [hnone, List.append_nil]
    exact h
  | starve elapsed free => exact h.starve rfl
  | pop _ room =>
    rw [List.map_nil, credits_nil, List.append_nil]
    exact h.pop room
  | edge mode => exact h.edge (isStatus_bufferStatus mode 511 1) ((freeOf_bufferStatus mode 511 1).trans rfl)

theorem Flow.ticks {count' : Nat} {msgs : List PicoMsg} (h : Flow start pushes told count)
    (hticks : Ticks count msgs count') : Flow start pushes (told ++ credits (msgs.map PicoMsg.toFrame)) count' := by
  induction hticks with
  | nil => rwa [List.map_nil, credits_nil, List.append_nil]
  | snoc _ tick ih =>
    rw [List.map_append, credits_append, ← List.append_assoc]
    exact ih.tick tick

end Account

/-! ## A Pico that is lost -/

section Dead

variable {β : Type} {d : Board β} {stage stage' : Stage} {m m' : Fw β} {w : Receiver β}

/-- In ERROR, or with the fault set at the check that turns it into ERROR: no event is queued any more. -/
def Doomed (stage : Stage) (m : Fw β) : Prop :=
  m.rest.mode = .error ∨ stage = .flowControl ∧ m.rest.flowControlFault = true

/-- Nothing leads out of it but the session's end. -/
theorem Receiver.Moves.doomed (h : Receiver.Moves d stage m stage' m') (ho : Opened m) (hdoomed : Doomed stage m) :
    m'.rest.mode = .error := by
  cases h with
  | poll events =>
    obtain ⟨-, -, hsame⟩ := Pico.poll_same (d := d) events m
    rcases hdoomed with herror | ⟨hstage, -⟩
    · exact hsame.1.trans herror
    · cases hstage
  | task =>
    rcases hdoomed with herror | ⟨hstage, -⟩
    · rw [(Pico.task_running (Pico.forward_continues ho).2).2.2, Pico.forward_mode]
      exact herror
    · cases hstage
  | flowControl =>
    by_cases hfault : m.rest.flowControlFault = true
    · exact Pico.flowControlCheck_error ho hfault
    · have herror := hdoomed.resolve_right (fun h => hfault h.2)
      unfold Pico.flowControlCheck
      rwa [if_neg hfault]
  | watchdog =>
    rcases hdoomed with herror | ⟨hstage, -⟩
    · rcases Pico.watchdogCheck_counts (d := d) ho with herror' | ⟨-, hmode⟩
      · exact herror'
      · exact hmode.trans herror
    · cases hstage

/-- Otherwise the account goes on, or it comes to that. -/
theorem Receiver.Moves.counts (h : Receiver.Moves d stage m stage' m') (ho : Opened m) (hlive : ¬Doomed stage m) :
    Doomed stage' m' ∨ Counts m m' := by
  cases h with
  | poll events =>
    obtain ⟨hadds, hrest, -⟩ := Pico.poll_same (d := d) events m
    exact .inr ((hadds.tells (fun msg hm => by cases hm)).counts (by rw [hrest]))
  | task =>
    by_cases hlost : Lost (Pico.task d.mainHost (Pico.forward d m))
    · exact .inl (hlost.imp id (fun h => ⟨rfl, h⟩))
    · have hforward := Pico.forward_continues (d := d) ho
      exact .inr ((hforward.trans (Pico.task_continues hforward.2)).1.counts hlost)
  | flowControl =>
    have hfault : m.rest.flowControlFault ≠ true := fun h => hlive (.inr ⟨rfl, h⟩)
    right
    unfold Pico.flowControlCheck
    rw [if_neg hfault]
    exact .refl m
  | watchdog =>
    rcases Pico.watchdogCheck_counts (d := d) ho with herror | ⟨hcounts, -⟩
    · exact .inl (.inl herror)
    · exact .inr (hcounts.trans (.quiet [] rfl nofun rfl))

end Dead

/-! ## While a sequence is open -/

/-- The QUEUE_EVENTs on their way. -/
def isEvent (bytes : List UInt8) : Bool :=
  match Pico.decodeFrame bytes with
  | .ok frame => frame.type = MsgType.queueEvent.byte
  | .error _ => false

theorem isEvent_ok {bytes : List UInt8} {frame : Frame} (h : Pico.decodeFrame bytes = .ok frame) :
    isEvent bytes = decide (frame.type = MsgType.queueEvent.byte) := by
  unfold isEvent
  rw [h]

section Feeding

variable {β : Type} {d : Board β} {board : β} {stream : List Frame} {told : List Frame} {w : Receiver β} {o c : Nat}

/-- With `o` events sent and not confirmed and the credit `c`: they are on their way or were pushed since the status
that granted the credit, and there was room for all of them. -/
structure Paced (o c : Nat) (told : List Frame) (w : Receiver β) : Prop where
  opened : Opened w.fw
  down : Spoken isFeed w.down
  kept : w.overran = false
  account : Doomed w.stage w.fw ∨ c ≤ playbackQueueCapacity ∧ o ≤ c ∧ ∃ pushes, o = w.down.countP isEvent + pushes ∧
    Flow (playbackQueueCapacity - c) pushes told w.fw.queue.count

theorem Paced.goes (h : Paced o c told w) {fw : Fw β} {stage : Stage}
    (hmoves : Receiver.Moves d w.stage w.fw stage fw) :
    Paced o c (told ++ credits (w.goes fw stage).2) (w.goes fw stage).1 := by
  have hopened := (hmoves.continues h.opened).2
  by_cases hdoomed : Doomed w.stage w.fw
  · exact ⟨hopened, h.down, h.kept, .inl (.inl (hmoves.doomed h.opened hdoomed))⟩
  obtain ⟨hcredit, hroom, pushes, hsent, hflow⟩ := h.account.resolve_left hdoomed
  refine ⟨hopened, h.down, h.kept, ?_⟩
  rcases hmoves.counts h.opened hdoomed with hlost | ⟨obs, htrace, hticks⟩
  · exact .inl hlost
  · rw [Receiver.goes_of_trace htrace]
    exact .inr ⟨hcredit, hroom, pushes, hsent, hflow.ticks hticks⟩

/-- A QUEUE_EVENT finds room. -/
theorem Paced.room (h : Paced o c told w) {bytes : List UInt8} {down : List (List UInt8)} {frame : Frame}
    (hstage : w.stage = .command) (hdown : w.down = bytes :: down) (hbytes : Pico.decodeFrame bytes = .ok frame) :
    w.overruns frame = false := by
  by_cases hevent : frame.type = MsgType.queueEvent.byte
  · have hcounted : w.down.countP isEvent = down.countP isEvent + 1 := by
      rw [hdown, List.countP_cons_of_pos (by rw [isEvent_ok hbytes]; exact decide_eq_true hevent)]
    rcases h.account with (herror | ⟨hflow, -⟩) | ⟨hcredit, hroom, pushes, hsent, hflow⟩
    · rw [Receiver.overruns, hevent, herror]
      rfl
    · rw [hstage] at hflow
      cases hflow
    · have hcount := hflow.count_le
      have hfree : w.fw.queue.count ≠ playbackQueueCapacity := by omega
      simp [Receiver.overruns, hfree]
  · exact overruns_other hevent

theorem Paced.receive (h : Paced o c told w) (hstage : w.stage = .command) :
    Paced o c (told ++ credits (w.receive d).2) (w.receive d).1 := by
  cases hw : w.down with
  | nil =>
    rw [Receiver.receive_nil hw, credits_nil, List.append_nil]
    exact h
  | cons bytes down =>
    obtain ⟨frame, hbytes, hframe⟩ := h.down bytes (by simp [hw])
    have hdown : Spoken isFeed down := fun other hother => h.down other (by simp [hw, hother])
    have hkept : (w.overran || w.overruns frame) = false := by
      rw [h.kept, h.room hstage hw hbytes]
      rfl
    have hlive : Doomed w.stage w.fw → w.fw.rest.mode = .error := fun hdoomed =>
      hdoomed.resolve_right (fun hflow => by rw [hstage] at hflow; cases hflow.1)
    rw [Receiver.receive_cons hw hbytes, hkept]
    rcases hframe with hevent | hstart
    · have hopened : Opened (Pico.dispatchCommand d w.fw frame) := (Pico.dispatch_queueEvent h.opened hevent).1
      have hcounted : w.down.countP isEvent = down.countP isEvent + 1 := by
        rw [hw, List.countP_cons_of_pos (by rw [isEvent_ok hbytes]; exact decide_eq_true hevent)]
      rcases Pico.dispatch_queueEvent_counts (d := d) h.opened hevent with
        herror | ⟨hmode, hcount, mode, obs, htrace, hsent⟩
      · exact ⟨hopened, hdown, rfl, .inl (.inl herror)⟩
      · obtain ⟨hcredit, hroom, pushes, ho, hflow⟩ := h.account.resolve_left (fun hdoomed => hmode (hlive hdoomed))
        have hle := hflow.count_le
        rw [Receiver.goes_of_trace (w := { w with down := down, overran := false }) htrace, hsent]
        have hsent : o = down.countP isEvent + (pushes + 1) := by omega
        refine ⟨hopened, hdown, rfl, .inr ⟨hcredit, hroom, pushes + 1, hsent, ?_⟩⟩
        dsimp only
        rw [hcount]
        refine hflow.push (by omega) (isStatus_bufferStatus _ _ _) ?_
        rw [freeOf_bufferStatus, UInt16.toNat_ofNat_of_lt']
        · rw [Pico.PlaybackQueue.freeCapacity, hcount]
        · exact Nat.lt_of_le_of_lt (Nat.sub_le _ _) (by decide)
    · have hopened : Opened (Pico.dispatchCommand d w.fw frame) := (Pico.dispatch_playStart h.opened hstart).2
      obtain ⟨⟨obs, htrace, hticks⟩, herror⟩ := Pico.dispatch_playStart_counts (d := d) h.opened hstart
      have hcounted : w.down.countP isEvent = down.countP isEvent := by
        rw [hw, List.countP_cons_of_neg (by rw [isEvent_ok hbytes, hstart]; decide)]
      rw [Receiver.goes_of_trace (w := { w with down := down, overran := false }) htrace]
      refine ⟨hopened, hdown, rfl, ?_⟩
      rcases h.account with hdoomed | ⟨hcredit, hroom, pushes, ho, hflow⟩
      · exact .inl (.inl (herror (hlive hdoomed)))
      · exact .inr ⟨hcredit, hroom, pushes, by rw [← hcounted]; exact ho, hflow.ticks hticks⟩

/-- **Every statement keeps the account.** -/
theorem Paced.step (h : Paced o c told w) (s : Statement) :
    Paced o c (told ++ credits (w.step d s).2) (w.step d s).1 := by
  rcases Receiver.step_cases d w s with hs | ⟨fw, stage, hmoves, hs⟩ | ⟨hstage, hs⟩
  · rw [hs, credits_nil, List.append_nil]
    exact h
  · rw [hs]
    exact h.goes hmoves
  · rw [hs]
    exact h.receive hstage

theorem steady_paced (o c : Nat) : Steady d (fun stream w => Paced o c (credits stream) w) := by
  intro stream w s h
  rw [credits_append]
  exact h.step s

/-- Until QUEUE_CLEAR's acknowledgement is read: it is the first BUFFER_STATUS of ARMED. -/
def Acknowledging (stream : List Frame) (w : Receiver β) : Prop :=
  ∃ old status new, credits stream = old ++ status :: new ∧
    (∀ f ∈ old, isStatus f = true → stateOf f ≠ MODE_ARMED) ∧ isStatus status = true ∧
      freeOf status = playbackQueueCapacity ∧ Paced 0 playbackQueueCapacity new w

theorem opens_acknowledging : Opens d board (Acknowledging (β := β)) where
  steady := by
    rintro stream w s ⟨old, status, new, htold, hold, hstatus, hfree, hpaced⟩
    exact ⟨old, status, new ++ credits (w.step d s).2,
      by rw [credits_append, htold]; simp, hold, hstatus, hfree, hpaced.step s⟩
  begun {stream w} hunarmed _ hopened hcount _ hdown hkept := by
    refine ⟨credits stream, (PicoMsg.bufferStatus .armed 0 512).toFrame, [], ?_, fun f hf => ?_, rfl,
      (freeOf_bufferStatus .armed 0 512).trans rfl, hopened, by rw [hdown]; exact Spoken.nil, hkept,
      .inr ⟨Nat.le_refl _, Nat.zero_le _, 0, by rw [hdown]; rfl, ?_⟩⟩
    · rw [credits_append]
      rfl
    · exact hunarmed f (List.mem_filter.1 hf).1
    · rw [hcount, Nat.sub_self]
      exact .nil

theorem Acknowledging.acknowledged {before after : List Frame} {frame : Frame}
    (h : Acknowledging (before ++ frame :: after) w) (hstatus : isStatus frame = true)
    (harmed : stateOf frame = MODE_ARMED) (hbefore : ∀ f ∈ before, isStatus f = false) :
    freeOf frame = playbackQueueCapacity ∧ Paced 0 playbackQueueCapacity (credits after) w := by
  obtain ⟨old, status, new, htold, hold, hfirst, hfree, hpaced⟩ := h
  have hcredit : isCredit frame = true := by
    rw [isStatus, decide_eq_true_eq] at hstatus
    simp [isCredit, hstatus]
  rw [credits_append, credits, credits, List.filter_cons_of_pos hcredit] at htold
  -- Neither is the acknowledgement among the frames before it, nor is this frame among the older statuses.
  rcases List.append_eq_append_iff.1 htold with ⟨rest, hrest, hsame⟩ | ⟨rest, hrest, hsame⟩
  · cases rest with
    | nil =>
      obtain ⟨rfl, rfl⟩ := List.cons.inj hsame
      exact ⟨hfree, hpaced⟩
    | cons first rest =>
      obtain ⟨rfl, -⟩ := List.cons.inj hsame
      exact absurd harmed (hold frame (by rw [hrest]; simp) hstatus)
  · cases rest with
    | nil =>
      obtain ⟨rfl, rfl⟩ := List.cons.inj hsame
      exact ⟨hfree, hpaced⟩
    | cons first rest =>
      obtain ⟨rfl, -⟩ := List.cons.inj hsame
      have hmem : status ∈ before.filter isCredit := by rw [hrest]; simp
      rw [hbefore status (List.mem_filter.1 hmem).1] at hfirst
      cases hfirst

/-! ## Credit -/

/-- **A confirmed event**: the status that confirms it is the acknowledgement of a push. -/
theorem Paced.confirm {before after : List Frame} {frame : Frame} (h : Paced (o + 1) c (before ++ frame :: after) w)
    (hstatus : isStatus frame = true) (hbefore : ∀ f ∈ before, isStatus f = false) :
    Paced o (freeOf frame) after w := by
  refine ⟨h.opened, h.down, h.kept, h.account.imp id ?_⟩
  rintro ⟨hcredit, hroom, pushes, hsent, hflow⟩
  obtain ⟨hfree, ⟨hpushed, hstart, hrest⟩ | ⟨rfl, hfull, -, -⟩⟩ := hflow.first (by omega) rfl hbefore hstatus
  · exact ⟨hfree, by omega, pushes - 1, by omega, hrest⟩
  · omega

/-- **Credit from a status**: it is that of the first pop from the full queue. -/
theorem Paced.credit {after : List Frame} {frame : Frame} (h : Paced 0 0 (frame :: after) w)
    (hstatus : isStatus frame = true) :
    Paced 0 (freeOf frame) after w := by
  refine ⟨h.opened, h.down, h.kept, h.account.imp id ?_⟩
  rintro ⟨hcredit, hroom, pushes, hsent, hflow⟩
  obtain ⟨hfree, ⟨hpushed, -, -⟩ | ⟨rfl, -, hone, hrest⟩⟩ :=
    hflow.first (by omega) (show frame :: after = [] ++ frame :: after from rfl) nofun hstatus
  · omega
  · rw [hone]
    exact ⟨by decide, Nat.zero_le _, 0, hsent, hrest⟩

/-- A Pico that is not lost grants no credit by a PLAY_UNDERRUN here. -/
theorem Paced.underrun {after : List Frame} {frame : Frame} (h : Paced 0 0 (frame :: after) w)
    (hstatus : isStatus frame = false) (credit : Nat) : Paced 0 credit after w := by
  refine ⟨h.opened, h.down, h.kept, .inl ?_⟩
  rcases h.account with hdoomed | ⟨-, -, pushes, hsent, hflow⟩
  · exact hdoomed
  · have hhead := hflow.head rfl (by omega) frame rfl
    rw [hstatus] at hhead
    cases hhead

/-- The frames read and put aside while the Zero waited for acknowledgements; the account is of those behind them. -/
def Held (o c : Nat) (frames up : List Frame) (w : Receiver β) : Prop :=
  ∃ aside rest, credits frames = aside ++ rest ∧ (∀ f ∈ aside, isStatus f = false) ∧ Paced o c (rest ++ credits up) w

theorem Paced.next {w : Rig β} (h : Paced o c (told ++ credits w.up) w.pico) :
    Paced o c (told ++ credits (w.next d).up) (w.next d).pico := by
  refine Lib.foldl_invariant (P := fun w : Rig β => Paced o c (told ++ credits w.up) w.pico) (fun w s h => ?_) _ _ h
  change Paced o c (told ++ credits (w.up ++ _)) _
  rw [credits_append, ← List.append_assoc]
  exact h.step s

theorem held_carries (patience o c : Nat) :
    PiZero.Carries (cable d patience) (fun frames w => Held o c frames w.up w.pico) where
  clock := fun ⟨aside, rest, hframes, haside, hpaced⟩ => ⟨aside, rest, hframes, haside, hpaced.next⟩
  cancelled := fun ⟨aside, rest, hframes, haside, hpaced⟩ => ⟨aside, rest, hframes, haside, hpaced.next⟩
  read {frames w} h := by
    obtain ⟨aside, rest, hframes, haside, hpaced⟩ := h
    refine ⟨aside, rest ++ credits ((w.next d).up.take w.moment.deliver), ?_, haside, ?_⟩
    · change credits (frames ++ (w.next d).up.take w.moment.deliver) = _
      rw [credits_append, hframes, List.append_assoc]
    · change Paced o c (_ ++ credits ((w.next d).up.drop w.moment.deliver)) _
      rw [List.append_assoc, ← credits_append, List.take_append_drop]
      exact hpaced.next

theorem Held.write {o' : Nat} {frames : List Frame} {w : Rig β} (h : Held o c frames w.up w.pico) (patience : Nat)
    (bytes : List UInt8)
    (hsend : ∀ told (w : Receiver β), Paced o c told w → Paced o' c told { w with down := w.down ++ [bytes] }) :
    Held o' c frames ((cable d patience).write bytes w).2.up ((cable d patience).write bytes w).2.pico := by
  obtain ⟨aside, rest, hframes, haside, hpaced⟩ := h
  exact ⟨aside, rest, hframes, haside, hsend _ _ hpaced.next⟩

theorem Paced.snoc {o' : Nat} {bytes : List UInt8} {frame : Frame} (h : Paced o c told w)
    (hbytes : Pico.decodeFrame bytes = .ok frame) (hframe : isFeed frame) (hroom : o' ≤ c)
    (hsent : o' = o + (isEvent bytes).toNat) : Paced o' c told { w with down := w.down ++ [bytes] } := by
  refine ⟨h.opened, h.down.snoc hbytes hframe, h.kept, h.account.imp id ?_⟩
  rintro ⟨hcredit, -, pushes, ho, hflow⟩
  refine ⟨hcredit, hroom, pushes, ?_, hflow⟩
  have hcount : [bytes].countP isEvent = (isEvent bytes).toNat := by
    cases hb : isEvent bytes <;> simp [hb]
  change o' = (w.down ++ [bytes]).countP isEvent + pushes
  rw [List.countP_append, hcount]
  omega

/-! ## When nothing more is sent -/

theorem dispatch_doomed {m : Fw β} {frame : Frame} (ho : Opened m) (herror : m.rest.mode = .error)
    (hframe : isFeed frame) :
    Opened (Pico.dispatchCommand d m frame) ∧ (Pico.dispatchCommand d m frame).rest.mode = .error := by
  rcases hframe with hevent | hstart
  · refine ⟨(Pico.dispatch_queueEvent ho hevent).1, ?_⟩
    rcases Pico.dispatch_queueEvent_counts (d := d) ho hevent with h | ⟨hlive, -⟩
    · exact h
    · exact absurd herror hlive
  · exact ⟨(Pico.dispatch_playStart ho hstart).2, (Pico.dispatch_playStart_counts ho hstart).2 herror⟩

/-- No QUEUE_EVENT is on its way, or the Pico takes none any more. -/
def Past (w : Receiver β) : Prop :=
  w.overran = false ∧ (w.down.countP isEvent = 0 ∨ Opened w.fw ∧ Doomed w.stage w.fw ∧
    ∃ feeds rest, w.down = feeds ++ rest ∧ Spoken isFeed feeds ∧ rest.countP isEvent = 0)

theorem Past.quiet (hkept : w.overran = false) (hdown : w.down.countP isEvent = 0) : Past (w.receive d).1 := by
  unfold Receiver.receive
  split
  · exact ⟨hkept, .inl hdown⟩
  · rename_i bytes down hw
    have hbytes : isEvent bytes = false := Bool.eq_false_iff.2
      (List.countP_eq_zero.1 hdown bytes (by rw [hw]; exact List.mem_cons_self))
    have hrest : down.countP isEvent = 0 := List.countP_eq_zero.2
      (fun other hother => List.countP_eq_zero.1 hdown other (by rw [hw]; exact List.mem_cons_of_mem _ hother))
    split
    · exact ⟨hkept, .inl hrest⟩
    · rename_i frame hdecode
      refine ⟨?_, .inl hrest⟩
      rw [isEvent_ok hdecode, decide_eq_false_iff_not] at hbytes
      change (w.overran || w.overruns frame) = false
      rw [hkept, overruns_other hbytes]
      rfl

theorem Past.step (h : Past w) (s : Statement) : Past (w.step d s).1 := by
  obtain ⟨hkept, hquiet | ⟨hopened, hdoomed, feeds, rest, hdown, hfeeds, hrest⟩⟩ := h
  · rcases Receiver.step_cases d w s with hs | ⟨fw, stage, hmoves, hs⟩ | ⟨hstage, hs⟩ <;> rw [hs]
    · exact ⟨hkept, .inl hquiet⟩
    · exact ⟨hkept, .inl hquiet⟩
    · exact Past.quiet hkept hquiet
  · rcases Receiver.step_cases d w s with hs | ⟨fw, stage, hmoves, hs⟩ | ⟨hstage, hs⟩ <;> rw [hs]
    · exact ⟨hkept, .inr ⟨hopened, hdoomed, feeds, rest, hdown, hfeeds, hrest⟩⟩
    · exact ⟨hkept, .inr ⟨(hmoves.continues hopened).2, .inl (hmoves.doomed hopened hdoomed), feeds, rest, hdown,
        hfeeds, hrest⟩⟩
    · cases feeds with
      | nil => exact Past.quiet hkept (by rw [hdown]; exact hrest)
      | cons bytes feeds =>
        obtain ⟨frame, hbytes, hframe⟩ := hfeeds bytes (by simp)
        have herror : w.fw.rest.mode = .error :=
          hdoomed.resolve_right (fun hflow => by rw [hstage] at hflow; cases hflow.1)
        obtain ⟨hopened', herror'⟩ := dispatch_doomed (d := d) hopened herror hframe
        rw [Receiver.receive_cons (hdown.trans (List.cons_append ..)) hbytes]
        refine ⟨?_, .inr ⟨hopened', .inl herror', feeds, rest, rfl, fun other hother => hfeeds other (by simp [hother]),
          hrest⟩⟩
        have hallowed : w.overruns frame = false := by
          by_cases hevent : frame.type = MsgType.queueEvent.byte
          · rw [Receiver.overruns, hevent, herror]
            rfl
          · exact overruns_other hevent
        change (w.overran || w.overruns frame) = false
        rw [hkept, hallowed]
        rfl

theorem Past.next {w : Rig β} (h : Past w.pico) : Past (w.next d).pico :=
  Lib.foldl_invariant (P := fun w : Rig β => Past w.pico) (fun _ s h => h.step s) _ _ h

theorem Past.snoc {bytes : List UInt8} (h : Past w) (hbytes : isEvent bytes = false) :
    Past { w with down := w.down ++ [bytes] } := by
  have hsnoc : ∀ rest : List (List UInt8), rest.countP isEvent = 0 → (rest ++ [bytes]).countP isEvent = 0 := by
    intro rest hrest
    rw [List.countP_append, hrest, List.countP_cons_of_neg (by rw [hbytes]; exact Bool.false_ne_true)]
    rfl
  refine ⟨h.1, h.2.imp (hsnoc w.down) ?_⟩
  rintro ⟨hopened, hdoomed, feeds, rest, hdown, hfeeds, hrest⟩
  refine ⟨hopened, hdoomed, feeds, rest ++ [bytes], ?_, hfeeds, hsnoc rest hrest⟩
  change w.down ++ [bytes] = _
  rw [hdown, List.append_assoc]

theorem Held.past {c : Nat} {frames up : List Frame} (h : Held 0 c frames up w) : Past w := by
  obtain ⟨aside, rest, -, -, hpaced⟩ := h
  refine ⟨hpaced.kept, ?_⟩
  rcases hpaced.account with hdoomed | ⟨-, -, pushes, hsent, -⟩
  · exact .inr ⟨hpaced.opened, hdoomed, w.down, [], (List.append_nil _).symm, hpaced.down, rfl⟩
  · exact .inl (by omega)

/-! ## The session -/

/-- Of the frames put aside, a PLAY_UNDERRUN is the first that tells of credit. -/
def underrunFirst (pending : List Frame) : Bool := (credits pending).head?.any (fun frame => !isStatus frame)

theorem credits_used {before after : List Frame} {frame : Frame} (hbefore : ∀ f ∈ before, isCredit f = false)
    (hcredit : isCredit frame = true) (up : List Frame) :
    credits (before ++ frame :: after ++ up) = frame :: credits (before ++ after ++ up) := by
  have hnone : credits before = [] :=
    List.filter_eq_nil_iff.2 (fun f hf => by rw [hbefore f hf]; exact Bool.false_ne_true)
  rw [List.append_assoc, credits_append, hnone, List.append_assoc, credits_append before, hnone]
  exact List.filter_cons_of_pos hcredit

theorem isCredit_of_isStatus {frame : Frame} (h : isStatus frame = true) : isCredit frame = true := by
  rw [isStatus, decide_eq_true_eq] at h
  simp [isCredit, h]

theorem underrun_type {frame : Frame} (h : frame.type = MsgType.playUnderrun.byte) :
    isCredit frame = true ∧ isStatus frame = false := by
  constructor
  · simp [isCredit, h]
  · rw [isStatus, h]
    rfl

theorem decode_event {r : Request} (hvalid : r.Valid) (hevent : ∃ offsetUs report, r = .queueEvent offsetUs report) :
    isFeed r.frame ∧ isEvent (Pico.encode r.frame) = true := by
  obtain ⟨offsetUs, report, rfl⟩ := hevent
  exact ⟨.inl rfl, (isEvent_ok (decode_request hvalid)).trans rfl⟩

/-- The cable does what a session relies on, but for a notice that is read as credit when it is old. -/
theorem cable_paces (patience : Nat) :
    Feeds (cable d patience) (fun pending => underrunFirst pending = false) (fun w => w.pico.overran = false)
      (fun frames w => Idle d board (frames ++ w.up) w.pico)
      (fun frames w => Clearing d board Acknowledging (frames ++ w.up) w.pico)
      (fun o c frames w => Held o c frames w.up w.pico) (fun frames w => Paced 0 0 (credits (frames ++ w.up)) w.pico)
      (fun w => Past w.pico) where
  idle_carries := steady_idle.carries patience
  cleared_carries := (steady_clearing opens_acknowledging).carries patience
  fed_carries o c := held_carries patience o c
  starved_carries := (steady_paced 0 0).carries patience
  over_carries := ⟨Past.next, Past.next, Past.next⟩
  idle_safe h := h.1.kept
  cleared_safe h := h.elim (fun h => h.1.kept) (fun ⟨_, _, _, _, _, _, _, h⟩ => h.kept)
  fed_safe := fun ⟨_, _, _, _, h⟩ => h.kept
  starved_safe h := h.kept
  over_safe h := h.1
  idle_modeSet h := steady_idle.write patience _ (fun _ _ h => h.modeSet MODE_ARMED) h
  idle_answered _ h := by
    rw [List.append_assoc] at h ⊢
    exact h.answered
  clear h := steady_idle.write patience _ (fun _ _ h => h.clears _) h
  acknowledge {before frame after w} hstatus harmed hbefore h := by
    rcases h with ⟨hclearing, -⟩ | hopened
    · exact absurd harmed (hclearing.unarmed frame (by simp) hstatus)
    · rw [List.append_assoc] at hopened
      obtain ⟨hfree, hpaced⟩ := hopened.acknowledged hstatus harmed hbefore
      refine ⟨credits before, credits after, credits_append .., fun f hf => hbefore f (List.mem_filter.1 hf).1, ?_⟩
      rw [← credits_append, hfree]
      exact hpaced
  send {o c frames w r} hvalid hevent hroom h := by
    obtain ⟨hfeed, hsent⟩ := decode_event hvalid hevent
    exact h.write patience _ (fun _ _ h => h.snoc (decode_request hvalid) hfeed hroom (by rw [hsent]; rfl))
  confirm {o c before frame after w} hstatus hbefore h := by
    obtain ⟨aside, rest, hframes, haside, hpaced⟩ := h
    rw [credits_append, credits, credits, List.filter_cons_of_pos (isCredit_of_isStatus hstatus)] at hframes
    have hsilent : ∀ f ∈ before.filter isCredit, isStatus f = false := fun f hf => hbefore f (List.mem_filter.1 hf).1
    have hfresh : frame ∉ aside := fun hmem => by rw [haside frame hmem] at hstatus; cases hstatus
    obtain ⟨between, hbetween, rfl⟩ := append_eq_append_fresh hframes hfresh
    refine ⟨credits before, credits after, credits_append .., hsilent, ?_⟩
    rw [List.append_assoc, List.cons_append] at hpaced
    exact hpaced.confirm hstatus (fun f hf => hsilent f (by rw [hbetween]; exact List.mem_append_right _ hf))
  starve {frames w} hentry h := by
    obtain ⟨aside, rest, hframes, haside, hpaced⟩ := h
    cases aside with
    | nil =>
      rw [credits_append, hframes]
      exact hpaced
    | cons first aside =>
      rw [underrunFirst, hframes] at hentry
      have hfirst : isStatus first = true := by simpa using hentry
      rw [haside first List.mem_cons_self] at hfirst
      cases hfirst
  credit_none {before frame after w} hstatus hbefore hzero h := by
    rw [credits_used hbefore (isCredit_of_isStatus hstatus)] at h
    have hcredit := h.credit hstatus
    rwa [hzero] at hcredit
  credit {before frame after w} hstatus hbefore _ h := by
    rw [credits_used hbefore (isCredit_of_isStatus hstatus)] at h
    exact ⟨[], credits (before ++ after), rfl, nofun, by rw [← credits_append]; exact h.credit hstatus⟩
  underrun_none {before frame after w} hunderrun hbefore _ h := by
    obtain ⟨hcredit, hstatus⟩ := underrun_type hunderrun
    rw [credits_used hbefore hcredit] at h
    exact h.underrun hstatus 0
  underrun {before frame after w} hunderrun hbefore _ h := by
    obtain ⟨hcredit, hstatus⟩ := underrun_type hunderrun
    rw [credits_used hbefore hcredit] at h
    exact ⟨[], credits (before ++ after), rfl, nofun, by rw [← credits_append]; exact h.underrun hstatus _⟩
  playStart h := h.write patience _
    (fun _ _ h => h.snoc (decode_request (r := .playStart) trivial) (.inr rfl) (Nat.zero_le _)
      (by rw [isEvent_ok (decode_request (r := .playStart) trivial)]; rfl))
  other {c before frame after w} hcredit h := by
    obtain ⟨aside, rest, hframes, haside, hpaced⟩ := h
    refine ⟨aside, rest, ?_, haside, hpaced⟩
    rw [← hframes, credits_append, credits_append, credits, credits, credits,
      List.filter_cons_of_neg (by rw [hcredit]; exact Bool.false_ne_true)]
  finish h := h.past
  over_write {w r} hr h := by
    have hsent : isEvent (Pico.encode r.frame) = false := by
      rcases hr with rfl | rfl | rfl
      · rw [isEvent_ok (decode_request (r := .queueEnd) trivial)]; rfl
      · rw [isEvent_ok (decode_request (r := .playStart) trivial)]; rfl
      · rw [isEvent_ok (decode_request (r := .modeSet MODE_PASS) trivial)]; rfl
    exact h.next.snoc hsent

end Feeding

/-- **Credit flow control never overruns the Pico's queue**, from any reachable state of the firmware with nothing on
the cable and no frame put aside, however the session and the main loop interleave and however long the frames take,
unless some wait for credit began with a PLAY_UNDERRUN put aside ahead of the first BUFFER_STATUS. -/
theorem queue_never_overrun {β : Type} (d : Board β) (board : β) (inputs : List LoopInput) (script : List Moment)
    (patience : Nat) (p : PiZero.Playback) (returnToPass : Bool) :
    let safe (t : PiZero.Heap PiZero.Playback (Rig β)) : Prop :=
      (∀ pending, .awaitsCredit pending ∈ t.history → underrunFirst pending = false) → t.link.pico.overran = false
    Lib.wp
      (do
        discard (PiZero.Playback.start (cable d patience))
        PiZero.Playback.finish (cable d patience) returnToPass)
      (fun _ t => safe t) (fun _ t => safe t) ⟨[], p, Rig.opening d board inputs script, []⟩ := by
  intro safe
  have hsafe : ∀ (t : PiZero.Heap PiZero.Playback (Rig β)),
      PiZero.Playback.Tainted (fun pending => underrunFirst pending = false) t.history ∨ t.link.pico.overran = false →
        safe t := by
    rintro t (⟨pending, hact, hentry⟩ | hkept) hall
    · exact absurd (hall pending hact) hentry
    · exact hkept
  refine Lib.wp_mono (PiZero.Playback.session_feeds (cable_paces patience) returnToPass _
    (opening_idle d board inputs script) rfl) (fun _ t ht => hsafe t ht) (fun _ t ht => hsafe t ?_)
  exact ht.imp_right And.left

end Link
end PicoRecorder
