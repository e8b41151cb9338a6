import PicoRecorder.Pico.Device
/-!
# Batching — one iteration for every byte, or any other cut of the stream

Without PLAY_START the scheduler stands still, and while every frame fits the mode is what the automaton of `Tokens`
makes of the handled tokens (`Calm.loopBody`).  So two cuts of one stream differ by the order within their iterations
alone, and `batching_iff` says when that order shows in the mode.
-/
namespace PicoRecorder
namespace Pico

open Relation (ReflTransGen)

variable {β : Type} {d : Board β} {m : Fw β} {n : Nat}

/-- A firmware that has not played: `n` bounds what was queued. -/
structure Calm (m : Fw β) (n : Nat) : Prop where
  idle : m.sched.running = false
  stopped : m.rest.mode ≠ .playing
  noFlowFault : m.rest.flowControlFault = false
  queued : m.queue.toList.length ≤ n

theorem Calm.boundary (h : Calm m n) : Boundary m := .stopped h.idle

theorem Calm.mono (h : Calm m n) {k : Nat} (hk : n ≤ k) : Calm m k :=
  ⟨h.idle, h.stopped, h.noFlowFault, h.queued.trans hk⟩

/-- The mode and the flow-control fault are all of the rest it looks at. -/
theorem Calm.rest (h : Calm m n) {rest : Rest β} (hm : rest.mode = m.rest.mode)
    (hf : rest.flowControlFault = m.rest.flowControlFault) : Calm { m with rest := rest } n :=
  ⟨h.idle, hm ▸ h.stopped, hf.trans h.noFlowFault, h.queued⟩

theorem Leads.trace {phase : Phase} {m m' : Fw β} (h : Leads d phase m m') : m.rest.trace <:+ m'.rest.trace :=
  Lib.Preserved.run (P := fun a : Fw β => m.rest.trace <:+ a.rest.trace) (fun _ _ step hs => hs.trans (step_trace step))
    h.1 (List.suffix_refl _)

theorem transition_calm (target : Mode) (ht : target ≠ .playing) (reason : Reason) (m : Fw β) :
    Calm (transition d target reason m) 0 ∧ (transition d target reason m).rest.mode = target := by
  have hc := clearReleaseAndQueue_spec d m
  refine ⟨⟨hc.running, ht, hc.flowControlFault, ?_⟩, rfl⟩
  change (clearReleaseAndQueue d m).queue.toList.length ≤ 0
  rw [hc.queue]
  exact Nat.le_refl 0

theorem notify_calm (h : Calm m n) (reason : Reason) : Calm (notify d reason m) n := h.rest rfl rfl

theorem enterError_calm (h : Calm m n) (reason : Reason) :
    Calm (enterError d reason m) n ∧ (enterError d reason m).rest.mode = faultMode m.rest.mode := by
  unfold enterError
  split
  · rename_i hm
    have ht := transition_calm (d := d) .error (by decide) reason m
    exact ⟨ht.1.mono (Nat.zero_le n), by rw [ht.2, faultMode_of_ne hm.1]⟩
  · rename_i hm
    refine ⟨notify_calm h reason, ?_⟩
    change m.rest.mode = faultMode m.rest.mode
    cases hmode : m.rest.mode <;> rw [hmode] at hm <;> first | rfl | exact absurd (by decide) hm

theorem hostEvent_calm (h : Calm m n) (e : HostEvent) :
    Calm (hostEvent d m e) n ∧ (hostEvent d m e).rest.mode = m.rest.mode := by
  obtain ⟨hrest, hsame⟩ := hostEvent_sameMode (d := d) m e
  rw [hrest]
  exact ⟨h.rest hsame.1 hsame.2, hsame.1⟩

theorem hostEvents_calm : ∀ (events : List HostEvent) {m : Fw β}, Calm m n →
    Calm (events.foldl (hostEvent d) m) n ∧ (events.foldl (hostEvent d) m).rest.mode = m.rest.mode
  | [], _, h => ⟨h, rfl⟩
  | e :: events, _, h => by
    obtain ⟨he, hm⟩ := hostEvent_calm (d := d) h e
    obtain ⟨hes, hms⟩ := hostEvents_calm events he
    exact ⟨hes, hms.trans hm⟩

/-! ## Commands -/

/-- Where MODE_SET leads, by its target. -/
theorem commandMode_modeSet (mode : Mode) (c : Frame) (hc : c.type = MsgType.modeSet.byte) :
    commandMode mode c =
      if c.payload.getD 0 0 = Mode.pass.byte then .pass
      else if (c.payload.getD 0 0 = Mode.record.byte ∨ c.payload.getD 0 0 = Mode.armed.byte) ∧ mode = .pass then
        openedMode c
      else mode := by
  have hstreams : streams c = false := by
    simp only [streams, hc]
    decide
  have hresets : resets c = true ↔ c.payload.getD 0 0 = Mode.pass.byte := by simp [resets, hc]
  have hopens : opens c = true ↔ c.payload.getD 0 0 = Mode.record.byte ∨ c.payload.getD 0 0 = Mode.armed.byte := by
    simp [opens, hc]
  unfold commandMode
  by_cases hr : resets c = true
  · rw [if_pos hr, if_pos (hresets.1 hr)]
  · rw [if_neg hr, if_neg (fun h => hr (hresets.2 h)), hstreams]
    by_cases ho : opens c = true
    · by_cases hm : mode = .pass
      · rw [if_pos ho, if_pos hm, if_pos ⟨hopens.1 ho, hm⟩]
      · rw [if_pos ho, if_neg hm, if_neg (fun h => hm h.2)]
    · rw [if_neg ho, if_neg Bool.false_ne_true, if_neg (fun h => ho (hopens.2 h.1))]

theorem handleModeSet_calm (h : Calm m n) (c : Frame) (hc : c.type = MsgType.modeSet.byte) :
    Calm (handleModeSet d (c.payload.getD 0 0) m).2 n ∧
      (handleModeSet d (c.payload.getD 0 0) m).2.rest.mode = commandMode m.rest.mode c := by
  rw [commandMode_modeSet _ c hc]
  unfold openedMode
  generalize c.payload.getD 0 0 = target
  unfold handleModeSet
  by_cases hlarge : target > Mode.armed.byte
  · have hp : target ≠ Mode.pass.byte := by rintro rfl; exact absurd hlarge (by decide)
    have hr : target ≠ Mode.record.byte := by rintro rfl; exact absurd hlarge (by decide)
    have ha : target ≠ Mode.armed.byte := by rintro rfl; exact absurd hlarge (by decide)
    rw [if_pos hlarge, if_neg hp, if_neg (fun ho => ho.1.elim hr ha)]
    exact ⟨notify_calm h _, rfl⟩
  rw [if_neg hlarge]
  by_cases hp : target = Mode.pass.byte
  · rw [if_pos hp, if_pos hp]
    by_cases hm : m.rest.mode = .pass
    · rw [if_neg (not_not.2 hm)]
      exact ⟨notify_calm h _, hm⟩
    · have ht := transition_calm (d := d) .pass (by decide) .ok m
      rw [if_pos hm]
      exact ⟨ht.1.mono (Nat.zero_le n), ht.2⟩
  rw [if_neg hp, if_neg hp]
  by_cases hsame : target = m.rest.mode.byte
  · have hm : m.rest.mode ≠ .pass := fun hm => hp (by rw [hsame, hm])
    rw [if_pos hsame, if_neg (fun ho => hm ho.2)]
    exact ⟨notify_calm h _, rfl⟩
  rw [if_neg hsame]
  by_cases hopen : (target = Mode.record.byte ∨ target = Mode.armed.byte) ∧ m.rest.mode = .pass
  · have ht := transition_calm (d := d) (targetMode target) (by
      rcases hopen.1 with rfl | rfl <;> decide) .ok m
    rw [if_pos hopen, if_pos hopen]
    exact ⟨ht.1.mono (Nat.zero_le n), ht.2⟩
  · rw [if_neg hopen, if_neg hopen]
    exact ⟨notify_calm h _, rfl⟩

theorem playAbort_calm (h : Calm m n) :
    Calm (playAbort d m).2 n ∧ (playAbort d m).2.rest.mode = m.rest.mode := by
  unfold playAbort
  split
  · exact ⟨notify_calm h _, rfl⟩
  · rename_i hm
    have harmed : m.rest.mode = .armed := by
      by_contra hne
      exact hm ⟨hne, h.stopped⟩
    have ht := transition_calm (d := d) .armed (by decide) .aborted m
    exact ⟨ht.1.mono (Nat.zero_le n), ht.2.trans harmed.symm⟩

/-- An acknowledgement that fitted changes no mode. -/
theorem acknowledgeQueue_calm (h : Calm m n) (hl : Lossless (acknowledgeQueue d m).rest.trace) :
    Calm (acknowledgeQueue d m) n ∧ (acknowledgeQueue d m).rest.mode = m.rest.mode := by
  have hsent : (m.rest.sendBufferStatus d m.queue).1 = true := by
    have hmem : Obs.frame (.bufferStatus m.rest.mode (UInt16.ofNat m.queue.count)
        (UInt16.ofNat (PlaybackQueue.freeCapacity m.queue))) (m.rest.sendBufferStatus d m.queue).1 ∈
        (acknowledgeQueue d m).rest.trace := by
      have hcalm : Calm { m with rest := (m.rest.sendBufferStatus d m.queue).2 } n := h.rest rfl rfl
      unfold acknowledgeQueue
      dsimp only
      split
      · have hleads : Leads d .input _
            (enterError d .protocolError { m with rest := (m.rest.sendBufferStatus d m.queue).2 }) :=
          enterError_leads .protocolError hcalm.boundary rfl
        exact hleads.trace.subset List.mem_cons_self
      · exact List.mem_cons_self
    exact hl.queued _ hmem
  unfold acknowledgeQueue
  dsimp only
  rw [hsent]
  exact ⟨h.rest rfl rfl, rfl⟩

/-- The other commands leave the mode automaton alone or are queue commands. -/
theorem commandMode_other {mode : Mode} {c : Frame} (hc : c.type ≠ MsgType.modeSet.byte) :
    commandMode mode c =
      if streams c then if queueCommandAllowed c.type mode then mode else faultMode mode else mode := by
  have hset : (c.type == MsgType.modeSet.byte) = false := beq_eq_false_iff_ne.2 hc
  unfold commandMode resets opens
  rw [hset, Bool.false_and, Bool.false_and, if_neg Bool.false_ne_true, if_neg Bool.false_ne_true]

/-- A queue command where it is allowed stores, clears or ends, and is acknowledged. -/
theorem dispatchQueueCommand_calm (h : Calm m n) (hn : n < playbackQueueCapacity) {c : Frame} (hwell : WellFormed c)
    (hs : streams c = true) (hl : Lossless (dispatchQueueCommand d c m).rest.trace) :
    Calm (dispatchQueueCommand d c m) (n + 1) ∧ (dispatchQueueCommand d c m).rest.mode =
      if queueCommandAllowed c.type m.rest.mode then m.rest.mode else faultMode m.rest.mode := by
  unfold dispatchQueueCommand at hl ⊢
  dsimp only at hl ⊢
  cases ha : queueCommandAllowed c.type m.rest.mode with
  | false =>
    obtain ⟨hcalm, hm⟩ := enterError_calm (d := d) h .protocolError
    exact ⟨hcalm.mono (Nat.le_succ n), hm⟩
  | true =>
    rw [ha, Bool.not_true, if_neg Bool.false_ne_true] at hl
    rw [Bool.not_true, if_neg Bool.false_ne_true, if_pos rfl]
    simp only [streams, Bool.or_eq_true, beq_iff_eq] at hs
    rcases hs with (hs | hs) | hs
    · rw [hs, MsgType.ofByte?_byte] at hl ⊢
      have hclear : Calm { m with queue := m.queue.clear, sched := m.sched.resetSequence } (n + 1) :=
        ⟨by rw [resetSequence_stopped h.idle]; exact h.idle, h.stopped, h.noFlowFault, by simp⟩
      exact acknowledgeQueue_calm hclear hl
    · rw [hs, MsgType.ofByte?_byte] at hl ⊢
      have hlen : ((c.payload.drop 9).take 8).length = hidBootKeyboardReportLen := by
        have hvalid := hwell.2
        unfold framePayloadValid at hvalid
        rw [hs, MsgType.ofByte?_byte] at hvalid
        simp only [Bool.and_eq_true, beq_iff_eq] at hvalid
        rw [List.length_take, List.length_drop, hvalid.1]
        rfl
      dsimp only at hl ⊢
      unfold queueEvent at hl ⊢
      dsimp only at hl ⊢
      cases hp : PlaybackQueue.push m.queue (UInt64.ofNat (leNat (c.payload.take 8))) ((c.payload.drop 9).take 8) with
      | none =>
        have hq := h.queued
        rw [PlaybackQueue.push, if_neg (not_not.2 hlen), Lib.Ring.push_eq_none] at hp
        omega
      | some queue =>
        rw [hp] at hl
        refine acknowledgeQueue_calm (n := n + 1) ⟨h.idle, h.stopped, h.noFlowFault, ?_⟩ hl
        rw [PlaybackQueue.toList_push hp, List.length_append]
        exact Nat.succ_le_succ h.queued
    · rw [hs, MsgType.ofByte?_byte] at hl ⊢
      dsimp only at hl ⊢
      split at hl
      · rename_i harmed
        rw [if_pos harmed]
        exact acknowledgeQueue_calm (n := n + 1)
          ⟨h.idle, h.stopped, h.noFlowFault, h.queued.trans (Nat.le_succ n)⟩ hl
      · rename_i hplaying
        rw [if_neg hplaying]
        exact acknowledgeQueue_calm (n := n + 1)
          ⟨h.idle, h.stopped, h.noFlowFault, h.queued.trans (Nat.le_succ n)⟩ hl

/-- **A command leads where the automaton says.** -/
theorem dispatchCommand_calm (h : Calm m n) (hn : n < playbackQueueCapacity) {c : Frame} (hwell : WellFormed c)
    (hstart : c.type ≠ MsgType.playStart.byte) (hl : Lossless (dispatchCommand d m c).rest.trace) :
    Calm (dispatchCommand d m c) (n + 1) ∧ (dispatchCommand d m c).rest.mode = commandMode m.rest.mode c := by
  obtain ⟨t, ht⟩ : ∃ t, MsgType.ofByte? c.type = some t := by
    have hvalid := hwell.2
    unfold framePayloadValid at hvalid
    cases ht : MsgType.ofByte? c.type with
    | none => rw [ht] at hvalid; cases hvalid
    | some t => exact ⟨t, rfl⟩
  have hbyte := MsgType.ofByte?_eq_some.1 ht
  have hcommand := hwell.1
  rw [hbyte] at hcommand
  have hqueue : streams c = true → dispatchCommand d m c = dispatchQueueCommand d c m := fun hs => by
    simp only [streams, Bool.or_eq_true, beq_iff_eq] at hs
    unfold dispatchCommand
    rcases hs with (hs | hs) | hs <;> rw [hs, MsgType.ofByte?_byte]
  by_cases hset : c.type = MsgType.modeSet.byte
  · have hmode := handleModeSet_calm (d := d) h c hset
    unfold dispatchCommand
    rw [hset, MsgType.ofByte?_byte]
    exact ⟨(hmode.1.mono (Nat.le_succ n)).rest rfl rfl, hmode.2⟩
  rw [commandMode_other hset]
  by_cases hs : streams c = true
  · rw [if_pos hs]
    rw [hqueue hs] at hl ⊢
    exact dispatchQueueCommand_calm h hn hwell hs hl
  rw [if_neg hs]
  have hlater := h.mono (Nat.le_succ n)
  unfold dispatchCommand
  rw [ht]
  cases t <;> dsimp only <;> try exact absurd hcommand (by decide)
  case playStart => exact absurd hbyte hstart
  case modeSet => exact absurd hbyte hset
  case queueClear => exact absurd (by simp [streams, hbyte]) hs
  case queueEvent => exact absurd (by simp [streams, hbyte]) hs
  case queueEnd => exact absurd (by simp [streams, hbyte]) hs
  case playAbort => exact playAbort_calm hlater
  case statusRequest => exact ⟨hlater.rest rfl rfl, rfl⟩
  case ping => exact ⟨hlater.rest rfl rfl, rfl⟩

theorem dispatchCommands_calm : ∀ (cs : List Frame) {m : Fw β} {n : Nat}, Calm m n →
    n + cs.length ≤ playbackQueueCapacity → (∀ c ∈ cs, WellFormed c ∧ c.type ≠ MsgType.playStart.byte) →
    Lossless (cs.foldl (dispatchCommand d) m).rest.trace →
      Calm (cs.foldl (dispatchCommand d) m) (n + cs.length) ∧
        (cs.foldl (dispatchCommand d) m).rest.mode = (cs.map Token.command).foldl effect m.rest.mode
  | [], _, _, h, _, _, _ => ⟨h, rfl⟩
  | c :: cs, m, n, h, hn, hcs, hl => by
    rw [List.length_cons] at hn
    obtain ⟨hwell, hstart⟩ := hcs c List.mem_cons_self
    have hb := (dispatchCommand_leads (d := d) h.boundary c).2
    have hlater := (foldl_leads (d := d) (fun m x hb => dispatchCommand_leads hb x) cs _ hb).trace
    obtain ⟨hc, hmode⟩ := dispatchCommand_calm h (by omega) hwell hstart (hl.earlier hlater)
    obtain ⟨hcalm, hmodes⟩ := dispatchCommands_calm cs hc (by omega) (fun k hk => hcs k (List.mem_cons_of_mem c hk)) hl
    refine ⟨hcalm.mono (by rw [List.length_cons]; omega), ?_⟩
    rw [List.foldl_cons, hmodes, hmode]
    rfl

/-! ## The second half of an iteration -/

/-- While nothing plays, the second half of an iteration changes no mode. -/
theorem loopOutput_calm (h : Calm m n) :
    Calm (loopOutput d m) n ∧ (loopOutput d m).rest.mode = m.rest.mode := by
  have hsame := (serviceRelease_sameMode (d := d) m.rest).trans
    (physicalReportDispatch_sameMode (d := d) ((serviceRelease d m.rest).1 = .ready) (serviceRelease d m.rest).2)
  have hcalm := h.rest hsame.1 hsame.2
  unfold loopOutput
  dsimp only
  rw [task_idle hcalm.idle, flowControlCheck, if_neg (Bool.eq_false_iff.1 hcalm.noFlowFault), watchdogCheck,
    if_pos hcalm.stopped]
  exact ⟨hcalm.rest rfl rfl, hsame.1⟩

/-- **One iteration leads where the automaton says for what it handles**: the fault, then the commands. -/
theorem Calm.loopBody (h : Calm m n) (events : List HostEvent) (fault : Bool) {cs : List Frame}
    (hn : n + cs.length ≤ playbackQueueCapacity)
    (hcs : ∀ c ∈ cs, WellFormed c ∧ c.type ≠ MsgType.playStart.byte)
    (hl : Lossless (loopBody d m ⟨events, fault, cs⟩).rest.trace) :
    Calm (loopBody d m ⟨events, fault, cs⟩) (n + cs.length) ∧ (loopBody d m ⟨events, fault, cs⟩).rest.mode =
      ((if fault then [Token.malformed] else []) ++ cs.map Token.command).foldl effect m.rest.mode := by
  obtain ⟨hevents, hmode⟩ := hostEvents_calm (d := d) events
    (show Calm { m with rest := { m.rest with board := d.tudTask m.rest.board } } n from h.rest rfl rfl)
  obtain ⟨start, hstart, hcalm, hfault⟩ : ∃ start,
      loopCommands d ⟨events, fault, cs⟩ m = cs.foldl (dispatchCommand d) start ∧ Calm start n ∧
        start.rest.mode = (if fault then [Token.malformed] else []).foldl effect m.rest.mode := by
    refine ⟨_, rfl, ?_⟩
    dsimp only
    cases fault with
    | false => exact ⟨hevents, hmode⟩
    | true =>
      obtain ⟨herror, hm⟩ := enterError_calm (d := d) hevents .uartFault
      rw [if_pos rfl]
      exact ⟨herror, hm.trans (by rw [hmode]; rfl)⟩
  have hcommands : Lossless (cs.foldl (dispatchCommand d) start).rest.trace := by
    rw [← hstart]
    have hb := (loopCommands_leads (d := d) ⟨events, fault, cs⟩ h.boundary).2
    exact hl.earlier (((release_leads hb).trace).trans (loopOutput_leads hb).trace)
  obtain ⟨hdone, hdmode⟩ := dispatchCommands_calm cs hcalm hn hcs hcommands
  rw [← hstart] at hdone hdmode
  obtain ⟨hout, homode⟩ := loopOutput_calm (d := d) hdone
  exact ⟨hout, by rw [List.foldl_append, ← hfault]; exact homode.trans hdmode⟩

/-! ## Two cuts of a stream -/

/-- The bytes of each iteration of a run. -/
def polledBytes (rounds : List Round) : List (List UInt8) := rounds.map Round.bytes

theorem tokenize_wellFormed : ∀ (bytes buffer : List UInt8), ∀ c ∈ commandsOf (tokenize buffer bytes).1, WellFormed c
  | [], _, c, hc => by simp [tokenize, commandsOf] at hc
  | byte :: bytes, buffer, c, hc => by
    rw [tokenize, commandsOf_append, List.mem_append] at hc
    rcases hc with hc | hc
    · unfold token? at hc
      split at hc
      · simp [commandsOf] at hc
      · cases hd : decodeCommand (buffer ++ [byte]) with
        | none => rw [hd] at hc; simp [commandsOf] at hc
        | some k =>
          rw [hd] at hc
          obtain rfl : c = k := by simpa [commandsOf] using hc
          exact (decodeCommand_eq_some.1 hd).2
    · exact tokenize_wellFormed bytes _ c hc

theorem loopBody_trace (input : LoopInput) (hb : Boundary m) : m.rest.trace <:+ (loopBody d m input).rest.trace := by
  have hin := loopCommands_leads (d := d) input hb
  exact (hin.trace.trans (release_leads hin.2).trace).trans (loopOutput_leads hin.2).trace

theorem iterates_trace : ∀ (rounds : List Round) {m : Device β}, Boundary m.fw →
    m.fw.rest.trace <:+ (rounds.foldl (Device.iterate d) m).fw.rest.trace
  | [], _, _ => List.suffix_refl _
  | round :: rounds, m, hb =>
    (loopBody_trace _ hb).trans (iterates_trace rounds (m := m.iterate d round) (loopBody_boundary _ hb))

/-- The mode a run of iterations reaches, from any moment at which nothing plays. -/
theorem iterates_mode : ∀ (rounds : List Round) {m : Device β} {buffer : List UInt8} {n : Nat}, Quiet buffer m.uart →
    Calm m.fw n → m.Roomy d rounds →
    n + (commandsOf (tokenRounds buffer (polledBytes rounds)).flatten).length ≤ uartCommandCapacity →
    (∀ c ∈ commandsOf (tokenRounds buffer (polledBytes rounds)).flatten, c.type ≠ MsgType.playStart.byte) →
    Lossless (rounds.foldl (Device.iterate d) m).fw.rest.trace →
      (rounds.foldl (Device.iterate d) m).fw.rest.mode =
        ((tokenRounds buffer (polledBytes rounds)).flatMap handled).foldl effect m.fw.rest.mode
  | [], _, _, _, _, _, _, _, _, _ => rfl
  | round :: rounds, m, buffer, n, hq, hc, hroom, hfew, hstart, hl => by
    have hsplit : tokenRounds buffer (polledBytes (round :: rounds)) =
        (tokenize buffer round.bytes).1 :: tokenRounds (tokenize buffer round.bytes).2 (polledBytes rounds) := rfl
    rw [hsplit, List.flatten_cons, commandsOf_append] at hfew hstart
    rw [List.length_append] at hfew
    have hcap : uartCommandCapacity ≤ playbackQueueCapacity := by decide
    obtain ⟨hquiet, hfw⟩ := hq.iterate d round hroom.1 (by omega)
    have hlast := iterates_trace (d := d) rounds (m := m.iterate d round) (loopBody_boundary _ hc.boundary)
    have hcs : ∀ c ∈ commandsOf (tokenize buffer round.bytes).1, WellFormed c ∧ c.type ≠ MsgType.playStart.byte :=
      fun c hm => ⟨tokenize_wellFormed _ _ c hm, hstart c (List.mem_append_left _ hm)⟩
    have hlround := hl.earlier hlast
    rw [hfw] at hlround
    obtain ⟨hcalm, hmode⟩ := hc.loopBody round.events _ (by omega) hcs hlround
    rw [← hfw] at hcalm hmode
    change _ = (handled (tokenize buffer round.bytes).1).foldl effect m.fw.rest.mode at hmode
    rw [List.foldl_cons, iterates_mode rounds hquiet hcalm hroom.2 (by omega)
      (fun c hm => hstart c (List.mem_append_right _ hm)) hl, hmode, hsplit, List.flatMap_cons, List.foldl_append]

theorem calm_boot (board : β) : Calm (boot board) 0 := ⟨rfl, (fun h => by cases h), rfl, Nat.le_refl 0⟩

/-- **The mode a run reaches is the automaton's**, on what each of its iterations handles. -/
theorem run_mode (board : β) {rounds : List Round} (hroom : (Device.boot board).Roomy d rounds)
    (hfew : (commandsOf (tokenize [] (polledBytes rounds).flatten).1).length ≤ uartCommandCapacity)
    (hstart : ∀ c ∈ commandsOf (tokenize [] (polledBytes rounds).flatten).1, c.type ≠ MsgType.playStart.byte)
    (hl : Lossless (Device.run d board rounds).fw.rest.trace) :
    (Device.run d board rounds).fw.rest.mode = modeOf ((tokenRounds [] (polledBytes rounds)).flatMap handled) := by
  rw [← flatten_tokenRounds] at hfew hstart
  exact iterates_mode rounds (m := Device.boot board) quiet_init (calm_boot board) hroom (by omega) hstart hl

theorem tokenRounds_short : ∀ (chunks : List (List UInt8)) (buffer : List UInt8), (∀ chunk ∈ chunks, chunk.length ≤ 1) →
    ∀ tokens ∈ tokenRounds buffer chunks, tokens.length ≤ 1
  | [], _, _, _, ht => by cases ht
  | chunk :: chunks, buffer, h, tokens, ht => by
    rcases List.mem_cons.1 ht with rfl | ht
    · exact (length_tokenize_le chunk buffer).trans (h chunk List.mem_cons_self)
    · exact tokenRounds_short chunks _ (fun k hk => h k (List.mem_cons_of_mem _ hk)) tokens ht

/-- When every byte has its own iteration, what is handled is what came. -/
theorem flatMap_handled_short : ∀ {rounds : List (List Token)}, (∀ tokens ∈ rounds, tokens.length ≤ 1) →
    rounds.flatMap handled = rounds.flatten
  | [], _ => rfl
  | tokens :: rounds, h => by
    rw [List.flatMap_cons, List.flatten_cons, handled_of_length (h tokens List.mem_cons_self),
      flatMap_handled_short (fun k hk => h k (List.mem_cons_of_mem _ hk))]

/-- **Two cuts of a stream end in one mode exactly when no session hides a fault**: `rounds` is any run, `single` one in
which every byte has its own iteration. -/
theorem batching_iff (d : Board β) (board board' : β) (rounds single : List Round)
    (hbytes : (polledBytes rounds).flatten = (polledBytes single).flatten)
    (hsingle : ∀ round ∈ single, round.bytes.length ≤ 1)
    (hfew : (commandsOf (tokenize [] (polledBytes rounds).flatten).1).length ≤ 8)
    (hstart : ∀ c ∈ commandsOf (tokenize [] (polledBytes rounds).flatten).1, c.type ≠ MsgType.playStart.byte)
    (hroom : (Device.boot board).Roomy d rounds) (hroom' : (Device.boot board').Roomy d single)
    (hl : Lossless (Device.run d board rounds).fw.rest.trace)
    (hl' : Lossless (Device.run d board' single).fw.rest.trace) :
    (Device.run d board rounds).fw.rest.mode = (Device.run d board' single).fw.rest.mode ↔
      ¬Hidden (tokenRounds [] (polledBytes rounds)) := by
  have hone : ∀ tokens ∈ tokenRounds [] (polledBytes single), tokens.length ≤ 1 :=
    tokenRounds_short _ [] (fun chunk hc => by
      obtain ⟨round, hr, rfl⟩ := List.mem_map.1 hc
      exact hsingle round hr)
  have hmode := run_mode board hroom hfew hstart hl
  have hmode' := run_mode board' hroom' (hbytes ▸ hfew) (hbytes ▸ hstart) hl'
  rw [flatMap_handled_short hone, flatten_tokenRounds, ← hbytes, ← flatten_tokenRounds] at hmode'
  rw [hmode, hmode']
  exact modeOf_handled_iff _

/-- MODE_SET(RECORD) and a stray zero byte after it. -/
def strayAfterRecord : List UInt8 := encode (command .modeSet [Mode.record.byte]) ++ [0]

/-- Every byte in an iteration of its own. -/
def bytewise (bytes : List UInt8) : List Round := bytes.map (fun byte => ⟨[], [[byte]]⟩)

/-- Polled in two iterations the stray byte is not hidden. -/
theorem batching_split :
    ¬Hidden (tokenRounds [] (polledBytes [⟨[], [strayAfterRecord.take 8]⟩, ⟨[], [strayAfterRecord.drop 8]⟩])) :=
  (batching_iff benchBoard true true [⟨[], [strayAfterRecord.take 8]⟩, ⟨[], [strayAfterRecord.drop 8]⟩]
    (bytewise strayAfterRecord) (by decide +kernel) (by decide +kernel) (by decide +kernel) (by decide +kernel)
    (by decide +kernel) (by decide +kernel) (by decide +kernel) (by decide +kernel)).1 (by decide +kernel)

/-- **One iteration handles the stray byte in PASS** and then enters RECORD; byte by byte the same stream ends in
ERROR. -/
theorem batching_hides :
    (polledBytes [⟨[], [strayAfterRecord]⟩]).flatten = (polledBytes (bytewise strayAfterRecord)).flatten ∧
    (commandsOf (tokenize [] strayAfterRecord).1).length ≤ 8 ∧
    (∀ c ∈ commandsOf (tokenize [] strayAfterRecord).1, c.type ≠ MsgType.playStart.byte) ∧
    (Device.boot true).Roomy benchBoard [⟨[], [strayAfterRecord]⟩] ∧
    (Device.boot true).Roomy benchBoard (bytewise strayAfterRecord) ∧
    Lossless (Device.run benchBoard true [⟨[], [strayAfterRecord]⟩]).fw.rest.trace ∧
    Lossless (Device.run benchBoard true (bytewise strayAfterRecord)).fw.rest.trace ∧
    (Device.run benchBoard true [⟨[], [strayAfterRecord]⟩]).fw.rest.mode = .record ∧
    (Device.run benchBoard true (bytewise strayAfterRecord)).fw.rest.mode = .error := by
  decide +kernel

end Pico
end PicoRecorder
