import PicoRecorder.Pico.Credit
import PicoRecorder.PiZero.Feeding
/-!
# Rig — a session and the Pico's main loop at the two ends of a cable

The Pico goes through its loop statement by statement, as `loopBody_eq` cuts it, and sends what its transmitter takes.
The two channels keep the order and lose nothing; how far the Pico has come, what the clock says and how many frames
have arrived is a script, one `Moment` for each time the Zero looks at its stream, its clock or its cancellation hook.
-/
namespace PicoRecorder
namespace Link

open Pico (Fw Board HostEvent LoopInput Frame MsgType PicoMsg sent playbackQueueCapacity)
open PiZero (Carries)

/-- Where the Pico is in its loop: before `tuh_task`, at the commands, and at the two checks at the end. -/
inductive Stage where
  | poll | command | flowControl | watchdog
  deriving DecidableEq, Repr

inductive Statement where
  | poll (events : List HostEvent)
  /-- The next command, if one has arrived. -/
  | command
  | task
  | flowControl
  | watchdog

section

variable {β : Type}

/-- The Pico, and the commands on their way to it. -/
structure Receiver (β : Type) where
  fw : Fw β
  stage : Stage
  down : List (List UInt8)
  /-- History variable: a QUEUE_EVENT was executed with the queue full. -/
  overran : Bool

namespace Receiver

/-- The Pico comes to a state; with the frames it sent on the way. -/
def goes (w : Receiver β) (fw : Fw β) (stage : Stage) : Receiver β × List Frame :=
  ({ w with fw := fw, stage := stage },
    ((sent fw.rest.trace).drop (sent w.fw.rest.trace).length).map PicoMsg.toFrame)

/-- The command is a QUEUE_EVENT that the mode allows, and the queue has no room. -/
def overruns (w : Receiver β) (frame : Frame) : Bool :=
  frame.type = MsgType.queueEvent.byte && Pico.queueCommandAllowed frame.type w.fw.rest.mode &&
    w.fw.queue.count = playbackQueueCapacity

variable (d : Board β)

def receive (w : Receiver β) : Receiver β × List Frame :=
  match w.down with
  | [] => (w, [])
  | bytes :: down =>
    match Pico.decodeFrame bytes with
    | .error _ => ({ w with down := down }, [])
    | .ok frame =>
      ({ w with down := down, overran := w.overran || w.overruns frame } : Receiver β).goes
        (Pico.dispatchCommand d w.fw frame) .command

/-- A statement that is not the next one does nothing. -/
def step (w : Receiver β) : Statement → Receiver β × List Frame
  | .poll events => if w.stage = .poll then w.goes (Pico.poll d events w.fw) .command else (w, [])
  | .command => if w.stage = .command then w.receive d else (w, [])
  | .task => if w.stage = .command then w.goes (Pico.task d.mainHost (Pico.forward d w.fw)) .flowControl else (w, [])
  | .flowControl => if w.stage = .flowControl then w.goes (Pico.flowControlCheck d w.fw) .watchdog else (w, [])
  | .watchdog => if w.stage = .watchdog then w.goes (Pico.transmit d (Pico.watchdogCheck d w.fw)) .poll else (w, [])

variable {d}

theorem goes_of_trace {w : Receiver β} {fw : Fw β} {obs : List Pico.Obs} (h : fw.rest.trace = obs ++ w.fw.rest.trace)
    (stage : Stage) : w.goes fw stage = ({ w with fw := fw, stage := stage }, (sent obs).map PicoMsg.toFrame) := by
  rw [goes, h, Pico.sent_append, List.drop_left]

/-! ## It is the main loop -/

/-- An iteration as far as a place in it. -/
def midway (d : Board β) (m : Fw β) (events : List HostEvent) (commands : List Frame) : Stage → Fw β
  | .poll => m
  | .command => commands.foldl (Pico.dispatchCommand d) (Pico.poll d events m)
  | .flowControl =>
    Pico.task d.mainHost (Pico.forward d (commands.foldl (Pico.dispatchCommand d) (Pico.poll d events m)))
  | .watchdog =>
    Pico.flowControlCheck d
      (Pico.task d.mainHost (Pico.forward d (commands.foldl (Pico.dispatchCommand d) (Pico.poll d events m))))

/-- The state is one that the main loop comes to, at a loop boundary or between two statements of an iteration. -/
def InLoop (d : Board β) (board : β) (w : Receiver β) : Prop :=
  ∃ inputs events commands, w.fw = midway d (Pico.run d board inputs) events commands w.stage

variable {board : β} {w : Receiver β}

theorem InLoop.receive (h : w.InLoop d board) (hstage : w.stage = .command) : (w.receive d).1.InLoop d board := by
  unfold Receiver.receive
  split
  · exact h
  split
  · exact h
  · rename_i frame _
    obtain ⟨inputs, events, commands, hfw⟩ := h
    rw [hstage] at hfw
    refine ⟨inputs, events, commands ++ [frame], ?_⟩
    change Pico.dispatchCommand d w.fw frame = (commands ++ [frame]).foldl _ _
    rw [List.foldl_append, hfw]
    rfl

/-- **Every statement leads from one state of the main loop to another.** -/
theorem InLoop.step (h : w.InLoop d board) (s : Statement) : (w.step d s).1.InLoop d board := by
  cases s with
  | command =>
    simp only [Receiver.step]
    split
    · exact h.receive ‹_›
    · exact h
  | poll events =>
    simp only [Receiver.step]
    split
    · obtain ⟨inputs, _, _, hfw⟩ := h
      rw [‹w.stage = .poll›] at hfw
      exact ⟨inputs, events, [], congrArg (Pico.poll d events) hfw⟩
    · exact h
  | task =>
    simp only [Receiver.step]
    split
    · obtain ⟨inputs, events, commands, hfw⟩ := h
      rw [‹w.stage = .command›] at hfw
      exact ⟨inputs, events, commands, congrArg (fun m => Pico.task d.mainHost (Pico.forward d m)) hfw⟩
    · exact h
  | flowControl =>
    simp only [Receiver.step]
    split
    · obtain ⟨inputs, events, commands, hfw⟩ := h
      rw [‹w.stage = .flowControl›] at hfw
      exact ⟨inputs, events, commands, congrArg (Pico.flowControlCheck d) hfw⟩
    · exact h
  | watchdog =>
    simp only [Receiver.step]
    split
    · obtain ⟨inputs, events, commands, hfw⟩ := h
      rw [‹w.stage = .watchdog›] at hfw
      refine ⟨inputs ++ [⟨events, false, commands⟩], [], [], ?_⟩
      have hrun : Pico.run d board (inputs ++ [⟨events, false, commands⟩]) =
          Pico.loopBody d (Pico.run d board inputs) ⟨events, false, commands⟩ := by
        rw [Pico.run, List.foldl_append]
        rfl
      change Pico.transmit d (Pico.watchdogCheck d w.fw) = Pico.run d board (inputs ++ [⟨events, false, commands⟩])
      rw [hfw, hrun, Pico.loopBody_eq]
      rfl
    · exact h

/-! ## What one statement does -/

/-- The statements that are no command. -/
inductive Moves (d : Board β) : Stage → Fw β → Stage → Fw β → Prop
  | poll (events : List HostEvent) (m : Fw β) : Moves d .poll m .command (Pico.poll d events m)
  | task (m : Fw β) : Moves d .command m .flowControl (Pico.task d.mainHost (Pico.forward d m))
  | flowControl (m : Fw β) : Moves d .flowControl m .watchdog (Pico.flowControlCheck d m)
  | watchdog (m : Fw β) : Moves d .watchdog m .poll (Pico.transmit d (Pico.watchdogCheck d m))

/-- **A step** is nothing, such a statement, or the next command. -/
theorem step_cases (d : Board β) (w : Receiver β) (s : Statement) :
    w.step d s = (w, []) ∨ (∃ fw stage, Moves d w.stage w.fw stage fw ∧ w.step d s = w.goes fw stage) ∨
      w.stage = .command ∧ w.step d s = w.receive d := by
  cases s with
  | command =>
    by_cases hstage : w.stage = .command
    · exact .inr (.inr ⟨hstage, if_pos hstage⟩)
    · exact .inl (if_neg hstage)
  | poll events =>
    by_cases hstage : w.stage = .poll
    · exact .inr (.inl ⟨_, _, hstage ▸ .poll events w.fw, if_pos hstage⟩)
    · exact .inl (if_neg hstage)
  | task =>
    by_cases hstage : w.stage = .command
    · exact .inr (.inl ⟨_, _, hstage ▸ .task w.fw, if_pos hstage⟩)
    · exact .inl (if_neg hstage)
  | flowControl =>
    by_cases hstage : w.stage = .flowControl
    · exact .inr (.inl ⟨_, _, hstage ▸ .flowControl w.fw, if_pos hstage⟩)
    · exact .inl (if_neg hstage)
  | watchdog =>
    by_cases hstage : w.stage = .watchdog
    · exact .inr (.inl ⟨_, _, hstage ▸ .watchdog w.fw, if_pos hstage⟩)
    · exact .inl (if_neg hstage)

theorem Moves.continues {stage stage' : Stage} {m m' : Fw β} (h : Moves d stage m stage' m') (ho : Pico.Opened m) :
    Pico.Continues m m' := by
  cases h with
  | poll events => exact Pico.poll_continues ho events
  | task => exact (Pico.forward_continues ho).trans (Pico.task_continues (Pico.forward_continues ho).2)
  | flowControl => exact Pico.flowControlCheck_continues ho
  | watchdog =>
    exact (Pico.watchdogCheck_continues ho).trans (Pico.transmit_continues (Pico.watchdogCheck_continues ho).2)

theorem Moves.reserved {stage stage' : Stage} {m m' : Fw β} (h : Moves d stage m stage' m') (hb : Pico.Boundary m) :
    Pico.Reserved m m' := by
  cases h with
  | poll events => exact Pico.poll_reserved hb events
  | task =>
    obtain ⟨htells, hforward⟩ := Pico.forward_reserved (d := d) hb
    obtain ⟨htells', hboundary⟩ := Pico.task_reserved (d := d) hforward
    exact ⟨htells.trans htells', hboundary⟩
  | flowControl => exact Pico.flowControlCheck_reserved hb
  | watchdog =>
    obtain ⟨htells, hwatchdog⟩ := Pico.watchdogCheck_reserved (d := d) hb
    obtain ⟨htells', hboundary⟩ := Pico.transmit_reserved (d := d) hwatchdog
    exact ⟨htells.trans htells', hboundary⟩

/-- A command that has arrived whole is executed. -/
theorem receive_cons {w : Receiver β} {bytes : List UInt8} {down : List (List UInt8)} {frame : Frame}
    (hdown : w.down = bytes :: down) (hbytes : Pico.decodeFrame bytes = .ok frame) :
    w.receive d = ({ w with down := down, overran := w.overran || w.overruns frame } : Receiver β).goes
      (Pico.dispatchCommand d w.fw frame) .command := by
  unfold Receiver.receive
  rw [hdown]
  dsimp only
  rw [hbytes]

theorem receive_nil {w : Receiver β} (hdown : w.down = []) : w.receive d = (w, []) := by
  unfold Receiver.receive
  rw [hdown]

end Receiver

/-! ## The two ends -/

/-- What happens before, and what is found, when the Zero turns to the world. -/
structure Moment where
  statements : List Statement
  now : Int
  cancel : Bool
  deliver : Nat

structure Rig (β : Type) where
  script : List Moment
  pico : Receiver β
  up : List Frame

namespace Rig

variable (d : Board β)

def follow (w : Rig β) (s : Statement) : Rig β :=
  { w with pico := (w.pico.step d s).1, up := w.up ++ (w.pico.step d s).2 }

def moment (w : Rig β) : Moment := w.script.headD ⟨[], 0, false, 0⟩

def next (w : Rig β) : Rig β := w.moment.statements.foldl (follow d) { w with script := w.script.tail }

theorem next_loop {d : Board β} {board : β} {w : Rig β} (h : w.pico.InLoop d board) : (w.next d).pico.InLoop d board :=
  Lib.foldl_invariant (P := fun w : Rig β => w.pico.InLoop d board) (fun _ s h => h.step s) _ _ h

/-- The Pico somewhere between two iterations, and nothing on the cable. -/
def opening (board : β) (inputs : List LoopInput) (script : List Moment) : Rig β :=
  ⟨script, ⟨Pico.run d board inputs, .poll, [], false⟩, []⟩

end Rig

/-- The Zero's end. -/
def cable (d : Board β) (patience : Nat) : PiZero.Link (Rig β) where
  clock w := (w.moment.now, w.next d)
  cancelled w := (w.moment.cancel, w.next d)
  read w := (.data ((w.next d).up.take w.moment.deliver), { w.next d with up := (w.next d).up.drop w.moment.deliver })
  write bytes w :=
    (.written (some bytes.length),
      { w.next d with pico := { (w.next d).pico with down := (w.next d).pico.down ++ [bytes] } })
  patience := patience

/-- Every statement keeps it, with the frames it sends at the end of the stream. -/
def Steady (d : Board β) (J : List Frame → Receiver β → Prop) : Prop :=
  ∀ stream w s, J stream w → J (stream ++ (w.step d s).2) (w.step d s).1

section Steady

variable {d : Board β} {J : List Frame → Receiver β → Prop} {front : List Frame} {w : Rig β}

theorem Steady.next (hJ : Steady d J) (h : J (front ++ w.up) w.pico) : J (front ++ (w.next d).up) (w.next d).pico := by
  refine Lib.foldl_invariant (P := fun w : Rig β => J (front ++ w.up) w.pico) (fun w s h => ?_) _ _ h
  change J (front ++ (w.up ++ _)) _
  rw [← List.append_assoc]
  exact hJ _ _ s h

/-- What depends only on the frames not yet handed over, read or not, is carried through every wait. -/
theorem Steady.carries (hJ : Steady d J) (patience : Nat) :
    Carries (cable d patience) (fun frames w => J (frames ++ w.up) w.pico) where
  clock h := hJ.next h
  cancelled h := hJ.next h
  read {frames w} h := by
    change J ((frames ++ (w.next d).up.take w.moment.deliver) ++ (w.next d).up.drop w.moment.deliver) (w.next d).pico
    rw [List.append_assoc, List.take_append_drop]
    exact hJ.next h

end Steady

/-! ## Requests on their way -/

/-- The commands on their way are of a kind. -/
def Spoken (kind : Frame → Prop) (down : List (List UInt8)) : Prop :=
  ∀ bytes ∈ down, ∃ frame, Pico.decodeFrame bytes = .ok frame ∧ kind frame

theorem Spoken.nil {kind : Frame → Prop} : Spoken kind [] := nofun

theorem Spoken.snoc {kind : Frame → Prop} {down : List (List UInt8)} {bytes : List UInt8} {frame : Frame}
    (h : Spoken kind down) (hbytes : Pico.decodeFrame bytes = .ok frame) (hframe : kind frame) :
    Spoken kind (down ++ [bytes]) := by
  intro other hother
  rcases List.mem_append.1 hother with hold | hnew
  · exact h other hold
  · rw [List.mem_singleton.1 hnew]
    exact ⟨frame, hbytes, hframe⟩

theorem decode_request {r : PiZero.Request} (h : r.Valid) : Pico.decodeFrame (Pico.encode r.frame) = .ok r.frame := by
  refine Pico.decodeFrame_frameBytes _ _ ?_
  cases r with
  | queueEvent offsetUs report =>
    obtain ⟨-, -, hreport⟩ := h
    simp [PiZero.Request.frame, Pico.length_leBytes, hreport, Pico.protocolMaxPayload]
  | queueClear | queueEnd | playStart | playAbort | modeSet _ =>
    simp [PiZero.Request.frame, Pico.protocolMaxPayload]

section Sent

variable {d : Board β} {J : List Frame → Receiver β → Prop} {front : List Frame} {w : Rig β}

/-- What the Zero writes is behind the commands that are on their way already. -/
theorem Steady.write (hJ : Steady d J) (patience : Nat) (bytes : List UInt8) {K : List Frame → Receiver β → Prop}
    (hsend : ∀ stream (w : Receiver β), J stream w → K stream { w with down := w.down ++ [bytes] })
    (h : J (front ++ w.up) w.pico) :
    K (front ++ ((cable d patience).write bytes w).2.up) ((cable d patience).write bytes w).2.pico :=
  hsend _ _ (hJ.next h)

end Sent

/-! ## Before a sequence is open -/

/-- No BUFFER_STATUS of ARMED is on its way: the next one acknowledges QUEUE_CLEAR. -/
def Unarmed (stream : List Frame) : Prop :=
  ∀ frame ∈ stream, PiZero.Playback.isStatus frame = true → PiZero.Playback.stateOf frame ≠ PiZero.MODE_ARMED

structure Unopened (d : Board β) (board : β) (stream : List Frame) (w : Receiver β) : Prop where
  loop : w.InLoop d board
  boundary : Pico.Boundary w.fw
  unarmed : Unarmed stream
  kept : w.overran = false

def isModeSet (frame : Frame) : Prop := frame.type = MsgType.modeSet.byte

/-- Until QUEUE_CLEAR is written. -/
def Idle (d : Board β) (board : β) (stream : List Frame) (w : Receiver β) : Prop :=
  Unopened d board stream w ∧ Spoken isModeSet w.down

/-- QUEUE_CLEAR is the last command on its way. -/
def ClearLast (down : List (List UInt8)) : Prop :=
  ∃ sets bytes frame, down = sets ++ [bytes] ∧ Spoken isModeSet sets ∧ Pico.decodeFrame bytes = .ok frame ∧
    frame.type = MsgType.queueClear.byte

/-- Until QUEUE_CLEAR is acknowledged: it is on its way, it was refused, or what it opens is `opened`. -/
def Clearing (d : Board β) (board : β) (opened : List Frame → Receiver β → Prop) (stream : List Frame)
    (w : Receiver β) : Prop :=
  Unopened d board stream w ∧ (ClearLast w.down ∨ w.down = []) ∨ opened stream w

theorem unasked_unarmed {msg : PicoMsg} (h : msg.unasked = true)
    (hstatus : PiZero.Playback.isStatus msg.toFrame = true) :
    PiZero.Playback.stateOf msg.toFrame ≠ PiZero.MODE_ARMED := by
  cases msg with
  | bufferStatus state queued free =>
    cases state with
    | armed => cases h
    | pass | record | playing | error =>
      simp [PiZero.Playback.stateOf, PicoMsg.toFrame, PicoMsg.payload, Pico.Mode.byte, PiZero.MODE_ARMED]
  | _ => cases hstatus

section Opening

variable {d : Board β} {board : β} {stream : List Frame} {w : Receiver β} {fw : Fw β} {stage : Stage}

theorem Unopened.goes (h : Unopened d board stream w) {v : Receiver β} (hfw : v.fw = w.fw) (hkept : v.overran = false)
    (hloop : (v.goes fw stage).1.InLoop d board) (hmove : Pico.Reserved w.fw fw) :
    Unopened d board (stream ++ (v.goes fw stage).2) (v.goes fw stage).1 := by
  obtain ⟨⟨obs, htrace, hunasked⟩, hboundary⟩ := hmove
  rw [← hfw] at htrace
  rw [Receiver.goes_of_trace htrace] at hloop ⊢
  refine ⟨hloop, hboundary, fun frame hframe => ?_, hkept⟩
  rcases List.mem_append.1 hframe with hold | hnew
  · exact h.unarmed frame hold
  · obtain ⟨msg, hmsg, rfl⟩ := List.mem_map.1 hnew
    exact unasked_unarmed (hunasked msg hmsg)

theorem overruns_other {frame : Frame} (h : frame.type ≠ MsgType.queueEvent.byte) : w.overruns frame = false := by
  simp [Receiver.overruns, h]

/-- A MODE_SET before QUEUE_CLEAR. -/
theorem Unopened.modeSet (h : Unopened d board stream w) {bytes : List UInt8} {down : List (List UInt8)} {frame : Frame}
    (hstage : w.stage = .command) (hdown : w.down = bytes :: down) (hbytes : Pico.decodeFrame bytes = .ok frame)
    (hframe : isModeSet frame) :
    Unopened d board (stream ++ (w.receive d).2) (w.receive d).1 ∧ (w.receive d).1.down = down := by
  have hloop := h.loop.receive (d := d) hstage
  rw [Receiver.receive_cons hdown hbytes] at hloop ⊢
  refine ⟨h.goes (v := { w with down := down, overran := _ }) rfl ?_ hloop
    (Pico.dispatch_modeSet_reserved h.boundary hframe), rfl⟩
  rw [h.kept, overruns_other (by rw [hframe]; decide)]
  rfl

theorem steady_idle : Steady d (Idle d board) := by
  intro stream w s h
  obtain ⟨hidle, hdown⟩ := h
  have hloop := hidle.loop.step s
  rcases Receiver.step_cases d w s with hs | ⟨fw, stage, hmoves, hs⟩ | ⟨hstage, hs⟩
  · rw [hs, List.append_nil]
    exact ⟨hidle, hdown⟩
  · rw [hs] at hloop ⊢
    exact ⟨hidle.goes rfl hidle.kept hloop (hmoves.reserved hidle.boundary), hdown⟩
  · rw [hs]
    cases hw : w.down with
    | nil =>
      rw [Receiver.receive_nil hw, List.append_nil]
      exact ⟨hidle, hdown⟩
    | cons bytes down =>
      obtain ⟨frame, hbytes, hframe⟩ := hdown bytes (by simp [hw])
      obtain ⟨hidle', hdown'⟩ := hidle.modeSet hstage hw hbytes hframe
      refine ⟨hidle', ?_⟩
      rw [hdown']
      exact fun other hother => hdown other (by simp [hw, hother])

theorem Unopened.asks (h : Unopened d board stream w) (down : List (List UInt8)) :
    Unopened d board stream { w with down := down } :=
  ⟨h.loop, h.boundary, h.unarmed, h.kept⟩

theorem Idle.modeSet (h : Idle d board stream w) (target : UInt8) :
    Idle d board stream { w with down := w.down ++ [Pico.encode (PiZero.Request.modeSet target).frame] } :=
  ⟨h.1.asks _, h.2.snoc (decode_request (r := .modeSet target) trivial) rfl⟩

theorem Idle.answered {before after : List Frame} {frame : Frame} (h : Idle d board (before ++ frame :: after) w) :
    Idle d board (before ++ after) w := by
  refine ⟨⟨h.1.loop, h.1.boundary, fun other hother => h.1.unarmed other ?_, h.1.kept⟩, h.2⟩
  simp only [List.mem_append, List.mem_cons] at hother ⊢
  exact hother.imp id .inr

/-- QUEUE_CLEAR is written. -/
theorem Idle.clears (h : Idle d board stream w) (opened : List Frame → Receiver β → Prop) :
    Clearing d board opened stream { w with down := w.down ++ [Pico.encode PiZero.Request.queueClear.frame] } :=
  .inl ⟨h.1.asks _, .inl ⟨w.down, _, _, rfl, h.2, decode_request (r := .queueClear) trivial, rfl⟩⟩

theorem opening_idle (d : Board β) (board : β) (inputs : List LoopInput) (script : List Moment) :
    Idle d board [] (Rig.opening d board inputs script).pico :=
  ⟨⟨⟨inputs, [], [], rfl⟩, (Pico.run_invariant Pico.boot_joint Pico.joint_step board inputs).1, nofun, rfl⟩, Spoken.nil⟩

/-- What QUEUE_CLEAR opens, and the frame that acknowledges it. -/
structure Opens (d : Board β) (board : β) (opened : List Frame → Receiver β → Prop) : Prop where
  steady : Steady d opened
  begun : ∀ {stream} {w : Receiver β}, Unarmed stream → w.InLoop d board → Pico.Opened w.fw → w.fw.queue.count = 0 →
    w.stage = .command → w.down = [] → w.overran = false →
      opened (stream ++ [(PicoMsg.bufferStatus .armed 0 512).toFrame]) w

/-- QUEUE_CLEAR is executed: it was refused, or the sequence is open. -/
theorem Unopened.queueClear (h : Unopened d board stream w) {opened : List Frame → Receiver β → Prop}
    (hopens : Opens d board opened) {bytes : List UInt8} {frame : Frame} (hstage : w.stage = .command)
    (hdown : w.down = [bytes]) (hbytes : Pico.decodeFrame bytes = .ok frame)
    (hframe : frame.type = MsgType.queueClear.byte) :
    Clearing d board opened (stream ++ (w.receive d).2) (w.receive d).1 := by
  have hloop := h.loop.receive (d := d) hstage
  have hkept : (w.overran || w.overruns frame) = false := by
    rw [h.kept, overruns_other (by rw [hframe]; decide)]
    rfl
  rw [Receiver.receive_cons hdown hbytes, hkept] at hloop ⊢
  rcases Pico.dispatch_queueClear (d := d) h.boundary hframe with hreserved | ⟨hopened, hcount, obs, htrace, hsent⟩
  · exact .inl ⟨h.goes (v := { w with down := [], overran := false }) rfl rfl hloop hreserved, .inr rfl⟩
  · right
    rw [Receiver.goes_of_trace (w := { w with down := [], overran := false }) htrace, hsent] at hloop ⊢
    exact hopens.begun h.unarmed hloop hopened hcount rfl rfl rfl

theorem steady_clearing {opened : List Frame → Receiver β → Prop} (hopens : Opens d board opened) :
    Steady d (Clearing d board opened) := by
  intro stream w s h
  rcases h with ⟨hclearing, hdown⟩ | hopened
  · have hloop := hclearing.loop.step s
    rcases Receiver.step_cases d w s with hs | ⟨fw, stage, hmoves, hs⟩ | ⟨hstage, hs⟩
    · rw [hs, List.append_nil]
      exact .inl ⟨hclearing, hdown⟩
    · rw [hs] at hloop ⊢
      exact .inl ⟨hclearing.goes rfl hclearing.kept hloop (hmoves.reserved hclearing.boundary), hdown⟩
    · rw [hs]
      rcases hdown with ⟨sets, bytes, frame, hdown, hsets, hbytes, hframe⟩ | hdown
      · cases sets with
        | nil => exact hclearing.queueClear hopens hstage hdown hbytes hframe
        | cons first sets =>
          obtain ⟨set, hfirst, hset⟩ := hsets first (by simp)
          obtain ⟨hclearing', hdown'⟩ := hclearing.modeSet hstage (hdown.trans rfl) hfirst hset
          refine .inl ⟨hclearing', .inl ⟨sets, bytes, frame, hdown', ?_, hbytes, hframe⟩⟩
          exact fun other hother => hsets other (by simp [hother])
      · rw [Receiver.receive_nil hdown, List.append_nil]
        exact .inl ⟨hclearing, .inr hdown⟩
  · exact .inr (hopens.steady stream w s hopened)

end Opening

end

end Link
end PicoRecorder
