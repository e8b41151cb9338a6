import PicoRecorder.Pico.Steps
import PicoRecorder.Pico.Tokens
import PicoRecorder.Pico.Uart
/-!
# Device — the main loop with the transport it polls (`main.c`)

One iteration polls its bytes, takes the latched fault, takes out the queued commands and hands all of it to `loopBody`.
The receive interrupt brings its bytes before any turn of the poll loop.  While the rings have room, what an iteration
is given is what the tokens of its bytes say (`Quiet.iterate`).
-/
namespace PicoRecorder
namespace Pico

open Lib (CounterRing)

structure Device (β : Type) where
  uart : Uart
  fw : Fw β

/-- What an iteration meets: the callbacks of `tuh_task`, and the bytes that come before each turn of the poll loop. -/
structure Round where
  events : List HostEvent
  arrivals : List (List UInt8)

namespace Uart

/-- The receive interrupt, so many times. -/
def receive (bytes : List UInt8) (u : Uart) : Uart := bytes.foldl (fun u byte => u.rxPushIsr byte) u

/-- `pico_uart_transport_poll` with bytes coming in meanwhile. -/
def pollTurns : List (List UInt8) → Uart → Uart
  | [], u => u.poll
  | bytes :: arrivals, u => pollTurns arrivals (u.receive bytes).pollByte

/-- The loop over `pico_uart_transport_pop_command`. -/
def popCommands : Nat → Uart → List Frame × Uart
  | 0, u => ([], u)
  | fuel + 1, u =>
    match u.popCommand with
    | none => ([], u)
    | some (c, u') => (c :: (popCommands fuel u').1, (popCommands fuel u').2)

/-- No byte finds the receive ring full. -/
def Room : List (List UInt8) → Uart → Prop
  | [], _ => True
  | bytes :: arrivals, u =>
    u.rx.toList.length + bytes.length ≤ uartRxRingCapacity ∧ Room arrivals (u.receive bytes).pollByte

instance : ∀ (arrivals : List (List UInt8)) (u : Uart), Decidable (Room arrivals u)
  | [], _ => inferInstanceAs (Decidable True)
  | bytes :: arrivals, u =>
    have := instDecidableRoom arrivals (u.receive bytes).pollByte
    inferInstanceAs (Decidable (_ ∧ _))

end Uart

section Loop

variable {β : Type} (d : Board β)

/-- One iteration of the loop in `main`, transport and all. -/
def Device.iterate (m : Device β) (round : Round) : Device β :=
  let polled := m.uart.pollTurns round.arrivals
  let taken := polled.takeFault
  let popped := taken.2.popCommands taken.2.commands.count
  ⟨popped.2, loopBody d m.fw ⟨round.events, taken.1, popped.1⟩⟩

def Device.boot (board : β) : Device β := ⟨Uart.init, Pico.boot board⟩

def Device.run (board : β) (rounds : List Round) : Device β := rounds.foldl (Device.iterate d) (Device.boot board)

/-- No iteration overflows the receive ring. -/
def Device.Roomy : Device β → List Round → Prop
  | _, [] => True
  | m, round :: rounds => m.uart.Room round.arrivals ∧ Device.Roomy (m.iterate d round) rounds

instance : ∀ (m : Device β) (rounds : List Round), Decidable (m.Roomy d rounds)
  | _, [] => inferInstanceAs (Decidable True)
  | m, round :: rounds =>
    have := instDecidableRoomy (m.iterate d round) rounds
    inferInstanceAs (Decidable (_ ∧ _))

end Loop

/-! ## One iteration's bytes -/

theorem nextBuffer_legal (buffer : List UInt8) (byte : UInt8) : Legal (nextBuffer buffer byte) := by
  unfold nextBuffer
  split
  · assumption
  · exact legal_nil

theorem tokenize_legal : ∀ (bytes : List UInt8) {buffer : List UInt8}, Legal buffer → Legal (tokenize buffer bytes).2
  | [], _, h => h
  | byte :: bytes, buffer, _ => tokenize_legal bytes (nextBuffer_legal buffer byte)

/-- A byte overflows the command ring only when it completes a command and the ring is full. -/
theorem Uart.parseByte_commandOverflow {u : Uart} (hl : Legal u.parser) {byte : UInt8}
    (h : decodeCommand (u.parser ++ [byte]) = none ∨ u.commands.toList.length < uartCommandCapacity) :
    (u.parseByte byte).stats.commandOverflow = u.stats.commandOverflow := by
  have hcap : ¬u.parser.length ≥ uartParserCapacity := by have := hl.length_lt; omega
  unfold Uart.parseByte
  simp only [if_neg hcap]
  split
  · rfl
  split
  · rfl
  split
  · rfl
  split
  · rfl
  split
  · rfl
  rw [List.take_of_length_le (hl.length_snoc_le byte)]
  cases hd : decodeFrame (u.parser ++ [byte]) with
  | error e => rfl
  | ok frame =>
    dsimp only
    unfold Uart.enqueueCommand
    split
    · rfl
    · rename_i hvalid
      cases hp : u.commands.push frame with
      | some commands => rfl
      | none =>
        have hfull := (CounterRing.push_eq_none _ _).1 hp
        rcases h with hnone | hroom
        · rw [← Bool.not_and, Bool.not_eq_true', Bool.not_eq_false] at hvalid
          unfold decodeCommand at hnone
          rw [hd] at hnone
          dsimp only at hnone
          rw [if_pos hvalid] at hnone
          cases hnone
        · omega

/-- Bytes on their way through an iteration, `p` the parser before it: some are parsed, some in the ring, some ahead. -/
structure Caught (p : Parse) (whole : List UInt8) (u : Uart) (ahead : List UInt8) : Prop where
  legal : Legal p.buffer
  fresh : p.commands = []
  few : (commandsOf (tokenize p.buffer whole).1).length ≤ uartCommandCapacity
  split : ∃ parsed, whole = parsed ++ (u.rx.toList ++ ahead) ∧ u.view [] = parsed.foldl Parse.feed p

variable {p : Parse} {whole ahead : List UInt8} {u : Uart}

theorem Caught.receive : ∀ {bytes : List UInt8} {u : Uart}, Caught p whole u (bytes ++ ahead) →
    u.rx.toList.length + bytes.length ≤ uartRxRingCapacity → Caught p whole (u.receive bytes) ahead
  | [], _, h, _ => h
  | byte :: bytes, u, h, hroom => by
    rw [List.length_cons] at hroom
    cases hp : u.rx.push byte with
    | none =>
      have := (CounterRing.push_eq_none _ _).1 hp
      omega
    | some rx =>
      have hpush := (CounterRing.toList_push _ _ _ hp).1
      have hisr : u.rxPushIsr byte = { u with rx := rx } := by rw [Uart.rxPushIsr, hp]
      have hstep : Caught p whole { u with rx := rx } (bytes ++ ahead) := by
        obtain ⟨parsed, hsplit, hview⟩ := h.split
        exact ⟨h.legal, h.fresh, h.few, parsed, by rw [hsplit, hpush]; simp, hview⟩
      change Caught p whole ((u.rxPushIsr byte).receive bytes) ahead
      rw [hisr]
      exact Caught.receive hstep (by rw [hpush, List.length_append, List.length_singleton]; omega)

/-- A turn of the poll loop parses the oldest byte; the ring has a place for what it may complete. -/
theorem Caught.pollByte (h : Caught p whole u ahead) :
    Caught p whole u.pollByte ahead ∧ u.pollByte.rx.toList = u.rx.toList.tail := by
  unfold Uart.pollByte
  cases hp : u.rx.pop with
  | none =>
    have hnil := (CounterRing.pop_eq_none _).1 hp
    exact ⟨h, by rw [hnil]; rfl⟩
  | some taken =>
    obtain ⟨byte, rx⟩ := taken
    have hpop := CounterRing.toList_pop _ _ _ hp
    obtain ⟨parsed, hsplit, hview⟩ := h.split
    have htokens := foldl_feed_tokenize parsed p
    rw [← hview, h.fresh, List.nil_append] at htokens
    have hparser : u.parser = (tokenize p.buffer parsed).2 := congrArg Parse.buffer htokens
    have hcommands : u.commands.toList = commandsOf (tokenize p.buffer parsed).1 := congrArg Parse.commands htokens
    have hlegal : Legal u.parser := hparser ▸ tokenize_legal parsed h.legal
    have hover : ({ u with rx := rx }.parseByte byte).stats.commandOverflow = u.stats.commandOverflow := by
      refine Uart.parseByte_commandOverflow (u := { u with rx := rx }) hlegal ?_
      cases hd : decodeCommand (u.parser ++ [byte]) with
      | none => exact .inl rfl
      | some c =>
        -- This command is one more of the eight.
        have hL : ¬Legal (u.parser ++ [byte]) := by
          obtain ⟨he, hc⟩ := decodeCommand_eq_some.1 hd
          rw [he]
          exact (encode_legal hc).2
        have htoken : token? (tokenize p.buffer parsed).2 byte = some (.command c) := by
          rw [← hparser, token?, if_neg hL, hd]
        have hfew := h.few
        rw [hsplit, hpop, tokenize_append, List.cons_append, tokenize, htoken] at hfew
        simp only [Option.toList_some, List.singleton_append, commandsOf_append, commandsOf_command, List.length_append,
          List.length_cons] at hfew
        refine .inr ?_
        change u.commands.toList.length < uartCommandCapacity
        rw [hcommands]
        omega
    have hfeed := Uart.parseByte_view (u := { u with rx := rx }) hlegal hover []
    have hrx : ({ u with rx := rx }.parseByte byte).rx.toList = rx.toList := by rw [Uart.parseByte_rx]
    refine ⟨⟨h.legal, h.fresh, h.few, parsed ++ [byte], ?_, ?_⟩, ?_⟩
    · rw [hsplit, hpop]
      dsimp only
      rw [hrx]
      simp
    · rw [List.foldl_append, ← hview]
      exact hfeed
    · dsimp only
      rw [hrx, hpop, List.tail_cons]

theorem Caught.poll (h : Caught p whole u ahead) : Caught p whole u.poll ahead ∧ u.poll.rx.toList = [] := by
  have key : ∀ n, Caught p whole (Nat.repeat Uart.pollByte n u) ahead := fun n => by
    induction n with
    | zero => exact h
    | succ n ih => exact ih.pollByte.1
  exact ⟨key _, u.toList_poll⟩

/-- **An iteration's polling parses its bytes**, the ring's rest first, and leaves the ring empty. -/
theorem Caught.pollTurns : ∀ {arrivals : List (List UInt8)} {u : Uart}, Caught p whole u arrivals.flatten →
    u.Room arrivals → (u.pollTurns arrivals).view [] = whole.foldl Parse.feed p ∧ (u.pollTurns arrivals).rx.toList = []
  | [], u, h, _ => by
    obtain ⟨h', hrx⟩ := h.poll
    obtain ⟨parsed, hsplit, hview⟩ := h'.split
    rw [hrx] at hsplit
    rw [List.nil_append, List.flatten_nil, List.append_nil] at hsplit
    rw [hsplit]
    exact ⟨hview, hrx⟩
  | bytes :: arrivals, u, h, hroom => (h.receive hroom.1).pollByte.1.pollTurns hroom.2

theorem popCommands_all : ∀ (cs : List Frame) (u : Uart), u.commands.toList = cs →
    (u.popCommands cs.length).1 = cs ∧ (u.popCommands cs.length).2.commands.toList = [] ∧
      (u.popCommands cs.length).2.rx = u.rx ∧ (u.popCommands cs.length).2.parser = u.parser ∧
        (u.popCommands cs.length).2.faultPending = u.faultPending
  | [], u, h => ⟨rfl, h, rfl, rfl, rfl⟩
  | c :: cs, u, h => by
    cases hp : u.commands.pop with
    | none =>
      rw [CounterRing.pop_eq_none, h] at hp
      cases hp
    | some taken =>
      obtain ⟨c', commands⟩ := taken
      have hpop := CounterRing.toList_pop _ _ _ hp
      rw [h] at hpop
      obtain ⟨rfl, hrest⟩ := List.cons.inj hpop
      have hcommand : u.popCommand = some (c, { u with commands := commands }) := by rw [Uart.popCommand, hp]; rfl
      obtain ⟨h₁, h₂, h₃, h₄, h₅⟩ := popCommands_all cs { u with commands := commands } hrest.symm
      rw [List.length_cons, Uart.popCommands, hcommand]
      exact ⟨congrArg (c :: ·) h₁, h₂, h₃, h₄, h₅⟩

/-- The transport between two iterations. -/
structure Quiet (buffer : List UInt8) (u : Uart) : Prop where
  rx : u.rx.toList = []
  commands : u.commands.toList = []
  parser : u.parser = buffer
  calm : u.faultPending = false
  legal : Legal buffer

theorem quiet_init : Quiet [] Uart.init := ⟨by simp [Uart.init], by simp [Uart.init], rfl, rfl, legal_nil⟩

def Round.bytes (round : Round) : List UInt8 := round.arrivals.flatten

/-- **What an iteration is given is what the tokens of its bytes say.** -/
theorem Quiet.iterate {β : Type} (d : Board β) {m : Device β} {buffer : List UInt8} (h : Quiet buffer m.uart)
    (round : Round) (hroom : m.uart.Room round.arrivals)
    (hfew : (commandsOf (tokenize buffer round.bytes).1).length ≤ uartCommandCapacity) :
    Quiet (tokenize buffer round.bytes).2 (m.iterate d round).uart ∧
      (m.iterate d round).fw = loopBody d m.fw ⟨round.events, anyMalformed (tokenize buffer round.bytes).1,
        commandsOf (tokenize buffer round.bytes).1⟩ := by
  have hcaught : Caught ⟨buffer, [], false⟩ round.bytes m.uart round.arrivals.flatten :=
    ⟨h.legal, rfl, hfew, [], by rw [h.rx]; rfl, by simp [Uart.view, h.parser, h.commands, h.calm]⟩
  obtain ⟨hview, hrx⟩ := hcaught.pollTurns hroom
  rw [foldl_feed_tokenize] at hview
  have hparser : (m.uart.pollTurns round.arrivals).parser = (tokenize buffer round.bytes).2 :=
    congrArg Parse.buffer hview
  have hcommands : (m.uart.pollTurns round.arrivals).commands.toList = commandsOf (tokenize buffer round.bytes).1 :=
    congrArg Parse.commands hview
  have hfault : (m.uart.pollTurns round.arrivals).faultPending = anyMalformed (tokenize buffer round.bytes).1 :=
    (congrArg Parse.fault hview).trans (Bool.false_or _)
  obtain ⟨h₁, h₂, h₃, h₄, h₅⟩ := popCommands_all _ (m.uart.pollTurns round.arrivals).takeFault.2 hcommands
  have hcount : (m.uart.pollTurns round.arrivals).takeFault.2.commands.count =
      (commandsOf (tokenize buffer round.bytes).1).length := by
    rw [← CounterRing.length_toList, ← hcommands]
    rfl
  unfold Device.iterate
  dsimp only
  rw [hcount]
  refine ⟨⟨by rw [h₃]; exact hrx, h₂, h₄.trans hparser, h₅, tokenize_legal _ h.legal⟩, ?_⟩
  rw [h₁, ← hfault]
  rfl

end Pico
end PicoRecorder
