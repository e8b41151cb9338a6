import PicoRecorder.Pico.Uart
/-!
# Resync — what a rejected byte takes with it

The parser throws away all it has gathered when a check fails, so it cuts any stream into `Piece`s: a stray byte, MAGIC
with a wrong version, a header with an impossible length, or a header and as many bytes as it declares.  A frame is
found behind other bytes exactly when those come out even in pieces (`taken_iff`); MAGIC alone does not, and costs the
frame behind it its own MAGIC.
-/
namespace PicoRecorder
namespace Pico

open Lib (CounterRing)

/-- What the parser takes out of the stream at once, told by its header alone. -/
inductive Piece : List UInt8 → Prop where
  | stray (byte : UInt8) (h : byte ≠ protocolMagic) : Piece [byte]
  | version (byte : UInt8) (h : byte ≠ protocolVersion) : Piece [protocolMagic, byte]
  | length (type l₀ l₁ : UInt8) (h : protocolMaxPayload < leNat [l₀, l₁]) :
    Piece [protocolMagic, protocolVersion, type, l₀, l₁]
  | whole (type l₀ l₁ : UInt8) (body : List UInt8) (h : leNat [l₀, l₁] ≤ protocolMaxPayload)
    (hbody : body.length = leNat [l₀, l₁] + 2) :
    Piece (protocolMagic :: protocolVersion :: type :: l₀ :: l₁ :: body)

/-- Bytes that come out even in pieces. -/
def Pieces (bytes : List UInt8) : Prop := ∃ pieces : List (List UInt8), (∀ p ∈ pieces, Piece p) ∧ bytes = pieces.flatten

/-- A piece is the shortest beginning that is no longer legal. -/
theorem Piece.legal {p : List UInt8} (h : Piece p) : ∃ front last, p = front ++ [last] ∧ Legal front ∧ ¬Legal p := by
  cases h with
  | stray byte h =>
    refine ⟨[], byte, rfl, legal_nil, fun hl => h ?_⟩
    exact hl.1 (by simp)
  | version byte h =>
    refine ⟨[protocolMagic], byte, rfl, ⟨fun _ => rfl, fun hl => by simp at hl, fun hl => by simp at hl⟩,
      fun hl => h ?_⟩
    exact hl.2.1 (by simp)
  | length type l₀ l₁ h =>
    refine ⟨[protocolMagic, protocolVersion, type, l₀], l₁, rfl,
      ⟨fun _ => rfl, fun _ => rfl, fun hl => by simp at hl⟩, fun hl => ?_⟩
    have hdecl : leNat [l₀, l₁] ≤ protocolMaxPayload := (hl.2.2 (by simp)).1
    omega
  | whole type l₀ l₁ body h hbody =>
    have hne : body ≠ [] := by
      intro hb
      rw [hb] at hbody
      simp at hbody
    refine ⟨protocolMagic :: protocolVersion :: type :: l₀ :: l₁ :: body.dropLast, body.getLast hne, ?_,
      ⟨fun _ => rfl, fun _ => rfl, fun _ => ⟨h, ?_⟩⟩, fun hl => ?_⟩
    · simp [List.dropLast_append_getLast hne]
    · have hdecl : declaredLength (protocolMagic :: protocolVersion :: type :: l₀ :: l₁ :: body.dropLast) =
          leNat [l₀, l₁] := rfl
      rw [hdecl]
      simp only [List.length_cons, List.length_dropLast]
      omega
    · have hlt : (protocolMagic :: protocolVersion :: type :: l₀ :: l₁ :: body).length < 7 + leNat [l₀, l₁] :=
        (hl.2.2 (by simp)).2
      simp only [List.length_cons] at hlt
      omega

theorem Legal.cons_two {bytes : List UInt8} (h : Legal bytes) (hl : 2 ≤ bytes.length) :
    ∃ rest, bytes = protocolMagic :: protocolVersion :: rest := by
  obtain ⟨a, b, rest, rfl⟩ : ∃ a b rest, bytes = a :: b :: rest := by
    match bytes, hl with
    | a :: b :: rest, _ => exact ⟨a, b, rest, rfl⟩
  have ha : a = protocolMagic := h.1 (by simp)
  have hb : b = protocolVersion := h.2.1 hl
  exact ⟨rest, by rw [ha, hb]⟩

/-- The byte on which a legal beginning ends makes it a piece. -/
theorem piece_of_illegal {bytes : List UInt8} {byte : UInt8} (h : Legal bytes) (hn : ¬Legal (bytes ++ [byte])) :
    Piece (bytes ++ [byte]) := by
  have hlegal := legal_snoc h byte
  by_cases hm : bytes = [] ∧ byte ≠ protocolMagic
  · obtain ⟨rfl, hb⟩ := hm
    exact .stray byte hb
  by_cases hv : (bytes ++ [byte]).length = 2 ∧ (bytes ++ [byte]).getD 1 0 ≠ protocolVersion
  · obtain ⟨hl, hb⟩ := hv
    obtain ⟨a, rfl⟩ : ∃ a, bytes = [a] := List.length_eq_one_iff.1 (by simpa using hl)
    have ha : a = protocolMagic := h.1 (by simp)
    subst ha
    exact .version byte hb
  by_cases h5 : (bytes ++ [byte]).length < 5
  · exact absurd (hlegal.2 ⟨hm, hv, .inl h5⟩) hn
  have hlen : (bytes ++ [byte]).length = bytes.length + 1 := by simp
  obtain ⟨rest, hrest⟩ := h.cons_two (by omega)
  by_cases h4 : bytes.length = 4
  · obtain ⟨type, l₀, rfl⟩ : ∃ type l₀, rest = [type, l₀] := by
      rw [hrest] at h4
      match rest, h4 with
      | [type, l₀], _ => exact ⟨type, l₀, rfl⟩
    subst hrest
    by_cases hlong : protocolMaxPayload < leNat [l₀, byte]
    · exact .length type l₀ byte hlong
    · refine absurd (hlegal.2 ⟨hm, hv, .inr ⟨Nat.le_of_not_lt hlong, ?_⟩⟩) hn
      have hdecl : declaredLength ([protocolMagic, protocolVersion, type, l₀] ++ [byte]) = leNat [l₀, byte] := rfl
      rw [hdecl]
      simp
      omega
  · obtain ⟨type, l₀, l₁, body, rfl⟩ : ∃ type l₀ l₁ body, rest = type :: l₀ :: l₁ :: body := by
      have hl : 3 ≤ rest.length := by
        have hl := congrArg List.length hrest
        simp only [List.length_cons] at hl
        omega
      match rest, hl with
      | type :: l₀ :: l₁ :: body, _ => exact ⟨type, l₀, l₁, body, rfl⟩
    subst hrest
    have hfive : 5 ≤ (protocolMagic :: protocolVersion :: type :: l₀ :: l₁ :: body).length := by simp
    obtain ⟨hmax, hlt⟩ : leNat [l₀, l₁] ≤ protocolMaxPayload ∧ _ := h.2.2 hfive
    have hdecl : declaredLength (protocolMagic :: protocolVersion :: type :: l₀ :: l₁ :: body ++ [byte]) =
        leNat [l₀, l₁] := rfl
    have hfull :
        ¬(protocolMagic :: protocolVersion :: type :: l₀ :: l₁ :: body ++ [byte]).length < 7 + leNat [l₀, l₁] :=
      fun hs => hn (hlegal.2 ⟨hm, hv, .inr ⟨by rw [hdecl]; exact hmax, by rw [hdecl]; exact hs⟩⟩)
    refine .whole type l₀ l₁ (body ++ [byte]) hmax ?_
    have hd : declaredLength (protocolMagic :: protocolVersion :: type :: l₀ :: l₁ :: body) = leNat [l₀, l₁] := rfl
    rw [hd] at hlt
    simp only [List.length_append, List.length_cons, List.length_nil] at hlt hfull ⊢
    omega

/-! ## The parser's cuts -/

theorem feed_illegal {p : Parse} {byte : UInt8} (h : ¬Legal (p.buffer ++ [byte])) : (p.feed byte).buffer = [] := by
  unfold Parse.feed
  dsimp only
  rw [if_neg h]
  cases decodeCommand (p.buffer ++ [byte]) <;> rfl

/-- A piece fed to an empty buffer leaves it empty. -/
theorem feed_piece {p : Parse} (hp : p.buffer = []) {piece : List UInt8} (h : Piece piece) :
    (piece.foldl Parse.feed p).buffer = [] := by
  obtain ⟨front, last, rfl, hfront, hn⟩ := h.legal
  rw [List.foldl_append, feed_legal front p (by rw [hp]; exact hfront), hp]
  exact feed_illegal hn

theorem feed_pieces : ∀ {pieces : List (List UInt8)} {p : Parse}, p.buffer = [] → (∀ q ∈ pieces, Piece q) →
    (pieces.flatten.foldl Parse.feed p).buffer = []
  | [], _, hp, _ => hp
  | q :: pieces, p, hp, h => by
    rw [List.flatten_cons, List.foldl_append]
    exact feed_pieces (feed_piece hp (h q (by simp))) (fun r hr => h r (List.mem_cons_of_mem _ hr))

/-- What the parser holds is the rest after whole pieces, and nothing speaks against it yet. -/
theorem feed_cuts {p : Parse} (hp : p.buffer = []) (bytes : List UInt8) :
    Legal (bytes.foldl Parse.feed p).buffer ∧
      ∃ pieces : List (List UInt8), (∀ q ∈ pieces, Piece q) ∧
        bytes = pieces.flatten ++ (bytes.foldl Parse.feed p).buffer := by
  induction bytes using List.reverseRecOn with
  | nil =>
    rw [List.foldl_nil, hp]
    exact ⟨legal_nil, [], by simp, rfl⟩
  | append_singleton bytes byte ih =>
    obtain ⟨hl, pieces, hpieces, hsplit⟩ := ih
    rw [List.foldl_append, List.foldl_cons, List.foldl_nil]
    by_cases h : Legal ((bytes.foldl Parse.feed p).buffer ++ [byte])
    · rw [feed_of_legal h]
      refine ⟨h, pieces, hpieces, ?_⟩
      conv => lhs; rw [hsplit]
      rw [List.append_assoc]
    · rw [feed_illegal h]
      refine ⟨legal_nil, pieces ++ [(bytes.foldl Parse.feed p).buffer ++ [byte]], fun q hq => ?_, ?_⟩
      · rcases List.mem_append.1 hq with hq | hq
        · exact hpieces q hq
        · rw [List.mem_singleton.1 hq]
          exact piece_of_illegal hl h
      · conv => lhs; rw [hsplit]
        simp

/-- **The parser is at a frame boundary exactly after whole pieces.** -/
theorem boundary_iff {p : Parse} (hp : p.buffer = []) (bytes : List UInt8) :
    (bytes.foldl Parse.feed p).buffer = [] ↔ Pieces bytes := by
  constructor
  · intro h
    obtain ⟨-, pieces, hpieces, hsplit⟩ := feed_cuts hp bytes
    rw [h, List.append_nil] at hsplit
    exact ⟨pieces, hpieces, hsplit⟩
  · rintro ⟨pieces, hpieces, rfl⟩
    exact feed_pieces hp hpieces

/-- Bytes either all stay in the buffer, or what is left of them is shorter. -/
theorem feed_buffer (p : Parse) (bytes : List UInt8) :
    (bytes.foldl Parse.feed p).buffer = p.buffer ++ bytes ∨
      (bytes.foldl Parse.feed p).buffer.length < bytes.length := by
  induction bytes using List.reverseRecOn with
  | nil => exact .inl (by simp)
  | append_singleton bytes byte ih =>
    rw [List.foldl_append, List.foldl_cons, List.foldl_nil]
    by_cases h : Legal ((bytes.foldl Parse.feed p).buffer ++ [byte])
    · rw [feed_of_legal h]
      rcases ih with ih | ih
      · left
        simp [ih]
      · right
        simpa using ih
    · right
      rw [feed_illegal h]
      simp

/-- **A command is taken on its last byte exactly when its first one met an empty buffer.** -/
theorem feed_takes {c : Frame} (hc : WellFormed c) (p : Parse) :
    ((encode c).foldl Parse.feed p).commands = ((encode c).dropLast.foldl Parse.feed p).commands ++ [c] ↔
      p.buffer = [] := by
  obtain ⟨hinit, hfull⟩ := encode_legal hc
  have hlast : encode c = (encode c).dropLast ++ [(encode c).getLast (encode_ne_nil c)] :=
    (List.dropLast_append_getLast (encode_ne_nil c)).symm
  generalize hfront : (encode c).dropLast = front at *
  generalize (encode c).getLast (encode_ne_nil c) = last at *
  rw [hlast] at hfull ⊢
  rw [List.foldl_append, List.foldl_cons, List.foldl_nil]
  constructor
  · intro h
    -- the byte that enqueues `c` completes a buffer that is the encoding of `c`
    have hbuf : (front.foldl Parse.feed p).buffer = front := by
      unfold Parse.feed at h
      dsimp only at h
      split at h
      · simp at h
      · split at h
        · rename_i d hd
          obtain rfl : d = c := by simpa using h
          have he := (decodeCommand_eq_some.1 hd).1
          rw [hlast] at he
          exact (List.append_inj' he rfl).1
        · simp at h
    rcases feed_buffer p front with hall | hless
    · rw [hbuf] at hall
      have hlen := congrArg List.length hall
      rw [List.length_append] at hlen
      exact List.eq_nil_of_length_eq_zero (by omega)
    · rw [hbuf] at hless
      omega
  · intro hp
    have hstep := feed_legal front p (by rw [hp]; exact hinit)
    rw [hp, List.nil_append] at hstep
    rw [hstep, Parse.feed]
    dsimp only
    rw [if_neg hfull, decodeCommand_eq_some.2 ⟨hlast.symm, hc⟩]

/-! ## The transport -/

namespace UartRun

theorem run_append (r : UartRun) (ops more : List UartOp) : r.run (ops ++ more) = (r.run ops).run more :=
  List.foldl_append

theorem noOverflow_append : ∀ {r : UartRun} (ops more : List UartOp),
    r.NoOverflow (ops ++ more) ↔ r.NoOverflow ops ∧ (r.run ops).NoOverflow more
  | _, [], _ => ⟨fun h => ⟨trivial, h⟩, fun h => h.2⟩
  | r, op :: ops, more => by
    have ih := noOverflow_append (r := r.step op) ops more
    constructor
    · rintro ⟨h₁, h₂, h⟩
      obtain ⟨ha, hb⟩ := ih.1 h
      exact ⟨⟨h₁, h₂, ha⟩, hb⟩
    · rintro ⟨⟨h₁, h₂, ha⟩, hb⟩
      exact ⟨h₁, h₂, ih.2 ⟨ha, hb⟩⟩

/-- The stream and the ring say what has been read. -/
theorem Reads.unique {r : UartRun} {stream polled polled' : List UInt8} (h : r.Reads stream polled)
    (h' : r.Reads stream polled') : polled = polled' :=
  List.append_cancel_right (h.1.symm.trans h'.1)

/-- **Every byte that was read was read by some turn of the poll loop.** -/
theorem exists_poll {ops : List UartOp} (hover : start.NoOverflow ops) {front more : List UInt8} {last : UInt8}
    (h : (start.run ops).Reads (rxBytes ops) (front ++ last :: more)) :
    ∃ before after rest, ops = before ++ .pollByte :: after ∧ (start.run before).Reads (rxBytes before) front ∧
      (start.run before).uart.rx.toList = last :: rest := by
  induction ops using List.reverseRecOn generalizing more with
  | nil =>
    have hlen := congrArg List.length h.1
    simp [rxBytes] at hlen
  | append_singleton ops op ih =>
    obtain ⟨hops, hop⟩ := (noOverflow_append ops [op]).1 hover
    obtain ⟨polled, hreads⟩ := UartRun.reads hops
    have hbytes : rxBytes (ops ++ [op]) = rxBytes ops ++ rxBytes [op] := List.filterMap_append
    rw [run_append, hbytes] at h
    have hih : ∀ {m}, polled = front ++ last :: m → ∃ before after rest, ops ++ [op] = before ++ .pollByte :: after ∧
        (start.run before).Reads (rxBytes before) front ∧ (start.run before).uart.rx.toList = last :: rest := by
      rintro m rfl
      obtain ⟨before, after, rest, rfl, hb, hrx⟩ := ih hops hreads
      exact ⟨before, after ++ [op], rest, by simp, hb, hrx⟩
    cases op with
    | rxPush byte => exact hih (Reads.unique (hreads.rxPush hop.1) h)
    | popCommand =>
      rw [show rxBytes [.popCommand] = [] from rfl, List.append_nil] at h
      exact hih (Reads.unique hreads.popCommand h)
    | pollByte =>
      rw [show rxBytes [.pollByte] = [] from rfl, List.append_nil] at h
      cases hp : (start.run ops).uart.rx.pop with
      | none =>
        have hsame : (start.run ops).run [.pollByte] = start.run ops := step_pollByte_none hp
        rw [hsame] at h
        exact hih (Reads.unique hreads h)
      | some taken =>
        obtain ⟨byte, rx⟩ := taken
        have hrx := CounterRing.toList_pop _ _ _ hp
        have hpolled := Reads.unique (hreads.pollByte_some hp hop.2.1) h
        rcases List.eq_nil_or_concat more with rfl | ⟨m, last', rfl⟩
        · obtain ⟨rfl, hlast⟩ := List.append_inj' hpolled rfl
          obtain rfl : byte = last := by simpa using hlast
          exact ⟨ops, [], _, rfl, hreads, hrx⟩
        · rw [List.concat_eq_append, ← List.cons_append, ← List.append_assoc] at hpolled
          exact hih (List.append_inj' hpolled rfl).1

/-- While the operations run, the turn of the poll loop that reads the last byte of `c`'s encoding, behind `stream`,
puts `c` into the command queue. -/
def Takes (ops : List UartOp) (stream : List UInt8) (c : Frame) : Prop :=
  ∃ before after waiting, ops = before ++ .pollByte :: after ∧
    rxBytes before = stream ++ (encode c).dropLast ++ waiting ∧ (start.run before).uart.rx.toList = waiting ∧
    (start.run (before ++ [.pollByte])).uart.commands.toList = (start.run before).uart.commands.toList ++ [c]

theorem encode_last (c : Frame) : ∃ last, encode c = (encode c).dropLast ++ [last] :=
  ⟨_, (List.dropLast_append_getLast (encode_ne_nil c)).symm⟩

/-- The turn that reads the last byte takes the command exactly if the stream in front of it left the parser empty. -/
theorem takes_at {r : UartRun} {stream streamed : List UInt8} {c : Frame} (hc : WellFormed c)
    (h : r.Reads streamed (stream ++ (encode c).dropLast)) {last : UInt8} {rest : List UInt8}
    (hlast : encode c = (encode c).dropLast ++ [last]) (hrx : r.uart.rx.toList = last :: rest)
    (hover : r.uart.pollByte.stats.commandOverflow = r.uart.stats.commandOverflow) :
    (r.step .pollByte).uart.commands.toList = r.uart.commands.toList ++ [c] ↔
      (stream.foldl Parse.feed Parse.init).buffer = [] := by
  cases hp : r.uart.rx.pop with
  | none =>
    rw [(CounterRing.pop_eq_none _).1 hp] at hrx
    cases hrx
  | some taken =>
    obtain ⟨byte, rx⟩ := taken
    have hbyte : byte = last := by
      have := CounterRing.toList_pop _ _ _ hp
      rw [hrx] at this
      exact (List.cons.inj this).1.symm
    subst hbyte
    have hnext := (h.pollByte_some hp hover).2
    rw [List.append_assoc, ← hlast, List.foldl_append] at hnext
    have hnow := h.2
    rw [List.foldl_append] at hnow
    have htakes := feed_takes hc (stream.foldl Parse.feed Parse.init)
    rw [← hnow, ← hnext] at htakes
    rw [← htakes]
    have hpopped : (r.step .pollByte).popped = r.popped := rfl
    simp only [Uart.view, hpopped, List.append_assoc, List.append_cancel_left_eq]

/-- **A command behind other bytes is taken exactly when those bytes come out even in pieces.**  The transport stands at
a frame boundary after `ops`; then it is brought any bytes, a command and any more, and all of them are polled. -/
theorem taken_iff {ops ops' : List UartOp} (hover : start.NoOverflow (ops ++ ops'))
    (hparser : (start.run ops).uart.parser = []) (hrx : (start.run ops).uart.rx.toList = []) {g t : List UInt8}
    {c : Frame} (hc : WellFormed c) (hbytes : rxBytes ops' = g ++ encode c ++ t)
    (hpolled : (start.run (ops ++ ops')).uart.rx.toList = []) :
    Takes (ops ++ ops') (rxBytes ops ++ g) c ↔ Pieces g := by
  have htotal : rxBytes (ops ++ ops') = rxBytes ops ++ (g ++ encode c ++ t) := by
    rw [← hbytes]
    exact List.filterMap_append
  obtain ⟨last, hlast⟩ := encode_last c
  have hboundary : ((rxBytes ops ++ g).foldl Parse.feed Parse.init).buffer = [] ↔ Pieces g := by
    obtain ⟨polled, hreads⟩ := UartRun.reads ((noOverflow_append ops ops').1 hover).1
    have hall : rxBytes ops = polled := by
      have := hreads.1
      rwa [hrx, List.append_nil] at this
    rw [List.foldl_append]
    refine boundary_iff ?_ g
    rw [hall, ← hreads.2]
    exact hparser
  have hsteps : ∀ {before after : List UartOp}, ops ++ ops' = before ++ .pollByte :: after →
      start.NoOverflow before ∧ (start.run before).uart.pollByte.stats.commandOverflow =
        (start.run before).uart.stats.commandOverflow := fun hsplit => by
    rw [hsplit] at hover
    obtain ⟨hbefore, hpoll⟩ := (noOverflow_append _ _).1 hover
    exact ⟨hbefore, hpoll.2.1⟩
  rw [← hboundary]
  constructor
  · rintro ⟨before, after, waiting, hsplit, hstream, hwaiting, htaken⟩
    obtain ⟨hbefore, hcommands⟩ := hsteps hsplit
    obtain ⟨polled, hreads⟩ := UartRun.reads hbefore
    have hpolled : polled = rxBytes ops ++ g ++ (encode c).dropLast := by
      have := hreads.1
      rw [hwaiting, hstream] at this
      exact (List.append_cancel_right this).symm
    rw [hpolled] at hreads
    rw [run_append] at htaken
    cases waiting with
    | nil =>
      have hsame : (start.run before).run [.pollByte] = start.run before :=
        step_pollByte_none ((CounterRing.pop_eq_none _).2 hwaiting)
      rw [hsame] at htaken
      simp at htaken
    | cons byte rest =>
      -- the byte that waits next is the last one of `c`
      have hbyte : byte = last := by
        have hrest : rxBytes (ops ++ ops') = rxBytes before ++ rxBytes (.pollByte :: after) := by
          rw [hsplit]
          exact List.filterMap_append
        rw [htotal, hstream, hlast] at hrest
        simp only [List.append_assoc, List.dropLast_concat, List.append_cancel_left_eq, List.cons_append,
          List.nil_append, List.cons.injEq] at hrest
        exact hrest.1.symm
      subst hbyte
      exact (takes_at hc hreads hlast hwaiting hcommands).1 htaken
  · intro hempty
    obtain ⟨polled, hreads⟩ := UartRun.reads hover
    have hall : polled = rxBytes ops ++ g ++ (encode c).dropLast ++ last :: t := by
      have := hreads.1
      rw [hpolled, List.append_nil, htotal, hlast] at this
      rw [← this]
      simp
    rw [hall] at hreads
    obtain ⟨before, after, rest, hsplit, hb, hwaiting⟩ := exists_poll hover hreads
    refine ⟨before, after, last :: rest, hsplit, ?_, hwaiting, ?_⟩
    · rw [← hwaiting]
      exact hb.1
    · rw [run_append]
      exact (takes_at hc hb hlast hwaiting (hsteps hsplit).2).2 hempty

/-- A frame with a right CRC that begins in `g` and ends behind it. -/
def Straddles (g rest : List UInt8) : Prop :=
  ∃ i n frame, i < g.length ∧ g.length < i + n ∧ decodeFrame (((g ++ rest).drop i).take n) = .ok frame

/-- MODE_SET(PASS). -/
def modeSetPass : Frame := ⟨MsgType.modeSet.byte, [Mode.pass.byte]⟩

/-- Each byte polled as it comes in: a lone MAGIC, MODE_SET(PASS) and 71 bytes more. -/
def loneMagic : List UartOp :=
  ([protocolMagic] ++ encode modeSetPass ++ List.replicate 71 0).flatMap (fun byte => [.rxPush byte, .pollByte])

/-- **A lone MAGIC swallows the frame behind it**: the frame's own MAGIC is taken for a bad version and goes with it. -/
theorem loneMagic_swallows :
    start.NoOverflow loneMagic ∧ rxBytes loneMagic = [protocolMagic] ++ encode modeSetPass ++ List.replicate 71 0 ∧
      WellFormed modeSetPass ∧ ¬Straddles [protocolMagic] (encode modeSetPass ++ List.replicate 71 0) ∧
      (start.run loneMagic).uart.rx.toList = [] ∧
      (start.run loneMagic).popped ++ (start.run loneMagic).uart.commands.toList = [] := by
  refine ⟨by decide +kernel, by decide +kernel, by decide, ?_, by decide +kernel, by decide +kernel⟩
  rintro ⟨i, n, frame, hi, hn, hdecode⟩
  obtain rfl : i = 0 := by simpa using hi
  obtain ⟨c₀, c₁, -, he⟩ := frameBytes_eq frame.type frame.payload
  have hsound := (decodeFrame_sound hdecode).1
  rw [he, List.drop_zero, List.length_singleton] at *
  obtain ⟨m, rfl⟩ : ∃ m, n = m + 2 := ⟨n - 2, by omega⟩
  have hsecond : encode modeSetPass = protocolMagic :: (encode modeSetPass).tail := rfl
  rw [hsecond] at hsound
  simp only [List.cons_append, List.nil_append, List.take_succ_cons, List.cons.injEq] at hsound
  exact absurd hsound.2.1 (by decide)

/-- A frame behind a stray byte and a whole broken frame. -/
theorem taken_iff_stray :
    let stream := [0x00, protocolMagic, 0x01] ++ encode modeSetPass ++ [0xFF]
    Takes ([] ++ stream.flatMap (fun byte => [.rxPush byte, .pollByte])) (rxBytes [] ++ [0x00, protocolMagic, 0x01])
      modeSetPass ↔ Pieces [0x00, protocolMagic, 0x01] :=
  taken_iff (t := [0xFF]) (by decide +kernel) rfl rfl (by decide) (by decide +kernel) (by decide +kernel)

end UartRun

end Pico
end PicoRecorder
