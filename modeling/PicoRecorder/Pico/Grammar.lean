import Mathlib.Data.List.Induction
import PicoRecorder.Pico.Wire
/-!
# Grammar — the language of the command parser, and a parser that is obviously for it

A stream is well formed when it is the encodings of command frames and then the beginning of a frame whose finished part
is legal.  `Parse.feed` takes one byte at a time and decides by `Legal` alone; `parse_iff` says that it accepts exactly
the well-formed streams.  The transport's own parser is related to it in `Uart`.
-/
namespace PicoRecorder
namespace Pico

/-- A frame the Pico takes as a command. -/
def WellFormed (c : Frame) : Prop := typeIsCommand c.type = true ∧ framePayloadValid c = true

instance (c : Frame) : Decidable (WellFormed c) := inferInstanceAs (Decidable (_ ∧ _))

def encode (c : Frame) : List UInt8 := frameBytes c.type c.payload

/-- The length field of a header that is complete. -/
def declaredLength (bytes : List UInt8) : Nat := leNat [bytes.getD 3 0, bytes.getD 4 0]

/-- The beginning of a frame that nothing speaks against yet: MAGIC, then VERSION, then a length in range that is not
reached.  The length is looked at when both its bytes are there. -/
def Legal (bytes : List UInt8) : Prop :=
  (bytes ≠ [] → bytes.getD 0 0 = protocolMagic) ∧ (2 ≤ bytes.length → bytes.getD 1 0 = protocolVersion) ∧
  (5 ≤ bytes.length → declaredLength bytes ≤ protocolMaxPayload ∧ bytes.length < 7 + declaredLength bytes)

instance (bytes : List UInt8) : Decidable (Legal bytes) := inferInstanceAs (Decidable (_ ∧ _ ∧ _))

theorem legal_nil : Legal [] := ⟨fun h => absurd rfl h, fun h => by simp at h, fun h => by simp at h⟩

theorem getD_append_left {l m : List UInt8} {i : Nat} (h : i < l.length) : (l ++ m).getD i 0 = l.getD i 0 := by
  rw [List.getD_eq_getElem?_getD, List.getD_eq_getElem?_getD, List.getElem?_append_left h]

theorem declaredLength_append {l m : List UInt8} (h : 5 ≤ l.length) :
    declaredLength (l ++ m) = declaredLength l := by
  rw [declaredLength, declaredLength, getD_append_left (by omega), getD_append_left (by omega)]

/-- The beginning of a beginning is one. -/
theorem Legal.of_append {l m : List UInt8} (h : Legal (l ++ m)) : Legal l := by
  obtain ⟨h₀, h₁, h₅⟩ := h
  refine ⟨fun hne => ?_, fun hl => ?_, fun hl => ?_⟩
  · have hpos : 0 < l.length := List.length_pos_of_ne_nil hne
    rw [← getD_append_left (m := m) hpos]
    exact h₀ (by simp [hne])
  · rw [← getD_append_left (m := m) (by omega)]
    exact h₁ (by rw [List.length_append]; omega)
  · have := h₅ (by rw [List.length_append]; omega)
    rw [declaredLength_append hl, List.length_append] at this
    exact ⟨this.1, by omega⟩

structure Parse where
  buffer : List UInt8
  commands : List Frame
  fault : Bool
  deriving DecidableEq

/-- The command a complete frame stands for, if it is one. -/
def decodeCommand (bytes : List UInt8) : Option Frame :=
  match decodeFrame bytes with
  | .ok frame => if typeIsCommand frame.type && framePayloadValid frame then some frame else none
  | .error _ => none

def Parse.feed (p : Parse) (byte : UInt8) : Parse :=
  let bytes := p.buffer ++ [byte]
  if Legal bytes then { p with buffer := bytes }
  else
    match decodeCommand bytes with
    | some c => { p with buffer := [], commands := p.commands ++ [c] }
    | none => { p with buffer := [], fault := true }

def Parse.init : Parse := ⟨[], [], false⟩

theorem payload_le {frame : Frame} (h : framePayloadValid frame = true) :
    frame.payload.length ≤ protocolMaxPayload := by
  unfold framePayloadValid at h
  unfold protocolMaxPayload
  cases ht : MsgType.ofByte? frame.type with
  | none => rw [ht] at h; cases h
  | some t =>
    rw [ht] at h
    cases t <;> simp only [Bool.and_eq_true, beq_iff_eq] at h <;> omega

theorem decodeCommand_eq_some {bytes : List UInt8} {c : Frame} :
    decodeCommand bytes = some c ↔ bytes = encode c ∧ WellFormed c := by
  unfold decodeCommand encode WellFormed
  constructor
  · intro h
    cases hd : decodeFrame bytes with
    | error e => rw [hd] at h; cases h
    | ok frame =>
      rw [hd] at h
      dsimp only at h
      split at h
      · rename_i hc
        obtain rfl := Option.some.inj h
        exact ⟨(decodeFrame_sound hd).1, (Bool.and_eq_true _ _).mp hc⟩
      · cases h
  · rintro ⟨rfl, hc⟩
    rw [decodeFrame_frameBytes _ _ (payload_le hc.2)]
    simp [hc.1, hc.2]

theorem encode_ne_nil (c : Frame) : encode c ≠ [] := by simp [encode, frameBytes]

theorem declaredLength_encode {c : Frame} (hc : WellFormed c) : declaredLength (encode c) = c.payload.length := by
  obtain ⟨c₀, c₁, -, he⟩ := frameBytes_eq c.type c.payload
  have hmax := payload_le hc.2
  unfold declaredLength encode
  rw [he]
  exact leNat_leBytes 2 c.payload.length (by unfold protocolMaxPayload at hmax; omega)

/-- Short of its last byte a frame is a legal beginning, and with it no longer one. -/
theorem encode_legal {c : Frame} (hc : WellFormed c) :
    Legal (encode c).dropLast ∧ ¬Legal (encode c) := by
  have hlen : (encode c).length = 7 + c.payload.length := length_frameBytes _ _
  have hdecl := declaredLength_encode hc
  obtain ⟨c₀, c₁, -, he⟩ := frameBytes_eq c.type c.payload
  have hdrop : encode c = (encode c).dropLast ++ [(encode c).getLast (encode_ne_nil c)] :=
    (List.dropLast_append_getLast (encode_ne_nil c)).symm
  have hdlen : (encode c).dropLast.length = 6 + c.payload.length := by rw [List.length_dropLast, hlen]; omega
  have hget : ∀ i, i < 5 → (encode c).dropLast.getD i 0 = (encode c).getD i 0 := fun i hi => by
    conv => rhs; rw [hdrop]
    exact (getD_append_left (by omega)).symm
  have hddecl : declaredLength (encode c).dropLast = c.payload.length := by
    rw [declaredLength, hget 3 (by omega), hget 4 (by omega)]
    exact hdecl
  refine ⟨⟨fun _ => ?_, fun _ => ?_, fun _ => ?_⟩, fun h => ?_⟩
  · rw [hget 0 (by omega)]; unfold encode; rw [he]; rfl
  · rw [hget 1 (by omega)]; unfold encode; rw [he]; rfl
  · rw [hddecl]; exact ⟨payload_le hc.2, by omega⟩
  · have := (h.2.2 (by omega)).2
    rw [hdecl] at this
    omega

theorem feed_of_legal {p : Parse} {byte : UInt8} (h : Legal (p.buffer ++ [byte])) :
    p.feed byte = { p with buffer := p.buffer ++ [byte] } := by
  unfold Parse.feed
  exact if_pos h

theorem feed_reject {p : Parse} {byte : UInt8} (h : ¬Legal (p.buffer ++ [byte]))
    (hd : decodeCommand (p.buffer ++ [byte]) = none) : p.feed byte = { p with buffer := [], fault := true } := by
  unfold Parse.feed
  dsimp only
  rw [if_neg h, hd]

theorem feed_legal : ∀ (l : List UInt8) (p : Parse), Legal (p.buffer ++ l) →
    l.foldl Parse.feed p = { p with buffer := p.buffer ++ l }
  | [], p, _ => by rw [List.foldl_nil, List.append_nil]
  | byte :: l, p, h => by
    have hsplit : p.buffer ++ byte :: l = (p.buffer ++ [byte]) ++ l := List.append_cons _ _ _
    rw [List.foldl_cons, feed_of_legal (hsplit ▸ h).of_append, feed_legal l _ (hsplit ▸ h), hsplit]

/-- From an empty buffer a frame's bytes are one command. -/
theorem feed_encode {c : Frame} (hc : WellFormed c) (cs : List Frame) (fault : Bool) :
    (encode c).foldl Parse.feed ⟨[], cs, fault⟩ = ⟨[], cs ++ [c], fault⟩ := by
  obtain ⟨hinit, hfull⟩ := encode_legal hc
  have hdrop : encode c = (encode c).dropLast ++ [(encode c).getLast (encode_ne_nil c)] :=
    (List.dropLast_append_getLast (encode_ne_nil c)).symm
  conv => lhs; rw [hdrop]
  rw [List.foldl_append, feed_legal (encode c).dropLast ⟨[], cs, fault⟩ hinit, List.foldl_cons, List.foldl_nil,
    Parse.feed]
  dsimp only
  rw [List.nil_append, ← hdrop, if_neg hfull, decodeCommand_eq_some.2 ⟨rfl, hc⟩]

theorem feed_commands (rest : List UInt8) (hrest : Legal rest) (fault : Bool) :
    ∀ (cs done : List Frame), (∀ c ∈ cs, WellFormed c) →
      (cs.flatMap encode ++ rest).foldl Parse.feed ⟨[], done, fault⟩ = ⟨rest, done ++ cs, fault⟩
  | [], done, _ => by
    rw [List.flatMap_nil, List.nil_append, feed_legal rest ⟨[], done, fault⟩ hrest, List.append_nil]
    rfl
  | c :: cs, done, h => by
    rw [List.flatMap_cons, List.append_assoc, List.foldl_append, feed_encode (h c (by simp)),
      feed_commands rest hrest fault cs _ (fun d hd => h d (List.mem_cons_of_mem _ hd)), List.append_assoc]
    rfl

/-- What a stream has been cut into while nothing was wrong with it. -/
structure Parse.Cuts (p : Parse) (bytes : List UInt8) : Prop where
  legal : Legal p.buffer
  wellFormed : ∀ c ∈ p.commands, WellFormed c
  split : p.fault = false → bytes = p.commands.flatMap encode ++ p.buffer

theorem Parse.Cuts.feed {p : Parse} {bytes : List UInt8} (h : p.Cuts bytes) (byte : UInt8) :
    (p.feed byte).Cuts (bytes ++ [byte]) := by
  unfold Parse.feed
  dsimp only
  split
  · rename_i hl
    exact ⟨hl, h.wellFormed, fun hf => by rw [h.split hf, List.append_assoc]⟩
  · cases hd : decodeCommand (p.buffer ++ [byte]) with
    | none => exact ⟨legal_nil, h.wellFormed, fun hf => by cases hf⟩
    | some c =>
      obtain ⟨he, hc⟩ := decodeCommand_eq_some.1 hd
      refine ⟨legal_nil, fun d hm => ?_, fun hf => ?_⟩
      · rcases List.mem_append.1 hm with hm | hm
        · exact h.wellFormed d hm
        · rw [List.mem_singleton] at hm; rw [hm]; exact hc
      · rw [h.split hf, List.flatMap_append, List.flatMap_singleton, List.append_nil, List.append_assoc, he]

theorem Parse.cuts (bytes : List UInt8) : (bytes.foldl Parse.feed Parse.init).Cuts bytes := by
  induction bytes using List.reverseRecOn with
  | nil => exact ⟨legal_nil, fun c hc => by simp [Parse.init] at hc, fun _ => rfl⟩
  | append_singleton bytes byte ih =>
    rw [List.foldl_append]
    exact ih.feed byte

/-- **The parser accepts exactly its grammar.** -/
theorem parse_iff (bytes : List UInt8) (cs : List Frame) :
    ((bytes.foldl Parse.feed Parse.init).fault = false ∧ (bytes.foldl Parse.feed Parse.init).commands = cs) ↔
      ∃ rest, bytes = cs.flatMap encode ++ rest ∧ (∀ c ∈ cs, WellFormed c) ∧ Legal rest := by
  constructor
  · rintro ⟨hf, rfl⟩
    have hcuts := Parse.cuts bytes
    exact ⟨_, hcuts.split hf, hcuts.wellFormed, hcuts.legal⟩
  · rintro ⟨rest, rfl, hc, hrest⟩
    rw [Parse.init, feed_commands rest hrest false cs [] hc]
    exact ⟨rfl, rfl⟩

end Pico
end PicoRecorder
