import PicoRecorder.PiZero.Decoder
/-!
# Reading — what a decoder has returned after any calls

A `Reading` is a decoder with the frames and errors its caller has got.  Wherever the reads fell, it stands on one scan
of all the bytes fed (`Follows`): so chunks do not matter, and every frame can be given its place in the stream.
-/
namespace PicoRecorder
namespace PiZero

open Lib (Scanner)
open Pico (Frame MsgType)

inductive DecoderOp where
  | feed (data : List UInt8)
  | popErrors
  deriving DecidableEq, Repr

def DecoderOp.data : DecoderOp → List UInt8
  | .feed data => data
  | .popErrors => []

/-- A decoder and what its caller got from it: the frames `feed` returned, the errors `pop_errors` returned. -/
structure Reading where
  decoder : IncrementalDecoder
  frames : List Frame
  popped : List String

namespace Reading

open IncrementalDecoder (scanner look framesOf detailsOf)

def apply (r : Reading) : DecoderOp → Reading
  | .feed data =>
    let fed := r.decoder.feed data
    { r with decoder := fed.2, frames := r.frames ++ fed.1 }
  | .popErrors =>
    let popped := r.decoder.popErrors
    { r with decoder := popped.2, popped := r.popped ++ popped.1 }

def run (r : Reading) (ops : List DecoderOp) : Reading := ops.foldl apply r

/-- Every error so far, popped or not. -/
def errors (r : Reading) : List String := r.popped ++ r.decoder.errors

/-- The bytes some operations feed. -/
def bytes (ops : List DecoderOp) : List UInt8 := ops.flatMap DecoderOp.data

/-- A reading that starts from a decoder. -/
def start (d : IncrementalDecoder) : Reading := ⟨d, [], []⟩

/-- A decoder as `IncrementalDecoder(max_payload=…, accepted_types=…)` makes it. -/
def fresh (maxPayload : Nat) (acceptedTypes : UInt8 → Bool) : IncrementalDecoder := ⟨maxPayload, acceptedTypes, [], []⟩

/-- A decoder that some operations have led to. -/
def Reachable (d : IncrementalDecoder) : Prop :=
  ∃ maxPayload acceptedTypes ops, d = ((start (fresh maxPayload acceptedTypes)).run ops).decoder

/-- Where a run stands: on the scan of the buffer it started from with all the bytes it was fed. -/
structure Follows (d : IncrementalDecoder) (bytes : List UInt8) (r : Reading) : Prop where
  maxPayload : r.decoder.maxPayload = d.maxPayload
  acceptedTypes : r.decoder.acceptedTypes = d.acceptedTypes
  buffer : r.decoder.buffer = ((scanner d.maxPayload d.acceptedTypes).scan (d.buffer ++ bytes)).2
  frames : r.frames = framesOf ((scanner d.maxPayload d.acceptedTypes).scan (d.buffer ++ bytes)).1
  errors : r.errors = d.errors ++ detailsOf ((scanner d.maxPayload d.acceptedTypes).scan (d.buffer ++ bytes)).1

theorem Follows.apply {d : IncrementalDecoder} {bytes : List UInt8} {r : Reading} (h : Follows d bytes r)
    (op : DecoderOp) : Follows d (bytes ++ op.data) (r.apply op) := by
  cases op with
  | feed data =>
    have hscan := Scanner.scan_append (S := scanner d.maxPayload d.acceptedTypes) (d.buffer ++ bytes) data
    rw [List.append_assoc] at hscan
    have hfed := IncrementalDecoder.feed_eq data r.decoder
    rw [h.maxPayload, h.acceptedTypes, h.buffer] at hfed
    refine ⟨?_, ?_, ?_, ?_, ?_⟩
    · simp only [Reading.apply, hfed, IncrementalDecoder.afterCuts, h.maxPayload]
    · simp only [Reading.apply, hfed, IncrementalDecoder.afterCuts, h.acceptedTypes]
    · simp only [Reading.apply, DecoderOp.data, hfed, hscan, IncrementalDecoder.afterCuts]
    · simp only [Reading.apply, DecoderOp.data, hfed, hscan, h.frames, IncrementalDecoder.framesOf_append]
    · have herr := h.errors
      simp only [Reading.errors] at herr
      simp only [Reading.apply, DecoderOp.data, Reading.errors, hfed, hscan, IncrementalDecoder.afterCuts,
        IncrementalDecoder.detailsOf_append]
      rw [← List.append_assoc, herr, List.append_assoc]
  | popErrors =>
    rw [DecoderOp.data, List.append_nil]
    refine ⟨h.maxPayload, h.acceptedTypes, h.buffer, h.frames, ?_⟩
    have herr := h.errors
    simp only [Reading.errors] at herr
    simp only [Reading.apply, Reading.errors, IncrementalDecoder.popErrors, List.append_nil, herr]

theorem Follows.run {d : IncrementalDecoder} : ∀ (ops : List DecoderOp) {fed : List UInt8} {r : Reading},
    Follows d fed r → Follows d (fed ++ bytes ops) (r.run ops)
  | [], fed, r, h => by
    rw [bytes, List.flatMap_nil, List.append_nil]
    exact h
  | op :: ops, fed, r, h => by
    have hrest := Follows.run ops (h.apply op)
    rw [List.append_assoc] at hrest
    exact hrest

/-- From a decoder that cannot do anything before more arrives. -/
theorem follows_start {d : IncrementalDecoder} (h : look d.maxPayload d.acceptedTypes d.buffer = none) :
    Follows d [] (start d) := by
  have hscan : (scanner d.maxPayload d.acceptedTypes).scan (d.buffer ++ []) = ([], d.buffer) := by
    rw [List.append_nil]
    exact Scanner.scan_wait h
  refine ⟨rfl, rfl, ?_, ?_, ?_⟩ <;> rw [hscan]
  · rfl
  · rfl
  · simp [errors, start, detailsOf]

/-- **A reachable decoder waits**: `feed` leaves nothing undone. -/
theorem Reachable.waits {d : IncrementalDecoder} (h : Reachable d) :
    look d.maxPayload d.acceptedTypes d.buffer = none := by
  obtain ⟨maxPayload, acceptedTypes, ops, rfl⟩ := h
  have hrun := (follows_start (d := fresh maxPayload acceptedTypes) rfl).run ops
  rw [hrun.maxPayload, hrun.acceptedTypes, hrun.buffer]
  exact Scanner.look_rest (S := scanner maxPayload acceptedTypes) _

/-- **Chunks do not matter.**  Two ways of feeding the same bytes to a reachable decoder, with `pop_errors` called
anywhere in between, return the same frames, report the same errors and leave the same buffer. -/
theorem feed_chunks {d : IncrementalDecoder} (hd : Reachable d) {ops ops' : List DecoderOp}
    (h : bytes ops = bytes ops') :
    ((start d).run ops).frames = ((start d).run ops').frames ∧
      ((start d).run ops).errors = ((start d).run ops').errors ∧
      ((start d).run ops).decoder.buffer = ((start d).run ops').decoder.buffer := by
  have h₁ := (follows_start hd.waits).run ops
  have h₂ := (follows_start hd.waits).run ops'
  rw [← h] at h₂
  exact ⟨h₁.frames.trans h₂.frames.symm, h₁.errors.trans h₂.errors.symm, h₁.buffer.trans h₂.buffer.symm⟩

/-- A frame behind a stray MAGIC, in pieces and at once. -/
theorem feed_chunks_pieces :
    ((start .create).run
        [.feed [0xA5], .feed [], .popErrors, .feed [0xA5, 2, 7], .feed [0, 0, 0x38], .feed [0xEC]]).frames =
      ((start .create).run [.feed [0xA5, 0xA5, 2, 7, 0, 0, 0x38, 0xEC]]).frames :=
  (feed_chunks (d := .create) ⟨_, _, [], rfl⟩ (by decide)).1

example : ((start .create).run [.feed [0xA5, 0xA5, 2, 7, 0, 0, 0x38, 0xEC]]).frames = [⟨7, []⟩] := by decide +kernel

/-! ## Frames in their places -/

/-- Delivered frames with the bytes in front of each that belong to none. -/
abbrev Placed := List (List UInt8 × Frame)

/-- The stream up to the end of the last frame. -/
def Placed.stream (placed : Placed) : List UInt8 := placed.flatMap (fun p => p.1 ++ Pico.encode p.2)

/-- A frame whose encoding begins at a position. -/
def Placed.At (placed : Placed) (position : Nat) (frame : Frame) : Prop :=
  ∃ before gap after, placed = before ++ (gap, frame) :: after ∧ position = (Placed.stream before).length + gap.length

/-- Frames that lie in a stream one behind the other, each with its own bytes. -/
structure Laid (stream : List UInt8) (frames : List Frame) (placed : Placed) : Prop where
  frames : placed.map Prod.snd = frames
  deliverable : ∀ p ∈ placed, IncrementalDecoder.Deliverable p.2
  stream : ∃ rest, stream = Placed.stream placed ++ rest

/-- Put the frames of some cuts in their places, behind what came before. -/
def place (gap : List UInt8) : List (List UInt8 × IncrementalDecoder.Cut) → Placed
  | [] => []
  | (bytes, cut) :: cuts =>
    match cut.frame? with
    | some frame => (gap, frame) :: place [] cuts
    | none => place (gap ++ bytes) cuts

/-- The frames of some cuts are the bytes that were cut. -/
def Exact (cuts : List (List UInt8 × IncrementalDecoder.Cut)) : Prop :=
  ∀ p ∈ cuts, ∀ frame, p.2.frame? = some frame → p.1 = Pico.encode frame

theorem place_frames : ∀ (cuts : List (List UInt8 × IncrementalDecoder.Cut)) (gap : List UInt8),
    (place gap cuts).map Prod.snd = framesOf cuts
  | [], _ => rfl
  | (bytes, cut) :: cuts, gap => by
    rw [place, framesOf, List.filterMap_cons]
    cases hc : cut.frame? with
    | none => exact place_frames cuts _
    | some frame =>
      rw [List.map_cons, place_frames cuts]
      rfl

theorem place_stream : ∀ (cuts : List (List UInt8 × IncrementalDecoder.Cut)) (gap : List UInt8), Exact cuts →
    ∃ rest, gap ++ Scanner.items cuts = Placed.stream (place gap cuts) ++ rest
  | [], gap, _ => ⟨gap, by simp [place, Placed.stream]⟩
  | (bytes, cut) :: cuts, gap, h => by
    have hrest : Exact cuts := fun p hp => h p (List.mem_cons_of_mem _ hp)
    rw [place]
    cases hc : cut.frame? with
    | none =>
      obtain ⟨rest, hr⟩ := place_stream cuts (gap ++ bytes) hrest
      exact ⟨rest, by rw [← hr, Scanner.items_cons, List.append_assoc]⟩
    | some frame =>
      obtain ⟨rest, hr⟩ := place_stream cuts [] hrest
      rw [List.nil_append] at hr
      have hb : bytes = Pico.encode frame := h _ (List.mem_cons_self) frame hc
      refine ⟨rest, ?_⟩
      rw [Scanner.items_cons, hr, hb]
      simp [Placed.stream]

theorem place_at : ∀ (before : List (List UInt8 × IncrementalDecoder.Cut)) (gap : List UInt8)
    (p : List UInt8 × IncrementalDecoder.Cut) (after : List (List UInt8 × IncrementalDecoder.Cut)) (frame : Frame),
    Exact before → p.2.frame? = some frame →
      Placed.At (place gap (before ++ p :: after)) (gap.length + (Scanner.items before).length) frame
  | [], gap, p, after, frame, _, hp => by
    refine ⟨[], gap, place [] after, ?_, by simp [Placed.stream]⟩
    rw [List.nil_append, place, hp]
    rfl
  | (bytes, cut) :: before, gap, p, after, frame, h, hp => by
    have hrest : Exact before := fun q hq => h q (List.mem_cons_of_mem _ hq)
    rw [List.cons_append, place, Scanner.items_cons, List.length_append]
    cases hc : cut.frame? with
    | none =>
      have hrec := place_at before (gap ++ bytes) p after frame hrest hp
      rw [List.length_append, Nat.add_assoc] at hrec
      exact hrec
    | some other =>
      obtain ⟨front, g, back, hplace, hpos⟩ := place_at before [] p after frame hrest hp
      rw [List.length_nil, Nat.zero_add] at hpos
      have hb : bytes = Pico.encode other := h _ (List.mem_cons_self) other hc
      refine ⟨(gap, other) :: front, g, back, ?_, ?_⟩
      · dsimp only
        rw [hplace]
        rfl
      · rw [hpos, hb]
        simp [Placed.stream]
        omega

/-- The scanner of a decoder with the protocol's defaults. -/
def protocolScanner : Scanner UInt8 IncrementalDecoder.Cut := scanner Pico.protocolMaxPayload picoToZero

theorem look_protocol (l : List UInt8) : protocolScanner.look l = look Pico.protocolMaxPayload picoToZero l := rfl

theorem look_delivered {l : List UInt8} {n : Nat} {cut : IncrementalDecoder.Cut} {frame : Frame}
    (h : protocolScanner.look l = some (n, cut)) (hf : cut.frame? = some frame) :
    l.take n = Pico.encode frame ∧ IncrementalDecoder.Deliverable frame := by
  obtain rfl : cut = .delivered frame := by
    cases cut <;> simp_all [IncrementalDecoder.Cut.frame?]
  rw [look_protocol] at h
  cases l with
  | nil => cases h
  | cons byte rest =>
    rw [look] at h
    by_cases hb : byte ≠ Pico.protocolMagic
    · rw [if_pos hb] at h
      cases h
    · rw [if_neg hb] at h
      cases hv : IncrementalDecoder.examine Pico.protocolMaxPayload picoToZero (byte :: rest) with
      | wait => rw [hv] at h; cases h
      | reject detail => rw [hv] at h; cases h
      | deliver f frameLen =>
        rw [hv] at h
        cases h
        obtain ⟨-, -, -, ht, hp⟩ := IncrementalDecoder.examine_deliver hv
        exact ⟨IncrementalDecoder.encode_of_deliver (not_not.1 hb) (Nat.le_refl _) hv, ht, hp⟩

theorem look_encode {frame : Frame} (h : IncrementalDecoder.Deliverable frame) (more : List UInt8) :
    protocolScanner.look (Pico.encode frame ++ more) = some ((Pico.encode frame).length, .delivered frame) := by
  have hne : Pico.encode frame ++ more ≠ [] := by simp [Pico.encode_ne_nil]
  have hmagic : (Pico.encode frame ++ more).getD 0 0 = Pico.protocolMagic := rfl
  rw [look_protocol, IncrementalDecoder.look_magic _ _ hne hmagic, IncrementalDecoder.examine_encode h more]

/-- Whatever is not delivered goes one byte at a time. -/
theorem look_single {l : List UInt8} {n : Nat} {cut : IncrementalDecoder.Cut}
    (h : protocolScanner.look l = some (n, cut)) (hf : cut.frame? = none) : n = 1 := by
  rw [look_protocol] at h
  cases l with
  | nil => cases h
  | cons byte rest =>
    rw [look] at h
    by_cases hb : byte ≠ Pico.protocolMagic
    · rw [if_pos hb] at h
      cases h
      rfl
    · rw [if_neg hb] at h
      cases hv : IncrementalDecoder.examine Pico.protocolMaxPayload picoToZero (byte :: rest) with
      | wait => rw [hv] at h; cases h
      | reject detail => rw [hv] at h; cases h; rfl
      | deliver f frameLen =>
        rw [hv] at h
        cases h
        cases hf

/-- A front as long as the longest frame is decided. -/
theorem look_long {l : List UInt8} (h : 71 ≤ l.length) : protocolScanner.look l ≠ none := by
  intro hn
  rw [look_protocol] at hn
  cases l with
  | nil => simp at h
  | cons byte rest =>
    rw [look] at hn
    by_cases hb : byte ≠ Pico.protocolMagic
    · rw [if_pos hb] at hn
      cases hn
    · rw [if_neg hb] at hn
      cases hv : IncrementalDecoder.examine Pico.protocolMaxPayload picoToZero (byte :: rest) with
      | wait =>
        have := IncrementalDecoder.examine_wait hv
        unfold Pico.protocolMaxPayload at this
        omega
      | reject detail => rw [hv] at hn; cases hn
      | deliver f frameLen => rw [hv] at hn; cases hn

theorem scan_exact (l : List UInt8) : Exact (protocolScanner.scan l).1 := fun p hp frame hf => by
  obtain ⟨tail, hlook⟩ := Scanner.look_of_mem l p hp
  have := (look_delivered hlook hf).1
  rwa [List.take_left] at this

theorem place_deliverable {cuts : List (List UInt8 × IncrementalDecoder.Cut)}
    (h : ∀ p ∈ cuts, ∀ frame, p.2.frame? = some frame → IncrementalDecoder.Deliverable frame) (gap : List UInt8) :
    ∀ q ∈ place gap cuts, IncrementalDecoder.Deliverable q.2 := fun q hq => by
  have hmem : q.2 ∈ framesOf cuts := by
    rw [← place_frames cuts gap]
    exact List.mem_map_of_mem hq
  obtain ⟨p, hp, hf⟩ := List.mem_filterMap.1 hmem
  exact h p hp q.2 hf

/-- **No frame is lost to resynchronisation.**  The frames a fresh decoder has returned lie in the stream in order and
without overlap, each on its own bytes.  A valid frame with 71 bytes of the stream from its first one on is among them
in its place, or one of them begins before it and covers its beginning. -/
theorem feed_resynchronises (ops : List DecoderOp) :
    ∃ placed, Laid (bytes ops) ((start .create).run ops).frames placed ∧
      ∀ before frame after, IncrementalDecoder.Deliverable frame → bytes ops = before ++ Pico.encode frame ++ after →
        71 ≤ (Pico.encode frame ++ after).length →
          Placed.At placed before.length frame ∨
            ∃ position other, Placed.At placed position other ∧ position < before.length ∧
              before.length < position + (Pico.encode other).length := by
  have hframes := ((follows_start (d := .create) rfl).run ops).frames
  rw [List.nil_append] at hframes
  replace hframes : ((start .create).run ops).frames = framesOf (protocolScanner.scan (bytes ops)).1 := hframes
  have hexact := scan_exact (bytes ops)
  refine ⟨place [] (protocolScanner.scan (bytes ops)).1, ⟨?_, ?_, ?_⟩, ?_⟩
  · rw [place_frames, hframes]
  · refine place_deliverable (fun p hp frame hf => ?_) []
    obtain ⟨tail, hlook⟩ := Scanner.look_of_mem _ p hp
    exact (look_delivered hlook hf).2
  · obtain ⟨rest, hrest⟩ := place_stream _ [] hexact
    refine ⟨rest ++ (protocolScanner.scan (bytes ops)).2, ?_⟩
    rw [← List.append_assoc, ← hrest, List.nil_append, Scanner.items_scan]
  · intro before frame after hf hstream hlong
    rw [List.append_assoc] at hstream
    rw [hstream] at hexact ⊢
    rcases Scanner.scan_meets (S := protocolScanner) before (Pico.encode frame ++ after) with
      ⟨front, hfront, hscan⟩ | ⟨front, p, back, hscan, h₁, h₂⟩ | hwait
    · -- a cut ends where the frame begins, and the next one is the frame
      left
      have hlook := look_encode hf after
      rw [hscan, Scanner.scan_cut hlook, List.take_left, List.drop_left] at hexact ⊢
      have hat := place_at front [] (Pico.encode frame, .delivered frame) (protocolScanner.scan after).1 frame
        (fun q hq => hexact q (List.mem_append_left _ hq)) rfl
      rw [hfront, List.length_nil, Nat.zero_add] at hat
      exact hat
    · -- a piece of more than one byte is a frame
      right
      obtain ⟨tail, hlook⟩ := Scanner.look_of_mem (S := protocolScanner) (before ++ (Pico.encode frame ++ after)) p
        (by rw [hscan]; simp)
      have hone : p.1.length = 1 ∨ ∃ other, p.2.frame? = some other := by
        cases hp : p.2 with
        | delivered other => exact .inr ⟨other, rfl⟩
        | noise => exact .inl (look_single hlook (by rw [hp]; rfl))
        | rejected detail => exact .inl (look_single hlook (by rw [hp]; rfl))
      obtain ⟨other, hother⟩ : ∃ other, p.2.frame? = some other := by
        rcases hone with hone | hone
        · omega
        · exact hone
      rw [hscan] at hexact ⊢
      have hbytes : p.1 = Pico.encode other := hexact p (by simp) other hother
      have hat := place_at front [] p back other (fun q hq => hexact q (by simp [hq])) hother
      rw [List.length_nil, Nat.zero_add] at hat
      exact ⟨_, other, hat, h₁, by rw [← hbytes]; exact h₂⟩
    · exact absurd (Scanner.look_rest (S := protocolScanner) _) (look_long (Nat.le_trans hlong (Nat.le_of_lt hwait)))

end Reading
end PiZero
end PicoRecorder
