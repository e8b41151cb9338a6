import PicoRecorder.PiZero.Reading
import PicoRecorder.PiZero.Waits
/-!
# Serial — the link of a byte stream

What `receive_frame` makes of one read: the decoder is fed, its errors are popped.  The decoder then stands on one scan
of all the bytes read so far, so while that scan rejects nothing the frames handed on are the frames of the stream,
however it was cut into reads.
-/
namespace PicoRecorder
namespace PiZero

open Lib
open Pico (Frame MsgType)
open IncrementalDecoder (framesOf detailsOf)
open Reading (protocolScanner)

/-- The serial stream with its bytes: a read brings some, none, or an `OSError`. -/
structure Serial (σ : Type) where
  clock : σ → Int × σ
  cancelled : σ → Bool × σ
  read : σ → Except String (List UInt8) × σ
  write : List UInt8 → σ → WriteResult × σ
  patience : Nat

/-- A stream with the decoder of its transport; `received` is a history variable. -/
structure Port (σ : Type) where
  world : σ
  decoder : IncrementalDecoder
  received : List UInt8

/-- A port nothing was read from. -/
def Port.opened {σ : Type} (world : σ) : Port σ := ⟨world, .create, []⟩

/-- A read that brought bytes. -/
def Port.feed {σ : Type} (w : Port σ) (data : List UInt8) (world : σ) : ReadResult × Port σ :=
  let fed := w.decoder.feed data
  let popped := fed.2.popErrors
  (match popped.1 with
    | [] => .data fed.1
    | detail :: _ => .invalid detail,
    ⟨world, popped.2, w.received ++ data⟩)

namespace Serial

variable {σ : Type} (P : Serial σ)

def link : Link (Port σ) where
  clock w := ((P.clock w.world).1, { w with world := (P.clock w.world).2 })
  cancelled w := ((P.cancelled w.world).1, { w with world := (P.cancelled w.world).2 })
  read w :=
    match P.read w.world with
    | (.error message, world) => (.osError message, { w with world := world })
    | (.ok [], world) => (.data [], { w with world := world })
    | (.ok (byte :: data), world) => w.feed (byte :: data) world
  write bytes w := ((P.write bytes w.world).1, { w with world := (P.write bytes w.world).2 })
  patience := P.patience

end Serial

/-- The frames of some bytes. -/
def framesIn (bytes : List UInt8) : List Frame := framesOf (protocolScanner.scan bytes).1

/-- The decoder rejects no candidate in these bytes, and `require_not_error` no frame. -/
def Clean (bytes : List UInt8) : Prop :=
  detailsOf (protocolScanner.scan bytes).1 = [] ∧ ∀ frame ∈ framesIn bytes, requireNotError frame = .ok frame

/-- The decoder holds what the scan of the bytes read so far has left. -/
def Port.Synced {σ : Type} (w : Port σ) : Prop :=
  w.decoder = ⟨Pico.protocolMaxPayload, picoToZero, (protocolScanner.scan w.received).2, []⟩

theorem Clean.of_append {bytes more : List UInt8} (h : Clean (bytes ++ more)) : Clean bytes := by
  obtain ⟨hdetails, hframes⟩ := h
  rw [framesIn] at hframes
  rw [Scanner.scan_append, IncrementalDecoder.detailsOf_append] at hdetails
  rw [Scanner.scan_append, IncrementalDecoder.framesOf_append] at hframes
  exact ⟨(List.append_eq_nil_iff.1 hdetails).1, fun frame hframe => hframes frame (List.mem_append_left _ hframe)⟩

/-- A stream of encoded frames is cut at the frames. -/
theorem scan_encoded : ∀ frames : List Frame, (∀ frame ∈ frames, IncrementalDecoder.Deliverable frame) →
    protocolScanner.scan (frames.flatMap Pico.encode) =
      (frames.map (fun frame => (Pico.encode frame, IncrementalDecoder.Cut.delivered frame)), [])
  | [], _ => Scanner.scan_wait rfl
  | frame :: frames, h => by
    obtain ⟨hframe, hrest⟩ := List.forall_mem_cons.1 h
    rw [List.flatMap_cons, Scanner.scan_cut (Reading.look_encode hframe _), List.take_left, List.drop_left,
      scan_encoded frames hrest]
    rfl

theorem framesIn_encoded {frames : List Frame} (h : ∀ frame ∈ frames, IncrementalDecoder.Deliverable frame) :
    framesIn (frames.flatMap Pico.encode) = frames := by
  rw [framesIn, scan_encoded frames h, framesOf, List.filterMap_map]
  exact List.filterMap_some

/-- A stream of valid frames without a fault is clean. -/
theorem clean_encoded {frames : List Frame} (h : ∀ frame ∈ frames, IncrementalDecoder.Deliverable frame)
    (hfine : ∀ frame ∈ frames, requireNotError frame = .ok frame) : Clean (frames.flatMap Pico.encode) := by
  refine ⟨?_, by rwa [framesIn_encoded h]⟩
  rw [scan_encoded frames h, detailsOf, List.filterMap_map]
  exact List.filterMap_eq_nil_iff.2 (fun _ _ => rfl)

section Ports

variable {σ : Type}

theorem Port.synced_opened (world : σ) : (Port.opened world).Synced := by
  have hscan : protocolScanner.scan ([] : List UInt8) = ([], []) := Scanner.scan_wait rfl
  simp [Synced, opened, hscan, IncrementalDecoder.create]

theorem Port.feed_eq {w : Port σ} (h : w.Synced) (data : List UInt8) (world : σ) :
    w.feed data world =
      (match detailsOf (protocolScanner.scan ((protocolScanner.scan w.received).2 ++ data)).1 with
        | [] => .data (framesOf (protocolScanner.scan ((protocolScanner.scan w.received).2 ++ data)).1)
        | detail :: _ => .invalid detail,
        ⟨world, ⟨Pico.protocolMaxPayload, picoToZero, (protocolScanner.scan (w.received ++ data)).2, []⟩,
          w.received ++ data⟩) := by
  have hscan := Scanner.scan_append (S := protocolScanner) w.received data
  have hfed := IncrementalDecoder.feed_eq data w.decoder
  rw [show w.decoder = _ from h] at hfed
  simp only [Port.feed]
  rw [show w.decoder = _ from h, hfed, hscan]
  simp only [IncrementalDecoder.popErrors, IncrementalDecoder.afterCuts, List.nil_append]
  rfl

/-- **A read grows the stream**: while it stays clean, the frames read are the frames that came. -/
theorem Serial.read_grows (P : Serial σ) {w : Port σ} (h : w.Synced) :
    (P.link.read w).2.Synced ∧ (Clean (P.link.read w).2.received →
      Clean w.received ∧ framesIn (P.link.read w).2.received = framesIn w.received ++ (P.link.read w).1.frames) := by
  simp only [Serial.link]
  split
  · exact ⟨h, fun hclean => ⟨hclean, (List.append_nil _).symm⟩⟩
  · exact ⟨h, fun hclean => ⟨hclean, (List.append_nil _).symm⟩⟩
  · rename_i byte data world _
    rw [Port.feed_eq h]
    refine ⟨rfl, fun hclean => ⟨hclean.of_append, ?_⟩⟩
    have hdetails := hclean.1
    dsimp only at hdetails ⊢
    rw [Scanner.scan_append, IncrementalDecoder.detailsOf_append] at hdetails
    rw [(List.append_eq_nil_iff.1 hdetails).2, framesIn, Scanner.scan_append, IncrementalDecoder.framesOf_append]
    rfl

end Ports
end PiZero
end PicoRecorder
