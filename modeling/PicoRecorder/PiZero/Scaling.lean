import Mathlib.Data.List.Forall2
import PicoRecorder.PiZero.Recordings
/-!
# Scaling — `expand_offsets` at any speed (`playback.py`)

The conversion, the division and the rounding of the source each keep the order, so the offsets do.  What the three
change together is half a microsecond and a part of the time that doubles do not resolve.
-/
namespace PicoRecorder
namespace PiZero

open Lib.Binary64

/-- What an offset is computed from, and its range. -/
theorem offsetOf_ok {speed : ℚ} {n : Nat} {offsetUs : Int} (h : offsetOf speed n = .ok offsetUs) :
    n ≤ maxU64 ∧ double? n = some (nearest n) ∧ divide? (nearest n) speed = some (nearest (nearest n / speed)) ∧
      offsetUs = roundEven (nearest (nearest n / speed)) ∧ offsetUs ≤ maxU64 := by
  unfold offsetOf at h
  split at h
  · cases h
  rename_i hmax
  split at h
  · cases h
  rename_i scaled hscaled
  split at h
  · rename_i hrange
    cases h
    unfold scaledOffset at hscaled
    cases hdouble : double? n with
    | none =>
      rw [hdouble] at hscaled
      cases hscaled
    | some c =>
      rw [hdouble] at hscaled
      obtain rfl := double?_some hdouble
      cases hdivide : divide? (nearest n) speed with
      | none => simp [Option.bind_eq_bind, hdivide] at hscaled
      | some quotient =>
        simp only [Option.bind_eq_bind, Option.bind_some, hdivide, Option.some.injEq] at hscaled
        obtain rfl := double?_some hdivide
        exact ⟨not_lt.1 hmax, rfl, rfl, hscaled.symm, hrange.2⟩
  · cases h

theorem nearest_natCast_nonneg (n : Nat) : (0 : ℚ) ≤ nearest n := nearest_nonneg (Nat.cast_nonneg n)

/-- **A later time has no smaller offset.** -/
theorem offsetOf_mono {speed : ℚ} (hspeed : 0 < speed) {m n : Nat} (hle : m ≤ n) {a b : Int}
    (ha : offsetOf speed m = .ok a) (hb : offsetOf speed n = .ok b) : a ≤ b := by
  obtain ⟨-, -, -, rfl, -⟩ := offsetOf_ok ha
  obtain ⟨-, -, -, rfl, -⟩ := offsetOf_ok hb
  have hdouble : nearest (m : ℚ) ≤ nearest (n : ℚ) := nearest_mono (Nat.cast_nonneg m) (by exact_mod_cast hle)
  exact roundEven_mono (nearest_mono (div_nonneg (nearest_natCast_nonneg m) hspeed.le)
    (div_le_div_of_nonneg_right hdouble hspeed.le))

/-- **A greater speed** accepts what a smaller one accepts, with no greater an offset. -/
theorem offsetOf_faster {speed faster : ℚ} (hspeed : 0 < speed) (hle : speed ≤ faster) {n : Nat} {a : Int}
    (ha : offsetOf speed n = .ok a) : ∃ b, offsetOf faster n = .ok b ∧ b ≤ a := by
  obtain ⟨hmax, hdouble, hdivide, rfl, hrange⟩ := offsetOf_ok ha
  have hnonneg : 0 ≤ nearest (n : ℚ) / faster := div_nonneg (nearest_natCast_nonneg n) (hspeed.trans_le hle).le
  have hquotient : nearest (n : ℚ) / faster ≤ nearest n / speed :=
    div_le_div_of_nonneg_left (nearest_natCast_nonneg n) hspeed hle
  have hfinite : divide? (nearest n) faster = some (nearest (nearest n / faster)) :=
    double?_isSome_of_le hnonneg hquotient hdivide
  have hround : roundEven (nearest (nearest (n : ℚ) / faster)) ≤ roundEven (nearest (nearest n / speed)) :=
    roundEven_mono (nearest_mono hnonneg hquotient)
  have hpositive : 0 ≤ roundEven (nearest (nearest (n : ℚ) / faster)) := by
    have := roundEven_mono (nearest_nonneg hnonneg)
    rwa [← Int.cast_zero, roundEven_intCast] at this
  refine ⟨roundEven (nearest (nearest n / faster)), ?_, hround⟩
  have hscaled : scaledOffset n faster = some (roundEven (nearest (nearest n / faster))) := by
    unfold scaledOffset
    rw [hdouble]
    simp [hfinite]
  unfold offsetOf
  rw [if_neg (not_lt.2 hmax), hscaled]
  exact if_pos ⟨hpositive, hround.trans hrange⟩

/-- **How far an offset is from the scaled time.** -/
theorem offsetOf_accurate {speed : ℚ} (hspeed : 0 < speed) {n : Nat} {a : Int} (ha : offsetOf speed n = .ok a) :
    |(a : ℚ) - n / speed| ≤ 1 / 2 + (n / speed + 1) / 2 ^ 51 := by
  obtain ⟨-, -, -, rfl, -⟩ := offsetOf_ok ha
  have hn : (0 : ℚ) ≤ n / speed := div_nonneg (Nat.cast_nonneg n) hspeed.le
  have hconvert : |nearest (n : ℚ) - n| ≤ n / 2 ^ 53 := by
    rcases Nat.eq_zero_or_pos n with rfl | hpos
    · simp
    · exact nearest_relative (by exact_mod_cast hpos)
  have hquotient : |nearest (n : ℚ) / speed - n / speed| ≤ n / speed / 2 ^ 53 := by
    rw [← sub_div, abs_div, abs_of_pos hspeed, div_right_comm]
    exact div_le_div_of_nonneg_right hconvert hspeed.le
  have hdivide := nearest_accurate (div_nonneg (nearest_natCast_nonneg n) hspeed.le)
  have hround := roundEven_error (nearest (nearest (n : ℚ) / speed))
  rw [abs_le] at hquotient hdivide hround ⊢
  constructor <;> linarith

/-- The offset of every event comes from the sum of the deltas up to it. -/
theorem expandLoop_offsets {speed : ℚ} :
    ∀ {events : List RecordingEvent} {start : Nat} {expanded : List (Int × List UInt8)},
      expandLoop speed start events = .ok expanded →
      List.Forall₂
        (fun entry timed => entry.2 = timed.2 ∧ ∃ n : Nat, timed.1 = (n : Int) ∧ offsetOf speed n = .ok entry.1)
        expanded (offsetsFrom start events)
  | [], _, _, h => by
    cases h
    exact .nil
  | event :: events, start, _, h => by
    obtain ⟨offsetUs, hoffset, h⟩ := bind_ok h
    obtain ⟨rest, hrest, h⟩ := bind_ok h
    cases h
    exact .cons ⟨rfl, _, rfl, hoffset⟩ (expandLoop_offsets hrest)

/-- No offset lies before that of an earlier time. -/
theorem expandLoop_after {speed : ℚ} (hspeed : 0 < speed) {m : Nat} {a : Int} (ha : offsetOf speed m = .ok a) :
    ∀ {events : List RecordingEvent} {start : Nat} {expanded : List (Int × List UInt8)}, m ≤ start →
      expandLoop speed start events = .ok expanded → ∀ entry ∈ expanded, a ≤ entry.1
  | [], _, _, _, h => by
    cases h
    simp
  | event :: events, start, _, hle, h => by
    obtain ⟨offsetUs, hoffset, h⟩ := bind_ok h
    obtain ⟨rest, hrest, h⟩ := bind_ok h
    cases h
    have hnext : m ≤ start + event.dtUs := hle.trans (Nat.le_add_right _ _)
    exact List.forall_mem_cons.2 ⟨offsetOf_mono hspeed hnext ha hoffset, expandLoop_after hspeed ha hnext hrest⟩

theorem expandLoop_ordered {speed : ℚ} (hspeed : 0 < speed) :
    ∀ {events : List RecordingEvent} {start : Nat} {expanded : List (Int × List UInt8)},
      expandLoop speed start events = .ok expanded → expanded.Pairwise (fun e e' => e.1 ≤ e'.1)
  | [], _, _, h => by
    cases h
    exact .nil
  | event :: events, start, _, h => by
    obtain ⟨offsetUs, hoffset, h⟩ := bind_ok h
    obtain ⟨rest, hrest, h⟩ := bind_ok h
    cases h
    exact .cons (expandLoop_after hspeed hoffset le_rfl hrest) (expandLoop_ordered hspeed hrest)

theorem expandLoop_faster {speed faster : ℚ} (hspeed : 0 < speed) (hle : speed ≤ faster) :
    ∀ {events : List RecordingEvent} {start : Nat} {slow : List (Int × List UInt8)},
      expandLoop speed start events = .ok slow →
        ∃ fast, expandLoop faster start events = .ok fast ∧ List.Forall₂ (fun f s => f.2 = s.2 ∧ f.1 ≤ s.1) fast slow
  | [], _, _, h => by
    cases h
    exact ⟨[], rfl, .nil⟩
  | event :: events, start, _, h => by
    obtain ⟨offsetUs, hoffset, h⟩ := bind_ok h
    obtain ⟨rest, hrest, h⟩ := bind_ok h
    cases h
    obtain ⟨earlier, hearlier, hbefore⟩ := offsetOf_faster hspeed hle hoffset
    obtain ⟨fast, hfast, hall⟩ := expandLoop_faster hspeed hle hrest
    refine ⟨(earlier, event.report) :: fast, ?_, .cons ⟨rfl, hbefore⟩ hall⟩
    rw [expandLoop, hearlier, hfast]
    rfl

/-- A speed that is accepted is positive. -/
theorem expandOffsets_ok {events : List RecordingEvent} {speed : ℚ} {expanded : List (Int × List UInt8)}
    (h : expandOffsets events (some speed) = .ok expanded) : 0 < speed ∧ expandLoop speed 0 events = .ok expanded := by
  unfold expandOffsets at h
  dsimp only at h
  split at h
  · cases h
  · exact ⟨not_le.1 ‹_›, h⟩

theorem expandLoop_reports {speed : ℚ} :
    ∀ {events : List RecordingEvent} {start : Nat} {expanded : List (Int × List UInt8)},
      expandLoop speed start events = .ok expanded → expanded.map Prod.snd = events.map RecordingEvent.report
  | [], _, _, h => by
    cases h
    rfl
  | event :: events, start, _, h => by
    obtain ⟨offsetUs, -, h⟩ := bind_ok h
    obtain ⟨rest, hrest, h⟩ := bind_ok h
    cases h
    rw [List.map_cons, List.map_cons, expandLoop_reports hrest]

/-- Whatever the speed, the reports are the recording's. -/
theorem expandOffsets_reports {events : List RecordingEvent} {speed : Option ℚ} {expanded : List (Int × List UInt8)}
    (h : expandOffsets events speed = .ok expanded) : expanded.map Prod.snd = events.map RecordingEvent.report := by
  cases speed with
  | none => cases h
  | some speed => exact expandLoop_reports (expandOffsets_ok h).2

/-- **The expanded events** are the recording's reports in order, their offsets never go back, and each is the time of
its event divided by the speed, up to half a microsecond and one part in 2⁵¹. -/
theorem expandOffsets_scaled {events : List RecordingEvent} {speed : ℚ} {expanded : List (Int × List UInt8)}
    (h : expandOffsets events (some speed) = .ok expanded) :
    expanded.Pairwise (fun e e' => e.1 ≤ e'.1) ∧
      List.Forall₂ (fun entry timed => entry.2 = timed.2 ∧
        |(entry.1 : ℚ) - timed.1 / speed| ≤ 1 / 2 + (timed.1 / speed + 1) / 2 ^ 51)
        expanded (offsetsFrom 0 events) := by
  obtain ⟨hspeed, hloop⟩ := expandOffsets_ok h
  refine ⟨expandLoop_ordered hspeed hloop, (expandLoop_offsets hloop).imp ?_⟩
  rintro entry timed ⟨hreport, n, htimed, hoffset⟩
  have haccurate := offsetOf_accurate hspeed hoffset
  rw [htimed]
  exact ⟨hreport, by simpa using haccurate⟩

/-- A key that goes down at once and comes up a third of a second later. -/
def benchTap : List RecordingEvent := [⟨0, [0, 0, 4, 0, 0, 0, 0, 0]⟩, ⟨333333, [0, 0, 0, 0, 0, 0, 0, 0]⟩]

theorem benchTap_offsets : expandOffsets benchTap (some 1) =
    .ok [(0, [0, 0, 4, 0, 0, 0, 0, 0]), (333333, [0, 0, 0, 0, 0, 0, 0, 0])] := by
  have hsum : (benchTap.map RecordingEvent.dtUs).sum < 2 ^ 53 := by simp [benchTap]
  rw [expandOffsets_one hsum]
  simp [benchTap, offsetsFrom]

/-- At twice the speed the key comes up half a microsecond early: the half is rounded to even. -/
theorem benchTap_twice : expandOffsets benchTap (some 2) =
    .ok [(0, [0, 0, 4, 0, 0, 0, 0, 0]), (166666, [0, 0, 0, 0, 0, 0, 0, 0])] := by
  decide +kernel

theorem expandOffsets_scaled_tap : |((166666 : Int) : ℚ) - 333333 / 2| ≤ 1 / 2 + (333333 / 2 + 1) / 2 ^ 51 := by
  obtain ⟨-, hall⟩ := expandOffsets_scaled benchTap_twice
  cases hall with
  | cons _ hrest =>
    cases hrest with
    | cons hlast _ => simpa using hlast.2

/-- **A greater speed** plays every recording that a smaller one plays, with the same reports and no event later. -/
theorem expandOffsets_faster {events : List RecordingEvent} {speed faster : ℚ} (hle : speed ≤ faster)
    {slow : List (Int × List UInt8)} (h : expandOffsets events (some speed) = .ok slow) :
    ∃ fast, expandOffsets events (some faster) = .ok fast ∧
      List.Forall₂ (fun f s => f.2 = s.2 ∧ f.1 ≤ s.1) fast slow := by
  obtain ⟨hspeed, hloop⟩ := expandOffsets_ok h
  obtain ⟨fast, hfast, hall⟩ := expandLoop_faster hspeed hle hloop
  refine ⟨fast, ?_, hall⟩
  unfold expandOffsets
  dsimp only
  rw [if_neg (not_le.2 (hspeed.trans_le hle))]
  exact hfast

theorem expandOffsets_faster_tap : ∃ fast, expandOffsets benchTap (some 2) = .ok fast ∧
    List.Forall₂ (fun f s => f.2 = s.2 ∧ f.1 ≤ s.1) fast
      [(0, [0, 0, 4, 0, 0, 0, 0, 0]), (333333, [0, 0, 0, 0, 0, 0, 0, 0])] :=
  expandOffsets_faster (by norm_num) benchTap_offsets

end PiZero
end PicoRecorder
