import Mathlib.Algebra.Order.BigOperators.Group.List
import PicoRecorder.Lib.Binary64
import PicoRecorder.Lib.Json
import PicoRecorder.PiZero.Service
/-!
# Recordings — validation, JSON v1 and playback offsets (`recording.py`, `expand_offsets` of `playback.py`)

Python's `repr` of a value, which one message quotes, is a parameter.
-/
namespace PicoRecorder
namespace PiZero

open Lib (Json)
open Lib.Binary64 (double? divide? roundEven)

def formatVersion : Int := 1
def maxU64 : Nat := 0xFFFFFFFFFFFFFFFF

def invalid {α : Type} (message : String) : Checked α := .error (.raised .recordingValidation message)

def isNameChar (c : Char) : Bool := c.isAlphanum || c == '_' || c == '.' || c == '-'

/-- `NAME_PATTERN`. -/
def matchesName (name : String) : Bool :=
  match name.toList with
  | [] => false
  | c :: cs => c.isAlphanum && cs.length ≤ 63 && cs.all isNameChar

def validateName : Json → Checked String
  | .str name =>
    if matchesName name then .ok name
    else invalid "recording name must be 1-64 ASCII letters, digits, '.', '_' or '-', starting with a letter or digit"
  | _ => invalid "recording name must be 1-64 ASCII letters, digits, '.', '_' or '-', starting with a letter or digit"

def validateU64 (value : Json) (field : String) : Checked Nat :=
  match value with
  | .int n => if 0 ≤ n ∧ n ≤ maxU64 then .ok n.toNat else invalid s!"{field} must be an unsigned 64-bit integer"
  | _ => invalid s!"{field} must be an unsigned 64-bit integer"

def byte? : Json → Option UInt8
  | .int n => if 0 ≤ n ∧ n ≤ 0xFF then some (UInt8.ofNat n.toNat) else none
  | _ => none

def validateBootReport (values : List Json) : Checked (List UInt8) :=
  if values.length ≠ 8 then invalid "Boot Keyboard report must contain exactly 8 bytes"
  else
    match values.mapM byte? with
    | some report => .ok report
    | none => invalid "Boot Keyboard report bytes must be integers in 0..255"

def RecordingEvent.toDict (event : RecordingEvent) : Json :=
  .obj [("dt_us", .int event.dtUs), ("report", .arr (event.report.map (fun byte => .int byte.toNat)))]

def Recording.toDict (recording : Recording) : Json :=
  .obj [("version", .int formatVersion), ("name", .str recording.name), ("duration_us", .int recording.durationUs),
    ("events", .arr (recording.events.map RecordingEvent.toDict))]

/-- `RecordingEvent(dt_us, report)` with its `__post_init__`. -/
def RecordingEvent.create (dtUs : Json) (report : List Json) : Checked RecordingEvent := do
  let dtUs ← validateU64 dtUs "dt_us"
  let report ← validateBootReport report
  .ok ⟨dtUs, report⟩

/-- `Recording(name, duration_us, events, version)` with its `__post_init__`; the version is checked to be an integer by
the only caller that passes one. -/
def Recording.create (name : String) (durationUs : Json) (events : List RecordingEvent) (version : Int) :
    Checked Recording := do
  let name ← validateName (.str name)
  if version ≠ formatVersion then invalid s!"unsupported recording version {version}"
  else
    let durationUs ← validateU64 durationUs "duration_us"
    if events.head?.any (fun event => event.dtUs ≠ 0) then invalid "the first event dt_us must be zero"
    else if (events.map RecordingEvent.dtUs).sum ≠ durationUs then
      invalid "duration_us must equal the sum of event dt_us values"
    else .ok ⟨name, durationUs, events⟩

/-- `set(value) == {...}`. -/
def hasExactly (keys : List String) (fields : List (String × Json)) : Bool :=
  keys.all (fun key => fields.any (fun field => field.1 == key)) && fields.all (fun field => keys.contains field.1)

/-- `value[key]` for a key that is there. -/
def item (fields : List (String × Json)) (key : String) : Json :=
  ((fields.find? (fun field => field.1 == key)).map Prod.snd).getD .null

def parseEvent (index : Nat) : Json → Checked RecordingEvent
  | .obj fields =>
    if !hasExactly ["dt_us", "report"] fields then invalid s!"event {index} must contain exactly dt_us and report"
    else
      match item fields "report" with
      | .arr report => RecordingEvent.create (item fields "dt_us") report
      | _ => invalid s!"event {index} report must be an array"
  | _ => invalid s!"event {index} must contain exactly dt_us and report"

/-- The loop of `parse_recording` over `enumerate(events)`. -/
def parseEvents (index : Nat) : List Json → Checked (List RecordingEvent)
  | [] => .ok []
  | value :: values => do
    let event ← parseEvent index value
    let events ← parseEvents (index + 1) values
    .ok (event :: events)

def parseRecording (repr : Json → String) (value : Json) (expectedName : Option String) : Checked Recording :=
  match value with
  | .obj fields =>
    if !hasExactly ["version", "name", "duration_us", "events"] fields then
      invalid "recording JSON must contain exactly version, name, duration_us, and events"
    else do
      let name ← validateName (item fields "name")
      let expected ← match expectedName with
        | none => .ok name
        | some expected => validateName (.str expected)
      if name ≠ expected then invalid "recording name does not match its filename"
      else
        match item fields "version" with
        | .int version =>
          if version ≠ formatVersion then invalid s!"unsupported recording version {repr (.int version)}"
          else
            match item fields "events" with
            | .arr values => do
              let events ← parseEvents 0 values
              Recording.create name (item fields "duration_us") events version
            | _ => invalid "events must be an array"
        | version => invalid s!"unsupported recording version {repr version}"
  | _ => invalid "recording JSON must contain exactly version, name, duration_us, and events"

/-- The text `RecordingStore.save` writes. -/
def Recording.text (recording : Recording) : String := recording.toDict.dumps ++ "\n"

/-! ## Offsets -/

/-- `round(cumulative_us / speed)`; `none` for the overflow of a conversion. -/
def scaledOffset (cumulativeUs : Nat) (speed : ℚ) : Option Int := do
  let cumulative ← double? cumulativeUs
  let quotient ← divide? cumulative speed
  some (roundEven quotient)

/-- One offset, with the checks around it. -/
def offsetOf (speed : ℚ) (cumulativeUs : Nat) : Checked Int :=
  if cumulativeUs > maxU64 then .error (.raised .recorder "cumulative playback offset exceeds unsigned 64-bit range")
  else
    match scaledOffset cumulativeUs speed with
    | none => .error (.raised .recorder "scaled playback offset exceeds unsigned 64-bit range")
    | some offsetUs =>
      if 0 ≤ offsetUs ∧ offsetUs ≤ maxU64 then .ok offsetUs
      else .error (.raised .recorder "scaled playback offset exceeds unsigned 64-bit range")

/-- The loop of `expand_offsets`. -/
def expandLoop (speed : ℚ) : Nat → List RecordingEvent → Checked (List (Int × List UInt8))
  | _, [] => .ok []
  | cumulativeUs, event :: events => do
    let offsetUs ← offsetOf speed (cumulativeUs + event.dtUs)
    let expanded ← expandLoop speed (cumulativeUs + event.dtUs) events
    .ok ((offsetUs, event.report) :: expanded)

/-- `expand_offsets`; `none` is a speed that is no finite number. -/
def expandOffsets (events : List RecordingEvent) (speed : Option ℚ) : Checked (List (Int × List UInt8)) :=
  match speed with
  | none => .error (.raised .recorder "playback speed must be a finite number greater than zero")
  | some speed =>
    if speed ≤ 0 then .error (.raised .recorder "playback speed must be a finite number greater than zero")
    else expandLoop speed 0 events

/-! ## What is saved is loaded -/

/-- What `Recording.__post_init__` and that of its events let pass. -/
structure Recording.Valid (recording : Recording) : Prop where
  name : matchesName recording.name = true
  first : ∀ event ∈ recording.events.head?, event.dtUs = 0
  duration : (recording.events.map RecordingEvent.dtUs).sum = recording.durationUs
  fits : recording.durationUs ≤ maxU64
  reports : ∀ event ∈ recording.events, event.report.length = 8

theorem validateU64_int {n : Nat} (h : n ≤ maxU64) (field : String) : validateU64 (.int n) field = .ok n := by
  have hrange : 0 ≤ (n : Int) ∧ (n : Int) ≤ maxU64 := ⟨Int.natCast_nonneg n, by exact_mod_cast h⟩
  exact (if_pos hrange).trans (by rw [Int.toNat_natCast])

theorem mapM_byte? : ∀ report : List UInt8, (report.map (fun byte => Json.int byte.toNat)).mapM byte? = some report
  | [] => rfl
  | byte :: report => by
    have hbyte : byte? (.int byte.toNat) = some byte := by
      have hrange : 0 ≤ (byte.toNat : Int) ∧ (byte.toNat : Int) ≤ 0xFF := by
        have := byte.toNat_lt
        omega
      exact (if_pos hrange).trans (by rw [Int.toNat_natCast, UInt8.ofNat_toNat])
    rw [List.map_cons, List.mapM_cons, hbyte, mapM_byte? report]
    rfl

theorem validateBootReport_map {report : List UInt8} (h : report.length = 8) :
    validateBootReport (report.map (fun byte => .int byte.toNat)) = .ok report := by
  unfold validateBootReport
  rw [if_neg (by simp [h]), mapM_byte?]

theorem parseEvent_toDict {event : RecordingEvent} (hdt : event.dtUs ≤ maxU64) (hr : event.report.length = 8)
    (index : Nat) : parseEvent index event.toDict = .ok event := by
  have hu64 := validateU64_int hdt "dt_us"
  have hreport := validateBootReport_map hr
  unfold parseEvent RecordingEvent.toDict
  simp only [hasExactly, item, RecordingEvent.create]
  simp [hu64, hreport, bind, Except.bind]

theorem parseEvents_toDict : ∀ (events : List RecordingEvent) (index : Nat),
    (∀ event ∈ events, event.dtUs ≤ maxU64 ∧ event.report.length = 8) →
      parseEvents index (events.map RecordingEvent.toDict) = .ok events
  | [], _, _ => rfl
  | event :: events, index, h => by
    obtain ⟨hdt, hr⟩ := h event List.mem_cons_self
    rw [List.map_cons, parseEvents, parseEvent_toDict hdt hr,
      parseEvents_toDict events (index + 1) (fun e he => h e (List.mem_cons_of_mem event he))]
    rfl

theorem Recording.Valid.create {recording : Recording} (h : recording.Valid) :
    Recording.create recording.name (.int recording.durationUs) recording.events formatVersion = .ok recording := by
  have hname : validateName (.str recording.name) = .ok recording.name := if_pos h.name
  have hfirst : recording.events.head?.any (fun event => event.dtUs ≠ 0) = false := by
    cases hh : recording.events.head? with
    | none => rfl
    | some event => simp [h.first event hh]
  unfold Recording.create
  rw [hname, hfirst]
  simp [validateU64_int h.fits, h.duration, bind, Except.bind]

/-- **A valid recording is parsed from its own dictionary**, with no name expected or with its own. -/
theorem parseRecording_toDict_of (repr : Json → String) {recording : Recording} (h : recording.Valid)
    (expectedName : Option String) (hexpected : ∀ name ∈ expectedName, name = recording.name) :
    parseRecording repr recording.toDict expectedName = .ok recording := by
  have hname : validateName (.str recording.name) = .ok recording.name := if_pos h.name
  have hevents := parseEvents_toDict recording.events 0 (fun event he => by
    refine ⟨?_, h.reports event he⟩
    have hle := List.le_sum_of_mem (List.mem_map_of_mem (f := RecordingEvent.dtUs) he)
    have := h.duration
    have := h.fits
    omega)
  unfold parseRecording Recording.toDict
  simp only [hasExactly, item]
  cases expectedName with
  | none => simp [hname, hevents, h.create, bind, Except.bind]
  | some name =>
    obtain rfl := hexpected name rfl
    simp [hname, hevents, h.create, bind, Except.bind]

theorem parseRecording_toDict (repr : Json → String) {recording : Recording} (h : recording.Valid) :
    parseRecording repr recording.toDict (some recording.name) = .ok recording :=
  parseRecording_toDict_of repr h _ (fun _ hname => (Option.some.inj hname).symm)

theorem RecordingEvent.toDict_exact (event : RecordingEvent) : event.toDict.Exact := by
  have hbytes : Json.ExactItems (event.report.map (fun byte => .int byte.toNat)) :=
    Json.exactItems_iff.2 (by simp)
  simp [RecordingEvent.toDict, Json.Exact, Json.ExactFields, hbytes]

theorem Recording.toDict_exact (recording : Recording) : recording.toDict.Exact := by
  have hevents : Json.ExactItems (recording.events.map RecordingEvent.toDict) :=
    Json.exactItems_iff.2 (by simp [RecordingEvent.toDict_exact])
  simp [Recording.toDict, Json.Exact, Json.ExactFields, hevents]

/-- **A saved recording is loaded**: its text is read as its dictionary, and that is parsed as the recording. -/
theorem Recording.loads_text (recording : Recording) : Json.loads recording.text = some recording.toDict :=
  Json.loads_dumps recording.toDict_exact ['\n'] (by simp [Json.isBlank])

/-! ## What is parsed is valid -/

theorem length_of_mapM {α β : Type} {f : α → Option β} : ∀ {xs : List α} {ys : List β},
    xs.mapM f = some ys → ys.length = xs.length
  | [], ys, h => by
    obtain rfl : [] = ys := Option.some.inj h
    rfl
  | x :: xs, ys, h => by
    rw [List.mapM_cons] at h
    obtain ⟨y, -, h⟩ := Option.bind_eq_some_iff.1 h
    obtain ⟨rest, hrest, h⟩ := Option.bind_eq_some_iff.1 h
    obtain rfl : y :: rest = ys := Option.some.inj h
    rw [List.length_cons, List.length_cons, length_of_mapM hrest]

/-- What succeeds as a whole succeeded in its first step. -/
theorem bind_ok {α β : Type} {x : Checked α} {f : α → Checked β} {b : β} (h : x >>= f = .ok b) :
    ∃ a, x = .ok a ∧ f a = .ok b := by
  cases x with
  | error e => cases h
  | ok a => exact ⟨a, rfl, h⟩

theorem validateBootReport_length {values : List Json} {report : List UInt8}
    (h : validateBootReport values = .ok report) :
    report.length = 8 := by
  unfold validateBootReport at h
  split at h
  · cases h
  · rename_i hlength
    split at h
    · rename_i bytes hbytes
      cases h
      rw [length_of_mapM hbytes]
      exact not_not.1 hlength
    · cases h

theorem parseEvent_report {index : Nat} {value : Json} {event : RecordingEvent}
    (h : parseEvent index value = .ok event) :
    event.report.length = 8 := by
  unfold parseEvent at h
  split at h
  · split at h
    · cases h
    · split at h
      · obtain ⟨dtUs, -, h⟩ := bind_ok h
        obtain ⟨report, hreport, h⟩ := bind_ok h
        cases h
        exact validateBootReport_length hreport
      · cases h
  · cases h

theorem parseEvents_reports : ∀ {index : Nat} {values : List Json} {events : List RecordingEvent},
    parseEvents index values = .ok events → ∀ event ∈ events, event.report.length = 8
  | _, [], events, h => by
    cases h
    simp
  | index, value :: values, events, h => by
    obtain ⟨event, hevent, h⟩ := bind_ok h
    obtain ⟨rest, hrest, h⟩ := bind_ok h
    cases h
    rw [List.forall_mem_cons]
    exact ⟨parseEvent_report hevent, parseEvents_reports hrest⟩

theorem validateName_ok {value : Json} {name : String} (h : validateName value = .ok name) :
    matchesName name = true ∧ value = .str name := by
  unfold validateName at h
  split at h
  · split at h
    · rename_i hname
      cases h
      exact ⟨hname, rfl⟩
    · cases h
  · cases h

theorem validateName_error {name : String} {e : Exn} (h : validateName (.str name) = .error e) :
    matchesName name = false := by
  simp only [validateName] at h
  split at h
  · cases h
  · exact Bool.eq_false_iff.2 ‹_›

theorem validateU64_ok {value : Json} {field : String} {n : Nat} (h : validateU64 value field = .ok n) :
    n ≤ maxU64 ∧ value = .int n := by
  unfold validateU64 at h
  split at h
  · split at h
    · rename_i hrange
      cases h
      exact ⟨by omega, by rw [Int.toNat_of_nonneg hrange.1]⟩
    · cases h
  · cases h

/-- **What is constructed is valid.** -/
theorem Recording.create_valid {name : String} {durationUs : Json} {events : List RecordingEvent} {version : Int}
    {recording : Recording} (h : Recording.create name durationUs events version = .ok recording)
    (hreports : ∀ event ∈ events, event.report.length = 8) : recording.Valid := by
  unfold Recording.create at h
  obtain ⟨name', hname, h⟩ := bind_ok h
  split at h
  · cases h
  obtain ⟨duration, hduration, h⟩ := bind_ok h
  split at h
  · cases h
  rename_i hfirst
  split at h
  · cases h
  rename_i hsum
  cases h
  refine ⟨(validateName_ok hname).1, fun event hevent => ?_, not_not.1 hsum, (validateU64_ok hduration).1, hreports⟩
  by_contra hdt
  exact hfirst (Option.any_eq_true _ _ |>.2 ⟨event, hevent, by simpa using hdt⟩)

/-- **What parses is a valid recording.** -/
theorem parseRecording_valid {repr : Json → String} {value : Json} {expectedName : Option String}
    {recording : Recording} (h : parseRecording repr value expectedName = .ok recording) : recording.Valid := by
  unfold parseRecording at h
  split at h
  · split at h
    · cases h
    obtain ⟨name, -, h⟩ := bind_ok h
    dsimp only at h
    -- the check of the name is the same with and without an expected one
    cases expectedName
    all_goals
      obtain ⟨expected, -, h⟩ := bind_ok h
      split at h
      · cases h
      split at h
      · split at h
        · cases h
        split at h
        · obtain ⟨events, hevents, h⟩ := bind_ok h
          exact Recording.create_valid h (parseEvents_reports hevents)
        · cases h
      · cases h
  · cases h

theorem Recording.create_ok {name : String} {durationUs : Json} {events : List RecordingEvent} {version : Int}
    {recording : Recording} (h : Recording.create name durationUs events version = .ok recording) :
    recording.name = name ∧ recording.events = events := by
  unfold Recording.create at h
  obtain ⟨name', hname, h⟩ := bind_ok h
  obtain ⟨-, heq⟩ := validateName_ok hname
  cases heq
  split at h
  · cases h
  obtain ⟨duration, -, h⟩ := bind_ok h
  split at h
  · cases h
  split at h
  · cases h
  cases h
  exact ⟨rfl, rfl⟩

/-- **What parses has the name that was expected.** -/
theorem parseRecording_name {repr : Json → String} {value : Json} {expected : String} {recording : Recording}
    (h : parseRecording repr value (some expected) = .ok recording) : recording.name = expected := by
  unfold parseRecording at h
  split at h
  · split at h
    · cases h
    obtain ⟨name, -, h⟩ := bind_ok h
    dsimp only at h
    obtain ⟨expected', hexpected, h⟩ := bind_ok h
    obtain ⟨-, heq⟩ := validateName_ok hexpected
    cases heq
    split at h
    · cases h
    rename_i hname
    split at h
    · split at h
      · cases h
      split at h
      · obtain ⟨events, -, h⟩ := bind_ok h
        exact (Recording.create_ok h).1.trans (not_not.1 hname)
      · cases h
    · cases h
  · cases h

/-! ## Offsets at any speed -/

theorem offsetOf_range {speed : ℚ} {cumulativeUs : Nat} {offsetUs : Int}
    (h : offsetOf speed cumulativeUs = .ok offsetUs) :
    0 ≤ offsetUs ∧ offsetUs ≤ maxU64 := by
  unfold offsetOf at h
  split at h
  · cases h
  split at h
  · cases h
  split at h
  · rename_i hrange
    cases h
    exact hrange
  · cases h

/-- Every entry is an unsigned 64-bit offset and the report of an event. -/
theorem expandLoop_entry {speed : ℚ} :
    ∀ {events : List RecordingEvent} {start : Nat} {expanded : List (Int × List UInt8)},
      expandLoop speed start events = .ok expanded →
      ∀ entry ∈ expanded, (0 ≤ entry.1 ∧ entry.1 ≤ maxU64) ∧ ∃ event ∈ events, event.report = entry.2
  | [], _, expanded, h, entry, he => by
    cases h
    cases he
  | event :: events, start, expanded, h, entry, he => by
    obtain ⟨offsetUs, hoffset, h⟩ := bind_ok h
    obtain ⟨rest, hrest, h⟩ := bind_ok h
    cases h
    rcases List.mem_cons.1 he with rfl | he
    · exact ⟨offsetOf_range hoffset, event, List.mem_cons_self, rfl⟩
    · obtain ⟨hrange, event', hmem, hreport⟩ := expandLoop_entry hrest entry he
      exact ⟨hrange, event', List.mem_cons_of_mem event hmem, hreport⟩

theorem expandOffsets_entry {events : List RecordingEvent} {speed : Option ℚ} {expanded : List (Int × List UInt8)}
    (h : expandOffsets events speed = .ok expanded) : ∀ entry ∈ expanded,
      (0 ≤ entry.1 ∧ entry.1 ≤ maxU64) ∧ ∃ event ∈ events, event.report = entry.2 := by
  unfold expandOffsets at h
  split at h
  · cases h
  · split at h
    · cases h
    · exact expandLoop_entry h

/-! ## Offsets at normal speed -/

theorem scaledOffset_one {n : Nat} (h : n < 2 ^ 53) : scaledOffset n 1 = some (n : Int) := by
  unfold scaledOffset
  rw [Lib.Binary64.double?_natCast h]
  change (divide? (n : ℚ) 1).bind _ = _
  rw [Lib.Binary64.divide?_one h]
  exact congrArg some (Lib.Binary64.roundEven_intCast (n : Int))

theorem offsetOf_one {n : Nat} (h : n < 2 ^ 53) : offsetOf 1 n = .ok (n : Int) := by
  have hmax : ¬n > maxU64 := by unfold maxU64; omega
  have hrange : 0 ≤ (n : Int) ∧ (n : Int) ≤ maxU64 := by unfold maxU64; omega
  rw [offsetOf, if_neg hmax, scaledOffset_one h]
  exact if_pos hrange

/-- The offsets of some events after `start`, one running sum. -/
def offsetsFrom (start : Nat) : List RecordingEvent → List (Int × List UInt8)
  | [] => []
  | event :: events => ((start + event.dtUs : Nat), event.report) :: offsetsFrom (start + event.dtUs) events

theorem expandLoop_one : ∀ (events : List RecordingEvent) (start : Nat),
    start + (events.map RecordingEvent.dtUs).sum < 2 ^ 53 → expandLoop 1 start events = .ok (offsetsFrom start events)
  | [], _, _ => rfl
  | event :: events, start, h => by
    rw [List.map_cons, List.sum_cons] at h
    rw [expandLoop, offsetOf_one (by omega), expandLoop_one events (start + event.dtUs) (by omega)]
    rfl

/-- **At speed 1.0 an offset is the sum of the deltas up to it.** -/
theorem expandOffsets_one {events : List RecordingEvent} (h : (events.map RecordingEvent.dtUs).sum < 2 ^ 53) :
    expandOffsets events (some 1) = .ok (offsetsFrom 0 events) := by
  unfold expandOffsets
  dsimp only
  rw [if_neg (by norm_num), expandLoop_one events 0 (by omega)]

end PiZero
end PicoRecorder
