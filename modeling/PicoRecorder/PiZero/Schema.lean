import Mathlib.Data.List.Nodup
import PicoRecorder.PiZero.Capture
/-!
# Schema — the builder on any arguments, and the dictionary both ways (`RecordingBuilder`, `parse_recording`)

`RecordingBuilder.add` of Service takes what a frame carries; here it takes any two values, in the source's order: the
epoch and the last timestamp are set before the event is constructed, and its own checks could still raise.
-/
namespace PicoRecorder
namespace PiZero

open Lib (Json)

/-- `tuple(value)`: an array's items, a string's characters, a dictionary's keys; other values are not iterable. -/
def iterated : Json → Checked (List Json)
  | .arr items => .ok items
  | .str s => .ok (s.toList.map (fun c => .str c.toString))
  | .obj fields => .ok (fields.map (fun field => .str field.1))
  | _ => .error (.raised .foreign "object is not iterable")

namespace RecordingBuilder

/-- `RecordingBuilder(name)`. -/
def init (name : Json) : Checked RecordingBuilder := do
  let name ← validateName name
  .ok (create name)

/-- What `add` does with a checked timestamp and report. -/
def append (b : RecordingBuilder) (timestampUs dtUs : Nat) (report : List UInt8) : Checked Unit × RecordingBuilder :=
  let b := { b with epoch := some (b.epoch.getD timestampUs), lastTimestamp := some timestampUs }
  match RecordingEvent.create (.int dtUs) (report.map (fun byte => .int byte.toNat)) with
  | .error e => (.error e, b)
  | .ok event => (.ok (), { b with events := b.events ++ [event] })

/-- `add`, with the builder it leaves whether it returns or raises. -/
def addAny (b : RecordingBuilder) (timestampUs report : Json) : Checked Unit × RecordingBuilder :=
  match validateU64 timestampUs "timestamp_us", iterated report >>= validateBootReport with
  | .error e, _ => (.error e, b)
  | .ok _, .error e => (.error e, b)
  | .ok timestampUs, .ok report =>
    if b.lastTimestamp.any (fun last => timestampUs < last) then (invalid "Pico timestamp moved backwards", b)
    else
      match b.epoch, b.lastTimestamp with
      | none, _ => b.append timestampUs 0 report
      | some _, some last => b.append timestampUs (timestampUs - last) report
      | some _, none => (.error (.raised .foreign "AssertionError"), b)

/-- `build`. -/
def buildAny (b : RecordingBuilder) : Checked Recording :=
  Recording.create b.name
    (.int (match b.epoch, b.lastTimestamp with | some epoch, some last => (last : Int) - epoch | _, _ => 0))
    b.events formatVersion

/-- The builder after some calls of `add`, each with its two arguments; what a call raises is caught. -/
def addAll (b : RecordingBuilder) (calls : List (Json × Json)) : RecordingBuilder :=
  calls.foldl (fun b call => (b.addAny call.1 call.2).2) b

/-- The calls that return. -/
def accepted : RecordingBuilder → List (Json × Json) → List (Json × Json)
  | _, [] => []
  | b, call :: calls =>
    match b.addAny call.1 call.2 with
    | (.ok (), b') => call :: accepted b' calls
    | (.error _, b') => accepted b' calls

/-! ## One call -/

variable {b b' : RecordingBuilder}

theorem append_eq {timestampUs dtUs : Nat} {report : List UInt8} (hdt : dtUs ≤ maxU64) (hr : report.length = 8) :
    b.append timestampUs dtUs report = (.ok (), { b with
      epoch := some (b.epoch.getD timestampUs), lastTimestamp := some timestampUs
      events := b.events ++ [⟨dtUs, report⟩] }) := by
  have hu64 := validateU64_int hdt "dt_us"
  have hreport := validateBootReport_map hr
  unfold append
  simp [RecordingEvent.create, hu64, hreport, bind, Except.bind]

/-- **On what a frame carries the two are one**: the timestamp and the report pass, and only the order is left to
check. -/
theorem addAny_eq {timestampUs : Nat} {report : List UInt8} (hb : b.Sound) (ht : timestampUs ≤ maxU64)
    (hr : report.length = 8) :
    b.addAny (.int timestampUs) (.arr (report.map (fun byte => .int byte.toNat))) =
      match b.add timestampUs report with
      | .ok b' => (.ok (), b')
      | .error e => (.error e, b) := by
  have hspan := hb.span
  have hreport : (iterated (.arr (report.map (fun byte => .int byte.toNat))) >>= validateBootReport) = .ok report :=
    validateBootReport_map hr
  unfold addAny add
  rw [validateU64_int ht, hreport]
  cases hepoch : b.epoch with
  | none =>
    cases hlast : b.lastTimestamp with
    | none => simp [append_eq (Nat.zero_le _) hr, hepoch]
    | some last => simp [hepoch, hlast] at hspan
  | some epoch =>
    cases hlast : b.lastTimestamp with
    | none => simp [hepoch, hlast] at hspan
    | some last =>
      by_cases hbackwards : timestampUs < last
      · simp [hbackwards, invalid]
      · simp [hbackwards, append_eq (show timestampUs - last ≤ maxU64 by omega) hr, hepoch]

/-- **What one call can do**: it raises and changes nothing, or its arguments are those of a frame. -/
theorem addAny_cases (hb : b.Sound) (timestampUs report : Json) :
    (∃ e, b.addAny timestampUs report = (.error e, b)) ∨
    ∃ (t : Nat) (bytes : List UInt8) (b' : RecordingBuilder), timestampUs = .int t ∧ t ≤ maxU64 ∧ bytes.length = 8 ∧
      (iterated report >>= validateBootReport) = .ok bytes ∧
      b.add t bytes = .ok b' ∧ b.addAny timestampUs report = (.ok (), b') := by
  cases htime : validateU64 timestampUs "timestamp_us" with
  | error e =>
    left
    exact ⟨e, by simp [addAny, htime]⟩
  | ok t =>
    cases hbytes : (iterated report >>= validateBootReport) with
    | error e =>
      left
      exact ⟨e, by simp only [addAny, htime, hbytes]⟩
    | ok bytes =>
      obtain ⟨ht, rfl⟩ := validateU64_ok htime
      obtain ⟨items, -, hitems⟩ := bind_ok hbytes
      have hr := validateBootReport_length hitems
      have heq := addAny_eq hb ht hr
      have hsame : b.addAny (.int t) report = b.addAny (.int t) (.arr (bytes.map (fun byte => .int byte.toNat))) := by
        have harr : (iterated (.arr (bytes.map (fun byte => .int byte.toNat))) >>= validateBootReport) = .ok bytes :=
          validateBootReport_map hr
        simp only [addAny, hbytes, harr]
      cases hadd : b.add t bytes with
      | error e =>
        left
        exact ⟨e, by rw [hsame, heq, hadd]⟩
      | ok b' =>
        right
        exact ⟨t, bytes, b', rfl, ht, hr, rfl, hadd, by rw [hsame, heq, hadd]⟩

/-- **A rejected call leaves the builder as it was.** -/
theorem addAny_error (hb : b.Sound) {timestampUs report : Json} {e : Exn}
    (h : (b.addAny timestampUs report).1 = .error e) :
    (b.addAny timestampUs report).2 = b := by
  rcases addAny_cases hb timestampUs report with ⟨e', hrejected⟩ | ⟨t, bytes, b', -, -, -, -, -, htaken⟩
  · rw [hrejected]
  · rw [htaken] at h
    cases h

theorem addAny_sound (hb : b.Sound) (timestampUs report : Json) : (b.addAny timestampUs report).2.Sound := by
  rcases addAny_cases hb timestampUs report with ⟨e, hrejected⟩ | ⟨t, bytes, b', -, ht, hr, -, hadd, htaken⟩
  · rw [hrejected]
    exact hb
  · rw [htaken]
    exact hb.add ht hr hadd

theorem addAny_name (hb : b.Sound) (timestampUs report : Json) : (b.addAny timestampUs report).2.name = b.name := by
  rcases addAny_cases hb timestampUs report with ⟨e, hrejected⟩ | ⟨t, bytes, b', -, -, -, -, hadd, htaken⟩
  · rw [hrejected]
  · rw [htaken]
    exact add_name hadd

/-! ## Many calls -/

theorem addAll_sound (hb : b.Sound) (calls : List (Json × Json)) : (b.addAll calls).Sound := by
  induction calls generalizing b with
  | nil => exact hb
  | cons call calls ih => exact ih (addAny_sound hb call.1 call.2)

theorem addAll_name (hb : b.Sound) (calls : List (Json × Json)) : (b.addAll calls).name = b.name := by
  induction calls generalizing b with
  | nil => rfl
  | cons call calls ih => exact (ih (addAny_sound hb call.1 call.2)).trans (addAny_name hb call.1 call.2)

/-- **The rejected calls might as well not have been made.** -/
theorem addAll_accepted (hb : b.Sound) (calls : List (Json × Json)) : b.addAll (b.accepted calls) = b.addAll calls := by
  induction calls generalizing b with
  | nil => rfl
  | cons call calls ih =>
    have hnext := ih (addAny_sound hb call.1 call.2)
    rcases addAny_cases hb call.1 call.2 with ⟨e, hrejected⟩ | ⟨t, bytes, b', -, -, -, -, -, htaken⟩
    · rw [hrejected] at hnext
      simp only [accepted, addAll, List.foldl_cons, hrejected]
      exact hnext
    · rw [htaken] at hnext
      simp only [accepted, addAll, List.foldl_cons, htaken]
      exact hnext

/-- The timestamps that were taken so far, told from the builder: the first and the last of them, and the sums. -/
structure Telescopes (b : RecordingBuilder) (timestamps : List Nat) : Prop where
  epoch : b.epoch = timestamps.head?
  last : b.lastTimestamp = timestamps.getLast?
  length : b.events.length = timestamps.length
  sums : ∀ i, ∀ h : i < timestamps.length,
    timestamps.headD 0 + ((b.events.take (i + 1)).map RecordingEvent.dtUs).sum = timestamps[i]

theorem telescopes_create (name : String) : Telescopes (create name) [] := ⟨rfl, rfl, rfl, nofun⟩

theorem Telescopes.add {timestamps : List Nat} {t : Nat} {bytes : List UInt8} (h : Telescopes b timestamps)
    (hadd : b.add t bytes = .ok b') : Telescopes b' (timestamps ++ [t]) := by
  obtain ⟨hepoch, hlast, hlength, hsums⟩ := h
  unfold RecordingBuilder.add at hadd
  split at hadd
  · rename_i hnone
    cases hadd
    have hnil : timestamps = [] := by simpa [hnone] using hlast.symm
    subst hnil
    have hempty : b.events = [] := List.eq_nil_of_length_eq_zero hlength
    refine ⟨rfl, rfl, by simp [hempty], fun i hi => ?_⟩
    have hzero : i = 0 := by simpa using hi
    simp [hzero, hempty]
  · rename_i last hsome
    split at hadd
    · cases hadd
    rename_i hforward
    cases hadd
    rw [hsome] at hlast
    have hne : timestamps ≠ [] := by
      rintro rfl
      simp at hlast
    have hhead : (timestamps ++ [t]).headD 0 = timestamps.headD 0 := by
      cases timestamps with
      | nil => exact absurd rfl hne
      | cons x xs => rfl
    have hpos := List.length_pos_iff.2 hne
    refine ⟨by simp [hepoch, List.head?_append_of_ne_nil _ hne], by simp, by simp [hlength], fun i hi => ?_⟩
    rw [hhead]
    by_cases hi' : i < timestamps.length
    · rw [List.take_append_of_le_length (by omega), List.getElem_append_left hi']
      exact hsums i hi'
    · -- the new one: all the sums so far end at the last timestamp
      have hend : i = timestamps.length := by
        rw [List.length_append, List.length_singleton] at hi
        omega
      have hold := hsums (timestamps.length - 1) (by omega)
      have hget : timestamps[timestamps.length - 1] = last := by
        rw [List.getLast?_eq_some_getLast hne, Option.some.injEq] at hlast
        rw [← List.getLast_eq_getElem hne, hlast]
      rw [hget, Nat.sub_add_cancel hpos, ← hlength, List.take_length] at hold
      subst hend
      rw [List.getElem_append_right (Nat.le_refl _), List.take_of_length_le (by simp [hlength])]
      simp only [List.map_append, List.sum_append, List.map_cons, List.map_nil, List.sum_singleton, Nat.sub_self,
        List.getElem_cons_zero]
      omega

/-- What the calls of a run were: the taken ones carry the timestamps that the builder tells. -/
theorem Telescopes.addAll {timestamps : List Nat} (hb : b.Sound) (h : Telescopes b timestamps)
    (calls : List (Json × Json)) :
    ∃ more : List Nat, (b.accepted calls).map Prod.fst = more.map (fun t : Nat => Json.int t) ∧
      Telescopes (b.addAll calls) (timestamps ++ more) := by
  induction calls generalizing b timestamps with
  | nil => exact ⟨[], rfl, by simpa [RecordingBuilder.addAll] using h⟩
  | cons call calls ih =>
    obtain ⟨timestampUs, report⟩ := call
    have hnext := addAny_sound hb timestampUs report
    rcases addAny_cases hb timestampUs report with ⟨e, hrejected⟩ | ⟨t, bytes, b', rfl, -, -, -, hadd, htaken⟩
    · obtain ⟨more, hmore, hsums⟩ := ih hb h
      refine ⟨more, ?_, ?_⟩
      · simpa only [accepted, hrejected] using hmore
      · simpa only [RecordingBuilder.addAll, List.foldl_cons, hrejected] using hsums
    · rw [htaken] at hnext
      obtain ⟨more, hmore, hsums⟩ := ih hnext (h.add hadd)
      refine ⟨t :: more, ?_, ?_⟩
      · simpa only [accepted, htaken, List.map_cons, List.cons.injEq, true_and] using hmore
      · simpa only [RecordingBuilder.addAll, List.foldl_cons, htaken, List.append_assoc,
          List.singleton_append] using hsums

/-- The duration is the last timestamp less the first. -/
theorem Telescopes.durationUs {timestamps : List Nat} (h : Telescopes b timestamps) (hb : b.Sound) :
    (b.build.durationUs : Int) = (timestamps.getLastD 0 : Int) - timestamps.headD 0 := by
  have hspan := hb.span
  rw [h.epoch, h.last] at hspan
  unfold RecordingBuilder.build
  rw [h.epoch, h.last]
  cases timestamps with
  | nil => rfl
  | cons first timestamps =>
    rw [List.getLast?_cons] at hspan ⊢
    simp only [List.head?_cons, List.getLastD_eq_getLast?, List.getLast?_cons, Option.getD_some,
      List.headD_cons] at hspan ⊢
    omega

/-- **What has been added always builds**, to the recording that `build` names. -/
theorem buildAny_eq (hb : b.Sound) (hname : matchesName b.name = true) : b.buildAny = .ok b.build := by
  have hvalid := hb.build hname
  have hspan := hb.span
  have hduration : (match b.epoch, b.lastTimestamp with | some epoch, some last => (last : Int) - epoch | _, _ => 0) =
      (b.build.durationUs : Int) := by
    unfold RecordingBuilder.build
    cases hepoch : b.epoch with
    | none => rfl
    | some epoch =>
      cases hlast : b.lastTimestamp with
      | none => rfl
      | some last =>
        simp only [hepoch, hlast] at hspan
        show (last : Int) - epoch = ((last - epoch : Nat) : Int)
        omega
  rw [buildAny, hduration]
  exact hvalid.create

end RecordingBuilder

/-! ## Nothing but validation errors -/

/-- The call returns or raises a RecordingValidationError. -/
def Validates {α : Type} (x : Checked α) : Prop :=
  ∀ e, x = .error e → ∃ message, e = .raised .recordingValidation message

theorem validates_ok {α : Type} (a : α) : Validates (.ok a) := nofun

theorem validates_invalid {α : Type} (message : String) : Validates (invalid message : Checked α) := by
  intro e h
  cases h
  exact ⟨message, rfl⟩

theorem Validates.bind {α β : Type} {x : Checked α} {f : α → Checked β} (hx : Validates x) (hf : ∀ a, Validates (f a)) :
    Validates (x >>= f) := by
  cases x with
  | error e =>
    intro e' h
    cases h
    exact hx e rfl
  | ok a => exact hf a

theorem validates_validateName (value : Json) : Validates (validateName value) := by
  unfold validateName
  split
  · split
    · exact validates_ok _
    · exact validates_invalid _
  · exact validates_invalid _

theorem validates_validateU64 (value : Json) (field : String) : Validates (validateU64 value field) := by
  unfold validateU64
  split
  · split
    · exact validates_ok _
    · exact validates_invalid _
  · exact validates_invalid _

theorem validates_validateBootReport (values : List Json) : Validates (validateBootReport values) := by
  unfold validateBootReport
  split
  · exact validates_invalid _
  split
  · exact validates_ok _
  · exact validates_invalid _

theorem validates_createEvent (dtUs : Json) (report : List Json) : Validates (RecordingEvent.create dtUs report) := by
  unfold RecordingEvent.create
  apply Validates.bind (validates_validateU64 _ _)
  intro dtUs
  apply Validates.bind (validates_validateBootReport _)
  intro report
  exact validates_ok _

theorem validates_create (name : String) (durationUs : Json) (events : List RecordingEvent) (version : Int) :
    Validates (Recording.create name durationUs events version) := by
  unfold Recording.create
  apply Validates.bind (validates_validateName _)
  intro name
  split
  · exact validates_invalid _
  apply Validates.bind (validates_validateU64 _ _)
  intro durationUs
  split
  · exact validates_invalid _
  split
  · exact validates_invalid _
  · exact validates_ok _

theorem validates_parseEvent (index : Nat) (value : Json) : Validates (parseEvent index value) := by
  unfold parseEvent
  split
  · split
    · exact validates_invalid _
    split
    · exact validates_createEvent _ _
    · exact validates_invalid _
  · exact validates_invalid _

theorem validates_parseEvents (index : Nat) (values : List Json) : Validates (parseEvents index values) := by
  induction values generalizing index with
  | nil => exact validates_ok _
  | cons value values ih =>
    apply Validates.bind (validates_parseEvent index value)
    intro event
    apply Validates.bind (ih (index + 1))
    intro events
    exact validates_ok _

/-- **`parse_recording` raises nothing else**, whatever it is given. -/
theorem validates_parseRecording (repr : Json → String) (value : Json) (expectedName : Option String) :
    Validates (parseRecording repr value expectedName) := by
  unfold parseRecording
  split
  · split
    · exact validates_invalid _
    apply Validates.bind (validates_validateName _)
    intro name
    dsimp only
    cases expectedName
    all_goals
      refine Validates.bind ?_ (fun expected => ?_)
      · first | exact validates_ok _ | exact validates_validateName _
      split
      · exact validates_invalid _
      split
      · split
        · exact validates_invalid _
        split
        · apply Validates.bind (validates_parseEvents _ _)
          intro events
          exact validates_create _ _ _ _
        · exact validates_invalid _
      · exact validates_invalid _
  · exact validates_invalid _

/-! ## What parses is its own dictionary -/

theorem item_of_mem {fields : List (String × Json)} (hkeys : (fields.map Prod.fst).Nodup) {field : String × Json}
    (h : field ∈ fields) : item fields field.1 = field.2 := by
  induction fields with
  | nil => cases h
  | cons first fields ih =>
    rw [List.map_cons, List.nodup_cons] at hkeys
    rcases List.mem_cons.1 h with rfl | hlater
    · simp [item]
    · have hne : first.1 ≠ field.1 := by
        intro he
        exact hkeys.1 (he ▸ List.mem_map_of_mem hlater)
      have hskip : item (first :: fields) field.1 = item fields field.1 := by
        simp [item, hne]
      rw [hskip]
      exact ih hkeys.2 hlater

/-- **A dictionary with exactly these keys is a shuffle of them with their values.** -/
theorem hasExactly_perm {keys : List String} {fields : List (String × Json)} (hkeys : keys.Nodup)
    (hfields : (fields.map Prod.fst).Nodup) (h : hasExactly keys fields = true) :
    (keys.map (fun key => (key, item fields key))).Perm fields := by
  simp only [hasExactly, Bool.and_eq_true, List.all_eq_true, List.any_eq_true, beq_iff_eq, List.contains_iff_mem] at h
  obtain ⟨hhas, honly⟩ := h
  have hnodup : (keys.map (fun key => (key, item fields key))).Nodup := by
    apply List.Nodup.of_map Prod.fst
    simpa [List.map_map, Function.comp_def] using hkeys
  rw [List.perm_ext_iff_of_nodup hnodup (List.Nodup.of_map Prod.fst hfields)]
  intro field
  constructor
  · intro hmem
    obtain ⟨key, hkey, rfl⟩ := List.mem_map.1 hmem
    obtain ⟨field, hfield, rfl⟩ := hhas key hkey
    rw [item_of_mem hfields hfield]
    exact hfield
  · intro hmem
    refine List.mem_map.2 ⟨field.1, honly field hmem, ?_⟩
    rw [item_of_mem hfields hmem]

theorem byte?_eq_some {value : Json} {byte : UInt8} (h : byte? value = some byte) : value = .int byte.toNat := by
  unfold byte? at h
  split at h
  · split at h
    · rename_i n hrange
      cases h
      have hn : n = (n.toNat : Int) := (Int.toNat_of_nonneg hrange.1).symm
      have hbyte : (UInt8.ofNat n.toNat).toNat = n.toNat := by
        rw [UInt8.toNat_ofNat']
        omega
      rw [hbyte, ← hn]
    · cases h
  · cases h

theorem mapM_byte?_eq_some : ∀ {values : List Json} {report : List UInt8}, values.mapM byte? = some report →
    values = report.map (fun byte => .int byte.toNat)
  | [], report, h => by
    obtain rfl : [] = report := Option.some.inj h
    rfl
  | value :: values, report, h => by
    rw [List.mapM_cons] at h
    obtain ⟨byte, hbyte, h⟩ := Option.bind_eq_some_iff.1 h
    obtain ⟨rest, hrest, h⟩ := Option.bind_eq_some_iff.1 h
    obtain rfl : byte :: rest = report := Option.some.inj h
    rw [List.map_cons, ← byte?_eq_some hbyte, ← mapM_byte?_eq_some hrest]

theorem validateBootReport_ok {values : List Json} {report : List UInt8} (h : validateBootReport values = .ok report) :
    values = report.map (fun byte => .int byte.toNat) := by
  unfold validateBootReport at h
  split at h
  · cases h
  split at h
  · rename_i hbytes
    cases h
    exact mapM_byte?_eq_some hbytes
  · cases h

theorem parseEvent_same {index : Nat} {value : Json} {event : RecordingEvent} (hvalue : value.Distinct)
    (h : parseEvent index value = .ok event) : Json.Same event.toDict value := by
  unfold parseEvent at h
  split at h
  · rename_i fields
    split at h
    · cases h
    rename_i hexactly
    split at h
    · rename_i report hreport
      obtain ⟨dtUs, hdt, h⟩ := bind_ok h
      obtain ⟨bytes, hbytes, h⟩ := bind_ok h
      cases h
      have hkeys : hasExactly ["dt_us", "report"] fields = true := by simpa using hexactly
      have hperm := hasExactly_perm (by decide) ((Json.distinct_obj fields).1 hvalue).1 hkeys
      refine .obj (.cons (.refl _) (.cons (.refl _) .nil)) ?_
      rw [← (validateU64_ok hdt).2, ← validateBootReport_ok hbytes, ← hreport]
      exact hperm
    · cases h
  · cases h

theorem parseEvents_same : ∀ {index : Nat} {values : List Json} {events : List RecordingEvent},
    (∀ value ∈ values, value.Distinct) → parseEvents index values = .ok events →
      Json.SameItems (events.map RecordingEvent.toDict) values
  | _, [], events, _, h => by
    cases h
    exact .nil
  | index, value :: values, events, hvalues, h => by
    obtain ⟨event, hevent, h⟩ := bind_ok h
    obtain ⟨rest, hrest, h⟩ := bind_ok h
    cases h
    rw [List.forall_mem_cons] at hvalues
    exact .cons (parseEvent_same hvalues.1 hevent) (parseEvents_same hvalues.2 hrest)

theorem Recording.create_durationUs {name : String} {durationUs : Json} {events : List RecordingEvent} {version : Int}
    {recording : Recording} (h : Recording.create name durationUs events version = .ok recording) :
    durationUs = .int recording.durationUs ∧ version = formatVersion := by
  unfold Recording.create at h
  obtain ⟨name', -, h⟩ := bind_ok h
  split at h
  · cases h
  rename_i hversion
  obtain ⟨duration, hduration, h⟩ := bind_ok h
  split at h
  · cases h
  split at h
  · cases h
  cases h
  exact ⟨(validateU64_ok hduration).2, not_not.1 hversion⟩

/-- **What parses is the dictionary of what it parses to.** -/
theorem parseRecording_same {repr : Json → String} {value : Json} {expectedName : Option String} {recording : Recording}
    (hvalue : value.Distinct) (h : parseRecording repr value expectedName = .ok recording) :
    Json.Same recording.toDict value := by
  unfold parseRecording at h
  split at h
  · rename_i fields
    split at h
    · cases h
    rename_i hexactly
    obtain ⟨name, hname, h⟩ := bind_ok h
    dsimp only at h
    cases expectedName
    all_goals
      obtain ⟨expected, -, h⟩ := bind_ok h
      split at h
      · cases h
      split at h
      · rename_i version hversion
        split at h
        · cases h
        split at h
        · rename_i values hvalues
          obtain ⟨events, hevents, h⟩ := bind_ok h
          obtain ⟨hkeys, hfields⟩ := (Json.distinct_obj fields).1 hvalue
          have hexact : hasExactly ["version", "name", "duration_us", "events"] fields = true := by simpa using hexactly
          have hperm := hasExactly_perm (by decide) hkeys hexact
          obtain ⟨rfl, rfl⟩ := Recording.create_ok h
          obtain ⟨hduration, rfl⟩ := Recording.create_durationUs h
          have hitems : ∀ value ∈ values, value.Distinct := by
            have hhas : ("events", item fields "events") ∈ fields := hperm.mem_iff.1 (by simp)
            have hdistinct := hfields _ hhas
            rw [hvalues] at hdistinct
            exact (Json.distinct_arr values).1 hdistinct
          refine .obj (.cons ?_ (.cons ?_ (.cons ?_ (.cons ?_ .nil)))) hperm
          · rw [hversion]
            exact .refl _
          · rw [(validateName_ok hname).2]
            exact .refl _
          · rw [hduration]
            exact .refl _
          · rw [hvalues]
            exact .arr (parseEvents_same hitems hevents)
        · cases h
      · cases h
  · cases h

/-! ## The model and its dictionary -/

/-- **The recording model and its schema**: the builder keeps exactly the accepted calls, and dictionaries and
recordings determine each other. -/
theorem schema_round_trip (repr : Json → String) :
    (∀ name b, RecordingBuilder.init name = .ok b → ∀ calls : List (Json × Json),
      (∀ timestampUs report e, ((b.addAll calls).addAny timestampUs report).1 = .error e →
        ((b.addAll calls).addAny timestampUs report).2 = b.addAll calls) ∧
      b.addAll (b.accepted calls) = b.addAll calls ∧
      ∃ (timestamps : List Nat) (recording : Recording),
        (b.accepted calls).map Prod.fst = timestamps.map (fun t : Nat => Json.int t) ∧
        (b.addAll calls).buildAny = .ok recording ∧ recording.Valid ∧
        recording.events.length = timestamps.length ∧
        (∀ i, ∀ h : i < timestamps.length,
          (((recording.events.take (i + 1)).map RecordingEvent.dtUs).sum : Int) =
            (timestamps[i] : Int) - timestamps.headD 0) ∧
        (recording.durationUs : Int) = (timestamps.getLastD 0 : Int) - timestamps.headD 0) ∧
    (∀ recording : Recording, recording.Valid → parseRecording repr recording.toDict none = .ok recording) ∧
    ∀ value : Json, value.Distinct →
      (∃ message, parseRecording repr value none = .error (.raised .recordingValidation message)) ∨
      ∃ recording, parseRecording repr value none = .ok recording ∧ recording.Valid ∧
        Json.Same recording.toDict value := by
  refine ⟨fun name b hinit calls => ?_, fun recording h => ?_, fun value hvalue => ?_⟩
  · obtain ⟨name, hname, hinit⟩ := bind_ok hinit
    cases hinit
    have hempty := RecordingBuilder.sound_create name
    have hsound := RecordingBuilder.addAll_sound hempty calls
    have hvalid : matchesName ((RecordingBuilder.create name).addAll calls).name = true := by
      rw [RecordingBuilder.addAll_name hempty]
      exact (validateName_ok hname).1
    obtain ⟨timestamps, haccepted, htells⟩ := (RecordingBuilder.telescopes_create name).addAll hempty calls
    rw [List.nil_append] at htells
    refine ⟨fun timestampUs report e h => RecordingBuilder.addAny_error hsound h,
      RecordingBuilder.addAll_accepted hempty calls, timestamps, _, haccepted,
      RecordingBuilder.buildAny_eq hsound hvalid, hsound.build hvalid, htells.length, ?_, ?_⟩
    · intro i hi
      have := htells.sums i hi
      simp only [RecordingBuilder.build]
      omega
    · exact htells.durationUs hsound
  · exact parseRecording_toDict_of repr h none (by simp)
  · cases hparse : parseRecording repr value none with
    | error e =>
      obtain ⟨message, rfl⟩ := validates_parseRecording repr value none e hparse
      exact .inl ⟨message, rfl⟩
    | ok recording => exact .inr ⟨recording, rfl, parseRecording_valid hparse, parseRecording_same hvalue hparse⟩

end PiZero
end PicoRecorder
