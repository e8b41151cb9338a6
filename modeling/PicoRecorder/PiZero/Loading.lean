import PicoRecorder.Lib.JsonScan
import PicoRecorder.PiZero.RecordingStore
import PicoRecorder.PiZero.Schema
/-!
# Loading — `load` and `list_metadata` over the bytes of the files (`recording.py`)

RecordingStore reads texts; here a file is any sequence of bytes.  Decoding it, parsing it and checking it raise
exceptions of their own, and `load` translates an OSError, a JSONDecodeError and a RecordingValidationError.
-/
namespace PicoRecorder
namespace PiZero
namespace RecordingStore

open Lib (Json)

/-- What `json.load` raises. -/
inductive JsonLoadError where
  | jsonDecodeError (text : String)
  | unicodeDecodeError
  /-- The interpreter's limit on the digits of an integer. -/
  | valueError
  | recursionError
  deriving DecidableEq, Repr

def JsonLoadError.className : JsonLoadError → String
  | .jsonDecodeError _ => "JSONDecodeError"
  | .unicodeDecodeError => "UnicodeDecodeError"
  | .valueError => "ValueError"
  | .recursionError => "RecursionError"

/-- The entry of `list_metadata` for one recording. -/
structure Metadata where
  name : String
  durationUs : Nat
  eventCount : Nat
  deriving DecidableEq, Repr

def metadataOf (recording : Recording) : Metadata := ⟨recording.name, recording.durationUs, recording.events.length⟩

/-- `path.stem`: the name up to its last dot, if that is neither its first character nor its last. -/
def stem (fileName : String) : String :=
  let suffix := fileName.toList.reverse.takeWhile (· ≠ '.')
  let index := fileName.toList.length - suffix.length - 1
  if suffix ≠ [] ∧ 0 < index then String.ofList (fileName.toList.take index) else fileName

/-- The pattern `*.json`. -/
def globbed (fileName : String) : Bool := ".json".toList.isSuffixOf fileName.toList

/-- `except RecordingValidationError as error: raise StorageError(f"...: {error}")`. -/
def rejecting (context : String) : Exn → Exn
  | .raised .recordingValidation message => .raised .storage s!"{context}: {message}"
  | e => e

section Reading

variable (limits : Json.Limits) (repr : Json → String) (decodeError : String → String)

/-- `json.load` of a file opened as UTF-8. -/
def jsonLoad (content : ByteArray) : Except JsonLoadError Json :=
  match content.utf8Decode? with
  | none => .error .unicodeDecodeError
  | some chars =>
    match Json.scanText limits chars.toList with
    | .ok value => .ok value
    | .error .malformed => .error (.jsonDecodeError (String.ofList chars.toList))
    | .error .tooManyDigits => .error .valueError
    | .error .tooDeep | .error .exhausted => .error .recursionError

/-- `load`, with what the system gives for its file. -/
def loadFile (name : String) (file : Except OSError ByteArray) : Checked Recording := do
  let name ← validateName (.str name)
  match file with
  | .error (.fileNotFound _) => storageError s!"recording not found: {name}"
  | .error error => storageError s!"invalid recording file {pathFor name}: {error.text}"
  | .ok content =>
    match jsonLoad limits content with
    | .error (.jsonDecodeError text) => storageError s!"invalid recording file {pathFor name}: {decodeError text}"
    | .error error => .error (.raised .foreign error.className)
    | .ok value =>
      (parseRecording repr value (some name)).mapError (rejecting s!"invalid recording file {pathFor name}")

/-- One round of the loop of `list_metadata`. -/
def loadEntry (entry : String × Except OSError ByteArray) : Checked Recording :=
  (loadFile limits repr decodeError (stem entry.1) entry.2).mapError
    (rejecting s!"invalid recording filename {entry.1}")

def collect : List (String × Except OSError ByteArray) → Checked (List Metadata)
  | [] => .ok []
  | entry :: entries => do
    let recording ← loadEntry limits repr decodeError entry
    let metadata ← collect entries
    .ok (metadataOf recording :: metadata)

/-- The paths of `list_metadata` in the order of its loop. -/
def sortedPaths (entries : List (String × Except OSError ByteArray)) : List (String × Except OSError ByteArray) :=
  (entries.filter (fun entry => globbed entry.1)).mergeSort (fun a b => a.1 ≤ b.1)

/-- `list_metadata`, with the names in the directory and what the system gives for each file. -/
def listMetadata (listing : Except OSError (List (String × Except OSError ByteArray))) : Checked (List Metadata) :=
  match listing with
  | .error error => storageError s!"could not list recordings: {error.text}"
  | .ok entries => collect limits repr decodeError (sortedPaths entries)

end Reading

/-! ## What the interpreter refuses -/

/-- The content is UTF-8, and reading it from the left comes to no integer and no nesting beyond the interpreter's
limits before it comes to a place that is no JSON, or to the end. -/
def Legible (limits : Json.Limits) (content : ByteArray) : Prop :=
  ∃ chars, content.utf8Decode? = some chars ∧ Json.scanText limits chars.toList ≠ .error .tooManyDigits ∧
    Json.scanText limits chars.toList ≠ .error .tooDeep

variable {limits : Json.Limits} {repr : Json → String} {decodeError : String → String}

/-- **What `json.load` does**: on legible content it returns a value or raises a JSONDecodeError. -/
theorem jsonLoad_legible (content : ByteArray) :
    Legible limits content ↔ (∃ value, jsonLoad limits content = .ok value) ∨
      ∃ text, jsonLoad limits content = .error (.jsonDecodeError text) := by
  unfold Legible jsonLoad
  cases hchars : content.utf8Decode? with
  | none => simp
  | some chars =>
    have houtcome := Json.scanText_outcome limits chars.toList
    match hscan : Json.scanText limits chars.toList with
    | .ok value => simp [hscan]
    | .error .malformed => simp [hscan]
    | .error .tooManyDigits => simp [hscan]
    | .error .tooDeep => simp [hscan]
    | .error .exhausted => exact (hscan ▸ houtcome).elim

/-- Returning a valid recording of the name, or raising a StorageError. -/
def Handled (name : String) (loaded : Checked Recording) : Prop :=
  (∃ recording, loaded = .ok recording ∧ recording.Valid ∧ recording.name = name) ∨
    ∃ message, loaded = .error (.raised .storage message)

/-- A value that was read: parsed as a valid recording of the name, or refused with a StorageError. -/
theorem loadFile_value {name : String} (hname : matchesName name = true) {content : ByteArray} {value : Json}
    (hjson : jsonLoad limits content = .ok value) :
    Handled name (loadFile limits repr decodeError name (.ok content)) := by
  have hvalidate : validateName (.str name) = .ok name := if_pos hname
  simp only [loadFile, hvalidate, bind, Except.bind, hjson]
  cases hparse : parseRecording repr value (some name) with
  | ok recording => exact .inl ⟨recording, rfl, parseRecording_valid hparse, parseRecording_name hparse⟩
  | error e =>
    obtain ⟨message, rfl⟩ := validates_parseRecording repr value (some name) e hparse
    exact .inr ⟨_, rfl⟩

/-- An exception that `load` does not translate. -/
theorem loadFile_escapes (limits : Json.Limits) (repr : Json → String) (decodeError : String → String)
    {name : String} (hname : matchesName name = true) {content : ByteArray} (hill : ¬Legible limits content) :
    ∃ message, loadFile limits repr decodeError name (.ok content) = .error (.raised .foreign message) := by
  have hvalidate : validateName (.str name) = .ok name := if_pos hname
  rw [jsonLoad_legible] at hill
  cases hjson : jsonLoad limits content with
  | ok value => exact absurd (.inl ⟨value, hjson⟩) hill
  | error e =>
    refine ⟨e.className, ?_⟩
    cases e with
    | jsonDecodeError text => exact absurd (.inr ⟨text, hjson⟩) hill
    | unicodeDecodeError => simp only [loadFile, hvalidate, bind, Except.bind, hjson]
    | valueError => simp only [loadFile, hvalidate, bind, Except.bind, hjson]
    | recursionError => simp only [loadFile, hvalidate, bind, Except.bind, hjson]

/-- **What `load` makes of the bytes of a file**: it handles those that are legible, and no others. -/
theorem loadFile_handled (limits : Json.Limits) (repr : Json → String) (decodeError : String → String)
    {name : String} (hname : matchesName name = true) (content : ByteArray) :
    Handled name (loadFile limits repr decodeError name (.ok content)) ↔ Legible limits content := by
  have hvalidate : validateName (.str name) = .ok name := if_pos hname
  constructor
  · intro hhandled
    by_contra hill
    obtain ⟨message, hescapes⟩ := loadFile_escapes limits repr decodeError hname hill
    rw [hescapes] at hhandled
    rcases hhandled with ⟨recording, h, -, -⟩ | ⟨message, h⟩
    · cases h
    · cases h
  · intro hlegible
    rcases (jsonLoad_legible content).1 hlegible with ⟨value, hjson⟩ | ⟨text, hjson⟩
    · exact loadFile_value hname hjson
    · refine .inr ⟨s!"invalid recording file {pathFor name}: {decodeError text}", ?_⟩
      simp only [loadFile, hvalidate, bind, Except.bind, hjson]
      rfl

/-- **Where RecordingStore loads a text, its bytes are loaded too**, within the interpreter's limits. -/
theorem loadFile_of_loadText {name text : String} {recording : Recording} (hname : matchesName name = true)
    (h : loadText repr decodeError name text = .ok recording) (hlegible : Legible limits text.toByteArray) :
    loadFile limits repr decodeError name (.ok text.toByteArray) = .ok recording := by
  have hvalidate : validateName (.str name) = .ok name := if_pos hname
  have hdecode : text.toByteArray.utf8Decode? = some text.toList.toArray := by
    rw [← String.utf8Encode_toList]
    exact List.utf8Decode?_utf8Encode
  obtain ⟨chars, hchars, hdigits, hdepth⟩ := hlegible
  rw [hdecode] at hchars
  cases hchars
  unfold loadText at h
  split at h
  · cases h
  · rename_i value hloads
    have hscan : Json.scanText limits text.toList = .ok value := by
      rcases Json.scanText_of_loads limits hloads with hscan | hscan | hscan
      · exact hscan
      · exact absurd hscan hdigits
      · exact absurd hscan hdepth
    have hjson : jsonLoad limits text.toByteArray = .ok value := by
      simp only [jsonLoad, hdecode, hscan]
    have hparse : parseRecording repr value (some name) = .ok recording := by
      split at h
      · cases h
      · exact h
    simp only [loadFile, hvalidate, bind, Except.bind, hjson, hparse]
    rfl

/-- A name that is none, and a file that the system refuses, end in the checks of `load`. -/
theorem loadFile_refused (limits : Json.Limits) (repr : Json → String) (decodeError : String → String)
    {name : String} {file : Except OSError ByteArray}
    (h : matchesName name = true → ∃ error, file = .error error) :
    (∃ message, loadFile limits repr decodeError name file = .error (.raised .storage message)) ∨
      ∃ message, loadFile limits repr decodeError name file = .error (.raised .recordingValidation message) := by
  by_cases hname : matchesName name = true
  · have hvalidate : validateName (.str name) = .ok name := if_pos hname
    obtain ⟨error, rfl⟩ := h hname
    left
    cases error <;> exact ⟨_, by simp only [loadFile, hvalidate, bind, Except.bind]; rfl⟩
  · right
    refine ⟨"recording name must be 1-64 ASCII letters, digits, '.', '_' or '-', starting with a letter or digit", ?_⟩
    have hvalidate : validateName (.str name) = invalid _ := if_neg hname
    simp only [loadFile, hvalidate, bind, Except.bind, invalid]

/-! ## A directory -/

/-- The entry is a recording's file by its name, and its content is not legible. -/
def Illegible (limits : Json.Limits) (entry : String × Except OSError ByteArray) : Prop :=
  matchesName (stem entry.1) = true ∧ ∃ content, entry.2 = .ok content ∧ ¬Legible limits content

/-- Metadata for all of the entries, or a StorageError. -/
def AllHandled (limits : Json.Limits) (repr : Json → String) (decodeError : String → String)
    (entries : List (String × Except OSError ByteArray)) (listed : Checked (List Metadata)) : Prop :=
  (∃ recordings,
    List.Forall₂ (fun entry recording => loadEntry limits repr decodeError entry = .ok recording) entries recordings ∧
      listed = .ok (recordings.map metadataOf)) ∨
    ∃ message, listed = .error (.raised .storage message)

/-- **What one round can do**: the entry is loaded, or refused with a StorageError, or it is illegible. -/
theorem loadEntry_cases (limits : Json.Limits) (repr : Json → String) (decodeError : String → String)
    (entry : String × Except OSError ByteArray) :
    (¬Illegible limits entry ∧ ∃ recording, loadEntry limits repr decodeError entry = .ok recording) ∨
      (¬Illegible limits entry ∧
        ∃ message, loadEntry limits repr decodeError entry = .error (.raised .storage message)) ∨
      (Illegible limits entry ∧
        ∃ message, loadEntry limits repr decodeError entry = .error (.raised .foreign message)) := by
  obtain ⟨fileName, file⟩ := entry
  by_cases hill : Illegible limits (fileName, file)
  · obtain ⟨hname, content, rfl, hcontent⟩ := hill
    obtain ⟨message, hescapes⟩ := loadFile_escapes limits repr decodeError hname hcontent
    exact .inr (.inr ⟨⟨hname, content, rfl, hcontent⟩, message, by rw [loadEntry, hescapes]; rfl⟩)
  by_cases hread : matchesName (stem fileName) = true ∧ ∃ content, file = .ok content
  · obtain ⟨hname, content, rfl⟩ := hread
    have hlegible : Legible limits content := by
      by_contra hcontent
      exact hill ⟨hname, content, rfl, hcontent⟩
    rcases (loadFile_handled limits repr decodeError hname content).2 hlegible with
      ⟨recording, hload, -, -⟩ | ⟨message, hload⟩
    · exact .inl ⟨hill, recording, by rw [loadEntry, hload]; rfl⟩
    · exact .inr (.inl ⟨hill, message, by rw [loadEntry, hload]; rfl⟩)
  · have hrefused : matchesName (stem fileName) = true → ∃ error, file = .error error := by
      intro hname
      cases file with
      | error error => exact ⟨error, rfl⟩
      | ok content => exact absurd ⟨hname, content, rfl⟩ hread
    rcases loadFile_refused limits repr decodeError hrefused with
      ⟨message, hload⟩ | ⟨message, hload⟩
    · exact .inr (.inl ⟨hill, message, by rw [loadEntry, hload]; rfl⟩)
    · exact .inr (.inl ⟨hill, _, by rw [loadEntry, hload]; rfl⟩)

/-- **The loop of `list_metadata`** handles its entries if none is illegible of those it comes to. -/
theorem collect_handled (limits : Json.Limits) (repr : Json → String) (decodeError : String → String)
    (entries : List (String × Except OSError ByteArray)) :
    AllHandled limits repr decodeError entries (collect limits repr decodeError entries) ↔
      ∀ before entry after, entries = before ++ entry :: after →
        (∀ earlier ∈ before, ∃ recording, loadEntry limits repr decodeError earlier = .ok recording) →
        ¬Illegible limits entry := by
  induction entries with
  | nil =>
    refine ⟨fun _ before entry after h => ?_, fun _ => .inl ⟨[], .nil, rfl⟩⟩
    simp at h
  | cons first entries ih =>
    rcases loadEntry_cases limits repr decodeError first with ⟨hfine, recording, hload⟩ | ⟨hfine, message, hload⟩ |
      ⟨hill, message, hload⟩
    · have hcollect : collect limits repr decodeError (first :: entries) =
          (collect limits repr decodeError entries).map (fun metadata => metadataOf recording :: metadata) := by
        rw [collect, hload]
        cases collect limits repr decodeError entries <;> rfl
      rw [hcollect]
      constructor
      · intro hhandled before entry after hsplit hearlier
        cases before with
        | nil =>
          cases hsplit
          exact hfine
        | cons b before =>
          obtain ⟨rfl, hrest⟩ := List.cons.inj hsplit
          refine ih.1 ?_ before entry after hrest (fun e he => hearlier e (List.mem_cons_of_mem _ he))
          rcases hhandled with ⟨recordings, hall, hlisted⟩ | ⟨message, hlisted⟩
          · cases hall with
            | cons hhead hrest =>
              rename_i head rest
              refine .inl ⟨rest, hrest, ?_⟩
              cases hcollected : collect limits repr decodeError entries with
              | error e =>
                rw [hcollected] at hlisted
                cases hlisted
              | ok metadata =>
                rw [hcollected] at hlisted
                exact congrArg Except.ok (List.cons.inj (Except.ok.inj hlisted)).2
          · refine .inr ⟨message, ?_⟩
            cases hcollected : collect limits repr decodeError entries with
            | error e =>
              rw [hcollected] at hlisted
              exact hlisted
            | ok metadata =>
              rw [hcollected] at hlisted
              cases hlisted
      · intro hnone
        have hrest := ih.2 (fun before entry after hsplit hearlier =>
          hnone (first :: before) entry after (by rw [hsplit, List.cons_append])
            (List.forall_mem_cons.2 ⟨⟨recording, hload⟩, hearlier⟩))
        rcases hrest with ⟨recordings, hall, hlisted⟩ | ⟨message, hlisted⟩
        · exact .inl ⟨recording :: recordings, .cons hload hall, by rw [hlisted]; rfl⟩
        · exact .inr ⟨message, by rw [hlisted]; rfl⟩
    · have hcollect : collect limits repr decodeError (first :: entries) = .error (.raised .storage message) := by
        rw [collect, hload]
        rfl
      refine ⟨fun _ before entry after hsplit hearlier => ?_, fun _ => .inr ⟨message, hcollect⟩⟩
      cases before with
      | nil =>
        cases hsplit
        exact hfine
      | cons b before =>
        obtain ⟨rfl, -⟩ := List.cons.inj hsplit
        obtain ⟨recording, hloaded⟩ := hearlier first List.mem_cons_self
        rw [hload] at hloaded
        cases hloaded
    · have hcollect : collect limits repr decodeError (first :: entries) = .error (.raised .foreign message) := by
        rw [collect, hload]
        rfl
      constructor
      · intro hhandled
        rw [hcollect] at hhandled
        rcases hhandled with ⟨recordings, -, h⟩ | ⟨message, h⟩
        · cases h
        · cases h
      · intro hnone
        exact absurd hill (hnone [] first entries rfl nofun)

/-- **Which contents are handled**: `load` handles the bytes of a file exactly when they are legible, and
`list_metadata` a directory exactly when, in the order of the names, the first file that is not loaded is not an
illegible one. -/
theorem loading_handled (limits : Json.Limits) (repr : Json → String) (decodeError : String → String) :
    (∀ name content, matchesName name = true →
      (Handled name (loadFile limits repr decodeError name (.ok content)) ↔ Legible limits content)) ∧
    ∀ entries,
      AllHandled limits repr decodeError (sortedPaths entries) (listMetadata limits repr decodeError (.ok entries)) ↔
      ∀ before entry after, sortedPaths entries = before ++ entry :: after →
        (∀ earlier ∈ before, ∃ recording, loadEntry limits repr decodeError earlier = .ok recording) →
          ¬Illegible limits entry :=
  ⟨fun _ content hname => loadFile_handled limits repr decodeError hname content,
    fun entries => collect_handled limits repr decodeError (sortedPaths entries)⟩

/-- One byte that UTF-8 never has. -/
def brokenContent : ByteArray := ⟨#[0xFF]⟩

def cpython : Json.Limits := ⟨some 4300, 990⟩

theorem brokenContent_illegible (limits : Json.Limits) : ¬Legible limits brokenContent := by
  have hdecode : brokenContent.utf8Decode? = none := by decide +kernel
  rintro ⟨chars, hchars, -⟩
  rw [hdecode] at hchars
  cases hchars

def brokenEntry : String × Except OSError ByteArray := ("a.json", .ok brokenContent)

theorem sortedPaths_broken : sortedPaths [brokenEntry] = [brokenEntry] := by
  have hglobbed : globbed brokenEntry.1 = true := by decide
  simp [sortedPaths, hglobbed]

/-- **A UnicodeDecodeError goes through** both calls: the file "a.json" with the byte 0xFF. -/
theorem loading_escapes :
    (¬∀ name content, matchesName name = true →
      Handled name (loadFile cpython (fun _ => "") (fun _ => "") name (.ok content))) ∧
      ¬∀ entries, AllHandled cpython (fun _ => "") (fun _ => "") (sortedPaths entries)
        (listMetadata cpython (fun _ => "") (fun _ => "") (.ok entries)) := by
  constructor
  · intro hload
    exact brokenContent_illegible cpython
      ((loadFile_handled cpython (fun _ => "") (fun _ => "") (by decide) brokenContent).1
        (hload "a" brokenContent (by decide)))
  · intro hlist
    have hnone := (collect_handled cpython (fun _ => "") (fun _ => "") (sortedPaths [brokenEntry])).1
      (hlist [brokenEntry])
    have hstem : matchesName (stem brokenEntry.1) = true := by decide
    exact hnone [] brokenEntry [] sortedPaths_broken nofun ⟨hstem, brokenContent, rfl, brokenContent_illegible cpython⟩

end RecordingStore
end PiZero
end PicoRecorder
