import PicoRecorder.Lib.Directory
import PicoRecorder.Lib.Run
import PicoRecorder.PiZero.Recordings
/-!
# RecordingStore — the recordings on disk (`RecordingStore` of `recording.py`)

A call goes from one operation of the directory to the next, in any order with the other calls.  One process makes its
calls one after another; other writers save as they like.  Every operation but the removal of a temporary file may fail,
and a call may be cut off at any place by a crash.  Python's `repr` of a value and its message about a text that is no
JSON are parameters.
-/
namespace PicoRecorder
namespace PiZero

open Lib (Json Directory)

abbrev Files := Directory String String

inductive OSError where
  | fileExists (text : String)
  | fileNotFound (text : String)
  | other (text : String)
  deriving DecidableEq, Repr

def OSError.text : OSError → String
  | .fileExists text | .fileNotFound text | .other text => text

def OSError.ofRefusal : Directory.Refusal → OSError
  | .taken => .fileExists "[Errno 17] File exists"
  | .missing => .fileNotFound "[Errno 2] No such file or directory"

/-- What the system makes of an operation: a failure, or the operation.  For a temporary file it chooses a part of the
name, for a write how many characters reach the file. -/
inductive Turn where
  | fails (error : OSError)
  | works (random : String) (written : Nat)
  deriving DecidableEq, Repr

def Turn.attempt {α : Type} (operation : Except Directory.Refusal α) : Turn → Except OSError α
  | .fails error => .error error
  | .works _ _ => operation.mapError OSError.ofRefusal

namespace RecordingStore

def storageError {α : Type} (message : String) : Checked α := .error (.raised .storage message)

/-- The file name of `path_for`; its check of the name is the callers' `validateName`. -/
def pathFor (name : String) : String := name ++ ".json"

/-- The names `mkstemp` gives with the prefix and suffix of `save`. -/
def temporaryName (name random : String) : String := "." ++ name ++ "-" ++ random ++ ".tmp"

/-- The handlers of `save`. -/
def saveError {α : Type} (name : String) : OSError → Checked α
  | .fileExists _ => storageError s!"recording already exists: {name}"
  | error => storageError s!"could not atomically save recording {name}: {error.text}"

/-- Where a `save` has come to. -/
inductive Saving where
  | mkdir
  | mkstemp
  | write (temporary : String) (rest : List Char)
  | fsync (temporary : String)
  | link (temporary : String)
  /-- The `finally`, with the exception that led there. -/
  | unlink (temporary : String) (error : Option OSError)
  deriving DecidableEq, Repr

/-- One operation of `save`: where it comes to, or how it ends. -/
def Saving.step (recording : Recording) (files : Files) (turn : Turn) : Saving → (Saving ⊕ Checked String) × Files
  | .mkdir =>
    match turn with
    | .fails error => (.inr (saveError recording.name error), files)
    | .works _ _ => (.inl .mkstemp, files)
  | .mkstemp =>
    match turn with
    | .fails error => (.inr (saveError recording.name error), files)
    | .works random _ =>
      match files.create (temporaryName recording.name random) "" with
      -- The name is taken: `mkstemp` tries another.
      | .error _ => (.inl .mkstemp, files)
      | .ok files => (.inl (.write (temporaryName recording.name random) recording.text.toList), files)
  | .write temporary rest =>
    match turn with
    | .fails error => (.inl (.unlink temporary (some error)), files)
    | .works _ written =>
      (.inl (if rest.drop written = [] then .fsync temporary else .write temporary (rest.drop written)),
        files.modify temporary (· ++ String.ofList (rest.take written)))
  | .fsync temporary =>
    match turn with
    | .fails error => (.inl (.unlink temporary (some error)), files)
    | .works _ _ => (.inl (.link temporary), files)
  | .link temporary =>
    match turn.attempt (files.link temporary (pathFor recording.name)) with
    | .error error => (.inl (.unlink temporary (some error)), files)
    | .ok files => (.inl (.unlink temporary none), files)
  | .unlink temporary error =>
    match error with
    | none => (.inr (.ok (pathFor recording.name)), files.remove temporary)
    | some error => (.inr (saveError recording.name error), files.remove temporary)

section Reading

variable (repr : Json → String) (decodeError : String → String)

/-- `load`, of the text its file holds. -/
def loadText (name text : String) : Checked Recording :=
  match Json.loads text with
  | none => storageError s!"invalid recording file {pathFor name}: {decodeError text}"
  | some value =>
    match parseRecording repr value (some name) with
    | .error (.raised .recordingValidation message) =>
      storageError s!"invalid recording file {pathFor name}: {message}"
    | parsed => parsed

def load (name : String) (files : Files) (turn : Turn) : Checked Recording := do
  let name ← validateName (.str name)
  match turn.attempt (match files (pathFor name) with | none => .error .missing | some text => .ok text) with
  | .error (.fileNotFound _) => storageError s!"recording not found: {name}"
  | .error error => storageError s!"invalid recording file {pathFor name}: {error.text}"
  | .ok text => loadText repr decodeError name text

/-- `rename` until it saves: the recording under its new name. -/
def renamed (old new : String) (files : Files) (turn : Turn) : Checked Recording := do
  let new ← validateName (.str new)
  if old = new then storageError "recording new name must differ from the current name"
  else
    let recording ← load repr decodeError old files turn
    Recording.create new (.int recording.durationUs) recording.events formatVersion

end Reading

def delete (name : String) (files : Files) (turn : Turn) : Checked Unit × Files :=
  match validateName (.str name) with
  | .error e => (.error e, files)
  | .ok name =>
    match turn.attempt (files.unlink (pathFor name)) with
    | .error (.fileNotFound _) => (storageError s!"recording not found: {name}", files)
    | .error error => (storageError s!"could not delete recording {name}: {error.text}", files)
    | .ok files => (.ok (), files)

/-- Where a call has come to, and how it returned. -/
inductive Place where
  | save (recording : Recording) (saving : Saving)
  | rename (old new : String)
  | renameSave (old new : String) (recording : Recording) (saving : Saving)
  | renameDelete (old new : String)
  | delete (name : String)
  | returned (outcome : Checked (Option String))
  | crashed
  deriving DecidableEq

def Place.over : Place → Bool
  | .returned _ | .crashed => true
  | _ => false

section Calls

variable (repr : Json → String) (decodeError : String → String)

/-- The call's next operation. -/
def Place.step (files : Files) (turn : Turn) : Place → Option (Place × Files)
  | .save recording saving =>
    match saving.step recording files turn with
    | (.inl saving, files) => some (.save recording saving, files)
    | (.inr outcome, files) => some (.returned (outcome.map some), files)
  | .rename old new =>
    match renamed repr decodeError old new files turn with
    | .error e => some (.returned (.error e), files)
    | .ok recording => some (.renameSave old new recording .mkdir, files)
  | .renameSave old new recording saving =>
    match saving.step recording files turn with
    | (.inl saving, files) => some (.renameSave old new recording saving, files)
    | (.inr (.ok _), files) => some (.renameDelete old new, files)
    | (.inr (.error e), files) => some (.returned (.error e), files)
  | .renameDelete old new =>
    match RecordingStore.delete old files turn with
    | (.ok _, files) => some (.returned (.ok (some (pathFor new))), files)
    | (.error e, files) => some (.returned (.error e), files)
  | .delete name =>
    match RecordingStore.delete name files turn with
    | (.ok _, files) => some (.returned (.ok none), files)
    | (.error e, files) => some (.returned (.error e), files)
  | .returned _ | .crashed => none

/-- The directory, every call there has been, and the last one of the process that makes them in sequence. -/
structure Host where
  files : Files
  calls : List Place
  own : Option Nat

/-- A `Recording` object has passed its `__post_init__`. -/
abbrev ValidRecording := { recording : Recording // recording.Valid }

inductive Move where
  | save (recording : ValidRecording)
  | rename (old new : String)
  | delete (name : String)
  /-- Another writer calls `save`. -/
  | otherSave (recording : ValidRecording)
  | turn (call : Nat) (turn : Turn)
  | crash (call : Nat)

namespace Host

def init (files : Files) : Host := ⟨files, [], none⟩

/-- The process is in none of its calls. -/
def free (c : Host) : Bool := ((c.own.bind (c.calls[·]?)).map Place.over).getD true

def begin_ (place : Place) (c : Host) : Host := { c with calls := c.calls ++ [place], own := some c.calls.length }

def step (c : Host) : Move → Option Host
  | .save recording => if c.free then some (c.begin_ (.save recording.1 .mkdir)) else none
  | .rename old new => if c.free then some (c.begin_ (.rename old new)) else none
  | .delete name => if c.free then some (c.begin_ (.delete name)) else none
  | .otherSave recording => some { c with calls := c.calls ++ [.save recording.1 .mkdir] }
  | .turn call turn =>
    (c.calls[call]?).bind (fun place =>
      (place.step repr decodeError c.files turn).map (fun (place, files) =>
        { c with files := files, calls := c.calls.set call place }))
  | .crash call =>
    (c.calls[call]?).bind (fun place => if place.over then none else some { c with calls := c.calls.set call .crashed })

/-- A run: a move that is not possible where it comes does nothing. -/
def run (c : Host) (moves : List Move) : Host :=
  moves.foldl (fun c move => (c.step repr decodeError move).getD c) c

end Host
end Calls

/-! ## Names of files -/

theorem pathFor_inj {name other : String} : pathFor name = pathFor other ↔ name = other := by
  constructor
  · intro h
    have htext : name.toList ++ ".json".toList = other.toList ++ ".json".toList := by
      simpa [pathFor] using congrArg String.toList h
    exact String.toList_inj.1 (List.append_cancel_right htext)
  · rintro rfl
    rfl

theorem temporaryName_ne (name random other : String) : temporaryName name random ≠ pathFor other := by
  intro h
  have hlast := congrArg (fun text => text.toList.getLast?) h
  simp [temporaryName, pathFor, List.getLast?_cons, List.getLast?_append] at hlast

/-! ## One operation of `save` -/

/-- The temporary file a `save` has at the place. -/
def Saving.temporary : Saving → Option String
  | .mkdir | .mkstemp => none
  | .write temporary _ | .fsync temporary | .link temporary | .unlink temporary _ => some temporary

/-- The temporary file is there, and holds as much of the text as has been written. -/
def Saving.Holds (recording : Recording) (files : Files) : Saving → Prop
  | .mkdir | .mkstemp => True
  | .write temporary rest => ∃ written, files temporary = some written ∧ written ++ String.ofList rest = recording.text
  | .unlink temporary _ => (files temporary).isSome
  | .fsync temporary | .link temporary => files temporary = some recording.text

/-- A `save` at its place: its temporary file has a name no recording has, and holds what it should. -/
structure Saving.Good (recording : Recording) (files : Files) (saving : Saving) : Prop where
  name : ∀ temporary, saving.temporary = some temporary → ∃ random, temporary = temporaryName recording.name random
  holds : saving.Holds recording files

/-- What one operation of a `save` does to the directory: its recording appears under its name, complete, when that was
free, and apart from that only its own temporary file changes, which was nobody's before. -/
structure Saving.Moved (recording : Recording) (files : Files) (saving : Saving)
    (moved : (Saving ⊕ Checked String) × Files) : Prop where
  path : moved.2 (pathFor recording.name) = files (pathFor recording.name) ∨
    files (pathFor recording.name) = none ∧ moved.2 (pathFor recording.name) = some recording.text ∧
      ∃ temporary, moved.1 = .inl (.unlink temporary none)
  others : ∀ name, name ≠ pathFor recording.name → saving.temporary ≠ some name →
    (∀ next, moved.1 = .inl next → next.temporary ≠ some name) → moved.2 name = files name
  fresh : ∀ next temporary, moved.1 = .inl next → next.temporary = some temporary →
    saving.temporary = some temporary ∨ files temporary = none
  good : ∀ next, moved.1 = .inl next → next.Good recording moved.2

variable {recording : Recording} {files : Files} {saving : Saving} {turn : Turn}

theorem Saving.Good.exists_temporary (h : saving.Good recording files) {temporary : String}
    (ht : saving.temporary = some temporary) : (files temporary).isSome := by
  have hholds := h.holds
  cases saving with
  | mkdir => cases ht
  | mkstemp => cases ht
  | write t rest =>
    cases ht
    obtain ⟨written, hfile, -⟩ := hholds
    rw [hfile]
    rfl
  | fsync t => cases ht; rw [show files temporary = some recording.text from hholds]; rfl
  | link t => cases ht; rw [show files temporary = some recording.text from hholds]; rfl
  | unlink t error => cases ht; exact hholds

/-- An operation that leaves the directory as it was. -/
theorem Saving.Moved.idle {next : Saving ⊕ Checked String}
    (htemporary : ∀ s, next = .inl s → ∀ temporary, s.temporary = some temporary → saving.temporary = some temporary)
    (hgood : ∀ s, next = .inl s → s.Good recording files) : saving.Moved recording files (next, files) where
  path := .inl rfl
  others := fun _ _ _ _ => rfl
  fresh := fun s temporary hs ht => .inl (htemporary s hs temporary ht)
  good := hgood

/-- An operation that fails leads to the `finally`. -/
theorem Saving.Moved.cleanup {temporary : String} (h : saving.Good recording files)
    (ht : saving.temporary = some temporary) (error : Option OSError) :
    saving.Moved recording files (.inl (.unlink temporary error), files) := by
  refine .idle ?_ ?_
  · rintro s hs t hst
    cases hs
    cases hst
    exact ht
  · rintro s hs
    cases hs
    exact ⟨by rintro t ⟨⟩; exact h.name temporary ht, h.exists_temporary ht⟩

/-- **What one operation of a `save` does.** -/
theorem Saving.moved_step (h : saving.Good recording files) :
    saving.Moved recording files (saving.step recording files turn) := by
  cases saving with
  | mkdir =>
    cases turn with
    | fails error => exact .idle nofun nofun
    | works random written =>
      refine .idle ?_ ?_ <;> rintro s hs <;> cases hs
      · exact fun _ ht => ht
      · exact ⟨nofun, trivial⟩
  | mkstemp =>
    cases turn with
    | fails error => exact .idle nofun nofun
    | works random written =>
      simp only [Saving.step]
      split
      · refine .idle ?_ ?_ <;> rintro s hs <;> cases hs
        · exact fun _ ht => ht
        · exact ⟨nofun, trivial⟩
      · rename_i created hcreate
        obtain ⟨hfree, rfl⟩ := Directory.create_ok hcreate
        refine ⟨.inl ?_, fun name _ _ hnext => ?_, ?_, ?_⟩
        · exact Function.update_of_ne (temporaryName_ne _ _ _).symm ..
        · refine Function.update_of_ne (fun hname => hnext _ rfl ?_) ..
          rw [hname]
          rfl
        · rintro s temporary hs ht
          cases hs
          cases ht
          exact .inr hfree
        · rintro s hs
          cases hs
          refine ⟨fun temporary ht => ⟨random, (Option.some.inj ht).symm⟩, "", Function.update_self .., ?_⟩
          simp
  | write temporary rest =>
    obtain ⟨random, hname⟩ := h.name temporary rfl
    cases turn with
    | fails error => exact .cleanup h rfl (some error)
    | works chosen n =>
      obtain ⟨written, hfile, htext⟩ := h.holds
      have hne : pathFor recording.name ≠ temporary := hname ▸ (temporaryName_ne _ _ _).symm
      refine ⟨.inl (Directory.modify_of_ne hne _), fun name _ ht _ => ?_, ?_, ?_⟩
      · exact Directory.modify_of_ne (fun heq => ht (by rw [heq]; rfl)) _
      · rintro s t hs ht
        cases hs
        split at ht <;> exact .inl ht
      · rintro s hs
        cases hs
        have hwritten : (files.modify temporary (· ++ String.ofList (rest.take n))) temporary =
            some (written ++ String.ofList (rest.take n)) := by
          rw [Directory.modify_self, hfile]
          rfl
        have hall : written ++ String.ofList (rest.take n) ++ String.ofList (rest.drop n) = recording.text := by
          rw [String.append_assoc, ← String.ofList_append, List.take_append_drop, htext]
        split
        · rename_i hdone
          rw [hdone] at hall
          refine ⟨by rintro t ⟨⟩; exact ⟨random, hname⟩, ?_⟩
          have hcomplete : written ++ String.ofList (rest.take n) = recording.text := by simpa using hall
          exact hwritten.trans (congrArg some hcomplete)
        · exact ⟨by rintro t ⟨⟩; exact ⟨random, hname⟩, _, hwritten, hall⟩
  | fsync temporary =>
    cases turn with
    | fails error => exact .cleanup h rfl (some error)
    | works random written =>
      refine .idle ?_ ?_ <;> rintro s hs <;> cases hs
      · exact fun _ ht => ht
      · exact ⟨h.name, h.holds⟩
  | link temporary =>
    simp only [Saving.step]
    split
    · exact .cleanup h rfl _
    · rename_i linked hattempt
      cases turn with
      | fails error => cases hattempt
      | works random written =>
        cases hlink : files.link temporary (pathFor recording.name) with
        | error refusal =>
          rw [Turn.attempt, hlink] at hattempt
          cases hattempt
        | ok after =>
          rw [Turn.attempt, hlink] at hattempt
          cases hattempt
          obtain ⟨content, hcontent, hfree, rfl⟩ := Directory.link_ok hlink
          obtain rfl : recording.text = content := Option.some.inj (h.holds.symm.trans hcontent)
          refine ⟨.inr ⟨hfree, Function.update_self .., temporary, rfl⟩, fun name hname _ _ => ?_, ?_, ?_⟩
          · exact Function.update_of_ne hname ..
          · rintro s t hs ht
            cases hs
            exact .inl ht
          · rintro s hs
            cases hs
            refine ⟨h.name, ?_⟩
            obtain ⟨chosen, hname⟩ := h.name temporary rfl
            have hne : temporary ≠ pathFor recording.name := hname ▸ temporaryName_ne _ _ _
            have hkept : Function.update files (pathFor recording.name) (some recording.text) temporary =
                files temporary :=
              Function.update_of_ne hne ..
            exact (congrArg Option.isSome hkept).trans (h.exists_temporary rfl)
  | unlink temporary error =>
    obtain ⟨random, hname⟩ := h.name temporary rfl
    have hne : pathFor recording.name ≠ temporary := hname ▸ (temporaryName_ne _ _ _).symm
    have hremoved : ∀ outcome, Saving.Moved recording files (.unlink temporary error)
        (.inr outcome, files.remove temporary) := by
      refine fun outcome => ⟨.inl (Directory.remove_of_ne hne), fun name _ ht _ => ?_, nofun, nofun⟩
      exact Directory.remove_of_ne (fun heq => ht (by rw [heq]; rfl))
    cases error <;> exact hremoved _

/-! ## One operation of a call -/

/-- The `save` a call is in, its own or that of a `rename`. -/
def Place.saving? : Place → Option (Recording × Saving)
  | .save recording saving | .renameSave _ _ recording saving => some (recording, saving)
  | _ => none

def Place.temporary (place : Place) : Option String := place.saving?.bind (·.2.temporary)

def Place.Good (files : Files) (place : Place) : Prop :=
  ∀ recording saving, place.saving? = some (recording, saving) → recording.Valid ∧ saving.Good recording files

/-- Every recording that is published stays so, as it is. -/
def Kept (files after : Files) : Prop :=
  ∀ name text, files (pathFor name) = some text → after (pathFor name) = some text

theorem Kept.refl (files : Files) : Kept files files := fun _ _ h => h

variable {repr : Json → String} {decodeError : String → String} {place next : Place} {after : Files}

/-- **What one operation of a call does**: one of its `save`; the `load` of a `rename`; or the `unlink` of a
recording. -/
inductive Place.Moved (repr : Json → String) (decodeError : String → String) (files : Files) (turn : Turn)
    (place : Place) :
    Place → Files → Prop where
  | save {next : Place} {after : Files} (recording : Recording) (saving : Saving)
    (before : place.saving? = some (recording, saving)) (files' : (saving.step recording files turn).2 = after)
    (goes : ∀ recording' saving', next.saving? = some (recording', saving') →
      recording' = recording ∧ (saving.step recording files turn).1 = .inl saving')
    (stays : (∃ recording saving, place = .save recording saving) →
      next.over ∨ ∃ recording saving, next = .save recording saving) :
    Moved repr decodeError files turn place next after
  | load (old new : String) (before : place = .rename old new) (recording : Recording)
    (loaded : renamed repr decodeError old new files turn = .ok recording) :
    Moved repr decodeError files turn place (.renameSave old new recording .mkdir) files
  | fail (e : Exn) (before : place.saving? = none) :
    Moved repr decodeError files turn place (.returned (.error e)) files
  | remove (name : String) (before : place = .delete name ∨ ∃ new, place = .renameDelete name new)
    (outcome : Option String) :
    Moved repr decodeError files turn place (.returned (.ok outcome)) (files.remove (pathFor name))

theorem delete_ok {name : String} {value : Unit} (h : delete name files turn = (.ok value, after)) :
    after = files.remove (pathFor name) := by
  unfold delete at h
  split at h
  · cases h
  · rename_i name' hname
    obtain ⟨-, heq⟩ := validateName_ok hname
    cases heq
    split at h
    · cases h
    · cases h
    · rename_i hattempt
      cases h
      cases turn with
      | fails error => cases hattempt
      | works random written =>
        cases hunlink : files.unlink (pathFor name) with
        | error refusal =>
          rw [Turn.attempt, hunlink] at hattempt
          cases hattempt
        | ok removed =>
          rw [Turn.attempt, hunlink] at hattempt
          cases hattempt
          exact Directory.unlink_ok hunlink

theorem delete_error {name : String} {e : Exn} (h : delete name files turn = (.error e, after)) : after = files := by
  unfold delete at h
  split at h
  · cases h; rfl
  · split at h <;> cases h <;> rfl

theorem Place.moved_step (h : place.step repr decodeError files turn = some (next, after)) :
    place.Moved repr decodeError files turn next after := by
  cases place with
  | save recording saving =>
    simp only [Place.step] at h
    split at h <;> rename_i hstep <;> cases h
    · refine .save recording saving rfl (by rw [hstep]) (fun recording' saving' hnext => ?_) (fun _ => .inr ⟨_, _, rfl⟩)
      cases hnext
      exact ⟨rfl, by rw [hstep]⟩
    · exact .save recording saving rfl (by rw [hstep]) nofun (fun _ => .inl rfl)
  | rename old new =>
    simp only [Place.step] at h
    split at h <;> cases h
    · exact .fail _ rfl
    · exact .load old new rfl _ ‹_›
  | renameSave old new recording saving =>
    simp only [Place.step] at h
    split at h <;> rename_i hstep <;> cases h
    · refine .save recording saving rfl (by rw [hstep]) (fun recording' saving' hnext => ?_) nofun
      cases hnext
      exact ⟨rfl, by rw [hstep]⟩
    · exact .save recording saving rfl (by rw [hstep]) nofun nofun
    · exact .save recording saving rfl (by rw [hstep]) nofun nofun
  | renameDelete old new =>
    simp only [Place.step] at h
    split at h <;> rename_i hdelete <;> cases h
    · rw [delete_ok hdelete]
      exact .remove old (.inr ⟨new, rfl⟩) _
    · rw [delete_error hdelete]
      exact .fail _ rfl
  | delete name =>
    simp only [Place.step] at h
    split at h <;> rename_i hdelete <;> cases h
    · rw [delete_ok hdelete]
      exact .remove name (.inl rfl) _
    · rw [delete_error hdelete]
      exact .fail _ rfl
  | returned _ => cases h
  | crashed => cases h

/-! ## What is loaded -/

theorem loadText_ok {name text : String} {recording : Recording}
    (h : loadText repr decodeError name text = .ok recording) :
    recording.Valid ∧ recording.name = name := by
  unfold loadText at h
  split at h
  · cases h
  · split at h
    · cases h
    · exact ⟨parseRecording_valid h, parseRecording_name h⟩

/-- **What is saved is loaded.** -/
theorem loadText_text (repr : Json → String) (decodeError : String → String) {recording : Recording}
    (h : recording.Valid) : loadText repr decodeError recording.name recording.text = .ok recording := by
  unfold loadText
  rw [Recording.loads_text]
  dsimp only
  rw [parseRecording_toDict repr h]

theorem load_ok {name : String} {recording : Recording} (h : load repr decodeError name files turn = .ok recording) :
    ∃ text, files (pathFor name) = some text ∧ loadText repr decodeError name text = .ok recording := by
  unfold load at h
  obtain ⟨name', hname, h⟩ := bind_ok h
  obtain ⟨-, heq⟩ := validateName_ok hname
  cases heq
  split at h
  · cases h
  · cases h
  · rename_i text hattempt
    refine ⟨text, ?_, h⟩
    cases turn with
    | fails error => cases hattempt
    | works random written =>
      cases hfile : files (pathFor name) with
      | none =>
        rw [Turn.attempt, hfile] at hattempt
        cases hattempt
      | some content =>
        rw [Turn.attempt, hfile] at hattempt
        cases hattempt
        rfl

/-- What a `rename` saves is a valid recording under the new name, with the events it read under the old one. -/
theorem renamed_ok {old new : String} {recording : Recording}
    (h : renamed repr decodeError old new files turn = .ok recording) :
    recording.Valid ∧ recording.name = new ∧ old ≠ new ∧
      ∃ text loaded, files (pathFor old) = some text ∧ loadText repr decodeError old text = .ok loaded ∧
        recording.events = loaded.events := by
  unfold renamed at h
  obtain ⟨new', hname, h⟩ := bind_ok h
  obtain ⟨-, heq⟩ := validateName_ok hname
  cases heq
  split at h
  · cases h
  · rename_i hne
    obtain ⟨loaded, hload, h⟩ := bind_ok h
    obtain ⟨text, hfile, htext⟩ := load_ok hload
    obtain ⟨hcreated, hevents⟩ := Recording.create_ok h
    exact ⟨Recording.create_valid h (loadText_ok htext).1.reports, hcreated, hne, text, loaded, hfile, htext, hevents⟩

/-! ## Every state of every run -/

/-- Every file a recording can be published under holds a recording of that name. -/
def Published (repr : Json → String) (decodeError : String → String) (files : Files) : Prop :=
  ∀ name text, files (pathFor name) = some text → ∃ recording, loadText repr decodeError name text = .ok recording

/-- **What holds in every state of every run.** -/
structure Host.Sound (repr : Json → String) (decodeError : String → String) (c : Host) : Prop where
  published : Published repr decodeError c.files
  good : ∀ (i : Nat) (place : Place), c.calls[i]? = some place → place.Good c.files
  distinct : ∀ (i j : Nat) (p q : Place) temporary, c.calls[i]? = some p → c.calls[j]? = some q →
    p.temporary = some temporary → q.temporary = some temporary → i = j
  sequence : ∀ (i : Nat) (place : Place), c.calls[i]? = some place → c.own ≠ some i →
    place.over ∨ ∃ recording saving, place = .save recording saving

section Turns

variable {recording : Recording} {saving : Saving} {name text : String}

theorem Saving.Good.temporary_ne (h : saving.Good recording files) {temporary : String}
    (ht : saving.temporary = some temporary) (name : String) : temporary ≠ pathFor name := by
  obtain ⟨random, rfl⟩ := h.name temporary ht
  exact temporaryName_ne _ _ _

/-- An operation of a `save` takes no recording away and changes none. -/
theorem Saving.Moved.kept {moved : (Saving ⊕ Checked String) × Files} (hmoved : saving.Moved recording files moved)
    (h : saving.Good recording files) : Kept files moved.2 := by
  intro name text hfile
  by_cases hname : pathFor name = pathFor recording.name
  · rw [hname] at hfile ⊢
    rcases hmoved.path with heq | ⟨hfree, -, -⟩
    · rw [heq, hfile]
    · rw [hfree] at hfile
      cases hfile
  · rw [hmoved.others _ hname (fun ht => h.temporary_ne ht name rfl)
      (fun next hnext ht => (hmoved.good next hnext).temporary_ne ht name rfl), hfile]

/-- What it publishes is a recording of the name it is published under. -/
theorem Saving.Moved.published {moved : (Saving ⊕ Checked String) × Files} (hmoved : saving.Moved recording files moved)
    (h : saving.Good recording files) (hvalid : recording.Valid) (hpublished : Published repr decodeError files) :
    Published repr decodeError moved.2 := by
  intro name text hfile
  by_cases hname : pathFor name = pathFor recording.name
  · rcases hmoved.path with heq | ⟨-, htext, -⟩
    · rw [hname, heq, ← hname] at hfile
      exact hpublished name text hfile
    · rw [hname, htext] at hfile
      cases hfile
      obtain rfl := pathFor_inj.1 hname
      exact ⟨recording, loadText_text repr decodeError hvalid⟩
  · rw [hmoved.others _ hname (fun ht => h.temporary_ne ht name rfl)
      (fun next hnext ht => (hmoved.good next hnext).temporary_ne ht name rfl)] at hfile
    exact hpublished name text hfile

end Turns

section Hosts

variable {c d : Host} {i : Nat}

theorem Saving.Good.frame (h : saving.Good recording files)
    (hsame : ∀ temporary, saving.temporary = some temporary → after temporary = files temporary) :
    saving.Good recording after := by
  refine ⟨h.name, ?_⟩
  have hholds := h.holds
  cases saving with
  | mkdir => trivial
  | mkstemp => trivial
  | write t rest =>
    obtain ⟨written, hfile, htext⟩ := hholds
    exact ⟨written, (hsame t rfl).trans hfile, htext⟩
  | fsync t => exact (hsame t rfl).trans hholds
  | link t => exact (hsame t rfl).trans hholds
  | unlink t error => exact (congrArg Option.isSome (hsame t rfl)).trans hholds

theorem Place.Good.frame (h : place.Good files)
    (hsame : ∀ temporary, place.temporary = some temporary → after temporary = files temporary) :
    place.Good after := by
  intro recording saving hsaving
  obtain ⟨hvalid, hgood⟩ := h recording saving hsaving
  exact ⟨hvalid, hgood.frame (fun t ht => hsame t (by rw [Place.temporary, hsaving]; exact ht))⟩

theorem Place.Good.exists_temporary (h : place.Good files) {temporary : String}
    (ht : place.temporary = some temporary) : (files temporary).isSome := by
  obtain ⟨⟨recording, saving⟩, hsaving, hsame⟩ := Option.bind_eq_some_iff.1 ht
  exact (h recording saving hsaving).2.exists_temporary hsame

theorem Place.Good.temporary_ne (h : place.Good files) {temporary : String}
    (ht : place.temporary = some temporary) (name : String) : temporary ≠ pathFor name := by
  obtain ⟨⟨recording, saving⟩, hsaving, hsame⟩ := Option.bind_eq_some_iff.1 ht
  exact (h recording saving hsaving).2.temporary_ne hsame name

/-- One call goes on, and the others find their temporary files as they were. -/
theorem Host.Sound.set (hc : c.Sound repr decodeError) (hi : c.calls[i]? = some place)
    (hpublished : Published repr decodeError after) (hnext : next.Good after)
    (hframe : ∀ (j : Nat) (q : Place) t, j ≠ i → c.calls[j]? = some q → q.temporary = some t → after t = c.files t)
    (hfresh : ∀ t, next.temporary = some t → place.temporary = some t ∨ c.files t = none)
    (hsequence : c.own ≠ some i → next.over ∨ ∃ recording saving, next = .save recording saving) :
    Host.Sound repr decodeError { c with files := after, calls := c.calls.set i next } := by
  have hlt : i < c.calls.length := (List.getElem?_eq_some_iff.1 hi).1
  have hnew : ∀ j (q : Place), (c.calls.set i next)[j]? = some q → j = i ∧ q = next ∨ j ≠ i ∧ c.calls[j]? = some q := by
    intro j q hq
    by_cases hj : j = i
    · subst hj
      rw [List.getElem?_set_self hlt] at hq
      exact .inl ⟨rfl, (Option.some.inj hq).symm⟩
    · rw [List.getElem?_set_ne (Ne.symm hj)] at hq
      exact .inr ⟨hj, hq⟩
  -- A temporary file of the call that moves is no other call's.
  have hown : ∀ (j : Nat) (q : Place) t, j ≠ i → c.calls[j]? = some q → q.temporary = some t →
      next.temporary ≠ some t := by
    intro j q t hj hq hqt ht
    rcases hfresh t ht with hold | hfree
    · exact hj (hc.distinct j i q place t hq hi hqt hold)
    · have hexists := (hc.good j q hq).exists_temporary hqt
      rw [hfree] at hexists
      cases hexists
  refine ⟨hpublished, fun j q hq => ?_, fun j k p q t hp hq hpt hqt => ?_, fun j q hq hj => ?_⟩
  · rcases hnew j q hq with ⟨-, rfl⟩ | ⟨hne, hold⟩
    · exact hnext
    · exact (hc.good j q hold).frame (fun t ht => hframe j q t hne hold ht)
  · rcases hnew j p hp with ⟨rfl, rfl⟩ | ⟨hnej, hpold⟩ <;> rcases hnew k q hq with ⟨rfl, rfl⟩ | ⟨hnek, hqold⟩
    · rfl
    · exact absurd hpt (hown k q t hnek hqold hqt)
    · exact absurd hqt (hown j p t hnej hpold hpt)
    · exact hc.distinct j k p q t hpold hqold hpt hqt
  · rcases hnew j q hq with ⟨rfl, rfl⟩ | ⟨-, hold⟩
    · exact hsequence hj
    · exact hc.sequence j q hold hj

theorem Host.Sound.moved (hc : c.Sound repr decodeError) (hi : c.calls[i]? = some place)
    (hmoved : place.Moved repr decodeError c.files turn next after) :
    Host.Sound repr decodeError { c with files := after, calls := c.calls.set i next } := by
  have hgood := hc.good i place hi
  cases hmoved with
  | save recording saving before files' goes stays =>
    obtain ⟨hvalid, hsaving⟩ := hgood recording saving before
    have hstep : saving.Moved recording c.files (saving.step recording c.files turn) := Saving.moved_step hsaving
    rw [← files']
    have htemporary : place.temporary = saving.temporary := by rw [Place.temporary, before]; rfl
    -- Where the call comes to is a place of the same `save`, if it is one of a `save` at all.
    have hnext : ∀ t, next.temporary = some t → ∃ saving', (saving.step recording c.files turn).1 = .inl saving' ∧
        saving'.temporary = some t := by
      intro t ht
      obtain ⟨⟨recording', saving'⟩, hsame, ht'⟩ := Option.bind_eq_some_iff.1 ht
      exact ⟨saving', (goes recording' saving' hsame).2, ht'⟩
    refine hc.set hi (hstep.published hsaving hvalid hc.published) ?_ (fun j q t hj hq hqt => ?_) (fun t ht => ?_) ?_
    · intro recording' saving' hsame
      obtain ⟨rfl, hstepped⟩ := goes recording' saving' hsame
      exact ⟨hvalid, hstep.good saving' hstepped⟩
    · refine hstep.others t ((hc.good j q hq).temporary_ne hqt _) (fun hsame => ?_) (fun saving' hstepped hsame => ?_)
      · exact hj (hc.distinct j i q place t hq hi hqt (htemporary.trans hsame))
      · rcases hstep.fresh saving' t hstepped hsame with hold | hfree
        · exact hj (hc.distinct j i q place t hq hi hqt (htemporary.trans hold))
        · have hexists := (hc.good j q hq).exists_temporary hqt
          rw [hfree] at hexists
          cases hexists
    · obtain ⟨saving', hstepped, hsame⟩ := hnext t ht
      rw [htemporary]
      exact hstep.fresh saving' t hstepped hsame
    · intro hown
      rcases hc.sequence i place hi hown with hover | hsave
      · cases place <;> first | (cases before; done) | cases hover
      · exact stays hsave
  | load old new before recording loaded =>
    refine hc.set hi hc.published ?_ (fun _ _ _ _ _ _ => rfl) nofun (fun hown => ?_)
    · intro recording' saving' hsame
      cases hsame
      exact ⟨(renamed_ok loaded).1, nofun, trivial⟩
    · rcases hc.sequence i place hi hown with hover | ⟨_, _, hsave⟩
      · rw [before] at hover
        cases hover
      · rw [before] at hsave
        cases hsave
  | fail e before => exact hc.set hi hc.published nofun (fun _ _ _ _ _ _ => rfl) nofun (fun _ => .inl rfl)
  | remove name before outcome =>
    refine hc.set hi (fun other text hfile => ?_) nofun (fun j q t _ hq hqt => ?_) nofun (fun _ => .inl rfl)
    · by_cases hname : pathFor other = pathFor name
      · rw [hname, Directory.remove_self] at hfile
        cases hfile
      · rw [Directory.remove_of_ne hname] at hfile
        exact hc.published other text hfile
    · exact Directory.remove_of_ne ((hc.good j q hq).temporary_ne hqt name)

/-- A call that has not come to a temporary file begins. -/
theorem Host.Sound.begins (hc : c.Sound repr decodeError) {place : Place} {own : Option Nat}
    (hgood : place.Good c.files) (hnone : place.temporary = none)
    (hown : own = some c.calls.length ∧ c.free ∨ own = c.own ∧ ∃ recording saving, place = .save recording saving) :
    Host.Sound repr decodeError { c with calls := c.calls ++ [place], own := own } := by
  have hnew : ∀ j (q : Place), (c.calls ++ [place])[j]? = some q →
      j = c.calls.length ∧ q = place ∨ c.calls[j]? = some q := by
    intro j q hq
    by_cases hj : j < c.calls.length
    · rw [List.getElem?_append_left hj] at hq
      exact .inr hq
    · rw [List.getElem?_append_right (Nat.le_of_not_lt hj)] at hq
      rw [List.getElem?_singleton] at hq
      split at hq <;> cases hq
      exact .inl ⟨by omega, rfl⟩
  refine ⟨hc.published, fun j q hq => ?_, fun j k p q t hp hq hpt hqt => ?_, fun j q hq hj => ?_⟩
  · rcases hnew j q hq with ⟨-, rfl⟩ | hold
    · exact hgood
    · exact hc.good j q hold
  · rcases hnew j p hp with ⟨-, rfl⟩ | hpold
    · rw [hnone] at hpt
      cases hpt
    · rcases hnew k q hq with ⟨-, rfl⟩ | hqold
      · rw [hnone] at hqt
        cases hqt
      · exact hc.distinct j k p q t hpold hqold hpt hqt
  · rcases hnew j q hq with ⟨rfl, rfl⟩ | hold
    · rcases hown with ⟨rfl, -⟩ | ⟨-, hsave⟩
      · exact absurd rfl hj
      · exact .inr hsave
    · rcases hown with ⟨rfl, hfree⟩ | ⟨rfl, -⟩
      · by_cases hlast : c.own = some j
        · left
          simpa [Host.free, hlast, hold] using hfree
        · exact hc.sequence j q hold hlast
      · exact hc.sequence j q hold hj

theorem Place.good_mkdir (recording : ValidRecording) (files : Files) :
    (Place.save recording.1 .mkdir).Good files := by
  intro recording' saving hsame
  cases hsame
  exact ⟨recording.2, nofun, trivial⟩

/-- **What one move does**: a call begins, goes on, or is cut off. -/
inductive Host.Went (repr : Json → String) (decodeError : String → String) (c : Host) : Host → Prop where
  | begins (place : Place) (own : Option Nat) (good : place.Good c.files) (none : place.temporary = none)
    (sequence : own = some c.calls.length ∧ c.free ∨ own = c.own ∧ ∃ recording saving, place = .save recording saving) :
    Went repr decodeError c { c with calls := c.calls ++ [place], own := own }
  | turns (call : Nat) (turn : Turn) (place next : Place) (after : Files) (comes : c.calls[call]? = some place)
    (goes : place.step repr decodeError c.files turn = some (next, after)) :
    Went repr decodeError c { c with files := after, calls := c.calls.set call next }
  | crashes (call : Nat) (place : Place) (comes : c.calls[call]? = some place) :
    Went repr decodeError c { c with calls := c.calls.set call .crashed }

theorem Host.went_step {move : Move} (h : c.step repr decodeError move = some d) : c.Went repr decodeError d := by
  cases move with
  | save recording =>
    simp only [Host.step] at h
    split at h <;> cases h
    exact .begins _ _ (Place.good_mkdir recording _) rfl (.inl ⟨rfl, ‹_›⟩)
  | rename old new =>
    simp only [Host.step] at h
    split at h <;> cases h
    exact .begins _ _ nofun rfl (.inl ⟨rfl, ‹_›⟩)
  | delete name =>
    simp only [Host.step] at h
    split at h <;> cases h
    exact .begins _ _ nofun rfl (.inl ⟨rfl, ‹_›⟩)
  | otherSave recording =>
    cases h
    exact .begins _ _ (Place.good_mkdir recording _) rfl (.inr ⟨rfl, _, _, rfl⟩)
  | turn call turn =>
    obtain ⟨place, hi, h⟩ := Option.bind_eq_some_iff.1 h
    obtain ⟨⟨next, after⟩, hstep, rfl⟩ := Option.map_eq_some_iff.1 h
    exact .turns call turn place next after hi hstep
  | crash call =>
    obtain ⟨place, hi, h⟩ := Option.bind_eq_some_iff.1 h
    split at h <;> cases h
    exact .crashes call place hi

theorem Host.Went.sound (h : c.Went repr decodeError d) (hc : c.Sound repr decodeError) : d.Sound repr decodeError := by
  cases h with
  | begins place own good none sequence => exact hc.begins good none sequence
  | turns call turn place next after comes goes => exact hc.moved comes (Place.moved_step goes)
  | crashes call place comes => exact hc.set comes hc.published nofun (fun _ _ _ _ _ _ => rfl) nofun (fun _ => .inl rfl)

/-- A property that every move keeps in a sound state holds in every state of a run. -/
theorem Host.run_rule {P : Host → Prop}
    (hstep : ∀ c d : Host, c.Sound repr decodeError → c.Went repr decodeError d → P c → P d)
    (hc : c.Sound repr decodeError) (hP : P c) (moves : List Move) :
    (c.run repr decodeError moves).Sound repr decodeError ∧ P (c.run repr decodeError moves) := by
  refine Lib.foldl_invariant (P := fun c => c.Sound repr decodeError ∧ P c) (fun c move h => ?_) moves c ⟨hc, hP⟩
  cases hmove : c.step repr decodeError move with
  | none => exact h
  | some d => exact ⟨(Host.went_step hmove).sound h.1, hstep c d h.1 (Host.went_step hmove) h.2⟩

theorem Host.sound_run (hc : c.Sound repr decodeError) (moves : List Move) :
    (c.run repr decodeError moves).Sound repr decodeError :=
  (Host.run_rule (P := fun _ => True) (fun _ _ _ _ _ => trivial) hc trivial moves).1

theorem Host.sound_init (hfiles : Published repr decodeError files) : (Host.init files).Sound repr decodeError :=
  ⟨hfiles, by simp [Host.init], by simp [Host.init], by simp [Host.init]⟩

/-! ## A `rename` keeps the events -/

/-- The recording that can be loaded under the name has the events. -/
def Available (repr : Json → String) (decodeError : String → String) (files : Files) (name : String)
    (events : List RecordingEvent) : Prop :=
  ∃ text recording, files (pathFor name) = some text ∧ loadText repr decodeError name text = .ok recording ∧
    recording.events = events

theorem Kept.available {events : List RecordingEvent} {name : String} (h : Kept files after)
    (havailable : Available repr decodeError files name events) : Available repr decodeError after name events := by
  obtain ⟨text, recording, hfile, hload, hevents⟩ := havailable
  exact ⟨text, recording, h name text hfile, hload, hevents⟩

/-- Where a `rename` is: the events are under the old name until it removes that, and before it does they are under the
new one. -/
def Place.Renaming (old new : String) (events : List RecordingEvent) (available : String → Prop) : Place → Prop
  | .rename o n => o = old ∧ n = new ∧ available old
  | .renameSave o n recording saving =>
    o = old ∧ n = new ∧ old ≠ new ∧ recording.name = new ∧ recording.events = events ∧ available old ∧
      (∀ temporary, saving = .unlink temporary none → available new)
  | .renameDelete o n => o = old ∧ n = new ∧ old ≠ new ∧ available new
  | .returned _ | .crashed => available old ∨ available new
  | .save _ _ | .delete _ => False

theorem Place.Renaming.mono {old new : String} {events : List RecordingEvent} {P Q : String → Prop}
    (hmono : ∀ name, P name → Q name) (h : place.Renaming old new events P) : place.Renaming old new events Q := by
  cases place with
  | rename o n => exact ⟨h.1, h.2.1, hmono _ h.2.2⟩
  | renameSave o n recording saving =>
    obtain ⟨ho, hn, hne, hname, hevents, hold, hlinked⟩ := h
    exact ⟨ho, hn, hne, hname, hevents, hmono _ hold, fun t ht => hmono _ (hlinked t ht)⟩
  | renameDelete o n => exact ⟨h.1, h.2.1, h.2.2.1, hmono _ h.2.2.2⟩
  | returned _ => exact h.imp (hmono _) (hmono _)
  | crashed => exact h.imp (hmono _) (hmono _)
  | save _ _ => exact h
  | delete _ => exact h

theorem Place.Renaming.over {old new : String} {events : List RecordingEvent} {P : String → Prop}
    (h : place.Renaming old new events P) : P old ∨ P new := by
  cases place with
  | rename o n => exact .inl h.2.2
  | renameSave o n recording saving => exact .inl h.2.2.2.2.2.1
  | renameDelete o n => exact .inr h.2.2.2
  | returned _ => exact h
  | crashed => exact h
  | save _ _ => exact h.elim
  | delete _ => exact h.elim

/-- A `save` has come to its last operation without an error by linking its file. -/
theorem Saving.step_linked (h : saving.Good recording files) {temporary : String}
    (hstep : (saving.step recording files turn).1 = .inl (.unlink temporary none)) :
    (saving.step recording files turn).2 (pathFor recording.name) = some recording.text := by
  cases saving with
  | link t =>
    simp only [Saving.step] at hstep ⊢
    split at hstep
    · cases hstep
    · rename_i linked hattempt
      cases turn with
      | fails error => cases hattempt
      | works random written =>
        cases hlink : files.link t (pathFor recording.name) with
        | error refusal =>
          rw [Turn.attempt, hlink] at hattempt
          cases hattempt
        | ok after =>
          rw [Turn.attempt, hlink] at hattempt
          cases hattempt
          obtain ⟨content, hcontent, -, rfl⟩ := Directory.link_ok hlink
          obtain rfl : recording.text = content := Option.some.inj (h.holds.symm.trans hcontent)
          exact Function.update_self ..
  | mkdir => cases turn <;> cases hstep
  | mkstemp =>
    cases turn with
    | fails error => cases hstep
    | works random written =>
      simp only [Saving.step] at hstep
      split at hstep <;> cases hstep
  | write t rest =>
    cases turn with
    | fails error => cases hstep
    | works random written =>
      simp only [Saving.step] at hstep
      split at hstep <;> cases hstep
  | fsync t => cases turn <;> cases hstep
  | unlink t error => cases error <;> cases hstep

/-- A `save` that returns had no error in its `finally`. -/
theorem Saving.step_returned {path : String} (hstep : (saving.step recording files turn).1 = .inr (.ok path)) :
    ∃ temporary, saving = .unlink temporary none := by
  cases saving with
  | unlink temporary error =>
    cases error with
    | none => exact ⟨temporary, rfl⟩
    | some error => cases error <;> cases hstep
  | mkdir =>
    cases turn with
    | fails error => cases error <;> cases hstep
    | works random written => cases hstep
  | mkstemp =>
    cases turn with
    | fails error => cases error <;> cases hstep
    | works random written =>
      simp only [Saving.step] at hstep
      split at hstep <;> cases hstep
  | write t rest => cases turn <;> cases hstep
  | fsync t => cases turn <;> cases hstep
  | link t =>
    simp only [Saving.step] at hstep
    split at hstep <;> cases hstep

theorem Place.renaming_step {old new : String} {events : List RecordingEvent} (hgood : place.Good files)
    (h : place.Renaming old new events (Available repr decodeError files · events))
    (hstep : place.step repr decodeError files turn = some (next, after)) :
    next.Renaming old new events (Available repr decodeError after · events) := by
  cases place with
  | rename o n =>
    obtain ⟨rfl, rfl, hold⟩ := h
    simp only [Place.step] at hstep
    split at hstep <;> cases hstep
    · exact .inl hold
    · rename_i recording hrenamed
      obtain ⟨-, hname, hne, text, loaded, hfile, hload, hevents⟩ := renamed_ok hrenamed
      obtain ⟨text', recording', hfile', hload', hevents'⟩ := hold
      obtain rfl : text = text' := Option.some.inj (hfile.symm.trans hfile')
      obtain rfl : loaded = recording' := Except.ok.inj (hload.symm.trans hload')
      exact ⟨rfl, rfl, hne, hname, hevents.trans hevents', ⟨text, loaded, hfile, hload, hevents'⟩, nofun⟩
  | renameSave o n recording saving =>
    obtain ⟨rfl, rfl, hne, hname, hevents, hold, hlinked⟩ := h
    obtain ⟨hvalid, hsaving⟩ := hgood recording saving rfl
    have hmoved : saving.Moved recording files (saving.step recording files turn) := Saving.moved_step hsaving
    have hkept := hmoved.kept hsaving
    have hnew : ∀ files', (saving.step recording files turn).2 = files' →
        files' (pathFor recording.name) = some recording.text → Available repr decodeError files' n events := by
      intro files' _ hfile
      refine ⟨recording.text, recording, hname ▸ hfile, ?_, hevents⟩
      rw [← hname]
      exact loadText_text repr decodeError hvalid
    simp only [Place.step] at hstep
    split at hstep <;> rename_i hsaved <;> cases hstep
    · rw [hsaved] at hkept
      refine ⟨rfl, rfl, hne, hname, hevents, hkept.available hold, fun t ht => ?_⟩
      have hfile : (saving.step recording files turn).2 (pathFor recording.name) = some recording.text :=
        Saving.step_linked hsaving (show _ = Sum.inl (Saving.unlink t none) by rw [hsaved, ht])
      rw [hsaved] at hfile
      exact hnew _ (by rw [hsaved]) hfile
    · rw [hsaved] at hkept
      obtain ⟨t, rfl⟩ := Saving.step_returned (show _ = Sum.inr (Except.ok _) by rw [hsaved])
      exact ⟨rfl, rfl, hne, hkept.available (hlinked t rfl)⟩
    · rw [hsaved] at hkept
      exact .inl (hkept.available hold)
  | renameDelete o n =>
    obtain ⟨rfl, rfl, hne, hnew⟩ := h
    simp only [Place.step] at hstep
    split at hstep <;> rename_i hdelete <;> cases hstep
    · right
      rw [delete_ok hdelete]
      obtain ⟨text, recording, hfile, hload⟩ := hnew
      exact ⟨text, recording, (Directory.remove_of_ne (fun heq => hne (pathFor_inj.1 heq).symm)).trans hfile, hload⟩
    · rw [delete_error hdelete]
      exact .inr hnew
  | returned _ => cases hstep
  | crashed => cases hstep
  | save _ _ => exact h.elim
  | delete _ => exact h.elim

/-- The `rename` is the process's last call and is where it should be, or there has been another since. -/
def Host.Renames (repr : Json → String) (decodeError : String → String) (old new : String)
    (events : List RecordingEvent) (i : Nat) (c : Host) : Prop :=
  i < c.calls.length ∧ ((∃ j, c.own = some j ∧ i < j) ∨ c.own = some i ∧ ∃ place, c.calls[i]? = some place ∧
    place.Renaming old new events (Available repr decodeError c.files · events))

theorem Host.Renames.set {old new : String} {events : List RecordingEvent}
    (h : c.Renames repr decodeError old new events i) {j : Nat}
    (hnext : j = i → ∀ place, c.calls[i]? = some place →
      place.Renaming old new events (Available repr decodeError c.files · events) →
        next.Renaming old new events (Available repr decodeError after · events))
    (hkept : j ≠ i → c.own = some i → Kept c.files after) :
    Host.Renames repr decodeError old new events i { c with files := after, calls := c.calls.set j next } := by
  obtain ⟨hlt, hrest⟩ := h
  refine ⟨by rwa [List.length_set], hrest.imp id ?_⟩
  rintro ⟨hown, place, hi, hrenaming⟩
  refine ⟨hown, ?_⟩
  by_cases hj : j = i
  · subst hj
    exact ⟨next, List.getElem?_set_self hlt, hnext rfl place hi hrenaming⟩
  · exact ⟨place, by rw [List.getElem?_set_ne hj]; exact hi,
      hrenaming.mono (fun name h => (hkept hj hown).available h)⟩

theorem Host.Renames.begins {old new : String} {events : List RecordingEvent}
    (h : c.Renames repr decodeError old new events i) (place : Place) (own : Option Nat)
    (hown : own = some c.calls.length ∨ own = c.own) :
    Host.Renames repr decodeError old new events i { c with calls := c.calls ++ [place], own := own } := by
  obtain ⟨hlt, hrest⟩ := h
  refine ⟨by rw [List.length_append]; omega, ?_⟩
  rcases hown with rfl | rfl
  · exact .inl ⟨_, rfl, hlt⟩
  · refine hrest.imp id ?_
    rintro ⟨hown, p, hi, hrenaming⟩
    exact ⟨hown, p, by rw [List.getElem?_append_left hlt]; exact hi, hrenaming⟩

/-- A call that is in a `save` takes no recording away and changes none. -/
theorem Place.Moved.kept (hmoved : place.Moved repr decodeError files turn next after) (hgood : place.Good files)
    (hsaving : place.saving?.isSome) : Kept files after := by
  cases hmoved with
  | save recording saving before files' goes stays =>
    obtain ⟨-, hsaving⟩ := hgood recording saving before
    have hstep : saving.Moved recording files (saving.step recording files turn) := Saving.moved_step hsaving
    exact files' ▸ hstep.kept hsaving
  | load old new before recording loaded => exact Kept.refl _
  | fail e before => exact Kept.refl _
  | remove name before outcome => rcases before with rfl | ⟨new, rfl⟩ <;> cases hsaving

theorem Host.Went.renames {old new : String} {events : List RecordingEvent} (hwent : c.Went repr decodeError d)
    (hc : c.Sound repr decodeError) (h : c.Renames repr decodeError old new events i) :
    d.Renames repr decodeError old new events i := by
  cases hwent with
  | begins place own good none sequence => exact h.begins place own (sequence.imp And.left And.left)
  | turns call turn place next after comes goes =>
    refine h.set (fun hcall p hp hrenaming => ?_) (fun hcall hown => ?_)
    · subst hcall
      obtain rfl : place = p := Option.some.inj (comes.symm.trans hp)
      exact Place.renaming_step (hc.good call place comes) hrenaming goes
    · -- Beside the process's own call there is only a `save` that is not over.
      refine (Place.moved_step goes).kept (hc.good call place comes) ?_
      have hother : c.own ≠ some call := fun heq => hcall (Option.some.inj (heq.symm.trans hown))
      rcases hc.sequence call place comes hother with hover | ⟨_, _, rfl⟩
      · cases place <;> first | cases goes | cases hover
      · rfl
  | crashes call place comes => exact h.set (fun _ p _ hrenaming => hrenaming.over) (fun _ _ => Kept.refl _)

/-! ## A `save` that has linked its file -/

/-- The `save` has published its recording. -/
def Place.Linked : Place → Prop
  | .save _ (.unlink _ none) | .returned (.ok _) | .crashed => True
  | _ => False

theorem Place.linked_step (h : place.Linked) (hstep : place.step repr decodeError files turn = some (next, after)) :
    next.Linked := by
  cases place with
  | save recording saving =>
    cases saving with
    | unlink temporary error =>
      cases error with
      | none => cases hstep; trivial
      | some error => exact h.elim
    | _ => exact h.elim
  | returned _ => cases hstep
  | crashed => cases hstep
  | _ => exact h.elim

/-- The call has published its recording. -/
def Host.Linked (i : Nat) (c : Host) : Prop := ∃ place, c.calls[i]? = some place ∧ place.Linked

theorem Host.Linked.set (h : c.Linked i) {call : Nat} (hnext : call = i → next.Linked) :
    Host.Linked i { c with files := after, calls := c.calls.set call next } := by
  obtain ⟨place, hi, hlinked⟩ := h
  by_cases hcall : call = i
  · subst hcall
    exact ⟨next, List.getElem?_set_self (List.getElem?_eq_some_iff.1 hi).1, hnext rfl⟩
  · exact ⟨place, by rw [List.getElem?_set_ne hcall]; exact hi, hlinked⟩

theorem Host.Went.linked (hwent : c.Went repr decodeError d) (h : c.Linked i) : d.Linked i := by
  obtain ⟨place, hi, hlinked⟩ := h
  cases hwent with
  | begins new own good none sequence =>
    exact ⟨place, by rw [List.getElem?_append_left (List.getElem?_eq_some_iff.1 hi).1]; exact hi, hlinked⟩
  | turns call turn p next after comes goes =>
    refine Host.Linked.set ⟨place, hi, hlinked⟩ (fun hcall => ?_)
    subst hcall
    obtain rfl : place = p := Option.some.inj (hi.symm.trans comes)
    exact Place.linked_step hlinked goes
  | crashes call p comes => exact Host.Linked.set ⟨place, hi, hlinked⟩ (fun _ => trivial)

/-- **The store survives a crash at any point and overwrites nothing.**  From a directory whose recordings are well
formed, in every state of every run: what is published under a name is a complete valid recording of that name; no
operation of a `save` takes a published recording away or changes it; from the call of a `rename` to the process's next
call the recording's events can be loaded under the old name or the new one; and no operation of a `save` that raises
has changed what is published. -/
theorem crash_safe (repr : Json → String) (decodeError : String → String) (files : Files)
    (hfiles : Published repr decodeError files) (moves : List Move) :
    let c := (Host.init files).run repr decodeError moves
    (∀ name text, c.files (pathFor name) = some text →
      ∃ recording, recording.Valid ∧ recording.name = name ∧ loadText repr decodeError name text = .ok recording) ∧
    (∀ call place turn d, c.calls[call]? = some place → place.saving?.isSome →
      c.step repr decodeError (.turn call turn) = some d →
        ∀ name text, c.files (pathFor name) = some text → d.files (pathFor name) = some text) ∧
    (∀ old new text recording d later, c.files (pathFor old) = some text →
      loadText repr decodeError old text = .ok recording → c.step repr decodeError (.rename old new) = some d →
        let e := d.run repr decodeError later
        e.own = d.own → Available repr decodeError e.files old recording.events ∨
          Available repr decodeError e.files new recording.events) ∧
    ∀ call recording saving turn d later e, c.calls[call]? = some (.save recording saving) →
      c.step repr decodeError (.turn call turn) = some d →
        (d.run repr decodeError later).calls[call]? = some (.returned (.error e)) →
          ∀ name, d.files (pathFor name) = c.files (pathFor name) := by
  intro c
  have hc : c.Sound repr decodeError := Host.sound_run (Host.sound_init hfiles) moves
  refine ⟨fun name text hfile => ?_, ?_, ?_, ?_⟩
  · obtain ⟨recording, hload⟩ := hc.published name text hfile
    exact ⟨recording, (loadText_ok hload).1, (loadText_ok hload).2, hload⟩
  · intro call place turn d hcall hsaving hstep
    obtain ⟨p, hp, hstep⟩ := Option.bind_eq_some_iff.1 hstep
    obtain ⟨⟨next, after⟩, hplace, rfl⟩ := Option.map_eq_some_iff.1 hstep
    obtain rfl : place = p := Option.some.inj (hcall.symm.trans hp)
    exact (Place.moved_step hplace).kept (hc.good call place hp) hsaving
  · intro old new text recording d later hfile hload hstep e hown
    have hd : d.Sound repr decodeError := (Host.went_step hstep).sound hc
    have hrenames : d.Renames repr decodeError old new recording.events c.calls.length := by
      simp only [Host.step] at hstep
      split at hstep <;> cases hstep
      refine ⟨by simp [Host.begin_], .inr ⟨rfl, .rename old new, by simp [Host.begin_], rfl, rfl, ?_⟩⟩
      exact ⟨text, recording, hfile, hload, rfl⟩
    have hlast : d.own = some c.calls.length := by
      simp only [Host.step] at hstep
      split at hstep <;> cases hstep
      rfl
    obtain ⟨-, -, ⟨j, hj, hlater⟩ | ⟨-, place, -, hrenaming⟩⟩ :=
      Host.run_rule (fun _ _ hc hwent h => hwent.renames hc h) hd hrenames later
    · have hsame : some j = some c.calls.length := hj.symm.trans (hown.trans hlast)
      cases hsame
      exact absurd hlater (Nat.lt_irrefl _)
    · exact hrenaming.over
  · intro call recording saving turn d later e hcall hstep herror name
    have hd : d.Sound repr decodeError := (Host.went_step hstep).sound hc
    have hlinked : ¬d.Linked call := by
      intro h
      obtain ⟨-, place, hplace, hlinked⟩ := Host.run_rule (fun _ _ _ hwent h => hwent.linked h) hd h later
      obtain rfl : .returned (.error e) = place := Option.some.inj (herror.symm.trans hplace)
      exact hlinked
    obtain ⟨p, hp, hstep⟩ := Option.bind_eq_some_iff.1 hstep
    obtain ⟨⟨next, after⟩, hplace, rfl⟩ := Option.map_eq_some_iff.1 hstep
    obtain rfl : Place.save recording saving = p := Option.some.inj (hcall.symm.trans hp)
    obtain ⟨-, hsaving⟩ := hc.good call _ hp recording saving rfl
    have hmoved : saving.Moved recording c.files (saving.step recording c.files turn) := Saving.moved_step hsaving
    have hafter : after = (saving.step recording c.files turn).2 := by
      simp only [Place.step] at hplace
      split at hplace <;> rename_i hsaved <;> cases hplace <;> rw [hsaved]
    change after (pathFor name) = c.files (pathFor name)
    rw [hafter]
    by_cases hname : pathFor name = pathFor recording.name
    · rw [hname]
      rcases hmoved.path with hsame | ⟨-, -, temporary, hgone⟩
      · exact hsame
      · refine absurd ⟨next, List.getElem?_set_self (List.getElem?_eq_some_iff.1 hp).1, ?_⟩ hlinked
        simp only [Place.step] at hplace
        split at hplace <;> rename_i hsaved <;> cases hplace <;> rw [hsaved] at hgone <;> cases hgone
        trivial
    · exact hmoved.others _ hname (fun ht => hsaving.temporary_ne ht name rfl)
        (fun s hs ht => (hmoved.good s hs).temporary_ne ht name rfl)

end Hosts

/-- A key that goes down. -/
def pressRecording : ValidRecording := ⟨⟨"a", 0, [⟨0, [0, 0, 4, 0, 0, 0, 0, 0]⟩]⟩, by constructor <;> decide⟩

/-- A `save`, without a failure. -/
def saveMoves : List Move := .save pressRecording :: List.replicate 6 (.turn 0 (.works "x" 1000))

/-- A `rename` that has read, written and linked, and is then cut off. -/
def cutOffMoves : List Move := List.replicate 6 (.turn 1 (.works "y" 1000)) ++ [.crash 1]

def savedHost : Host := (Host.init (fun _ => none)).run (fun _ => "") (fun _ => "") saveMoves

def cutOffHost : Host :=
  (savedHost.begin_ (.rename pressRecording.1.name "b")).run (fun _ => "") (fun _ => "") cutOffMoves

/-- A `rename` of the saved recording that a crash cuts off when it has linked the new file: the events can be
loaded. -/
theorem crash_safe_rename :
    Available (fun _ => "") (fun _ => "") cutOffHost.files pressRecording.1.name pressRecording.1.events ∨
      Available (fun _ => "") (fun _ => "") cutOffHost.files "b" pressRecording.1.events := by
  have hload : loadText (fun _ => "") (fun _ => "") pressRecording.1.name pressRecording.1.text =
      .ok pressRecording.1 :=
    loadText_text (fun _ => "") (fun _ => "") pressRecording.2
  have hfile : savedHost.files (pathFor pressRecording.1.name) = some pressRecording.1.text := by decide +kernel
  have hfree : savedHost.free = true := by decide +kernel
  have hstep : savedHost.step (fun _ => "") (fun _ => "") (.rename pressRecording.1.name "b") =
      some (savedHost.begin_ (.rename pressRecording.1.name "b")) := by
    simp only [Host.step, hfree, if_true]
  have hlast : cutOffHost.own = some 1 := by decide +kernel
  have hbegun : (savedHost.begin_ (.rename pressRecording.1.name "b")).own = some 1 := by decide +kernel
  have hown : cutOffHost.own = (savedHost.begin_ (.rename pressRecording.1.name "b")).own := hlast.trans hbegun.symm
  unfold cutOffHost at hown ⊢
  generalize pressRecording.1.text = text at hload hfile
  generalize pressRecording.1 = recording at *
  unfold savedHost at *
  exact (crash_safe (fun _ => "") (fun _ => "") (fun _ => none) nofun saveMoves).2.2.1 recording.name "b"
    text recording _ cutOffMoves hfile hload hstep hown

/-! ## A store to itself

With no failure and no other writer a call is one step. -/

def exists_ (name : String) (files : Files) : Checked Bool := do
  let name ← validateName (.str name)
  .ok (files (pathFor name)).isSome

def save (recording : Recording) (files : Files) : Checked String × Files :=
  match files (pathFor recording.name) with
  | some _ => (saveError recording.name (OSError.ofRefusal .taken), files)
  | none => (.ok (pathFor recording.name), Function.update files (pathFor recording.name) (some recording.text))

def rename (repr : Json → String) (decodeError : String → String) (old new : String) (files : Files) :
    Checked Unit × Files :=
  match renamed repr decodeError old new files (.works "" 0) with
  | .error e => (.error e, files)
  | .ok recording =>
    match save recording files with
    | (.error e, files) => (.error e, files)
    | (.ok _, files) => delete old files (.works "" 0)

/-- The operations of a `save`, one after another with nothing in between. -/
def Saving.finish (recording : Recording) (turn : Turn) : Nat → Files → Saving → Option (Checked String × Files)
  | 0, _, _ => none
  | n + 1, files, saving =>
    match saving.step recording files turn with
    | (.inl saving, files) => finish recording turn n files saving
    | (.inr outcome, files) => some (outcome, files)

/-- **`save` is its six operations undisturbed**, the temporary file gone again. -/
theorem save_undisturbed (recording : Recording) (files : Files) (random : String)
    (hrandom : files (temporaryName recording.name random) = none) :
    Saving.finish recording (.works random recording.text.toList.length) 6 files .mkdir =
      some (save recording files) := by
  have hne := temporaryName_ne recording.name random recording.name
  generalize htemporary : temporaryName recording.name random = temporary at hrandom hne
  have hcreate : files.create temporary "" = .ok (Function.update files temporary (some "")) := by
    simp [Directory.create, hrandom]
  have hwrite : Directory.modify temporary (· ++ recording.text) (Function.update files temporary (some "")) =
      Function.update files temporary (some recording.text) := by
    simp [Directory.modify]
  have hother : Function.update files temporary (some recording.text) (pathFor recording.name) =
      files (pathFor recording.name) := Function.update_of_ne hne.symm ..
  have hremoved : ∀ (after : Files) text, after temporary = none →
      Directory.remove temporary (Function.update after temporary (some text)) = after := by
    intro after text hnone
    simp [Directory.remove, ← hnone]
  cases hpath : files (pathFor recording.name) with
  | some text =>
    have hlink : Directory.link temporary (pathFor recording.name)
        (Function.update files temporary (some recording.text)) = .error .taken := by
      unfold Directory.link
      rw [hother, hpath, Function.update_self]
    simp [Saving.finish, Saving.step, Turn.attempt, Except.mapError, save, htemporary, hcreate, hwrite, hlink, hpath,
      hremoved files _ hrandom]
  | none =>
    have hlink : Directory.link temporary (pathFor recording.name)
        (Function.update files temporary (some recording.text)) =
          .ok (Function.update (Function.update files temporary (some recording.text)) (pathFor recording.name)
            (some recording.text)) := by
      unfold Directory.link
      rw [hother, hpath, Function.update_self]
    have hlinked : (Function.update files (pathFor recording.name) (some recording.text)) temporary = none := by
      rw [Function.update_of_ne hne, hrandom]
    simp [Saving.finish, Saving.step, Turn.attempt, Except.mapError, save, htemporary, hcreate, hwrite, hlink, hpath,
      Function.update_comm hne, hremoved _ _ hlinked]

end RecordingStore
end PiZero
end PicoRecorder
