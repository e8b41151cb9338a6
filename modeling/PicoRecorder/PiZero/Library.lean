import PicoRecorder.PiZero.RecordingStore
/-!
# Library — what the store is for

A library has recordings by name, and what happens to it happens at one moment: a recording is inserted, copied under
another name, or erased.  The store of files is one, whatever calls are under way in it: each has its effects between
its call and its return, all of them if it returns, and if it raises none, but for the copy a `rename` has made.
-/
namespace PicoRecorder
namespace PiZero
namespace RecordingStore

open Lib (Json Directory)

abbrev Library := Directory String Recording

inductive Effect where
  | insert (recording : Recording)
  | copy (old new : String)
  | erase (name : String)
  deriving DecidableEq

def Effect.apply (library : Library) : Effect → Except Directory.Refusal Library
  | .insert recording => library.create recording.name recording
  | .copy old new =>
    match library old with
    | none => .error .missing
    | some recording => library.create new { recording with name := new }
  | .erase name => library.unlink name

/-- A call, by what it was asked for. -/
inductive Op where
  | save (recording : Recording)
  | rename (old new : String)
  | delete (name : String)
  deriving DecidableEq

def Op.effects : Op → List Effect
  | .save recording => [.insert recording]
  | .rename old new => [.copy old new, .erase old]
  | .delete name => [.erase name]

def Move.op? : Move → Option Op
  | .save recording | .otherSave recording => some (.save recording.1)
  | .rename old new => some (.rename old new)
  | .delete name => some (.delete name)
  | .turn _ _ | .crash _ => none

/-- The `finally` of a `save` that has linked its file. -/
def Saving.linked : Saving → Bool
  | .unlink _ none => true
  | _ => false

/-- The effect of the operation that leads from one place of a call to the next. -/
def Place.effect? : Place → Place → Option Effect
  | .save recording _, .save _ saving => if saving.linked then some (.insert recording) else none
  | .renameSave old new _ _, .renameSave _ _ _ saving => if saving.linked then some (.copy old new) else none
  | .renameDelete old _, .returned (.ok _) => some (.erase old)
  | .delete name, .returned (.ok _) => some (.erase name)
  | _, _ => none

namespace Host

/-- The effect of a move from one state to the next, with the call that had it. -/
def effect? (c d : Host) : Move → Option (Nat × Effect)
  | .turn call _ =>
    ((c.calls[call]?).bind (fun place => (d.calls[call]?).bind (fun next => place.effect? next))).map (Prod.mk call)
  | _ => none

section Logs

variable (repr : Json → String) (decodeError : String → String)

/-- The effects of a run, in their order. -/
def log (c : Host) : List Move → List (Nat × Effect)
  | [] => []
  | move :: moves =>
    match c.step repr decodeError move with
    | none => c.log moves
    | some d => (c.effect? d move).toList ++ d.log moves

/-- The calls of a run, in their order. -/
def asked (c : Host) : List Move → List Op
  | [] => []
  | move :: moves =>
    match c.step repr decodeError move with
    | none => c.asked moves
    | some d => move.op?.toList ++ d.asked moves

end Logs
end Host

section Levels

variable (repr : Json → String) (decodeError : String → String)

/-- The recordings that can be loaded. -/
def library (files : Files) : Library := fun name =>
  (files (pathFor name)).bind (fun text => (loadText repr decodeError name text).toOption)

variable {repr decodeError} {files after : Files} {recording : Recording} {saving : Saving} {turn : Turn}

theorem library_congr (h : ∀ name, after (pathFor name) = files (pathFor name)) :
    library repr decodeError after = library repr decodeError files := by
  funext name
  simp only [library, h]

theorem library_none {name : String} (h : files (pathFor name) = none) :
    library repr decodeError files name = none := by
  simp [library, h]

theorem library_load {name text : String} (hfile : files (pathFor name) = some text)
    (hload : loadText repr decodeError name text = .ok recording) :
    library repr decodeError files name = some recording := by
  simp [library, hfile, hload, Except.toOption]

/-- A file that is linked inserts its recording. -/
theorem library_linked (hvalid : recording.Valid) (hfree : files (pathFor recording.name) = none)
    (htext : after (pathFor recording.name) = some recording.text)
    (hothers : ∀ name, name ≠ recording.name → after (pathFor name) = files (pathFor name)) :
    (library repr decodeError files).create recording.name recording = .ok (library repr decodeError after) := by
  rw [Directory.create, library_none hfree]
  refine congrArg Except.ok (funext fun name => ?_)
  by_cases hname : name = recording.name
  · subst hname
    rw [Function.update_self, library_load htext (loadText_text repr decodeError hvalid)]
  · rw [Function.update_of_ne hname]
    simp only [library, hothers name hname]

/-- A file that is removed erases its recording. -/
theorem library_removed (hpublished : Published repr decodeError files) {name text : String}
    (hfile : files (pathFor name) = some text) :
    (library repr decodeError files).unlink name = .ok (library repr decodeError (files.remove (pathFor name))) := by
  obtain ⟨recording, hload⟩ := hpublished name text hfile
  rw [Directory.unlink, library_load hfile hload]
  refine congrArg Except.ok (funext fun other => ?_)
  by_cases hname : other = name
  · subst hname
    rw [Directory.remove_self, library_none (Directory.remove_self)]
  · rw [Directory.remove_of_ne hname]
    simp only [library, Directory.remove_of_ne (fun h => hname (pathFor_inj.1 h))]

/-- Only the `link` of a `save` leads to its good end, and there it found the name free. -/
theorem Saving.step_links {next : Saving} (hnext : (saving.step recording files turn).1 = .inl next)
    (hlinked : next.linked = true) : (∃ t, saving = .link t) ∧ files (pathFor recording.name) = none := by
  cases saving with
  | link t =>
    refine ⟨⟨t, rfl⟩, ?_⟩
    simp only [Saving.step] at hnext
    split at hnext
    · cases hnext
      cases hlinked
    · rename_i linked hattempt
      cases turn with
      | fails error => cases hattempt
      | works random written =>
        cases hlink : files.link t (pathFor recording.name) with
        | error refusal =>
          rw [Turn.attempt, hlink] at hattempt
          cases hattempt
        | ok after =>
          obtain ⟨-, -, hfree, -⟩ := Directory.link_ok hlink
          exact hfree
  | mkdir =>
    cases turn with
    | fails error => cases hnext
    | works random written =>
      cases hnext
      cases hlinked
  | mkstemp =>
    cases turn with
    | fails error => cases hnext
    | works random written =>
      simp only [Saving.step] at hnext
      split at hnext <;> cases hnext <;> cases hlinked
  | write t rest =>
    cases turn with
    | fails error => cases hnext; cases hlinked
    | works random written =>
      simp only [Saving.step] at hnext
      split at hnext <;> cases hnext <;> cases hlinked
  | fsync t => cases turn <;> cases hnext <;> cases hlinked
  | unlink t error => cases error <;> cases hnext

variable (repr decodeError turn) in
/-- **One operation of a `save`** inserts its recording if it links, and does nothing to the library if not. -/
theorem Saving.step_library (h : saving.Good recording files) (hvalid : recording.Valid) :
    (∀ next, (saving.step recording files turn).1 = .inl next → next.linked = true →
      (library repr decodeError files).create recording.name recording =
        .ok (library repr decodeError (saving.step recording files turn).2)) ∧
      ((∀ next, (saving.step recording files turn).1 = .inl next → next.linked = false) →
        library repr decodeError (saving.step recording files turn).2 = library repr decodeError files) := by
  have hmoved : saving.Moved recording files (saving.step recording files turn) := Saving.moved_step h
  have hothers : ∀ name, name ≠ recording.name →
      (saving.step recording files turn).2 (pathFor name) = files (pathFor name) := by
    intro name hname
    refine hmoved.others _ (fun hpath => hname (pathFor_inj.1 hpath)) (fun ht => h.temporary_ne ht name rfl)
      (fun next hnext ht => (hmoved.good next hnext).temporary_ne ht name rfl)
  constructor
  · intro next hnext hlinked
    obtain ⟨-, hfree⟩ := Saving.step_links hnext hlinked
    have htext : (saving.step recording files turn).2 (pathFor recording.name) = some recording.text := by
      cases next with
      | unlink t error =>
        cases error with
        | none => exact Saving.step_linked h hnext
        | some error => cases hlinked
      | mkdir | mkstemp | write _ _ | fsync _ | link _ => cases hlinked
    exact library_linked hvalid hfree htext hothers
  · intro hunlinked
    refine library_congr (fun name => ?_)
    by_cases hname : name = recording.name
    · subst hname
      rcases hmoved.path with hsame | ⟨-, -, t, hnext⟩
      · exact hsame
      · have := hunlinked _ hnext
        cases this
    · exact hothers name hname

/-! ## A call between its effects -/

/-- What a call has done to the library when it has come to a place. -/
inductive Progress (contents : Library) : Op → Place → List Effect → Prop where
  | saving (recording : Recording) (saving : Saving) :
    Progress contents (.save recording) (.save recording saving) (if saving.linked then [.insert recording] else [])
  | reading (old new : String) : Progress contents (.rename old new) (.rename old new) []
  | copying (old new : String) (recording : Recording) (saving : Saving) (stored : contents old = some recording) :
    Progress contents (.rename old new) (.renameSave old new { recording with name := new } saving)
      (if saving.linked then [.copy old new] else [])
  | erasing (old new : String) : Progress contents (.rename old new) (.renameDelete old new) [.copy old new]
  | deleting (name : String) : Progress contents (.delete name) (.delete name) []
  | returned (op : Op) (outcome : Option String) : Progress contents op (.returned (.ok outcome)) op.effects
  | failed (op : Op) (e : Exn) : Progress contents op (.returned (.error e)) []
  | halved (old new : String) (e : Exn) :
    Progress contents (.rename old new) (.returned (.error e)) [.copy old new]
  | crashed (op : Op) (effects : List Effect) (begun : effects <+: op.effects) : Progress contents op .crashed effects

variable {saving' : Saving} {place next : Place} {op : Op} {effects : List Effect} {contents later : Library}

theorem Progress.begun (h : Progress contents op place effects) : effects <+: op.effects := by
  cases h with
  | saving recording saving => cases saving.linked <;> simp [Op.effects]
  | copying old new recording saving stored => cases saving.linked <;> simp [Op.effects]
  | reading | deleting | failed => exact List.nil_prefix
  | erasing | halved => simp [Op.effects]
  | returned => exact List.prefix_refl _
  | crashed _ _ begun => exact begun

/-- What a `rename` saves is what is under the old name, but for its own name. -/
theorem renamed_stored {old new : String} (h : renamed repr decodeError old new files turn = .ok recording) :
    ∃ stored, library repr decodeError files old = some stored ∧ recording = { stored with name := new } := by
  obtain ⟨hvalid, hname, -, text, stored, hfile, hload, hevents⟩ := renamed_ok h
  have hduration : recording.durationUs = stored.durationUs := by
    rw [← hvalid.duration, hevents, (loadText_ok hload).1.duration]
  refine ⟨stored, library_load hfile hload, ?_⟩
  cases recording
  cases hname
  cases hevents
  cases hduration
  rfl

/-- A `save` that has its file in place only takes its temporary one away. -/
theorem Saving.step_over {outcome : Checked String} (h : (saving.step recording files turn).1 = .inr outcome) :
    (∃ e, outcome = .error e ∧ saving.linked = false) ∨ ∃ path, outcome = .ok path ∧ saving.linked = true := by
  cases saving with
  | mkdir =>
    cases turn with
    | fails error => exact .inl (by cases h; cases error <;> exact ⟨_, rfl, rfl⟩)
    | works random written => cases h
  | mkstemp =>
    cases turn with
    | fails error => exact .inl (by cases h; cases error <;> exact ⟨_, rfl, rfl⟩)
    | works random written =>
      simp only [Saving.step] at h
      split at h <;> cases h
  | write t rest => cases turn <;> cases h
  | fsync t => cases turn <;> cases h
  | link t =>
    simp only [Saving.step] at h
    split at h <;> cases h
  | unlink t error =>
    cases error with
    | none =>
      cases h
      exact .inr ⟨_, rfl, rfl⟩
    | some error => exact .inl (by cases h; cases error <;> exact ⟨_, rfl, rfl⟩)

theorem Saving.step_goes (h : (saving.step recording files turn).1 = .inl saving') : saving.linked = false := by
  cases saving with
  | unlink t error => cases error <;> cases h
  | mkdir | mkstemp | write _ _ | fsync _ | link _ => rfl

/-- The effects, in their order, lead from one library to the other. -/
def Led (effects : List Effect) (contents later : Library) : Prop := effects.foldlM Effect.apply contents = .ok later

theorem Led.nil : Led [] contents contents := rfl

theorem Led.single {effect : Effect} (h : effect.apply contents = .ok later) :
    Led [effect] contents later := by
  rw [Led, List.foldlM_cons, h]
  rfl

theorem Led.append {first rest : List Effect} {last : Library} (h : Led first contents later)
    (hrest : Led rest later last) : Led (first ++ rest) contents last := by
  rw [Led] at h ⊢
  rw [List.foldlM_append, h]
  exact hrest

section Saves

variable {effect : Effect}

/-- An operation of a `save` that does not end it has the effect of its `link`, if it is that. -/
theorem Saving.goes_led (h : saving.Good recording files) (hvalid : recording.Valid)
    (happly : effect.apply (library repr decodeError files) =
      Directory.create recording.name recording (library repr decodeError files))
    (hstep : saving.step recording files turn = (.inl saving', after)) :
    Led (if saving'.linked then some effect else none).toList (library repr decodeError files)
      (library repr decodeError after) := by
  obtain ⟨hlinks, hidle⟩ := Saving.step_library repr decodeError turn h hvalid
  rw [hstep] at hlinks hidle
  by_cases hlinked : saving'.linked = true
  · rw [if_pos hlinked]
    exact Led.single (happly.trans (hlinks saving' rfl hlinked))
  · rw [if_neg hlinked, hidle (by rintro next ⟨⟩; simpa using hlinked)]
    exact Led.nil

theorem Saving.goes_effects (effect : Effect) (hstep : saving.step recording files turn = (.inl saving', after)) :
    (if saving.linked then [effect] else []) ++ (if saving'.linked then some effect else none).toList =
      if saving'.linked then [effect] else [] := by
  rw [Saving.step_goes (by rw [hstep])]
  by_cases hlinked : saving'.linked = true
  · simp [hlinked]
  · simp [hlinked]

/-- The last operation of a `save` is nothing to the library. -/
theorem Saving.over_library {outcome : Checked String} (h : saving.Good recording files) (hvalid : recording.Valid)
    (hstep : saving.step recording files turn = (.inr outcome, after)) :
    library repr decodeError after = library repr decodeError files := by
  have hidle := (Saving.step_library repr decodeError turn h hvalid).2
  rw [hstep] at hidle
  exact hidle (by rintro next ⟨⟩)

theorem Saving.over_effects {outcome : Checked String} (effect : Effect)
    (hstep : saving.step recording files turn = (.inr outcome, after)) :
    (∃ e, outcome = .error e ∧ (if saving.linked then [effect] else []) = []) ∨
      ∃ path, outcome = .ok path ∧ (if saving.linked then [effect] else []) = [effect] := by
  rcases Saving.step_over (show (saving.step recording files turn).1 = .inr outcome by rw [hstep]) with
    ⟨e, he, hlinked⟩ | ⟨path, hpath, hlinked⟩
  · exact .inl ⟨e, he, by rw [hlinked]; rfl⟩
  · exact .inr ⟨path, hpath, by rw [hlinked]; rfl⟩

end Saves

/-- An inserted recording takes no other's place. -/
theorem Led.keeps {effect : Option Effect} (recording : Recording) (h : Led effect.toList contents later)
    (happly : ∀ e, effect = some e → e.apply contents = Directory.create recording.name recording contents)
    {name : String} {stored : Recording} (hstored : contents name = some stored) : later name = some stored := by
  cases effect with
  | none =>
    cases h
    exact hstored
  | some effect =>
    have hcreated : Directory.create recording.name recording contents = .ok later := by
      have hled : (effect.apply contents >>= pure) = .ok later := h
      rwa [bind_pure, happly effect rfl] at hled
    obtain ⟨hfree, rfl⟩ := Directory.create_ok hcreated
    have hne : name ≠ recording.name := by
      rintro rfl
      rw [hfree] at hstored
      cases hstored
    exact (Function.update_of_ne hne _ _).trans hstored

/-- All that a `save` does to the library is to insert its recording. -/
theorem Place.effect?_save {effect : Effect} (h : (Place.save recording saving).effect? next = some effect) :
    effect = .insert recording := by
  cases next with
  | save recording' saving' =>
    rw [Place.effect?] at h
    split at h <;> cases h
    rfl
  | returned outcome => cases outcome <;> cases h
  | rename _ _ | renameSave _ _ _ _ | renameDelete _ _ | delete _ | crashed => cases h

theorem delete_found {name : String} {value : Unit} (h : delete name files turn = (.ok value, after)) :
    ∃ text, files (pathFor name) = some text := by
  unfold delete at h
  split at h
  · cases h
  · rename_i name' hname
    obtain ⟨-, heq⟩ := validateName_ok hname
    cases heq
    cases hfile : files (pathFor name) with
    | some text => exact ⟨text, rfl⟩
    | none =>
      cases turn with
      | fails error => cases error <;> cases h
      | works random written =>
        rw [Turn.attempt, Directory.unlink, hfile] at h
        cases h

theorem delete_led {name : String} {value : Unit} (hpublished : Published repr decodeError files)
    (h : delete name files turn = (.ok value, after)) :
    Led [.erase name] (library repr decodeError files) (library repr decodeError after) := by
  obtain ⟨text, hfile⟩ := delete_found h
  rw [delete_ok h]
  exact Led.single (library_removed hpublished hfile)

/-- **One operation of a call** has the effect it is credited with, and the call is where its effects say. -/
theorem Place.progress_step (hgood : place.Good files) (hpublished : Published repr decodeError files)
    (hprogress : Progress (library repr decodeError files) op place effects)
    (hstep : place.step repr decodeError files turn = some (next, after)) :
    Led (place.effect? next).toList (library repr decodeError files) (library repr decodeError after) ∧
      Progress (library repr decodeError after) op next (effects ++ (place.effect? next).toList) := by
  cases hprogress with
  | saving recording saving =>
    obtain ⟨hvalid, hsaving⟩ := hgood recording saving rfl
    simp only [Place.step] at hstep
    split at hstep <;> rename_i hmove <;> cases hstep
    · refine ⟨Saving.goes_led hsaving hvalid rfl hmove, ?_⟩
      rw [Place.effect?, Saving.goes_effects _ hmove]
      exact .saving recording _
    · rw [Saving.over_library hsaving hvalid hmove]
      rcases Saving.over_effects (.insert recording) hmove with ⟨e, rfl, heffects⟩ | ⟨path, rfl, heffects⟩
      · rw [heffects]
        exact ⟨Led.nil, .failed _ e⟩
      · rw [heffects]
        exact ⟨Led.nil, .returned (.save recording) _⟩
  | reading old new =>
    simp only [Place.step] at hstep
    split at hstep <;> cases hstep
    · exact ⟨Led.nil, .failed _ _⟩
    · rename_i recording hrenamed
      obtain ⟨stored, hstored, rfl⟩ := renamed_stored hrenamed
      exact ⟨Led.nil, .copying old new stored .mkdir hstored⟩
  | copying old new recording saving stored =>
    obtain ⟨hvalid, hsaving⟩ := hgood _ saving rfl
    have happly : (Effect.copy old new).apply (library repr decodeError files) =
        Directory.create ({ recording with name := new } : Recording).name { recording with name := new }
          (library repr decodeError files) := by
      rw [Effect.apply, stored]
    simp only [Place.step] at hstep
    split at hstep <;> rename_i hmove <;> cases hstep
    · have hled := Saving.goes_led hsaving hvalid happly hmove
      refine ⟨hled, ?_⟩
      rw [Place.effect?, Saving.goes_effects _ hmove]
      refine .copying old new recording _ (hled.keeps { recording with name := new } (fun effect heffect => ?_) stored)
      split at heffect <;> cases heffect
      exact happly
    · rw [Saving.over_library hsaving hvalid hmove]
      rcases Saving.over_effects (.copy old new) hmove with ⟨e, he, -⟩ | ⟨path, -, heffects⟩
      · cases he
      · rw [heffects]
        exact ⟨Led.nil, .erasing old new⟩
    · rw [Saving.over_library hsaving hvalid hmove]
      rcases Saving.over_effects (.copy old new) hmove with ⟨e, -, heffects⟩ | ⟨path, hpath, -⟩
      · rw [heffects]
        exact ⟨Led.nil, .failed _ _⟩
      · cases hpath
  | erasing old new =>
    simp only [Place.step] at hstep
    split at hstep <;> rename_i hdelete <;> cases hstep
    · exact ⟨delete_led hpublished hdelete, .returned (.rename old new) _⟩
    · rw [delete_error hdelete]
      exact ⟨Led.nil, .halved old new _⟩
  | deleting name =>
    simp only [Place.step] at hstep
    split at hstep <;> rename_i hdelete <;> cases hstep
    · exact ⟨delete_led hpublished hdelete, .returned (.delete name) _⟩
    · rw [delete_error hdelete]
      exact ⟨Led.nil, .failed _ _⟩
  | returned op outcome => cases hstep
  | failed op e => cases hstep
  | halved old new e => cases hstep
  | crashed op effects begun => cases hstep

theorem Place.step_over (hstep : place.step repr decodeError files turn = some (next, after)) : place.over = false := by
  cases place with
  | returned _ | crashed => cases hstep
  | save _ _ | rename _ _ | renameSave _ _ _ _ | renameDelete _ _ | delete _ => rfl

/-- What other calls do takes nothing from a call's progress that it relies on. -/
theorem Progress.mono (h : Progress contents op place effects)
    (hkept : ∀ old new recording saving, place = .renameSave old new recording saving →
      ∀ name stored, contents name = some stored → later name = some stored) : Progress later op place effects := by
  cases h with
  | saving recording saving => exact .saving recording saving
  | reading old new => exact .reading old new
  | copying old new recording saving stored =>
    exact .copying old new recording saving (hkept _ _ _ _ rfl old recording stored)
  | erasing old new => exact .erasing old new
  | deleting name => exact .deleting name
  | returned op outcome => exact .returned op outcome
  | failed op e => exact .failed op e
  | halved old new e => exact .halved old new e
  | crashed op effects begun => exact .crashed op effects begun

theorem Progress.of_returned {outcome : Option String} (h : Progress contents op (.returned (.ok outcome)) effects) :
    effects = op.effects := by
  cases h
  rfl

theorem Progress.of_raised {e : Exn} (h : Progress contents op (.returned (.error e)) effects) :
    effects = [] ∨ ∃ old new, op = .rename old new ∧ effects = [.copy old new] := by
  cases h with
  | failed op e => exact .inl rfl
  | halved old new e => exact .inr ⟨old, new, rfl, rfl⟩

/-! ## A run -/

/-- The effects of a call, in their order. -/
def ofCall (call : Nat) (log : List (Nat × Effect)) : List Effect :=
  (log.filter (fun entry => entry.1 = call)).map Prod.snd

theorem ofCall_append (call : Nat) (log rest : List (Nat × Effect)) :
    ofCall call (log ++ rest) = ofCall call log ++ ofCall call rest := by
  simp [ofCall]

theorem ofCall_self (call : Nat) (effect : Option Effect) :
    ofCall call (effect.map (Prod.mk call)).toList = effect.toList := by
  cases effect <;> simp [ofCall]

theorem ofCall_other {call other : Nat} (h : other ≠ call) (effect : Option Effect) :
    ofCall call (effect.map (Prod.mk other)).toList = [] := by
  cases effect <;> simp [ofCall, h]

/-- The store as the library it is for: the effects led to what is in it, and every call is where its own effects
say. -/
structure Host.Follows (repr : Json → String) (decodeError : String → String) (contents : Library) (asked : List Op)
    (log : List (Nat × Effect)) (c : Host) : Prop where
  led : Led (log.map Prod.snd) contents (library repr decodeError c.files)
  counted : asked.length = c.calls.length
  progress : ∀ (call : Nat) (op : Op) (place : Place), asked[call]? = some op → c.calls[call]? = some place →
    Progress (library repr decodeError c.files) op place (ofCall call log)
  begun : ∀ entry ∈ log, entry.1 < c.calls.length

variable {c d : Host} {asked : List Op} {log : List (Nat × Effect)}

theorem Host.Follows.begins (h : c.Follows repr decodeError contents asked log) {op : Op} {place : Place}
    (own : Option Nat) (hfirst : Progress (library repr decodeError c.files) op place []) :
    Host.Follows repr decodeError contents (asked ++ [op]) log { c with calls := c.calls ++ [place], own := own } := by
  refine ⟨h.led, by simp [h.counted], fun call op' place' hop hplace => ?_, fun entry he => ?_⟩
  · by_cases hcall : call < c.calls.length
    · rw [List.getElem?_append_left (h.counted ▸ hcall)] at hop
      rw [List.getElem?_append_left hcall] at hplace
      exact h.progress call op' place' hop hplace
    · have hnone : ofCall call log = [] := by
        rw [ofCall, List.map_eq_nil_iff, List.filter_eq_nil_iff]
        intro entry he
        have := h.begun entry he
        simp only [decide_eq_true_eq]
        omega
      rw [List.getElem?_append_right (by omega), List.getElem?_singleton] at hplace
      rw [List.getElem?_append_right (by have := h.counted; omega), List.getElem?_singleton] at hop
      rw [hnone]
      split at hplace <;> cases hplace
      split at hop <;> cases hop
      exact hfirst
  · have := h.begun entry he
    simp only [List.length_append, List.length_singleton]
    omega

/-- One call goes on, and has an effect or none. -/
theorem Host.Follows.set (h : c.Follows repr decodeError contents asked log) {call : Nat} (effect : Option Effect)
    (comes : c.calls[call]? = some place)
    (hled : Led effect.toList (library repr decodeError c.files) (library repr decodeError after))
    (hnext : ∀ op, Progress (library repr decodeError c.files) op place (ofCall call log) →
      Progress (library repr decodeError after) op next (ofCall call log ++ effect.toList))
    (hothers : ∀ (other : Nat) old new recording saving, other ≠ call →
      c.calls[other]? = some (.renameSave old new recording saving) → ∀ name stored,
        library repr decodeError c.files name = some stored → library repr decodeError after name = some stored) :
    Host.Follows repr decodeError contents asked (log ++ (effect.map (Prod.mk call)).toList)
      { c with files := after, calls := c.calls.set call next } := by
  have hlt : call < c.calls.length := (List.getElem?_eq_some_iff.1 comes).1
  refine ⟨?_, by simp [h.counted], fun other op place' hop hplace => ?_, fun entry he => ?_⟩
  · rw [List.map_append, show (effect.map (Prod.mk call)).toList.map Prod.snd = effect.toList by cases effect <;> rfl]
    exact h.led.append hled
  · rw [ofCall_append]
    by_cases hother : other = call
    · subst hother
      rw [List.getElem?_set_self hlt] at hplace
      cases hplace
      rw [ofCall_self]
      exact hnext op (h.progress other op place hop comes)
    · rw [List.getElem?_set_ne (Ne.symm hother)] at hplace
      rw [ofCall_other (Ne.symm hother), List.append_nil]
      refine (h.progress other op place' hop hplace).mono (fun old new recording saving hsame => ?_)
      subst hsame
      exact hothers other old new recording saving hother hplace
  · rw [List.length_set]
    rcases List.mem_append.1 he with hold | hnew
    · exact h.begun entry hold
    · cases effect with
      | none => cases hnew
      | some effect =>
        rw [List.mem_singleton.1 hnew]
        exact hlt

/-- A call that was cut off has had its effects. -/
theorem Progress.crash (h : Progress contents op place effects) : Progress contents op .crashed effects :=
  .crashed op effects h.begun

/-- **One move** keeps the store the library it is for. -/
theorem Host.Follows.step (h : c.Follows repr decodeError contents asked log) (hc : c.Sound repr decodeError)
    {move : Move} (hstep : c.step repr decodeError move = some d) :
    d.Follows repr decodeError contents (asked ++ move.op?.toList) (log ++ (c.effect? d move).toList) := by
  cases move with
  | save recording =>
    simp only [Host.step] at hstep
    split at hstep <;> cases hstep
    simpa [Host.effect?, Move.op?, Host.begin_] using h.begins _ (.saving recording.1 .mkdir)
  | rename old new =>
    simp only [Host.step] at hstep
    split at hstep <;> cases hstep
    simpa [Host.effect?, Move.op?, Host.begin_] using h.begins _ (.reading old new)
  | delete name =>
    simp only [Host.step] at hstep
    split at hstep <;> cases hstep
    simpa [Host.effect?, Move.op?, Host.begin_] using h.begins _ (.deleting name)
  | otherSave recording =>
    cases hstep
    simpa [Host.effect?, Move.op?, Host.begin_] using h.begins _ (.saving recording.1 .mkdir)
  | turn call turn =>
    obtain ⟨place, comes, hstep⟩ := Option.bind_eq_some_iff.1 hstep
    obtain ⟨⟨next, after⟩, goes, rfl⟩ := Option.map_eq_some_iff.1 hstep
    have hlt : call < c.calls.length := (List.getElem?_eq_some_iff.1 comes).1
    have hgood := hc.good call place comes
    rw [Move.op?, Option.toList_none, List.append_nil]
    simp only [Host.effect?, comes, List.getElem?_set_self hlt, Option.bind_some]
    have hasked : call < asked.length := h.counted.symm ▸ hlt
    obtain ⟨hled, -⟩ := Place.progress_step hgood hc.published
      (h.progress call asked[call] place (List.getElem?_eq_getElem hasked) comes) goes
    refine h.set _ comes hled (fun op hprogress => (Place.progress_step hgood hc.published hprogress goes).2) ?_
    intro other old new recording saving hother hplace name stored hstored
    -- The process is in its `rename`, so the call that goes on is another writer's `save`.
    have hown : c.own = some other := by
      by_contra hown
      rcases hc.sequence other _ hplace hown with hover | ⟨_, _, hsave⟩
      · cases hover
      · cases hsave
    have hcall : c.own ≠ some call := by
      rw [hown]
      exact fun hsame => hother (Option.some.inj hsame)
    rcases hc.sequence call place comes hcall with hover | ⟨saved, saving', rfl⟩
    · rw [Place.step_over goes] at hover
      cases hover
    · exact hled.keeps saved (fun effect heffect => by rw [Place.effect?_save heffect]; rfl) hstored
  | crash call =>
    obtain ⟨place, comes, hstep⟩ := Option.bind_eq_some_iff.1 hstep
    split at hstep <;> cases hstep
    rw [Move.op?, Option.toList_none, List.append_nil]
    refine h.set none comes Led.nil (fun op hprogress => ?_) (fun _ _ _ _ _ _ _ _ _ hstored => hstored)
    exact (List.append_nil _).symm ▸ hprogress.crash

/-- A call that is over is over for good, and has no effect any more. -/
theorem Host.over_step {move : Move} (hstep : c.step repr decodeError move = some d) {call : Nat}
    (hover : c.calls[call]? = some place) (h : place.over = true) :
    d.calls[call]? = some place ∧ ∀ entry ∈ (c.effect? d move).toList, entry.1 ≠ call := by
  have hlt : call < c.calls.length := (List.getElem?_eq_some_iff.1 hover).1
  have hbegins : ∀ new : Place, (c.calls ++ [new])[call]? = some place := fun new => by
    rw [List.getElem?_append_left hlt, hover]
  cases move with
  | save recording | rename old new | delete name =>
    simp only [Host.step] at hstep
    split at hstep <;> cases hstep
    exact ⟨hbegins _, by simp [Host.effect?]⟩
  | otherSave recording =>
    cases hstep
    exact ⟨hbegins _, by simp [Host.effect?]⟩
  | turn other turn =>
    obtain ⟨place', comes, hstep⟩ := Option.bind_eq_some_iff.1 hstep
    obtain ⟨⟨next, after⟩, goes, rfl⟩ := Option.map_eq_some_iff.1 hstep
    have hother : other ≠ call := by
      rintro rfl
      obtain rfl : place' = place := Option.some.inj (comes.symm.trans hover)
      rw [Place.step_over goes] at h
      cases h
    refine ⟨(List.getElem?_set_ne hother).trans hover, fun entry he => ?_⟩
    obtain ⟨effect, -, rfl⟩ := Option.map_eq_some_iff.1 (Option.mem_toList.1 he)
    exact hother
  | crash other =>
    obtain ⟨place', comes, hstep⟩ := Option.bind_eq_some_iff.1 hstep
    split at hstep <;> cases hstep
    have hother : other ≠ call := by
      rintro rfl
      obtain rfl : place' = place := Option.some.inj (comes.symm.trans hover)
      contradiction
    exact ⟨(List.getElem?_set_ne hother).trans hover, by simp [Host.effect?]⟩

section Linearization

variable (repr : Json → String) (decodeError : String → String)

theorem Host.follows_run (contents : Library) :
    ∀ (moves : List Move) {c : Host} {asked : List Op} {log : List (Nat × Effect)},
      c.Sound repr decodeError → c.Follows repr decodeError contents asked log →
      (c.run repr decodeError moves).Follows repr decodeError contents (asked ++ c.asked repr decodeError moves)
        (log ++ c.log repr decodeError moves)
  | [], _, _, _, _, h => by simpa [Host.run, Host.asked, Host.log] using h
  | move :: moves, c, asked, log, hc, h => by
    rw [Host.asked, Host.log, Host.run, List.foldl_cons]
    cases hmove : c.step repr decodeError move with
    | none => exact Host.follows_run contents moves hc h
    | some d =>
      have hrest := Host.follows_run contents moves ((Host.went_step hmove).sound hc) (h.step hc hmove)
      simpa only [List.append_assoc, Option.getD_some, Host.run] using hrest

theorem Host.follows_init (files : Files) :
    (Host.init files).Follows repr decodeError (library repr decodeError files) [] [] :=
  ⟨Led.nil, rfl, fun _ _ _ hop => by simp at hop, fun _ he => by simp at he⟩

theorem Host.log_append : ∀ (moves more : List Move) (c : Host), c.log repr decodeError (moves ++ more) =
    c.log repr decodeError moves ++ (c.run repr decodeError moves).log repr decodeError more
  | [], _, _ => rfl
  | move :: moves, more, c => by
    rw [List.cons_append, Host.log, Host.log, Host.run, List.foldl_cons]
    cases c.step repr decodeError move with
    | none => exact Host.log_append moves more c
    | some d =>
      rw [Option.getD_some, List.append_assoc, ← Host.run, ← Host.log_append moves more d]

theorem Host.over_log : ∀ (moves : List Move) {c : Host} {call : Nat} {place : Place}, c.calls[call]? = some place →
    place.over = true → ∀ entry ∈ c.log repr decodeError moves, entry.1 ≠ call
  | [], _, _, _, _, _, _, he => by simp [Host.log] at he
  | move :: moves, c, call, place, hover, h, entry, he => by
    rw [Host.log] at he
    cases hmove : c.step repr decodeError move with
    | none =>
      rw [hmove] at he
      exact Host.over_log moves hover h entry he
    | some d =>
      rw [hmove] at he
      obtain ⟨hstays, hnone⟩ := Host.over_step hmove hover h
      rcases List.mem_append.1 he with hnow | hlater
      · exact hnone entry hnow
      · exact Host.over_log moves hstays h entry hlater

/-- **The store is a library, however its calls interleave.**  From a directory whose recordings are well formed, in
every run: the effects of the calls, each at its own moment, lead from the library that was there to the one that can be
loaded.  A call has its effects in their order, all of them if it has returned; if it raised it has had none, but for a
`rename` that has made its copy.  And it has them between its call and its return: none is of a call that has not begun,
and when a call is over it has no more of them, whatever comes after. -/
theorem store_linearizes (files : Files) (hfiles : Published repr decodeError files) (moves more : List Move) :
    let c := (Host.init files).run repr decodeError moves
    let asked := (Host.init files).asked repr decodeError moves
    let log := (Host.init files).log repr decodeError moves
    Led (log.map Prod.snd) (library repr decodeError files) (library repr decodeError c.files) ∧
      asked.length = c.calls.length ∧
      (∀ (call : Nat) op place, asked[call]? = some op → c.calls[call]? = some place →
        ofCall call log <+: op.effects ∧
          (∀ outcome, place = .returned (.ok outcome) → ofCall call log = op.effects) ∧
          (∀ e, place = .returned (.error e) → ofCall call log = [] ∨
            ∃ old new, op = .rename old new ∧ ofCall call log = [.copy old new])) ∧
      (∀ entry ∈ log, entry.1 < c.calls.length) ∧
      (Host.init files).log repr decodeError (moves ++ more) = log ++ c.log repr decodeError more ∧
      ∀ entry ∈ c.log repr decodeError more, ∀ place, c.calls[entry.1]? = some place → place.over = false := by
  intro c asked log
  have hfollows : c.Follows repr decodeError (library repr decodeError files) asked log :=
    Host.follows_run repr decodeError _ moves (Host.sound_init hfiles) (Host.follows_init repr decodeError files)
  refine ⟨hfollows.led, hfollows.counted, fun call op place hop hplace => ?_, hfollows.begun,
    Host.log_append repr decodeError moves more _, fun entry he place hplace => ?_⟩
  · have hprogress := hfollows.progress call op place hop hplace
    refine ⟨hprogress.begun, ?_, ?_⟩
    · rintro outcome rfl
      exact hprogress.of_returned
    · rintro e rfl
      exact hprogress.of_raised
  · by_contra hover
    rw [Bool.not_eq_false] at hover
    exact Host.over_log repr decodeError more hplace hover entry he rfl

/-- A `save`, and a `rename` of what it saved that a crash cuts off when it has linked the new file. -/
def halfRenamed : List Move := saveMoves ++ .rename pressRecording.1.name "b" :: cutOffMoves

theorem store_linearizes_half :
    Led [.insert pressRecording.1, .copy pressRecording.1.name "b"]
      (library (fun _ => "") (fun _ => "") (fun _ => none))
      (library (fun _ => "") (fun _ => "")
        ((Host.init (fun _ => none)).run (fun _ => "") (fun _ => "") halfRenamed).files) := by
  have hlog : (Host.init (fun _ => none)).log (fun _ => "") (fun _ => "") halfRenamed =
      [(0, .insert pressRecording.1), (1, .copy pressRecording.1.name "b")] := by decide +kernel
  have hled := (store_linearizes (fun _ => "") (fun _ => "") (fun _ => none) (fun _ _ h => by cases h) halfRenamed []).1
  rw [hlog] at hled
  exact hled

end Linearization

end Levels

end RecordingStore
end PiZero
end PicoRecorder
