import Mathlib.Logic.Function.Basic
/-!
# Directory — files by their names

Each operation is atomic: it is refused and changes nothing, or it has its whole effect.  A file is linked when it is
complete, so two names of one file are two entries with one content.
-/
namespace PicoRecorder
namespace Lib

/-- What the file of each name holds. -/
abbrev Directory (ν κ : Type) := ν → Option κ

namespace Directory

variable {ν κ : Type} [DecidableEq ν]

inductive Refusal where
  | taken | missing
  deriving DecidableEq, Repr

def create (name : ν) (content : κ) (files : Directory ν κ) : Except Refusal (Directory ν κ) :=
  match files name with
  | none => .ok (Function.update files name (some content))
  | some _ => .error .taken

/-- A write into the open file of the name, if it still has one. -/
def modify (name : ν) (f : κ → κ) (files : Directory ν κ) : Directory ν κ :=
  Function.update files name ((files name).map f)

def link (source target : ν) (files : Directory ν κ) : Except Refusal (Directory ν κ) :=
  match files source, files target with
  | none, _ => .error .missing
  | some _, some _ => .error .taken
  | some content, none => .ok (Function.update files target (some content))

def remove (name : ν) (files : Directory ν κ) : Directory ν κ := Function.update files name none

def unlink (name : ν) (files : Directory ν κ) : Except Refusal (Directory ν κ) :=
  match files name with
  | none => .error .missing
  | some _ => .ok (files.remove name)

variable {name other : ν} {content : κ} {files after : Directory ν κ}

theorem create_ok (h : files.create name content = .ok after) :
    files name = none ∧ after = Function.update files name (some content) := by
  unfold create at h
  split at h
  · cases h
    exact ⟨‹_›, rfl⟩
  · cases h

theorem link_ok {source target : ν} (h : files.link source target = .ok after) :
    ∃ content, files source = some content ∧ files target = none ∧
      after = Function.update files target (some content) := by
  unfold link at h
  split at h
  · cases h
  · cases h
  · cases h
    exact ⟨_, ‹_›, ‹_›, rfl⟩

theorem unlink_ok (h : files.unlink name = .ok after) : after = files.remove name := by
  unfold unlink at h
  split at h <;> cases h
  rfl

@[simp] theorem remove_self : files.remove name name = none := Function.update_self ..

theorem remove_of_ne (h : other ≠ name) : files.remove name other = files other := Function.update_of_ne h ..

@[simp] theorem modify_self (f : κ → κ) : files.modify name f name = (files name).map f := Function.update_self ..

theorem modify_of_ne (h : other ≠ name) (f : κ → κ) : files.modify name f other = files other :=
  Function.update_of_ne h ..

end Directory
end Lib
end PicoRecorder
