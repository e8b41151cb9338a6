import PicoRecorder.Lib.Run
/-!
# Baton — one resource, taken, handed on and dropped by threads

A ledger is the history of one claim that at most one thread holds: it is taken while nobody has it, handed by its
holder to another thread, and dropped by its holder.  `Tracks` connects the ledger with the places the threads are at: a
thread is at an owner's place exactly when the ledger says that it holds the claim.
-/
namespace PicoRecorder
namespace Lib

inductive Baton (ι : Type) where
  | take (i : ι)
  | hand (i j : ι)
  | drop (i : ι)
  deriving DecidableEq, Repr

namespace Baton

variable {ι : Type} [DecidableEq ι]

def isHand : Baton ι → Bool
  | .hand _ _ => true
  | _ => false

/-- The holder after an entry: only a free claim is taken, and only its holder hands it on or drops it. -/
def next : Option ι → Baton ι → Option (Option ι)
  | none, .take i => some (some i)
  | some holder, .hand i j => if holder = i then some (some j) else none
  | some holder, .drop i => if holder = i then some none else none
  | _, _ => none

def monitor : Monitor (Option ι) (Baton ι) := ⟨none, next⟩

theorem after_take {ledger : List (Baton ι)} (h : monitor.after ledger = some none) (i : ι) :
    monitor.after (.take i :: ledger) = some (some i) := by
  rw [monitor.after_cons_of h]
  rfl

theorem after_hand {ledger : List (Baton ι)} {i : ι} (h : monitor.after ledger = some (some i)) (j : ι) :
    monitor.after (.hand i j :: ledger) = some (some j) := by
  rw [monitor.after_cons_of h]
  exact if_pos rfl

theorem after_drop {ledger : List (Baton ι)} {i : ι} (h : monitor.after ledger = some (some i)) :
    monitor.after (.drop i :: ledger) = some none := by
  rw [monitor.after_cons_of h]
  exact if_pos rfl

/-- **A claim that was taken is dropped once.**  After the taking the ledger has nothing but hands until one drop, or
until now, and then the claim is still held. -/
theorem dropped_once {earlier : List (Baton ι)} {i : ι} :
    ∀ (later : List (Baton ι)) {holder : Option ι}, monitor.after (later ++ .take i :: earlier) = some holder →
      (holder.isSome ∧ ∀ b ∈ later, b.isHand) ∨
        ∃ newer j hands, later = newer ++ .drop j :: hands ∧ ∀ b ∈ hands, b.isHand
  | [], holder, h => by
    obtain ⟨held, hheld, hnext⟩ := Option.bind_eq_some_iff.1 h
    cases held with
    | none => exact .inl ⟨by rw [← Option.some.inj hnext]; rfl, by simp⟩
    | some _ => cases hnext
  | b :: later, holder, h => by
    obtain ⟨held, hheld, hnext⟩ := Option.bind_eq_some_iff.1 h
    rcases dropped_once later hheld with ⟨hsome, hhands⟩ | ⟨newer, j, hands, rfl, hhands⟩
    · obtain ⟨k, rfl⟩ := Option.isSome_iff_exists.1 hsome
      cases b with
      | take _ => cases hnext
      | hand i j =>
        refine .inl ⟨?_, by simpa [isHand] using hhands⟩
        have hif : (if k = i then some (some j) else none) = some holder := hnext
        split at hif
        · rw [← Option.some.inj hif]
          rfl
        · cases hif
      | drop j => exact .inr ⟨[], j, later, rfl, hhands⟩
    · exact .inr ⟨b :: newer, j, hands, rfl, hhands⟩

/-- The ledger is in order, the claim is held or free as `held` says, and its holder is the one thread at an owner's
place. -/
def Tracks (owns : ι → Prop) (held : Bool) (ledger : List (Baton ι)) : Prop :=
  ∃ holder, monitor.after ledger = some holder ∧ holder.isSome = held ∧ ∀ i, owns i ↔ holder = some i

namespace Tracks

variable {owns owns' : ι → Prop} {held : Bool} {ledger : List (Baton ι)}

theorem congr (h : Tracks owns held ledger) (heq : ∀ i, owns' i ↔ owns i) : Tracks owns' held ledger := by
  obtain ⟨holder, hafter, hheld, howns⟩ := h
  exact ⟨holder, hafter, hheld, fun i => (heq i).trans (howns i)⟩

theorem unique (h : Tracks owns held ledger) {i j : ι} (hi : owns i) (hj : owns j) : i = j := by
  obtain ⟨holder, _, _, howns⟩ := h
  exact Option.some.inj (((howns i).1 hi).symm.trans ((howns j).1 hj))

theorem held_of (h : Tracks owns held ledger) {i : ι} (hi : owns i) : held = true := by
  obtain ⟨holder, _, hheld, howns⟩ := h
  rw [← hheld, (howns i).1 hi]
  rfl

theorem take (h : Tracks owns false ledger) (i : ι) (heq : ∀ j, owns' j ↔ j = i ∨ owns j) :
    Tracks owns' true (.take i :: ledger) := by
  obtain ⟨holder, hafter, hheld, howns⟩ := h
  obtain rfl : holder = none := Option.isSome_eq_false_iff.1 hheld |> Option.isNone_iff_eq_none.1
  refine ⟨some i, after_take hafter i, rfl, fun j => ?_⟩
  rw [heq, howns]
  simp [eq_comm]

theorem hand (h : Tracks owns held ledger) {i : ι} (hi : owns i) (j : ι) (heq : ∀ k, owns' k ↔ k = j) :
    Tracks owns' held (.hand i j :: ledger) := by
  obtain ⟨holder, hafter, hheld, howns⟩ := h
  obtain rfl := (howns i).1 hi
  refine ⟨some j, after_hand hafter j, hheld, fun k => ?_⟩
  rw [heq, Option.some.injEq, eq_comm]

theorem drop (h : Tracks owns held ledger) {i : ι} (hi : owns i) (hnone : ∀ j, ¬owns' j) :
    Tracks owns' false (.drop i :: ledger) := by
  obtain ⟨holder, hafter, hheld, howns⟩ := h
  obtain rfl := (howns i).1 hi
  exact ⟨none, after_drop hafter, rfl, fun j => by simp [hnone j]⟩

end Tracks
end Baton
end Lib
end PicoRecorder
