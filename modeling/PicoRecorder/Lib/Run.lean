import Mathlib.Logic.Relation
/-!
# Run — invariants of runs, and monitors of histories

`Preserved R P` is the one-step obligation; `Preserved.run` carries it over any number of steps.  A history is a list
with the newest entry first, as a program that conses onto it writes it, and a `Monitor` is a deterministic automaton
that reads it in the order it was written and may get stuck: the histories it accepts are closed under going back in
time.
-/
namespace PicoRecorder
namespace Lib

open Relation (ReflTransGen)

section Invariant

variable {α : Type} {R : α → α → Prop} {P Q : α → Prop}

/-- Every step from a state with `P` leads to a state with `P`. -/
def Preserved (R : α → α → Prop) (P : α → Prop) : Prop := ∀ a b, R a b → P a → P b

theorem Preserved.run (hp : Preserved R P) {a b : α} (hr : ReflTransGen R a b) (ha : P a) : P b := by
  induction hr with
  | refl => exact ha
  | tail _ hbc ih => exact hp _ _ hbc ih

/-- An invariant that needs another one to be stepped. -/
theorem Preserved.and (hp : Preserved R P) (hq : ∀ a b, R a b → P a → Q a → Q b) :
    Preserved R (fun a => P a ∧ Q a) :=
  fun a b hab h => ⟨hp a b hab h.1, hq a b hab h.1 h.2⟩

theorem foldl_invariant {β : Type} {f : α → β → α} (hf : ∀ a x, P a → P (f a x)) :
    ∀ (xs : List β) (a : α), P a → P (xs.foldl f a)
  | [], _, ha => ha
  | x :: xs, a, ha => foldl_invariant hf xs (f a x) (hf a x ha)

end Invariant

section Moves

variable {α μ : Type} {step : α → μ → Option α} {allowed : α → μ → Bool} {P : α → Prop}

variable (step allowed) in
/-- Every move of a run meets a condition where it comes; one that is not possible there does nothing. -/
def throughout : α → List μ → Bool
  | _, [] => true
  | a, move :: moves => allowed a move && throughout ((step a move).getD a) moves

/-- An invariant that the moves keep that meet the condition. -/
theorem throughout_invariant (hstep : ∀ a b move, P a → allowed a move → step a move = some b → P b) :
    ∀ (moves : List μ) {a : α}, P a → throughout step allowed a moves →
      P (moves.foldl (fun a move => (step a move).getD a) a)
  | [], _, ha, _ => ha
  | move :: moves, a, ha, h => by
    rw [throughout, Bool.and_eq_true] at h
    rw [List.foldl_cons]
    refine throughout_invariant hstep moves ?_ h.2
    cases hmove : step a move with
    | none => exact ha
    | some b => exact hstep a b move ha h.1 hmove

end Moves

/-- A history splits in one way only at the single entry of a kind. -/
theorem split_unique {α : Type} {P : α → Prop} {x y : α} {later' earlier earlier' : List α} :
    ∀ {later : List α}, later ++ x :: earlier = later' ++ y :: earlier' → (∀ z ∈ later, ¬P z) →
      (∀ z ∈ earlier, ¬P z) → P y → later = later' ∧ x = y ∧ earlier = earlier'
  | [], h, _, he, hy => by
    cases later' with
    | nil => simpa using h
    | cons z later' =>
      obtain ⟨rfl, hrest⟩ := List.cons.inj h
      exact absurd hy (he y (hrest ▸ by simp))
  | z :: later, h, hl, he, hy => by
    cases later' with
    | nil =>
      obtain ⟨rfl, _⟩ := List.cons.inj h
      exact absurd hy (hl z (by simp))
    | cons w later' =>
      obtain ⟨rfl, hrest⟩ := List.cons.inj h
      have hih := split_unique hrest (fun v hv => hl v (List.mem_cons_of_mem _ hv)) he hy
      exact ⟨by rw [hih.1], hih.2⟩

/-- An automaton over histories; `none` where the next entry is not allowed. -/
structure Monitor (σ α : Type) where
  start : σ
  step : σ → α → Option σ

namespace Monitor

variable {σ α : Type} (A : Monitor σ α)

/-- The automaton's state after a history, newest entry first. -/
def after : List α → Option σ
  | [] => some A.start
  | x :: history => (after history).bind (A.step · x)

@[simp] theorem after_nil : A.after [] = some A.start := rfl

theorem after_cons (x : α) (history : List α) : A.after (x :: history) = (A.after history).bind (A.step · x) := rfl

theorem after_cons_of {x : α} {history : List α} {s : σ} (h : A.after history = some s) :
    A.after (x :: history) = A.step s x := by rw [after_cons, h]; rfl

/-- An entry the automaton does not react to. -/
theorem after_cons_idle {x : α} {history : List α} (hx : ∀ s, A.step s x = some s) :
    A.after (x :: history) = A.after history := by
  rw [after_cons]
  cases A.after history with
  | none => rfl
  | some s => exact hx s

/-- **What a history accepted now was accepted at every earlier moment.** -/
theorem after_earlier : ∀ (later : List α) {earlier : List α} {s : σ}, A.after (later ++ earlier) = some s →
    ∃ t, A.after earlier = some t
  | [], _, s, h => ⟨s, h⟩
  | x :: later, earlier, s, h => by
    rw [List.cons_append, after_cons, Option.bind_eq_some_iff] at h
    obtain ⟨t, ht, _⟩ := h
    exact after_earlier later ht

end Monitor
end Lib
end PicoRecorder
