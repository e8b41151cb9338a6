import Mathlib.Data.List.Infix
/-!
# Window — how much is open at once

Some entries of a history open something, others close one thing, and an entry that closes while nothing is open does
nothing.  A history `holds` the window if after none of its prefixes more is open than the limit.
-/
namespace PicoRecorder
namespace Lib

structure Window (α : Type) where
  opens : α → Bool
  closes : α → Bool
  limit : Nat

namespace Window

variable {α : Type} (w : Window α)

/-- What is open after an entry. -/
def after (n : Nat) (a : α) : Nat := if w.opens a then n + 1 else if w.closes a then n - 1 else n

/-- From `n` open, no prefix has more than the limit open. -/
def Holds (n : Nat) (l : List α) : Prop := ∀ p, p <+: l → p.foldl w.after n ≤ w.limit

variable {w} {n : Nat} {a : α} {l l' : List α}

@[simp] theorem after_opens (h : w.opens a = true) : w.after n a = n + 1 := if_pos h

@[simp] theorem after_closes (h : w.opens a = false) (h' : w.closes a = true) : w.after n a = n - 1 := by
  simp [after, h, h']

@[simp] theorem after_neither (h : w.opens a = false) (h' : w.closes a = false) : w.after n a = n := by
  simp [after, h, h']

@[simp] theorem holds_nil : w.Holds n [] ↔ n ≤ w.limit := by
  constructor
  · intro h
    exact h [] (List.prefix_refl [])
  · intro h p hp
    simpa [List.prefix_nil.1 hp] using h

theorem holds_cons : w.Holds n (a :: l) ↔ n ≤ w.limit ∧ w.Holds (w.after n a) l := by
  constructor
  · intro h
    refine ⟨h [] (List.nil_prefix), fun p hp => ?_⟩
    exact h (a :: p) (List.cons_prefix_cons.2 ⟨rfl, hp⟩)
  · rintro ⟨hn, h⟩ p hp
    cases p with
    | nil => exact hn
    | cons b p =>
      obtain ⟨rfl, htail⟩ := List.cons_prefix_cons.1 hp
      exact h p htail

/-- **Histories compose** at what the first leaves open. -/
theorem holds_append : w.Holds n (l ++ l') ↔ w.Holds n l ∧ w.Holds (l.foldl w.after n) l' := by
  induction l generalizing n with
  | nil =>
    rw [List.nil_append, List.foldl_nil, holds_nil]
    constructor
    · intro h
      exact ⟨h [] (List.nil_prefix), h⟩
    · exact And.right
  | cons a l ih => rw [List.cons_append, holds_cons, holds_cons, List.foldl_cons, ih, and_assoc]

end Window

end Lib
end PicoRecorder
