import Mathlib.Data.List.Basic
/-!
# Scanner — cutting a buffered stream from the front

A `Scanner` looks at the front of its buffer and either waits for more or cuts some items off and says what they were.
Its laws are that a cut takes something, that it takes no more than there is, and that a decision once possible is not
changed by what arrives later.  From them alone the cuts of a stream do not depend on the pieces it arrived in, and a
position of the stream is either reached by a cut, covered by one, or not yet decided.
-/
namespace PicoRecorder
namespace Lib

structure Scanner (α ο : Type) where
  look : List α → Option (Nat × ο)
  pos : ∀ {l n o}, look l = some (n, o) → 0 < n
  le : ∀ {l n o}, look l = some (n, o) → n ≤ l.length
  stable : ∀ {l n o} (m : List α), look l = some (n, o) → look (l ++ m) = some (n, o)

namespace Scanner

variable {α ο : Type} (S : Scanner α ο)

/-- The pieces cut off until the scanner has to wait, each with what it was, and the buffer that is left. -/
def scan (l : List α) : List (List α × ο) × List α :=
  match _h : S.look l with
  | none => ([], l)
  | some (n, o) =>
    let r := scan (l.drop n)
    ((l.take n, o) :: r.1, r.2)
termination_by l.length
decreasing_by
  have hpos := S.pos _h
  have hle := S.le _h
  rw [List.length_drop]
  omega

/-- The items of some pieces, one after the other. -/
def items (pieces : List (List α × ο)) : List α := (pieces.map Prod.fst).flatten

@[simp] theorem items_nil : items ([] : List (List α × ο)) = [] := rfl

@[simp] theorem items_cons (p : List α × ο) (pieces : List (List α × ο)) : items (p :: pieces) = p.1 ++ items pieces :=
  rfl

@[simp] theorem items_append (pieces more : List (List α × ο)) :
    items (pieces ++ more) = items pieces ++ items more := by
  simp [items]

variable {S}

theorem scan_wait {l : List α} (h : S.look l = none) : S.scan l = ([], l) := by
  rw [scan]
  split
  · rfl
  · rename_i hl
    rw [h] at hl
    cases hl

theorem scan_cut {l : List α} {n : Nat} {o : ο} (h : S.look l = some (n, o)) :
    S.scan l = ((l.take n, o) :: (S.scan (l.drop n)).1, (S.scan (l.drop n)).2) := by
  conv => lhs; rw [scan]
  split
  · rename_i hl
    rw [h] at hl
    cases hl
  · rename_i hl
    rw [h] at hl
    cases hl
    rfl

/-- Induction along the cuts of a stream. -/
theorem scan_induct {P : List α → Prop} (wait : ∀ l, S.look l = none → P l)
    (cut : ∀ l n o, S.look l = some (n, o) → P (l.drop n) → P l) (l : List α) : P l := by
  induction hk : l.length using Nat.strongRecOn generalizing l with
  | ind k ih =>
    cases h : S.look l with
    | none => exact wait l h
    | some r =>
      obtain ⟨n, o⟩ := r
      have hpos := S.pos h
      have hle := S.le h
      exact cut l n o h (ih (l.drop n).length (by rw [List.length_drop]; omega) (l.drop n) rfl)

/-- The scanner stops only where it has to wait. -/
theorem look_rest (l : List α) : S.look (S.scan l).2 = none := by
  induction l using scan_induct (S := S) with
  | wait l h => rw [scan_wait h]; exact h
  | cut l n o h ih => rw [scan_cut h]; exact ih

/-- Nothing is lost and nothing is cut twice. -/
theorem items_scan (l : List α) : items (S.scan l).1 ++ (S.scan l).2 = l := by
  induction l using scan_induct (S := S) with
  | wait l h => rw [scan_wait h]; rfl
  | cut l n o h ih =>
    rw [scan_cut h]
    simp only [items_cons]
    rw [List.append_assoc, ih, List.take_append_drop]

/-- What a piece was, the scanner said when it stood at the front. -/
theorem look_of_mem (l : List α) : ∀ p ∈ (S.scan l).1, ∃ tail, S.look (p.1 ++ tail) = some (p.1.length, p.2) := by
  induction l using scan_induct (S := S) with
  | wait l h =>
    rw [scan_wait h]
    intro p hp
    cases hp
  | cut l n o h ih =>
    rw [scan_cut h]
    intro p hp
    rcases List.mem_cons.1 hp with rfl | hp
    · refine ⟨l.drop n, ?_⟩
      rw [List.take_append_drop, List.length_take, Nat.min_eq_left (S.le h)]
      exact h
    · exact ih p hp

/-- **A stream may be scanned in two halves.** -/
theorem scan_append (l m : List α) :
    S.scan (l ++ m) = ((S.scan l).1 ++ (S.scan ((S.scan l).2 ++ m)).1, (S.scan ((S.scan l).2 ++ m)).2) := by
  induction l using scan_induct (S := S) with
  | wait l h => rw [scan_wait h]; rfl
  | cut l n o h ih =>
    have hle := S.le h
    rw [scan_cut h, scan_cut (S.stable m h), List.take_append_of_le_length hle, List.drop_append_of_le_length hle, ih]
    rfl

/-- **Where a position of the stream stands**: a cut ends there and the scan goes on from it, or a piece covers it, or
the scanner waits in front of it. -/
theorem scan_meets (a b : List α) :
    (∃ before, items before = a ∧ S.scan (a ++ b) = (before ++ (S.scan b).1, (S.scan b).2)) ∨
    (∃ before p after, (S.scan (a ++ b)).1 = before ++ p :: after ∧ (items before).length < a.length ∧
      a.length < (items before).length + p.1.length) ∨
    b.length < (S.scan (a ++ b)).2.length := by
  induction hk : a.length using Nat.strongRecOn generalizing a with
  | ind k ih =>
    subst hk
    by_cases ha : a = []
    · subst ha
      exact .inl ⟨[], rfl, rfl⟩
    have hapos : 0 < a.length := List.length_pos_of_ne_nil ha
    cases h : S.look (a ++ b) with
    | none =>
      rw [scan_wait h]
      exact .inr (.inr (by rw [List.length_append]; omega))
    | some r =>
      obtain ⟨n, o⟩ := r
      have hpos := S.pos h
      have hle := S.le h
      rw [scan_cut h]
      by_cases hn : n ≤ a.length
      · rw [List.take_append_of_le_length hn, List.drop_append_of_le_length hn]
        have hrec := ih (a.drop n).length (by rw [List.length_drop]; omega) (a.drop n) rfl
        rcases hrec with ⟨before, hb, hs⟩ | ⟨before, p, after, hs, h₁, h₂⟩ | hw
        · refine .inl ⟨(a.take n, o) :: before, ?_, ?_⟩
          · rw [items_cons, hb, List.take_append_drop]
          · rw [hs]
            rfl
        · have htake : (a.take n).length = n := by rw [List.length_take]; omega
          rw [List.length_drop] at h₁ h₂
          refine .inr (.inl ⟨(a.take n, o) :: before, p, after, ?_, ?_, ?_⟩)
          · rw [hs]
            rfl
          · rw [items_cons, List.length_append, htake]
            omega
          · rw [items_cons, List.length_append, htake]
            omega
        · exact .inr (.inr hw)
      · have htake : ((a ++ b).take n).length = n := by rw [List.length_take]; omega
        refine .inr (.inl ⟨[], _, _, rfl, ?_, ?_⟩)
        · exact hapos
        · rw [items_nil, List.length_nil, htake]
          omega

end Scanner
end Lib
end PicoRecorder
