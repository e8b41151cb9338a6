import Mathlib.Data.List.OfFn
import Mathlib.Data.Nat.ModEq
/-!
# Ring — a bounded FIFO on a circular array

An array of `n` slots with a read index, a write index and a separate count.  The three index facts are fields, so a
ring that lost its place cannot be built.  `Ring.toList` is the queue the array stands for, oldest element first; every
operation is described by what it does to that list (`toList_push`, `toList_pop`, `peek_eq`, `toList_clear`).
-/
namespace PicoRecorder
namespace Lib

structure Ring (α : Type) (n : Nat) where
  slots : Vector α n
  readIndex : Nat
  writeIndex : Nat
  count : Nat
  read_lt : readIndex < n
  count_le : count ≤ n
  write_eq : writeIndex = (readIndex + count) % n

namespace Ring

variable {α : Type} {n : Nat}

theorem pos (r : Ring α n) : 0 < n := Nat.zero_lt_of_lt r.read_lt

theorem write_lt (r : Ring α n) : r.writeIndex < n := by
  rw [r.write_eq]; exact Nat.mod_lt _ r.pos

/-- Every slot holding `a`, both indices and the count at zero. -/
def init (n : Nat) (a : α) (h : 0 < n) : Ring α n where
  slots := Vector.replicate n a
  readIndex := 0
  writeIndex := 0
  count := 0
  read_lt := h
  count_le := Nat.zero_le _
  write_eq := by simp

/-- The indices and the count go back to zero; the slots keep their stale contents. -/
def clear (r : Ring α n) : Ring α n where
  slots := r.slots
  readIndex := 0
  writeIndex := 0
  count := 0
  read_lt := r.pos
  count_le := Nat.zero_le _
  write_eq := by simp

/-- Store at the write index and advance it; a full ring refuses. -/
def push (r : Ring α n) (a : α) : Option (Ring α n) :=
  if h : r.count = n then none
  else some
    { slots := r.slots.set r.writeIndex a r.write_lt
      readIndex := r.readIndex
      writeIndex := (r.writeIndex + 1) % n
      count := r.count + 1
      read_lt := r.read_lt
      count_le := by have := r.count_le; omega
      write_eq := by rw [r.write_eq, Nat.mod_add_mod, Nat.add_assoc] }

/-- The element at the read index, if any. -/
def peek (r : Ring α n) : Option α :=
  if r.count = 0 then none
  else
    have := r.read_lt
    some r.slots[r.readIndex]

/-- Advance the read index; an empty ring stays as it is. -/
def pop (r : Ring α n) : Ring α n :=
  if h : r.count = 0 then r
  else
    { slots := r.slots
      readIndex := (r.readIndex + 1) % n
      writeIndex := r.writeIndex
      count := r.count - 1
      read_lt := Nat.mod_lt _ r.pos
      count_le := by have := r.count_le; omega
      write_eq := by
        rw [r.write_eq, Nat.mod_add_mod]
        congr 1
        omega }

/-- The slot `i` places after the read index, around the array. -/
def slotAt (r : Ring α n) (i : Nat) : α :=
  have : (r.readIndex + i) % n < n := Nat.mod_lt _ r.pos
  r.slots[(r.readIndex + i) % n]

/-- The stored elements, oldest first. -/
def toList (r : Ring α n) : List α := List.ofFn (fun i : Fin r.count => r.slotAt i.val)

@[simp] theorem length_toList (r : Ring α n) : r.toList.length = r.count := by simp [toList]

theorem getElem_toList (r : Ring α n) (i : Nat) (h : i < r.toList.length) :
    r.toList[i] = r.slotAt i := by simp [toList]

@[simp] theorem toList_init (a : α) (h : 0 < n) : (init n a h).toList = [] := rfl

@[simp] theorem toList_clear (r : Ring α n) : r.clear.toList = [] := rfl

theorem toList_eq_nil (r : Ring α n) : r.toList = [] ↔ r.count = 0 := by
  rw [← List.length_eq_zero_iff, length_toList]

/-- Two residues of a window no longer than the modulus differ. -/
theorem mod_ne {h i c m : Nat} (hi : i < c) (hc : c < m) : (h + c) % m ≠ (h + i) % m := by
  intro he
  have hci : c ≡ i [MOD m] := Nat.ModEq.add_left_cancel' h he
  have := hci.eq_of_lt_of_lt hc (Nat.lt_trans hi hc)
  omega

theorem push_eq_none (r : Ring α n) (a : α) : r.push a = none ↔ r.toList.length = n := by
  rw [length_toList]
  unfold push
  split <;> simp_all

theorem push_isSome (r : Ring α n) (a : α) (h : r.toList.length < n) : ∃ r', r.push a = some r' := by
  cases hp : r.push a with
  | some r' => exact ⟨r', rfl⟩
  | none => rw [push_eq_none] at hp; omega

/-- **A push that is accepted appends**, and there was room for it. -/
theorem toList_push (r r' : Ring α n) (a : α) (h : r.push a = some r') :
    r'.toList = r.toList ++ [a] ∧ r.toList.length < n := by
  unfold push at h
  split at h
  · cases h
  rename_i hn
  have hlt : r.count < n := by have := r.count_le; omega
  obtain rfl := Option.some.inj h
  refine ⟨List.ext_getElem (by simp) (fun i h1 h2 => ?_), by rwa [length_toList]⟩
  rw [getElem_toList, slotAt, Vector.getElem_set, List.getElem_append]
  simp only [length_toList, List.length_append, List.length_singleton] at h2
  by_cases hi : i < r.count
  · have hne : r.writeIndex ≠ (r.readIndex + i) % n := by rw [r.write_eq]; exact mod_ne hi hlt
    simp [hi, hne, getElem_toList, slotAt]
  · have hi' : i = r.count := by omega
    subst hi'
    simp [r.write_eq]

/-- **The element looked at is the oldest one.** -/
theorem peek_eq (r : Ring α n) : r.peek = r.toList.head? := by
  unfold peek
  split
  · rename_i h
    rw [(toList_eq_nil r).2 h]; rfl
  · rename_i h
    have hlt : 0 < r.toList.length := by rw [length_toList]; omega
    rw [List.head?_eq_getElem?, List.getElem?_eq_getElem hlt, getElem_toList]
    simp [slotAt, Nat.mod_eq_of_lt r.read_lt]

/-- **A pop removes the oldest element.** -/
@[simp] theorem toList_pop (r : Ring α n) : r.pop.toList = r.toList.tail := by
  unfold pop
  split
  · rename_i h
    rw [(toList_eq_nil r).2 h]; rfl
  · rename_i h
    refine List.ext_getElem (by simp) (fun i h1 h2 => ?_)
    rw [getElem_toList, List.getElem_tail, getElem_toList]
    simp only [slotAt, Nat.mod_add_mod]
    congr 2
    omega

theorem toList_of_peek (r : Ring α n) (a : α) (h : r.peek = some a) : r.toList = a :: r.pop.toList := by
  rw [peek_eq, List.head?_eq_some_iff] at h
  obtain ⟨l, hl⟩ := h
  rw [toList_pop, hl, List.tail_cons]

theorem peek_eq_none (r : Ring α n) : r.peek = none ↔ r.toList = [] := by rw [peek_eq, List.head?_eq_none_iff]

end Ring
end Lib
end PicoRecorder
