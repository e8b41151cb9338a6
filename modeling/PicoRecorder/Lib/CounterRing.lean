import Mathlib.Data.List.OfFn
import Mathlib.Data.Nat.ModEq
import PicoRecorder.Lib.Ring
/-!
# CounterRing — a bounded FIFO on free-running counters

The write and the read counter are never reset; they wrap at `2 ^ w`, and a counter modulo `n` names a slot.  `n`
divides `2 ^ w`, so the slots line up across the wrap, and is smaller, so a full ring is told from an empty one.
-/
namespace PicoRecorder
namespace Lib

structure CounterRing (α : Type) (n w : Nat) where
  slots : Vector α n
  head : BitVec w
  tail : BitVec w
  pos : 0 < n
  dvd : n ∣ 2 ^ w
  lt : n < 2 ^ w
  count_le : (head - tail).toNat ≤ n

namespace CounterRing

variable {α : Type} {n w : Nat}

def count (r : CounterRing α n w) : Nat := (r.head - r.tail).toNat

def init (n w : Nat) (a : α) (pos : 0 < n) (dvd : n ∣ 2 ^ w) (lt : n < 2 ^ w) : CounterRing α n w where
  slots := Vector.replicate n a
  head := 0
  tail := 0
  pos := pos
  dvd := dvd
  lt := lt
  count_le := by simp

theorem count_succ (r : CounterRing α n w) (h : r.count < n) : (r.head + 1 - r.tail).toNat = r.count + 1 := by
  have hlt := r.lt
  have hsub : r.head + 1 - r.tail = (r.head - r.tail) + 1#w := by
    rw [BitVec.sub_eq_add_neg, BitVec.sub_eq_add_neg, BitVec.add_assoc, BitVec.add_assoc, BitVec.add_comm (-r.tail)]
    rfl
  have hone : (1#w).toNat = 1 % 2 ^ w := BitVec.toNat_ofNat 1 w
  have hcount : (r.head - r.tail).toNat = r.count := rfl
  rw [hsub, BitVec.toNat_add, hone, hcount, Nat.add_mod_mod, Nat.mod_eq_of_lt (by omega)]

theorem count_pred (r : CounterRing α n w) (h : r.count ≠ 0) : (r.head - (r.tail + 1)).toNat = r.count - 1 := by
  have hsub : r.head - (r.tail + 1) = (r.head - r.tail) - 1#w := by
    have hneg : -(r.tail + 1) = -r.tail + -1#w := by rw [BitVec.neg_add, BitVec.sub_eq_add_neg]; rfl
    rw [BitVec.sub_eq_add_neg, BitVec.sub_eq_add_neg, BitVec.sub_eq_add_neg, hneg, BitVec.add_assoc]
  have hcount : (r.head - r.tail).toNat = r.count := rfl
  have hle : (1#w) ≤ r.head - r.tail := by
    rw [BitVec.le_def, hcount, BitVec.toNat_ofNat]
    have := Nat.mod_le 1 (2 ^ w)
    omega
  have hone : (1#w).toNat = 1 := by
    have := r.lt
    have := r.pos
    rw [BitVec.toNat_ofNat, Nat.mod_eq_of_lt (by omega)]
  rw [hsub, BitVec.toNat_sub_of_le hle, hcount, hone]

/-- Store at the write counter's slot and advance it; a full ring refuses. -/
def push (r : CounterRing α n w) (a : α) : Option (CounterRing α n w) :=
  if h : r.count ≥ n then none
  else
    have := Nat.mod_lt r.head.toNat r.pos
    some
      { slots := r.slots.set (r.head.toNat % n) a
        head := r.head + 1
        tail := r.tail
        pos := r.pos
        dvd := r.dvd
        lt := r.lt
        count_le := by rw [count_succ r (by omega)]; omega }

/-- The oldest element, and the ring without it. -/
def pop (r : CounterRing α n w) : Option (α × CounterRing α n w) :=
  if h : r.count = 0 then none
  else
    have := Nat.mod_lt r.tail.toNat r.pos
    some (r.slots[r.tail.toNat % n],
      { slots := r.slots
        head := r.head
        tail := r.tail + 1
        pos := r.pos
        dvd := r.dvd
        lt := r.lt
        count_le := by rw [count_pred r h]; have : r.count ≤ n := r.count_le; omega })

def slotAt (r : CounterRing α n w) (i : Nat) : α :=
  have : (r.tail.toNat + i) % n < n := Nat.mod_lt _ r.pos
  r.slots[(r.tail.toNat + i) % n]

/-- The stored elements, oldest first. -/
def toList (r : CounterRing α n w) : List α := List.ofFn (fun i : Fin r.count => r.slotAt i.val)

@[simp] theorem length_toList (r : CounterRing α n w) : r.toList.length = r.count := by simp [toList]

theorem length_toList_le (r : CounterRing α n w) : r.toList.length ≤ n := by rw [length_toList]; exact r.count_le

theorem getElem_toList (r : CounterRing α n w) (i : Nat) (h : i < r.toList.length) :
    r.toList[i] = r.slotAt i := by simp [toList]

@[simp] theorem toList_init (a : α) (pos : 0 < n) (dvd : n ∣ 2 ^ w) (lt : n < 2 ^ w) :
    (init n w a pos dvd lt).toList = [] := by
  rw [← List.length_eq_zero_iff, length_toList]
  simp [count, init]

theorem toList_eq_nil (r : CounterRing α n w) : r.toList = [] ↔ r.count = 0 := by
  rw [← List.length_eq_zero_iff, length_toList]

/-- The write counter names the slot after the last element, across any wrap. -/
theorem head_mod (r : CounterRing α n w) : r.head.toNat % n = (r.tail.toNat + r.count) % n := by
  have hadd : r.head = r.tail + (r.head - r.tail) := by
    rw [BitVec.add_comm, BitVec.sub_add_cancel]
  have hnat : r.head.toNat = (r.tail.toNat + r.count) % 2 ^ w := by
    conv => lhs; rw [hadd]
    exact BitVec.toNat_add _ _
  rw [hnat, Nat.mod_mod_of_dvd _ r.dvd]

theorem push_eq_none (r : CounterRing α n w) (a : α) : r.push a = none ↔ r.toList.length = n := by
  have := r.length_toList_le
  rw [length_toList] at this ⊢
  unfold push
  split
  · simp; omega
  · simp; omega

/-- **A push that is accepted appends**, and there was room for it. -/
theorem toList_push (r r' : CounterRing α n w) (a : α) (h : r.push a = some r') :
    r'.toList = r.toList ++ [a] ∧ r.toList.length < n := by
  unfold push at h
  split at h
  · cases h
  rename_i hn
  have hlt : r.count < n := by omega
  have hr' := Option.some.inj h
  have hcount : r'.count = r.count + 1 := by rw [← hr']; exact count_succ r hlt
  have htail : r'.tail = r.tail := by rw [← hr']
  refine ⟨List.ext_getElem (by simp [hcount]) (fun i h1 h2 => ?_), by rwa [length_toList]⟩
  rw [getElem_toList, slotAt, List.getElem_append]
  simp only [length_toList, List.length_append, List.length_singleton] at h2
  have hmod : (r'.tail.toNat + i) % n < n := Nat.mod_lt _ r.pos
  have hmod' : (r.tail.toNat + i) % n < n := Nat.mod_lt _ r.pos
  have hslot : r'.slots[(r'.tail.toNat + i) % n] =
      (r.slots.set (r.head.toNat % n) a (Nat.mod_lt _ r.pos))[(r.tail.toNat + i) % n] := by
    subst hr'
    rfl
  rw [hslot, Vector.getElem_set]
  by_cases hi : i < r.count
  · have hne : r.head.toNat % n ≠ (r.tail.toNat + i) % n := by rw [head_mod]; exact Ring.mod_ne hi hlt
    simp [hi, hne, getElem_toList, slotAt]
  · have hi' : i = r.count := by omega
    subst hi'
    simp [head_mod]

theorem pop_eq_none (r : CounterRing α n w) : r.pop = none ↔ r.toList = [] := by
  rw [toList_eq_nil]
  unfold pop
  split <;> simp_all

/-- **A pop returns the oldest element** and removes it. -/
theorem toList_pop (r r' : CounterRing α n w) (a : α) (h : r.pop = some (a, r')) : r.toList = a :: r'.toList := by
  unfold pop at h
  split at h
  · cases h
  rename_i hn
  obtain ⟨ha, hr'⟩ := Prod.mk.inj (Option.some.inj h)
  have hcount : r'.count = r.count - 1 := by rw [← hr']; exact count_pred r hn
  have hslots : r'.slots = r.slots := by rw [← hr']
  have htail : r'.tail.toNat % n = (r.tail.toNat + 1) % n := by
    have hone : (1 : BitVec w).toNat = 1 % 2 ^ w := BitVec.toNat_ofNat 1 w
    rw [← hr', BitVec.toNat_add, hone, Nat.add_mod_mod, Nat.mod_mod_of_dvd _ r.dvd]
  refine List.ext_getElem (by simp [hcount]; omega) (fun i h1 h2 => ?_)
  rw [getElem_toList]
  cases i with
  | zero => simp [slotAt, ← ha]
  | succ i =>
    rw [List.getElem_cons_succ, getElem_toList]
    simp only [slotAt]
    have hmod : (r'.tail.toNat + i) % n = (r.tail.toNat + (i + 1)) % n := by
      rw [Nat.add_mod, htail, ← Nat.add_mod]
      congr 1
      omega
    simp only [hslots, hmod]

/-! ## Writing into room that was checked before -/

/-- Store and advance with nothing tested; the caller has seen to the room. -/
def store (r : CounterRing α n w) (a : α) (h : r.count < n) : CounterRing α n w :=
  have := Nat.mod_lt r.head.toNat r.pos
  { slots := r.slots.set (r.head.toNat % n) a
    head := r.head + 1
    tail := r.tail
    pos := r.pos
    dvd := r.dvd
    lt := r.lt
    count_le := by rw [count_succ r h]; omega }

theorem push_store (r : CounterRing α n w) (a : α) (h : r.count < n) : r.push a = some (r.store a h) := by
  unfold push
  rw [dif_neg (by omega)]
  rfl

theorem count_store (r : CounterRing α n w) (a : α) (h : r.count < n) : (r.store a h).count = r.count + 1 :=
  count_succ r h

/-- Store a list, one element after the other. -/
def storeAll : (l : List α) → (r : CounterRing α n w) → r.count + l.length ≤ n → CounterRing α n w
  | [], r, _ => r
  | a :: l, r, h =>
    have hroom : r.count < n := by
      rw [List.length_cons] at h
      omega
    storeAll l (r.store a hroom) (by
      rw [List.length_cons] at h
      rw [count_store]
      omega)

/-- **Elements stored into checked room are appended**, across any wrap of the counter. -/
theorem toList_storeAll : ∀ (l : List α) (r : CounterRing α n w) (h : r.count + l.length ≤ n),
    (storeAll l r h).toList = r.toList ++ l
  | [], r, _ => by
    rw [List.append_nil]
    rfl
  | a :: l, r, h => by
    have hroom : r.count < n := by
      rw [List.length_cons] at h
      omega
    have hstore := (toList_push r _ a (push_store r a hroom)).1
    rw [storeAll, toList_storeAll l, hstore, List.append_assoc]
    rfl

end CounterRing
end Lib
end PicoRecorder
