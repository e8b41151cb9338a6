import PicoRecorder.Lib.CounterRing
/-!
# Fifo — the bounded queue the rings stand for

A queue is the list of what was accepted and not yet removed, oldest first.  `outputs` runs a machine over a list of
operations; `outputs_refines` is the simulation of one machine by another.  Both rings are queues through `toList`,
whatever their indices or counters are.
-/
namespace PicoRecorder
namespace Lib

namespace Fifo

variable {α : Type}

/-- Whether the element is accepted, and the queue after it. -/
def push (n : Nat) (queue : List α) (a : α) : Bool × List α :=
  if queue.length < n then (true, queue ++ [a]) else (false, queue)

def pop (queue : List α) : Option α × List α := (queue.head?, queue.tail)

@[simp] theorem push_of_lt {n : Nat} {queue : List α} (h : queue.length < n) (a : α) :
    push n queue a = (true, queue ++ [a]) := if_pos h

@[simp] theorem push_of_full {n : Nat} {queue : List α} (h : queue.length = n) (a : α) :
    push n queue a = (false, queue) :=
  if_neg (by omega)

end Fifo

/-! ## Runs -/

section Runs

variable {σ τ β ρ : Type}

/-- What a machine answers to some operations, and the state after them. -/
def outputs (step : σ → β → ρ × σ) : List β → σ → List ρ × σ
  | [], s => ([], s)
  | op :: ops, s =>
    let rest := outputs step ops (step s op).2
    ((step s op).1 :: rest.1, rest.2)

/-- **One machine simulates the other**: each step keeps the relation and gives the same answer, so every run does. -/
theorem outputs_refines {step : σ → β → ρ × σ} {spec : τ → β → ρ × τ} {R : σ → τ → Prop}
    (h : ∀ s t op, R s t → (step s op).1 = (spec t op).1 ∧ R (step s op).2 (spec t op).2) :
    ∀ (ops : List β) {s : σ} {t : τ}, R s t →
      (outputs step ops s).1 = (outputs spec ops t).1 ∧ R (outputs step ops s).2 (outputs spec ops t).2
  | [], _, _, hR => ⟨rfl, hR⟩
  | op :: ops, s, t, hR => by
    obtain ⟨hout, hnext⟩ := h s t op hR
    obtain ⟨houts, hfinal⟩ := outputs_refines h ops hnext
    exact ⟨by simp [outputs, hout, houts], hfinal⟩

end Runs

/-! ## The rings -/

section Rings

variable {α : Type} {n w : Nat}

/-- The answer of a ring to a push, and the ring after it. -/
def offer {ρ : Type} (ring : ρ) (pushed : Option ρ) : Bool × ρ := (pushed.isSome, pushed.getD ring)

theorem Ring.offer_push (r : Ring α n) (a : α) :
    (offer r (r.push a)).1 = (Fifo.push n r.toList a).1 ∧
      (offer r (r.push a)).2.toList = (Fifo.push n r.toList a).2 := by
  cases hpush : r.push a with
  | none =>
    have hfull := (r.push_eq_none a).1 hpush
    simp [offer, hfull]
  | some r' =>
    obtain ⟨hlist, hlt⟩ := r.toList_push r' a hpush
    rw [Fifo.push_of_lt hlt]
    exact ⟨rfl, hlist⟩

theorem CounterRing.offer_push (r : CounterRing α n w) (a : α) :
    (offer r (r.push a)).1 = (Fifo.push n r.toList a).1 ∧
      (offer r (r.push a)).2.toList = (Fifo.push n r.toList a).2 := by
  cases hpush : r.push a with
  | none =>
    have hfull := (r.push_eq_none a).1 hpush
    simp [offer, hfull]
  | some r' =>
    obtain ⟨hlist, hlt⟩ := r.toList_push r' a hpush
    rw [Fifo.push_of_lt hlt]
    exact ⟨rfl, hlist⟩

/-! ### Taking an element in two steps -/

theorem CounterRing.tail_lt (r : CounterRing α n w) : r.tail.toNat % n < n := Nat.mod_lt _ r.pos

/-- The slot the read counter names, whether it holds an element or not. -/
def CounterRing.front (r : CounterRing α n w) : α :=
  have := r.tail_lt
  r.slots[r.tail.toNat % n]

/-- Advance the read counter; the caller has seen that there is an element. -/
def CounterRing.advance (r : CounterRing α n w) : CounterRing α n w := ((r.pop).map Prod.snd).getD r

theorem CounterRing.tail_eq_head (r : CounterRing α n w) : r.tail = r.head ↔ r.toList = [] := by
  rw [toList_eq_nil, count]
  constructor
  · intro h
    simp [h]
  · intro h
    have hzero : r.head - r.tail = 0#w := BitVec.eq_of_toNat_eq (by simpa using h)
    rw [← BitVec.sub_add_cancel r.head r.tail, hzero, BitVec.zero_add]

theorem CounterRing.toList_advance (r : CounterRing α n w) : r.advance.toList = r.toList.tail := by
  unfold advance
  cases hpop : r.pop with
  | none => simp [r.pop_eq_none.1 hpop]
  | some popped => simp [r.toList_pop popped.2 popped.1 hpop]

theorem CounterRing.front_eq (r : CounterRing α n w) (h : r.toList ≠ []) : r.toList.head? = some r.front := by
  cases hpop : r.pop with
  | none => exact absurd (r.pop_eq_none.1 hpop) h
  | some popped =>
    rw [r.toList_pop popped.2 popped.1 hpop]
    unfold pop at hpop
    split at hpop
    · cases hpop
    · cases hpop
      rfl

theorem CounterRing.pop_fifo (r : CounterRing α n w) :
    (r.pop.map Prod.fst) = (Fifo.pop r.toList).1 ∧ ((r.pop.map Prod.snd).getD r).toList = (Fifo.pop r.toList).2 := by
  cases hpop : r.pop with
  | none =>
    have hnil := r.pop_eq_none.1 hpop
    simp [Fifo.pop, hnil]
  | some popped =>
    have hcons := r.toList_pop popped.2 popped.1 hpop
    simp [Fifo.pop, hcons]

end Rings
end Lib
end PicoRecorder
