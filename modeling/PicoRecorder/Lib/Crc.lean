import Mathlib.Algebra.BigOperators.Group.Finset.Basic
import Mathlib.Algebra.Field.ZMod
import Mathlib.Data.ZMod.Basic
import Mathlib.Logic.Function.Iterate
/-!
# Crc — a cyclic redundancy check as a linear shift register

Bits enter at the top of a register that is shifted left and reduced by the generator polynomial.  The register is
linear in exclusive or, so what a corruption does to the remainder is the remainder of the error pattern alone
(`remainder_xor`).  A pattern goes unnoticed only when its own remainder is zero, and none of these has that: a window
of at most `w` bits (`remainder_window`), an odd number of bits (`remainder_odd`), two bits closer than the order of the
generator (`remainder_two`).
-/
namespace PicoRecorder
namespace Lib
namespace Crc

variable {w : Nat}

/-- The register with its top bit alone set: where a bit of the message enters. -/
def top (w : Nat) : BitVec w := BitVec.twoPow w (w - 1)

/-- Shift left by one; a bit that leaves at the top is replaced by the generator's remaining terms. -/
def shift (poly c : BitVec w) : BitVec w := if c.msb then (c <<< 1) ^^^ poly else c <<< 1

def entering (w : Nat) (b : Bool) : BitVec w := if b then top w else 0#w

def feed (poly c : BitVec w) (b : Bool) : BitVec w := shift poly (c ^^^ entering w b)

/-- The register after a message, first bit first. -/
def remainder (poly c : BitVec w) (bits : List Bool) : BitVec w := bits.foldl (feed poly) c

@[simp] theorem remainder_nil (poly c : BitVec w) : remainder poly c [] = c := rfl

@[simp] theorem remainder_cons (poly c : BitVec w) (b : Bool) (bits : List Bool) :
    remainder poly c (b :: bits) = remainder poly (feed poly c b) bits := rfl

theorem remainder_append (poly c : BitVec w) (bits more : List Bool) :
    remainder poly c (bits ++ more) = remainder poly (remainder poly c bits) more := by
  simp [remainder]

/-! ## Linearity -/

theorem shift_xor (poly a b : BitVec w) : shift poly (a ^^^ b) = shift poly a ^^^ shift poly b := by
  have hcancel : ∀ x y : BitVec w, x ^^^ poly ^^^ (y ^^^ poly) = x ^^^ y := fun x y => by
    rw [BitVec.xor_assoc, BitVec.xor_comm y poly, ← BitVec.xor_assoc poly poly y]
    simp
  unfold shift
  simp only [BitVec.msb_xor, BitVec.shiftLeft_xor_distrib]
  cases a.msb <;> cases b.msb
  · simp
  · simp [BitVec.xor_assoc]
  · simp
    ac_rfl
  · simp [hcancel]

@[simp] theorem shift_zero (poly : BitVec w) : shift poly 0#w = 0#w := by
  simp [shift]

theorem iterate_shift_zero (poly : BitVec w) (n : Nat) : (shift poly)^[n] 0#w = 0#w := by
  induction n with
  | zero => rfl
  | succ n ih => rw [Function.iterate_succ_apply, shift_zero, ih]

theorem feed_xor (poly a b : BitVec w) (x y : Bool) :
    feed poly (a ^^^ b) (x ^^ y) = feed poly a x ^^^ feed poly b y := by
  have hentering : entering w (x ^^ y) = entering w x ^^^ entering w y := by
    cases x <;> cases y <;> simp [entering]
  unfold feed
  rw [hentering, ← shift_xor]
  congr 1
  ac_rfl

/-- **The register is linear**: the remainder of two messages xored is the remainders xored. -/
theorem remainder_xor (poly : BitVec w) : ∀ (bits more : List Bool) (a b : BitVec w), bits.length = more.length →
    remainder poly (a ^^^ b) (List.zipWith xor bits more) = remainder poly a bits ^^^ remainder poly b more
  | [], [], _, _, _ => rfl
  | x :: bits, y :: more, a, b, h => by
    rw [List.zipWith_cons_cons, remainder_cons, feed_xor, remainder_xor poly bits more _ _ (by simpa using h)]
    rfl

/-- A message of zeros only shifts. -/
theorem remainder_zeros (poly : BitVec w) : ∀ (bits : List Bool) (c : BitVec w), (∀ b ∈ bits, b = false) →
    remainder poly c bits = (shift poly)^[bits.length] c
  | [], _, _ => rfl
  | b :: bits, c, h => by
    have hb : b = false := h b (by simp)
    have ih := remainder_zeros poly bits (shift poly c) (fun x hx => h x (by simp [hx]))
    simp [hb, feed, entering, ih]

/-- What a message leaves is what it leaves from zero, and what the register held shifted along. -/
theorem remainder_from (poly : BitVec w) (bits : List Bool) (c : BitVec w) :
    remainder poly c bits = (shift poly)^[bits.length] c ^^^ remainder poly 0#w bits := by
  have hzip : ∀ l : List Bool, List.zipWith xor (List.replicate l.length false) l = l := by
    intro l
    induction l with
    | nil => rfl
    | cons x l ih => simp [List.replicate_succ, ih]
  have h := remainder_xor poly (List.replicate bits.length false) bits c 0#w (by simp)
  have hzeros := remainder_zeros poly (List.replicate bits.length false) c (by simp)
  rw [List.length_replicate] at hzeros
  rw [← hzeros, ← h, hzip, BitVec.xor_zero]

/-! ## Nothing is lost by a shift -/

theorem shift_injective {poly : BitVec w} (hpoly : poly.getLsbD 0 = true) : Function.Injective (shift poly) := by
  have hkernel : ∀ x, shift poly x = 0#w → x = 0#w := by
    intro x hx
    unfold shift at hx
    split at hx
    · have hbit := congrArg (fun c => c.getLsbD 0) hx
      simp [hpoly] at hbit
    · rename_i hmsb
      apply BitVec.eq_of_getLsbD_eq
      intro i hi
      by_cases hlast : i + 1 < w
      · have hbit := congrArg (fun c => c.getLsbD (i + 1)) hx
        simpa [hlast, BitVec.getLsbD_eq_getElem hi] using hbit
      · have hi' : i = w - 1 := by omega
        simpa [BitVec.msb_eq_getLsbD_last, hi'] using hmsb
  intro a b h
  have hzero : shift poly (a ^^^ b) = 0#w := by
    rw [shift_xor, h]
    simp
  exact BitVec.xor_eq_zero_iff.1 (hkernel _ hzero)

theorem iterate_shift_ne_zero {poly : BitVec w} (hpoly : poly.getLsbD 0 = true) {c : BitVec w} (hc : c ≠ 0#w)
    (n : Nat) :
    (shift poly)^[n] c ≠ 0#w := by
  intro h
  rw [← iterate_shift_zero poly n] at h
  exact hc ((shift_injective hpoly).iterate n h)

/-! ## A window -/

/-- At most `w` bits laid against the top of the register, first bit highest. -/
def aligned (w : Nat) : List Bool → BitVec w
  | [] => 0#w
  | b :: bits => entering w b ^^^ (aligned w bits >>> 1)

theorem getMsbD_aligned : ∀ (bits : List Bool) (k : Nat),
    (aligned w bits).getMsbD k = (decide (k < w) && bits.getD k false)
  | [], k => by simp [aligned]
  | b :: bits, 0 => by
    cases b <;> simp [aligned, entering, top, BitVec.getMsbD_ushiftRight, BitVec.getMsbD_twoPow]
    omega
  | b :: bits, k + 1 => by
    have htop : (entering w b).getMsbD (k + 1) = false := by
      cases b
      · simp [entering]
      · simp [entering, top, BitVec.getMsbD_twoPow]
        omega
    rw [aligned, BitVec.getMsbD_xor, htop, BitVec.getMsbD_ushiftRight, getMsbD_aligned bits]
    by_cases hk : k + 1 < w
    · simp [hk, show k < w by omega]
    · simp [hk]

/-- **A window entered bit by bit** is the window laid into the register and shifted through. -/
theorem remainder_aligned (poly : BitVec w) : ∀ (bits : List Bool) (c : BitVec w), bits.length ≤ w →
    remainder poly c bits = (shift poly)^[bits.length] (c ^^^ aligned w bits)
  | [], c, _ => by simp [aligned]
  | b :: bits, c, h => by
    have hlen : bits.length < w := by simpa using h
    have hback : shift poly (aligned w bits >>> 1) = aligned w bits := by
      have hmsb : (aligned w bits >>> 1).msb = false := by
        simp [BitVec.msb_eq_getMsbD_zero, BitVec.getMsbD_ushiftRight]
      simp only [shift, hmsb, Bool.false_eq_true, if_false]
      apply BitVec.eq_of_getMsbD_eq
      intro i hi
      by_cases hlast : i + 1 < w
      · simp [BitVec.getMsbD_shiftLeft, BitVec.getMsbD_ushiftRight, hlast]
      · have hend : bits.getD i false = false := by
          rw [List.getD_eq_getElem?_getD, List.getElem?_eq_none (by omega)]
          rfl
        rw [BitVec.getMsbD_shiftLeft, BitVec.getMsbD_ushiftRight, getMsbD_aligned, getMsbD_aligned, hend]
        simp [hlast]
    have hsplit : c ^^^ aligned w (b :: bits) = (c ^^^ entering w b) ^^^ (aligned w bits >>> 1) := by
      rw [aligned, BitVec.xor_assoc]
    rw [remainder_cons, remainder_aligned poly bits _ (by omega), feed, hsplit, List.length_cons,
      Function.iterate_succ_apply, shift_xor poly (c ^^^ entering w b), hback]

/-- **A window of at most `w` bits, one of them set, is never divisible by the generator**, wherever it stands. -/
theorem remainder_window {poly : BitVec w} (hpoly : poly.getLsbD 0 = true) {before window after : List Bool}
    (hbefore : ∀ b ∈ before, b = false) (hafter : ∀ b ∈ after, b = false) (hlen : window.length ≤ w)
    (hset : true ∈ window) : remainder poly 0#w (before ++ (window ++ after)) ≠ 0#w := by
  rw [remainder_append, remainder_append, remainder_zeros poly before _ hbefore, iterate_shift_zero,
    remainder_aligned poly window _ hlen, remainder_zeros poly after _ hafter, BitVec.zero_xor]
  apply iterate_shift_ne_zero hpoly
  apply iterate_shift_ne_zero hpoly
  intro hzero
  obtain ⟨i, hi, hbit⟩ := List.getElem_of_mem hset
  have hget := getMsbD_aligned (w := w) window i
  rw [hzero] at hget
  simp [hbit, hi, show i < w by omega] at hget

/-- The same with the window named by its place. -/
theorem remainder_burst {poly : BitVec w} (hpoly : poly.getLsbD 0 = true) {bits : List Bool} {lo : Nat}
    (hwithin : ∀ i, bits.getD i false = true → lo ≤ i ∧ i < lo + w) (hset : true ∈ bits) :
    remainder poly 0#w bits ≠ 0#w := by
  have hout : ∀ i, ∀ h : i < bits.length, i < lo ∨ lo + w ≤ i → bits[i] = false := by
    intro i hi hplace
    cases hb : bits[i]
    · rfl
    · have := hwithin i (by simp [List.getD_eq_getElem?_getD, hi, hb])
      omega
  have hsplit : bits = bits.take lo ++ ((bits.drop lo).take w ++ (bits.drop lo).drop w) := by simp
  have hbefore : ∀ b ∈ bits.take lo, b = false := by
    intro b hb
    obtain ⟨i, hi, rfl⟩ := List.getElem_of_mem hb
    simp only [List.length_take, Nat.lt_min] at hi
    simpa using hout i hi.2 (Or.inl hi.1)
  have hafter : ∀ b ∈ (bits.drop lo).drop w, b = false := by
    intro b hb
    obtain ⟨i, hi, rfl⟩ := List.getElem_of_mem hb
    simp only [List.length_drop] at hi
    simpa [Nat.add_assoc] using hout (lo + (w + i)) (by omega) (Or.inr (by omega))
  have hwindow : true ∈ (bits.drop lo).take w := by
    rw [hsplit, List.mem_append, List.mem_append] at hset
    rcases hset with h | h | h
    · exact absurd (hbefore _ h) (by decide)
    · exact h
    · exact absurd (hafter _ h) (by decide)
  rw [hsplit]
  exact remainder_window hpoly hbefore hafter (by simp) hwindow

/-! ## The check bits -/

/-- The register's bits, first out first. -/
def bitsOf (c : BitVec w) : List Bool := List.ofFn (fun i : Fin w => c.getMsbD i)

@[simp] theorem length_bitsOf (c : BitVec w) : (bitsOf c).length = w := by
  simp [bitsOf]

theorem getD_bitsOf (c : BitVec w) (k : Nat) : (bitsOf c).getD k false = c.getMsbD k := by
  by_cases hk : k < w
  · simp [bitsOf, List.getD_eq_getElem?_getD, hk]
  · simp [bitsOf, List.getD_eq_getElem?_getD, hk, BitVec.getMsbD]

theorem aligned_bitsOf (c : BitVec w) : aligned w (bitsOf c) = c := by
  apply BitVec.eq_of_getMsbD_eq
  intro i hi
  rw [getMsbD_aligned, getD_bitsOf]
  simp [hi]

theorem bitsOf_append {v : Nat} (c : BitVec w) (d : BitVec v) : bitsOf (c ++ d) = bitsOf c ++ bitsOf d := by
  apply List.ext_getElem
  · simp
  · intro i hi _
    simp only [length_bitsOf] at hi
    rw [List.getElem_append]
    by_cases hc : i < w
    · simp [bitsOf, BitVec.getMsbD_append, hc]
    · simp [bitsOf, BitVec.getMsbD_append, hc]

/-- **A message followed by its own remainder leaves nothing.** -/
theorem remainder_append_self (poly c : BitVec w) (bits : List Bool) :
    remainder poly c (bits ++ bitsOf (remainder poly c bits)) = 0#w := by
  rw [remainder_append, remainder_aligned poly _ _ (by simp), aligned_bitsOf, BitVec.xor_self,
    iterate_shift_zero]

/-! ## An odd number of bits -/

def parity (c : BitVec w) : ZMod 2 := ∑ i ∈ Finset.range w, ((c.getLsbD i).toNat : ZMod 2)

theorem parity_xor (a b : BitVec w) : parity (a ^^^ b) = parity a + parity b := by
  have hbit : ∀ x y : Bool, ((x ^^ y).toNat : ZMod 2) = x.toNat + y.toNat := by decide
  simp only [parity, BitVec.getLsbD_xor, hbit, Finset.sum_add_distrib]

theorem parity_shiftLeft_one (c : BitVec w) : parity (c <<< 1) = parity c + (c.msb.toNat : ZMod 2) := by
  cases w with
  | zero => simp [parity, BitVec.msb_eq_getLsbD_last]
  | succ n =>
    have htwice : ∀ x : ZMod 2, x + x = 0 := by decide
    have hinner : ∀ i ∈ Finset.range n, ((c <<< 1).getLsbD (i + 1)).toNat = (c.getLsbD i).toNat := by
      intro i hi
      have hi' : i < n + 1 := Nat.lt_succ_of_lt (by simpa using hi)
      simp [BitVec.getLsbD_eq_getElem hi', show i < n by simpa using hi]
    rw [parity, parity, Finset.sum_range_succ', Finset.sum_range_succ, BitVec.msb_eq_getLsbD_last,
      Finset.sum_congr rfl (fun i hi => congrArg _ (hinner i hi)), add_assoc]
    simp [htwice]

section Odd

variable {poly : BitVec w} (hodd : parity poly = 1)
include hodd

/-- A generator with an even number of terms keeps the parity of the register. -/
theorem parity_shift (c : BitVec w) : parity (shift poly c) = parity c := by
  have htwice : (1 : ZMod 2) + 1 = 0 := by decide
  unfold shift
  split
  · rename_i hmsb
    rw [parity_xor, parity_shiftLeft_one, hodd, hmsb, add_assoc]
    simp [htwice]
  · rename_i hmsb
    rw [parity_shiftLeft_one]
    simp [hmsb]

theorem parity_remainder (hw : 0 < w) : ∀ (bits : List Bool) (c : BitVec w),
    parity (remainder poly c bits) = parity c + (bits.count true : ZMod 2)
  | [], c => by simp
  | b :: bits, c => by
    have hentering : parity (entering w b) = (b.toNat : ZMod 2) := by
      cases b
      · simp [entering, parity]
      · simp only [entering, top, parity, if_true, BitVec.getLsbD_twoPow]
        rw [Finset.sum_eq_single (w - 1)]
        · simp [hw]
        · intro i _ hi
          simp [Ne.symm hi]
        · intro h
          exact absurd (Finset.mem_range.2 (by omega)) h
    rw [remainder_cons, parity_remainder hw bits, feed, parity_shift hodd, parity_xor, hentering]
    cases b <;> simp [add_assoc, add_comm]

/-- **An odd number of bits is never divisible by such a generator.** -/
theorem remainder_odd (hw : 0 < w) {bits : List Bool} (h : bits.count true % 2 = 1) :
    remainder poly 0#w bits ≠ 0#w := by
  intro hzero
  have hparity := parity_remainder hodd hw bits 0#w
  have hcount : (bits.count true : ZMod 2) = 1 := by
    rw [← ZMod.natCast_mod, h]
    rfl
  rw [hzero, hcount] at hparity
  simp at hparity

end Odd

/-! ## Two bits -/

/-- One bit leaves a power of the shift, as far as it stands from the end. -/
theorem remainder_one (poly : BitVec w) : ∀ (bits : List Bool), bits.count true = 1 →
    ∃ k, 0 < k ∧ k ≤ bits.length ∧ remainder poly 0#w bits = (shift poly)^[k] (top w)
  | [], h => by simp at h
  | false :: bits, h => by
    obtain ⟨k, hpos, hk, he⟩ := remainder_one poly bits (by simpa using h)
    exact ⟨k, hpos, by simp; omega, by simpa [feed, entering] using he⟩
  | true :: bits, h => by
    have hnone : ∀ b ∈ bits, b = false := by
      have hcount : bits.count true = 0 := by simpa using h
      intro b hb
      cases b
      · rfl
      · exact absurd hb (List.count_eq_zero.1 hcount)
    refine ⟨bits.length + 1, by omega, by simp, ?_⟩
    rw [remainder_cons, remainder_zeros poly bits _ hnone, feed]
    simp [entering]

/-- Two bits leave two different powers of it. -/
theorem remainder_pair (poly : BitVec w) : ∀ (bits : List Bool), bits.count true = 2 →
    ∃ j k, j < k ∧ k ≤ bits.length ∧ remainder poly 0#w bits = (shift poly)^[k] (top w) ^^^ (shift poly)^[j] (top w)
  | [], h => by simp at h
  | false :: bits, h => by
    obtain ⟨j, k, hjk, hk, he⟩ := remainder_pair poly bits (by simpa using h)
    exact ⟨j, k, hjk, by simp; omega, by simpa [feed, entering] using he⟩
  | true :: bits, h => by
    obtain ⟨j, -, hj, he⟩ := remainder_one poly bits (by simpa using h)
    refine ⟨j, bits.length + 1, by omega, by simp, ?_⟩
    rw [remainder_cons, remainder_from, he, feed]
    simp [entering]

/-- **Two bits closer than the order of the generator never cancel.** -/
theorem remainder_two {poly : BitVec w} (hpoly : poly.getLsbD 0 = true) {order : Nat}
    (horder : ∀ k, 0 < k → k < order → (shift poly)^[k] (top w) ≠ top w) {bits : List Bool}
    (hlen : bits.length < order) (h : bits.count true = 2) : remainder poly 0#w bits ≠ 0#w := by
  obtain ⟨j, k, hjk, hk, he⟩ := remainder_pair poly bits h
  rw [he]
  intro hzero
  have hpowers := BitVec.xor_eq_zero_iff.1 hzero
  have hsum : k = j + (k - j) := by omega
  rw [hsum, Function.iterate_add_apply] at hpowers
  exact horder (k - j) (by omega) (by omega) ((shift_injective hpoly).iterate j hpowers)

end Crc
end Lib
end PicoRecorder
