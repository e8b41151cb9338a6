import Mathlib.Data.List.GetD
import Mathlib.Data.List.Iterate
import PicoRecorder.Lib.Crc
import PicoRecorder.PiZero.Codec
/-!
# ErrorDetection — what the frame's CRC is chosen for

A corruption that still decodes is the xor of two frames of one length.  Each of the two, read with its CRC bytes turned
round to the order in which the register takes bits, leaves remainder zero; so does their xor, and the patterns of
`Chosen` never do.
-/
namespace PicoRecorder
namespace Link

open Pico
open Lib

/-- `x^16 + x^12 + x^5 + 1` without its leading term. -/
def generator : BitVec 16 := 0x1021#16

/-- The bits of a byte string, the most significant bit of each byte first. -/
def bits (data : List UInt8) : List Bool := data.flatMap (fun b => Crc.bitsOf b.toBitVec)

@[simp] theorem bits_nil : bits [] = [] := rfl

@[simp] theorem bits_cons (b : UInt8) (data : List UInt8) : bits (b :: data) = Crc.bitsOf b.toBitVec ++ bits data := rfl

theorem bits_append (data more : List UInt8) : bits (data ++ more) = bits data ++ bits more := List.flatMap_append

@[simp] theorem length_bits (data : List UInt8) : (bits data).length = 8 * data.length := by
  induction data with
  | nil => rfl
  | cons b data ih =>
    simp [ih]
    omega

theorem bits_perm {data more : List UInt8} (h : data.Perm more) : (bits data).Perm (bits more) := h.flatMap_right _

theorem bits_xor : ∀ (data more : List UInt8), data.length = more.length →
    bits (List.zipWith (· ^^^ ·) data more) = List.zipWith xor (bits data) (bits more)
  | [], [], _ => rfl
  | a :: data, b :: more, h => by
    have hbyte : Crc.bitsOf (a ^^^ b).toBitVec = List.zipWith xor (Crc.bitsOf a.toBitVec) (Crc.bitsOf b.toBitVec) := by
      apply List.ext_getElem
      · simp [Crc.bitsOf]
      · intro i hi _
        simp [Crc.bitsOf] at hi ⊢
    rw [List.zipWith_cons_cons, bits_cons, bits_xor data more (by simpa using h), hbyte, bits_cons, bits_cons,
      List.zipWith_append (by simp [Crc.bitsOf])]

/-! ## The source's loop is the register -/

theorem crcBit_toBitVec (crc : UInt16) : (crcBit crc).toBitVec = Crc.shift generator crc.toBitVec := by
  have htest : (crc &&& 0x8000 ≠ 0) ↔ crc.toBitVec.msb = true := by
    have hmask : (0x8000 : UInt16).toBitVec = BitVec.twoPow 16 15 := rfl
    have hlast : (16 - 1 : Nat) = 15 := rfl
    rw [ne_eq, ← UInt16.toBitVec_inj, UInt16.toBitVec_and, hmask, BitVec.and_twoPow, BitVec.msb_eq_getLsbD_last, hlast]
    cases crc.toBitVec.getLsbD 15
    · simp
    · simp
  unfold crcBit Crc.shift
  by_cases h : crc &&& 0x8000 ≠ 0
  · rw [if_pos h, if_pos (htest.1 h)]
    rfl
  · rw [if_neg h, if_neg (fun hm => h (htest.2 hm))]
    rfl

theorem repeat_crcBit (n : Nat) (crc : UInt16) :
    (Nat.repeat crcBit n crc).toBitVec = (Crc.shift generator)^[n] crc.toBitVec := by
  induction n with
  | zero => rfl
  | succ n ih => rw [Nat.repeat, crcBit_toBitVec, ih, Function.iterate_succ_apply']

theorem crcByte_toBitVec (crc : UInt16) (b : UInt8) :
    (crcByte crc b).toBitVec = Crc.remainder generator crc.toBitVec (Crc.bitsOf b.toBitVec) := by
  have hbyte : (b.toUInt16 <<< 8).toBitVec = Crc.aligned 16 (Crc.bitsOf b.toBitVec) := by
    apply BitVec.eq_of_getMsbD_eq
    intro i hi
    rw [Crc.getMsbD_aligned, Crc.getD_bitsOf]
    simp [hi]
  rw [crcByte, repeat_crcBit, Crc.remainder_aligned _ _ _ (by simp), ← hbyte]
  simp

theorem foldl_crcByte : ∀ (data : List UInt8) (crc : UInt16),
    (data.foldl crcByte crc).toBitVec = Crc.remainder generator crc.toBitVec (bits data)
  | [], _ => rfl
  | b :: data, crc => by
    rw [List.foldl_cons, foldl_crcByte data, crcByte_toBitVec, bits_cons, Crc.remainder_append]

theorem crc16_toBitVec (data : List UInt8) : (crc16 data).toBitVec = Crc.remainder generator 0xFFFF#16 (bits data) :=
  foldl_crcByte data 0xFFFF

/-! ## A frame and its own CRC -/

/-- What follows MAGIC in the order in which the register takes it: the two CRC bytes travel low byte first. -/
def inOrder (n : Nat) (data : List UInt8) : List UInt8 := data.take n ++ (data.drop n).reverse

theorem inOrder_perm (n : Nat) (data : List UInt8) : (inOrder n data).Perm data := by
  have h := (List.Perm.refl (data.take n)).append (List.reverse_perm (data.drop n))
  rwa [List.take_append_drop] at h

theorem inOrder_xor (n : Nat) {data more : List UInt8} (h : data.length = more.length) :
    inOrder n (List.zipWith (· ^^^ ·) data more) = List.zipWith (· ^^^ ·) (inOrder n data) (inOrder n more) := by
  unfold inOrder
  rw [List.take_zipWith, List.drop_zipWith, List.reverse_zipWith (by simp [h]), List.zipWith_append (by simp [h])]

theorem length_covered (type : UInt8) (payload : List UInt8) : (covered type payload).length = 4 + payload.length := by
  simp [covered]
  omega

theorem bits_crcBytes (c : UInt16) : bits (leBytes 2 c.toNat).reverse = Crc.bitsOf c.toBitVec := by
  have hbytes : (leBytes 2 c.toNat).reverse = [UInt8.ofNat (c.toNat / 256 % 256), UInt8.ofNat (c.toNat % 256)] := rfl
  have hjoin : c.toBitVec = (UInt8.ofNat (c.toNat / 256 % 256)).toBitVec ++ (UInt8.ofNat (c.toNat % 256)).toBitVec := by
    have hc := c.toNat_lt
    apply BitVec.eq_of_toNat_eq
    rw [BitVec.toNat_append, ← Nat.shiftLeft_add_eq_or_of_lt (by simp; omega), Nat.shiftLeft_eq]
    simp
    omega
  rw [hbytes, hjoin, Crc.bitsOf_append]
  simp

/-- **An encoded frame leaves nothing in the register.** -/
theorem remainder_frame (type : UInt8) (payload : List UInt8) :
    Crc.remainder generator 0xFFFF#16 (bits (inOrder (4 + payload.length) (frameBytes type payload).tail)) = 0#16 := by
  have horder : inOrder (4 + payload.length) (frameBytes type payload).tail =
      covered type payload ++ (leBytes 2 (crc16 (covered type payload)).toNat).reverse := by
    simp [inOrder, frameBytes, ← length_covered type payload]
  rw [horder, bits_append, bits_crcBytes, crc16_toBitVec]
  exact Crc.remainder_append_self generator _ _

/-! ## Corruption -/

/-- An error pattern xored into a frame behind its magic byte. -/
def corrupt : List UInt8 → List UInt8 → List UInt8
  | magic :: rest, pattern => magic :: List.zipWith (· ^^^ ·) rest pattern
  | [], _ => []

def flipped (pattern : List UInt8) : Nat := (bits pattern).count true

/-- Every flipped bit of the pattern is one of the bits from `lo` up to `hi`. -/
def Within (pattern : List UInt8) (lo hi : Nat) : Prop := ∀ i, (bits pattern).getD i false = true → lo ≤ i ∧ i < hi

/-- The patterns the CRC is chosen for, over a frame with `n` bytes between MAGIC and the CRC: a window of at most
sixteen bits on either side of the border between the two, two bits, an odd number of bits. -/
inductive Chosen (n : Nat) (pattern : List UInt8) : Prop
  | burst (lo hi : Nat) (hset : flipped pattern ≠ 0) (hwithin : Within pattern lo hi) (hwidth : hi ≤ lo + 16)
      (hside : hi ≤ 8 * n ∨ 8 * n ≤ lo)
  | double (h : flipped pattern = 2)
  | odd (h : flipped pattern % 2 = 1)

theorem xor_xor_cancel {data pattern : List UInt8} (h : data.length = pattern.length) :
    List.zipWith (· ^^^ ·) data (List.zipWith (· ^^^ ·) data pattern) = pattern := by
  apply List.ext_getElem
  · simp [h]
  · intro i _ _
    rw [List.getElem_zipWith, List.getElem_zipWith, ← UInt8.xor_assoc, UInt8.xor_self, UInt8.zero_xor]

/-- **A corruption that still decodes is itself divisible by the generator.** -/
theorem undetected {type : UInt8} {payload pattern : List UInt8} {frame : Frame}
    (hlen : pattern.length = 6 + payload.length)
    (h : decodeFrame (corrupt (frameBytes type payload) pattern) = .ok frame) :
    Crc.remainder generator 0#16 (bits (inOrder (4 + payload.length) pattern)) = 0#16 := by
  obtain ⟨hsame, -⟩ := decodeFrame_sound h
  have hsent : (frameBytes type payload).length = 7 + payload.length := length_frameBytes type payload
  have hread := length_frameBytes frame.type frame.payload
  obtain ⟨sent, hcons⟩ : ∃ sent, frameBytes type payload = protocolMagic :: sent := ⟨_, rfl⟩
  obtain ⟨read, hcons'⟩ : ∃ read, frameBytes frame.type frame.payload = protocolMagic :: read := ⟨_, rfl⟩
  have hleft := remainder_frame type payload
  have hright := remainder_frame frame.type frame.payload
  rw [hcons] at hsame hsent hleft
  rw [hcons'] at hsame hread hright
  simp only [corrupt, List.cons.injEq, true_and, List.tail_cons, List.length_cons] at hsame hsent hread hleft hright
  have hpayload : frame.payload.length = payload.length := by
    have := congrArg List.length hsame
    rw [List.length_zipWith] at this
    omega
  rw [hpayload] at hright
  have hpattern : inOrder (4 + payload.length) pattern =
      List.zipWith (· ^^^ ·) (inOrder (4 + payload.length) sent) (inOrder (4 + payload.length) read) := by
    rw [← inOrder_xor _ (by omega), ← hsame, xor_xor_cancel (by omega)]
  have hlengths : (inOrder (4 + payload.length) sent).length = (inOrder (4 + payload.length) read).length := by
    rw [(inOrder_perm _ _).length_eq, (inOrder_perm _ _).length_eq]
    omega
  have hlinear := Crc.remainder_xor generator (bits (inOrder (4 + payload.length) sent))
    (bits (inOrder (4 + payload.length) read)) 0xFFFF#16 0xFFFF#16 (by simp [hlengths])
  rw [hleft, hright, BitVec.xor_self, BitVec.xor_self, ← bits_xor _ _ hlengths, ← hpattern] at hlinear
  exact hlinear

/-! ## What the generator divides -/

theorem parity_generator : Crc.parity generator = 1 := by decide

/-- No power of the shift below 561 brings a bit back to where it was; a frame has at most 560 bits behind MAGIC. -/
theorem order_generator (k : Nat) (hpos : 0 < k) (hk : k < 561) :
    (Crc.shift generator)^[k] (Crc.top 16) ≠ Crc.top 16 := by
  have horbit : Crc.top 16 ∉ List.iterate (Crc.shift generator) (Crc.shift generator (Crc.top 16)) 560 := by
    decide +kernel
  intro hback
  apply horbit
  rw [List.mem_iterate]
  refine ⟨k - 1, by omega, ?_⟩
  rw [← Function.iterate_succ_apply, Nat.succ_eq_add_one, Nat.sub_add_cancel hpos, hback]

theorem mem_of_getD {l : List Bool} {i : Nat} (h : l.getD i false = true) : true ∈ l := by
  by_cases hi : i < l.length
  · rw [List.getD_eq_getElem l false hi] at h
    exact h ▸ l.getElem_mem hi
  · rw [List.getD_eq_default l false (by omega)] at h
    cases h

/-- Before the border the two orders agree. -/
theorem getD_inOrder {n i : Nat} {pattern : List UInt8} (hlen : n ≤ pattern.length) (hi : i < 8 * n) :
    (bits (inOrder n pattern)).getD i false = (bits pattern).getD i false := by
  have hsplit : bits pattern = bits (pattern.take n) ++ bits (pattern.drop n) := by
    rw [← bits_append, List.take_append_drop]
  have hlt : i < (bits (pattern.take n)).length := by
    rw [length_bits, List.length_take]
    omega
  rw [hsplit, inOrder, bits_append, List.getD_append _ _ _ _ hlt, List.getD_append _ _ _ _ hlt]

/-- A window on either side of the border stays one when the CRC bytes are turned round. -/
theorem window_inOrder {n lo hi : Nat} {pattern : List UInt8} (hlen : pattern.length = n + 2)
    (hwithin : Within pattern lo hi) (hwidth : hi ≤ lo + 16) (hside : hi ≤ 8 * n ∨ 8 * n ≤ lo) :
    ∃ start, ∀ i, (bits (inOrder n pattern)).getD i false = true → start ≤ i ∧ i < start + 16 := by
  rcases hside with hleft | hright
  · refine ⟨lo, fun i hset => ?_⟩
    by_cases hi' : i < 8 * n
    · rw [getD_inOrder (by omega) hi'] at hset
      have := hwithin i hset
      omega
    · -- the CRC bytes hold no flipped bit, in either order
      have hnone : true ∉ bits (pattern.drop n) := by
        intro hmem
        obtain ⟨j, hj, hbit⟩ := List.getElem_of_mem hmem
        have hsplit : bits pattern = bits (pattern.take n) ++ bits (pattern.drop n) := by
          rw [← bits_append, List.take_append_drop]
        have hfront : (bits (pattern.take n)).length = 8 * n := by
          rw [length_bits, List.length_take]
          omega
        have := hwithin (8 * n + j) (by
          rw [hsplit, List.getD_append_right _ _ _ _ (by omega), hfront, Nat.add_sub_cancel_left,
            List.getD_eq_getElem _ _ hj, hbit])
        omega
      rw [inOrder, bits_append, List.getD_append_right _ _ _ _ (by rw [length_bits, List.length_take]; omega)] at hset
      exact absurd ((bits_perm (List.reverse_perm _)).mem_iff.1 (mem_of_getD hset)) hnone
  · refine ⟨8 * n, fun i hset => ?_⟩
    by_cases hi' : i < 8 * n
    · rw [getD_inOrder (by omega) hi'] at hset
      have := hwithin i hset
      omega
    · have hlength : (bits (inOrder n pattern)).length = 8 * n + 16 := by
        rw [length_bits, (inOrder_perm n pattern).length_eq]
        omega
      by_cases hend : i < 8 * n + 16
      · omega
      · rw [List.getD_eq_default _ _ (by omega)] at hset
        cases hset

/-- **None of the chosen patterns is divisible by the generator.** -/
theorem Chosen.remainder_ne_zero {n : Nat} {pattern : List UInt8} (hlen : pattern.length = n + 2) (hn : n ≤ 68)
    (h : Chosen n pattern) : Crc.remainder generator 0#16 (bits (inOrder n pattern)) ≠ 0#16 := by
  have hperm : (bits (inOrder n pattern)).Perm (bits pattern) := bits_perm (inOrder_perm n pattern)
  have hlength : (bits (inOrder n pattern)).length = 8 * (n + 2) := by
    rw [length_bits, (inOrder_perm n pattern).length_eq, hlen]
  cases h with
  | burst lo hi hset hwithin hwidth hside =>
    obtain ⟨start, hstart⟩ := window_inOrder hlen hwithin hwidth hside
    have hmem : true ∈ bits (inOrder n pattern) := hperm.mem_iff.2 (List.count_pos_iff.1 (Nat.pos_of_ne_zero hset))
    exact Crc.remainder_burst rfl hstart hmem
  | double hdouble =>
    exact Crc.remainder_two rfl order_generator (by omega) (by rw [hperm.count_eq]; exact hdouble)
  | odd hodd =>
    exact Crc.remainder_odd parity_generator (by decide) (by rw [hperm.count_eq]; exact hodd)

/-- **The CRC detects the errors it is chosen for**: no such corruption of an encoded frame decodes; and both sides
compute one CRC. -/
theorem corruption_detected {type : UInt8} {payload data pattern : List UInt8} {outSize : Nat}
    (hencode : encodeFrame type payload outSize = some data) (hlen : data.length = pattern.length + 1)
    (hchosen : Chosen (4 + payload.length) pattern) :
    (∀ frame, decodeFrame (corrupt data pattern) ≠ .ok frame) ∧
      ∀ bytes, PiZero.crc16_ccitt_false bytes = (crc16 bytes).toNat := by
  unfold encodeFrame at hencode
  split at hencode
  · cases hencode
  rename_i haccepted
  cases hencode
  simp only [Bool.or_eq_true, not_or, decide_eq_true_eq] at haccepted
  obtain ⟨⟨hmax, -⟩, -⟩ := haccepted
  unfold protocolMaxPayload at hmax
  rw [length_frameBytes] at hlen
  refine ⟨fun frame hdecode => ?_, PiZero.crc16_ccitt_false_eq⟩
  exact hchosen.remainder_ne_zero (by omega) (by omega) (undetected (by omega) hdecode)

/-- A PING with the lowest bit of its CRC flipped: the hypotheses are met. -/
theorem corruption_detected_ping :
    decodeFrame (corrupt (frameBytes MsgType.ping.byte []) [0, 0, 0, 0, 1, 0]) ≠ .ok ⟨MsgType.ping.byte, []⟩ :=
  (corruption_detected (show encodeFrame MsgType.ping.byte [] 71 = some (frameBytes MsgType.ping.byte []) by
    simp [encodeFrame, typeKnown, MsgType.ofByte?_byte, protocolMaxPayload, protocolHeaderLen, protocolCrcLen])
    (length_frameBytes _ _) (Chosen.odd (by decide))).1 _

end Link
end PicoRecorder
