import Mathlib.Data.Int.Log
import Mathlib.Data.Rat.Floor
import Mathlib.Tactic.Linarith
import Mathlib.Tactic.Positivity
import Mathlib.Tactic.Ring
/-!
# Binary64 — double precision on rationals

A finite double is a rational; `double?` rounds to the nearest one with ties to even, and is `none` where the result is
an infinity.  Integers below `2 ^ 53` are doubles, so converting them and dividing them by one is exact.  Rounding keeps
the order (`nearest_mono`), and what it changes is a bounded part of the number (`nearest_accurate`).  `general` is the
text of a double with six significant digits.
-/
namespace PicoRecorder
namespace Lib
namespace Binary64

/-- The nearest integer, the even one of two. -/
def roundEven (q : ℚ) : ℤ :=
  let rest := q - ⌊q⌋
  if rest < 1 / 2 then ⌊q⌋ else if 1 / 2 < rest then ⌊q⌋ + 1 else if ⌊q⌋ % 2 = 0 then ⌊q⌋ else ⌊q⌋ + 1

/-- The exponent of the last place: 53 significant bits, down to the subnormals. -/
def lastPlace (q : ℚ) : ℤ := max (Int.log 2 |q| - 52) (-1074)

def nearest (q : ℚ) : ℚ := roundEven (q / 2 ^ lastPlace q) * 2 ^ lastPlace q

def double? (q : ℚ) : Option ℚ := if |nearest q| < 2 ^ 1024 then some (nearest q) else none

/-- Division of doubles. -/
def divide? (x y : ℚ) : Option ℚ := double? (x / y)

/-- The six significant digits of a positive number as one integer, and the exponent of the first. -/
def significant (q : ℚ) : ℤ × ℤ :=
  let exponent := Int.log 10 q
  let digits := roundEven (q * 10 ^ (5 - exponent))
  if digits = 10 ^ 6 then (10 ^ 5, exponent + 1) else (digits, exponent)

/-- Digits with a point behind the first `n` of them; zeros at the end of the fraction are left out. -/
def pointed (n : ℕ) (digits : List Char) : List Char :=
  let fraction := (digits.drop n).reverse.dropWhile (· = '0') |>.reverse
  digits.take n ++ (if fraction = [] then [] else '.' :: fraction)

/-- Python's format `g`: from 10⁻⁴ up to 10⁶ the number as it is, else one digit before the point and an exponent. -/
def generalChars (q : ℚ) : List Char :=
  if q = 0 then ['0']
  else
    let (n, exponent) := significant |q|
    let digits := Nat.toDigits 10 n.toNat
    let sign := if q < 0 then ['-'] else []
    if exponent < -4 ∨ 6 ≤ exponent then
      let power := Nat.toDigits 10 exponent.natAbs
      sign ++ pointed 1 digits ++ ['e', if exponent < 0 then '-' else '+'] ++
        (if power.length < 2 then '0' :: power else power)
    else if exponent < 0 then sign ++ pointed 1 (List.replicate exponent.natAbs '0' ++ digits)
    else sign ++ pointed (exponent.toNat + 1) digits

def general (q : ℚ) : String := String.ofList (generalChars q)

example : generalChars 500 = ['5', '0', '0'] ∧ generalChars (nearest (1 / 10)) = ['0', '.', '1'] ∧
    generalChars (nearest (2469131 / 2)) = ['1', '.', '2', '3', '4', '5', '7', 'e', '+', '0', '6'] := by
  decide +kernel

theorem roundEven_intCast (n : ℤ) : roundEven n = n := by
  unfold roundEven
  simp only [Int.floor_intCast, sub_self]
  rw [if_pos (by norm_num)]

theorem lastPlace_natCast {n : ℕ} (h : n < 2 ^ 53) : lastPlace n ≤ 0 := by
  have hlog : Nat.log 2 n ≤ 52 := Nat.lt_succ_iff.1 (Nat.log_lt_of_lt_pow' (by decide) h)
  unfold lastPlace
  rw [Nat.abs_cast, Int.log_natCast]
  omega

/-- **An integer of 53 bits is a double.** -/
theorem nearest_natCast {n : ℕ} (h : n < 2 ^ 53) : nearest n = n := by
  obtain ⟨k, hk⟩ : ∃ k : ℕ, lastPlace n = -(k : ℤ) := ⟨(-lastPlace n).toNat, by
    have := lastPlace_natCast h
    omega⟩
  have hint : (n : ℚ) / 2 ^ (-(k : ℤ)) = ((n * 2 ^ k : ℤ) : ℚ) := by
    rw [zpow_neg, zpow_natCast, div_inv_eq_mul]
    push_cast
    rfl
  unfold nearest
  rw [hk, hint, roundEven_intCast, zpow_neg, zpow_natCast]
  push_cast
  rw [mul_assoc, mul_inv_cancel₀ (by positivity), mul_one]

theorem double?_natCast {n : ℕ} (h : n < 2 ^ 53) : double? n = some (n : ℚ) := by
  unfold double?
  rw [nearest_natCast h, if_pos]
  rw [Nat.abs_cast]
  calc (n : ℚ) < 2 ^ 53 := by exact_mod_cast h
    _ ≤ 2 ^ 1024 := pow_le_pow_right₀ (by norm_num) (by norm_num)

theorem divide?_one {n : ℕ} (h : n < 2 ^ 53) : divide? n 1 = some (n : ℚ) := by
  rw [divide?, div_one, double?_natCast h]

/-! ### Order and error -/

/-- Rounding to an integer is off by a half at most. -/
theorem roundEven_error (q : ℚ) : |(roundEven q : ℚ) - q| ≤ 1 / 2 := by
  have hlow := Int.floor_le q
  have hhigh := Int.lt_floor_add_one q
  unfold roundEven
  dsimp only
  rw [abs_le]
  split_ifs <;> push_cast <;> constructor <;> linarith

theorem roundEven_mono {q r : ℚ} (h : q ≤ r) : roundEven q ≤ roundEven r := by
  by_contra hlt
  have hstep : ((roundEven r : ℤ) : ℚ) + 1 ≤ roundEven q := by exact_mod_cast not_le.1 hlt
  have hq := abs_le.1 (roundEven_error q)
  have hr := abs_le.1 (roundEven_error r)
  -- Both errors are a half then, so it is one rational that is rounded.
  have heq : q = r := by linarith
  rw [heq] at hlt
  exact hlt le_rfl

theorem lastPlace_mono {q r : ℚ} (hq : 0 < q) (h : q ≤ r) : lastPlace q ≤ lastPlace r := by
  have hlog : Int.log 2 |q| ≤ Int.log 2 |r| := by
    rw [abs_of_pos hq, abs_of_pos (hq.trans_le h)]
    exact Int.log_mono_right hq h
  unfold lastPlace
  omega

theorem nearest_error (q : ℚ) : |nearest q - q| ≤ 2 ^ lastPlace q / 2 := by
  have hpos : (0 : ℚ) < 2 ^ lastPlace q := zpow_pos (by norm_num) _
  have herror := roundEven_error (q / 2 ^ lastPlace q)
  have hscaled : nearest q - q = (roundEven (q / 2 ^ lastPlace q) - q / 2 ^ lastPlace q) * 2 ^ lastPlace q := by
    rw [sub_mul, div_mul_cancel₀ q hpos.ne']
    rfl
  rw [hscaled, abs_mul, abs_of_pos hpos]
  calc |(roundEven (q / 2 ^ lastPlace q) : ℚ) - q / 2 ^ lastPlace q| * 2 ^ lastPlace q ≤ 1 / 2 * 2 ^ lastPlace q :=
        mul_le_mul_of_nonneg_right herror hpos.le
    _ = 2 ^ lastPlace q / 2 := by ring

/-- A power of two that is a double bounds what is rounded on its side. -/
theorem nearest_le_pow {q : ℚ} {k : ℤ} (hk : lastPlace q ≤ k) (h : q ≤ 2 ^ k) : nearest q ≤ 2 ^ k := by
  have hpos : (0 : ℚ) < 2 ^ lastPlace q := zpow_pos (by norm_num) _
  obtain ⟨n, hn⟩ : ∃ n : ℕ, k = lastPlace q + n := ⟨(k - lastPlace q).toNat, by omega⟩
  have hint : (2 : ℚ) ^ k = ((2 ^ n : ℤ) : ℚ) * 2 ^ lastPlace q := by
    rw [hn, zpow_add₀ (by norm_num), zpow_natCast, mul_comm]
    push_cast
    rfl
  have hle : roundEven (q / 2 ^ lastPlace q) ≤ 2 ^ n := by
    rw [← roundEven_intCast (2 ^ n)]
    refine roundEven_mono ?_
    rw [div_le_iff₀ hpos, ← hint]
    exact h
  rw [nearest, hint]
  exact mul_le_mul_of_nonneg_right (by exact_mod_cast hle) hpos.le

theorem pow_le_nearest {q : ℚ} {k : ℤ} (hk : lastPlace q ≤ k) (h : 2 ^ k ≤ q) : 2 ^ k ≤ nearest q := by
  have hpos : (0 : ℚ) < 2 ^ lastPlace q := zpow_pos (by norm_num) _
  obtain ⟨n, hn⟩ : ∃ n : ℕ, k = lastPlace q + n := ⟨(k - lastPlace q).toNat, by omega⟩
  have hint : (2 : ℚ) ^ k = ((2 ^ n : ℤ) : ℚ) * 2 ^ lastPlace q := by
    rw [hn, zpow_add₀ (by norm_num), zpow_natCast, mul_comm]
    push_cast
    rfl
  have hle : 2 ^ n ≤ roundEven (q / 2 ^ lastPlace q) := by
    rw [← roundEven_intCast (2 ^ n)]
    refine roundEven_mono ?_
    rw [le_div_iff₀ hpos, ← hint]
    exact h
  rw [nearest, hint]
  exact mul_le_mul_of_nonneg_right (by exact_mod_cast hle) hpos.le

theorem nearest_mono_pos {q r : ℚ} (hq : 0 < q) (h : q ≤ r) : nearest q ≤ nearest r := by
  rcases (lastPlace_mono hq h).eq_or_lt with heq | hlt
  · have hpos : (0 : ℚ) < 2 ^ lastPlace r := zpow_pos (by norm_num) _
    rw [nearest, nearest, heq]
    refine mul_le_mul_of_nonneg_right ?_ hpos.le
    exact_mod_cast roundEven_mono (div_le_div_of_nonneg_right h hpos.le)
  · have hr : 0 < r := hq.trans_le h
    -- The power of two where the exponent of the last place goes up lies between them.
    have hpow : lastPlace r = Int.log 2 r - 52 ∧ Int.log 2 q < Int.log 2 r := by
      unfold lastPlace at hlt ⊢
      rw [abs_of_pos hq, abs_of_pos hr] at hlt
      rw [abs_of_pos hr]
      omega
    have hbelow : q ≤ 2 ^ Int.log 2 r := by
      have hlog : q < 2 ^ (Int.log 2 q + 1) := Int.lt_zpow_succ_log_self (by norm_num) q
      exact hlog.le.trans (zpow_le_zpow_right₀ (by norm_num) (by omega))
    have habove : (2 : ℚ) ^ Int.log 2 r ≤ r := Int.zpow_log_le_self (by norm_num) hr
    calc nearest q ≤ 2 ^ Int.log 2 r := nearest_le_pow (by omega) hbelow
      _ ≤ nearest r := pow_le_nearest (by omega) habove

@[simp] theorem nearest_zero : nearest 0 = 0 := by
  have hzero : roundEven 0 = 0 := by simpa using roundEven_intCast 0
  simp [nearest, hzero]

theorem nearest_nonneg {q : ℚ} (h : 0 ≤ q) : 0 ≤ nearest q := by
  have hpos : (0 : ℚ) < 2 ^ lastPlace q := zpow_pos (by norm_num) _
  have hround : roundEven 0 ≤ roundEven (q / 2 ^ lastPlace q) := roundEven_mono (by positivity)
  have hzero : roundEven 0 = 0 := by simpa using roundEven_intCast 0
  rw [hzero] at hround
  exact mul_nonneg (by exact_mod_cast hround) hpos.le

/-- **Rounding to nearest keeps the order.** -/
theorem nearest_mono {q r : ℚ} (hq : 0 ≤ q) (h : q ≤ r) : nearest q ≤ nearest r := by
  rcases hq.eq_or_lt with rfl | hpos
  · rw [nearest_zero]
    exact nearest_nonneg h
  · exact nearest_mono_pos hpos h

/-- The error of a number that is not subnormal. -/
theorem nearest_relative {q : ℚ} (h : 1 ≤ q) : |nearest q - q| ≤ q / 2 ^ 53 := by
  have hq : 0 < q := zero_lt_one.trans_le h
  have hlog : 0 ≤ Int.log 2 q := by
    have := Int.log_mono_right (b := 2) zero_lt_one h
    rwa [Int.log_one_right] at this
  have hplace : lastPlace q = Int.log 2 q - 52 := by
    unfold lastPlace
    rw [abs_of_pos hq]
    omega
  have hbelow : (2 : ℚ) ^ Int.log 2 q ≤ q := Int.zpow_log_le_self (by norm_num) hq
  calc |nearest q - q| ≤ 2 ^ lastPlace q / 2 := nearest_error q
    _ = 2 ^ Int.log 2 q / 2 ^ 53 := by
        rw [hplace, zpow_sub₀ (by norm_num), div_div]
        norm_num
    _ ≤ q / 2 ^ 53 := div_le_div_of_nonneg_right hbelow (by positivity)

/-- **The error of rounding**, relative to the number and down to nothing. -/
theorem nearest_accurate {q : ℚ} (h : 0 ≤ q) : |nearest q - q| ≤ (q + 1) / 2 ^ 53 := by
  by_cases hone : 1 ≤ q
  · refine (nearest_relative hone).trans (div_le_div_of_nonneg_right ?_ (by positivity))
    linarith
  · have hplace : lastPlace q ≤ -52 := by
      rcases h.eq_or_lt with rfl | hpos
      · simp [lastPlace]
      · have hlog : Int.log 2 q ≤ 0 := by
          have := Int.log_mono_right (b := 2) hpos (not_le.1 hone).le
          rwa [Int.log_one_right] at this
        unfold lastPlace
        rw [abs_of_pos hpos]
        omega
    have hpow : (2 : ℚ) ^ lastPlace q ≤ 2 ^ (-52 : ℤ) := zpow_le_zpow_right₀ (by norm_num) hplace
    have hhalf : (2 : ℚ) ^ (-52 : ℤ) / 2 = 1 / 2 ^ 53 := by norm_num
    calc |nearest q - q| ≤ 2 ^ lastPlace q / 2 := nearest_error q
      _ ≤ 2 ^ (-52 : ℤ) / 2 := div_le_div_of_nonneg_right hpow (by norm_num)
      _ = 1 / 2 ^ 53 := hhalf
      _ ≤ (q + 1) / 2 ^ 53 := div_le_div_of_nonneg_right (by linarith) (by positivity)

theorem double?_some {q a : ℚ} (h : double? q = some a) : a = nearest q := by
  unfold double? at h
  split at h
  · exact (Option.some.inj h).symm
  · cases h

/-- A smaller number has no overflow either. -/
theorem double?_isSome_of_le {q r b : ℚ} (hq : 0 ≤ q) (h : q ≤ r) (hr : double? r = some b) :
    double? q = some (nearest q) := by
  unfold double? at hr
  split at hr
  · rename_i hfinite
    rw [abs_of_nonneg (nearest_nonneg (hq.trans h))] at hfinite
    rw [double?, if_pos]
    rw [abs_of_nonneg (nearest_nonneg hq)]
    exact (nearest_mono hq h).trans_lt hfinite
  · cases hr

end Binary64
end Lib
end PicoRecorder
