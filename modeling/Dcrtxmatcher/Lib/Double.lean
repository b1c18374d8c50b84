import Mathlib.Data.Int.Log
import Mathlib.Data.Rat.Floor
import Mathlib.Algebra.Order.Field.Power
import Mathlib.Tactic.Linarith
import Mathlib.Tactic.Positivity

/-! Rounding to double precision, on exact rationals.

A double holds 53 significant bits; a value between two of them goes to the
nearer, and to the even one at a tie. `double` is that rounding with an unbounded
exponent, which is what the conversion of an integer and a division return as
long as they neither overflow nor underflow. It is monotone (`double_mono`), so a
comparison of rounded values never reverses a comparison of exact ones. -/
namespace Dcrtxmatcher.Lib

/-- The nearest integer, the even one at a tie. -/
def roundEven (x : ℚ) : ℤ :=
  let k := ⌊x⌋
  if x - k < 1 / 2 then k else if 1 / 2 < x - k then k + 1 else k + k % 2

@[simp] theorem roundEven_intCast (k : ℤ) : roundEven (k : ℚ) = k := by
  simp [roundEven]

theorem floor_le_roundEven (x : ℚ) : ⌊x⌋ ≤ roundEven x := by
  simp only [roundEven]
  split_ifs <;> omega

theorem roundEven_le_floor_add_one (x : ℚ) : roundEven x ≤ ⌊x⌋ + 1 := by
  simp only [roundEven]
  split_ifs <;> omega

theorem roundEven_mono {x y : ℚ} (h : x ≤ y) : roundEven x ≤ roundEven y := by
  rcases (Int.floor_mono h).lt_or_eq with hlt | heq
  · have hx := roundEven_le_floor_add_one x
    have hy := floor_le_roundEven y
    omega
  · simp only [roundEven, heq]
    split_ifs <;> first | omega | (exfalso; linarith)

theorem roundEven_neg (x : ℚ) : roundEven (-x) = -roundEven x := by
  by_cases hx : ((⌊x⌋ : ℤ) : ℚ) = x
  · rw [← hx, ← Int.cast_neg, roundEven_intCast, roundEven_intCast]
  · have hlo := lt_of_le_of_ne (Int.floor_le x) hx
    have hhi := Int.lt_floor_add_one x
    have hfloor : ⌊-x⌋ = -⌊x⌋ - 1 := by
      rw [Int.floor_eq_iff]
      push_cast
      constructor <;> linarith
    simp only [roundEven, hfloor]
    push_cast
    split_ifs <;> first | omega | (exfalso; linarith)

/-- The spacing of the doubles around `x`. -/
def ulp (x : ℚ) : ℚ := 2 ^ (Int.log 2 |x| - 52)

theorem ulp_pos (x : ℚ) : 0 < ulp x := zpow_pos (by norm_num) _

/-- The nearest double. -/
def double (x : ℚ) : ℚ := roundEven (x / ulp x) * ulp x

@[simp] theorem double_zero : double 0 = 0 := by
  simp [double, show roundEven 0 = 0 from roundEven_intCast 0]

theorem double_neg (x : ℚ) : double (-x) = -double x := by
  simp only [double, ulp, abs_neg, neg_div, roundEven_neg]
  push_cast
  ring

theorem ulp_scale (x : ℚ) (k : ℕ) : 2 ^ (52 + k) * ulp x = 2 ^ (Int.log 2 |x| + k) := by
  rw [ulp, ← zpow_natCast, ← zpow_add₀ (by norm_num)]
  congr 1
  push_cast
  ring

/-- A positive value stays within its binade when rounded. -/
theorem double_binade {x : ℚ} (hx : 0 < x) :
    (2 : ℚ) ^ Int.log 2 x ≤ double x ∧ double x ≤ 2 ^ (Int.log 2 x + 1) := by
  have hpos := ulp_pos x
  have hlo : ((2 : ℕ) : ℚ) ^ Int.log 2 x ≤ x := Int.zpow_log_le_self (by norm_num) hx
  have hhi : x < ((2 : ℕ) : ℚ) ^ (Int.log 2 x + 1) := Int.lt_zpow_succ_log_self (by norm_num) x
  have h0 : (4503599627370496 : ℤ) * ulp x = 2 ^ Int.log 2 x := by
    have := ulp_scale x 0
    norm_num [abs_of_pos hx] at this ⊢
    exact this
  have h1 : (9007199254740992 : ℤ) * ulp x = 2 ^ (Int.log 2 x + 1) := by
    have := ulp_scale x 1
    norm_num [abs_of_pos hx] at this ⊢
    exact this
  push_cast at hlo hhi
  constructor
  · have h : ((4503599627370496 : ℤ) : ℚ) ≤ x / ulp x := by
      rw [le_div_iff₀ hpos]
      linarith
    have hround := roundEven_mono h
    rw [roundEven_intCast] at hround
    rw [← h0, double]
    exact mul_le_mul_of_nonneg_right (Int.cast_le.mpr hround) hpos.le
  · have h : x / ulp x ≤ ((9007199254740992 : ℤ) : ℚ) := by
      rw [div_le_iff₀ hpos]
      linarith
    have hround := roundEven_mono h
    rw [roundEven_intCast] at hround
    rw [← h1, double]
    exact mul_le_mul_of_nonneg_right (Int.cast_le.mpr hround) hpos.le

theorem double_nonneg {x : ℚ} (hx : 0 ≤ x) : 0 ≤ double x := by
  rcases hx.eq_or_lt with rfl | hx
  · simp
  · exact (zpow_pos (by norm_num : (0 : ℚ) < 2) _).le.trans (double_binade hx).1

private theorem double_mono_pos {x y : ℚ} (hx : 0 < x) (h : x ≤ y) : double x ≤ double y := by
  have hy : 0 < y := hx.trans_le h
  rcases (Int.log_mono_right (b := 2) hx h).lt_or_eq with hlt | heq
  · calc double x ≤ 2 ^ (Int.log 2 x + 1) := (double_binade hx).2
      _ ≤ 2 ^ Int.log 2 y := zpow_le_zpow_right₀ (by norm_num) hlt
      _ ≤ double y := (double_binade hy).1
  · have hulp : ulp x = ulp y := by rw [ulp, ulp, abs_of_pos hx, abs_of_pos hy, heq]
    have hpos := ulp_pos y
    rw [double, double, hulp]
    refine mul_le_mul_of_nonneg_right ?_ hpos.le
    exact_mod_cast roundEven_mono (div_le_div_of_nonneg_right h hpos.le)

/-- Rounding is monotone. -/
theorem double_mono {x y : ℚ} (h : x ≤ y) : double x ≤ double y := by
  rcases lt_or_ge 0 x with hx | hx
  · exact double_mono_pos hx h
  · rcases lt_or_ge y 0 with hy | hy
    · have := double_mono_pos (neg_pos.mpr hy) (neg_le_neg h)
      rw [double_neg, double_neg] at this
      exact neg_le_neg_iff.mp this
    · have hx' : double x ≤ 0 := by
        have := double_nonneg (neg_nonneg.mpr hx)
        rwa [double_neg, neg_nonneg] at this
      exact hx'.trans (double_nonneg hy)

/-- Rounding to an integer moves by half a unit at most. -/
theorem abs_roundEven_sub_le (x : ℚ) : |(roundEven x : ℚ) - x| ≤ 1 / 2 := by
  have hlo := Int.floor_le x
  have hhi := Int.lt_floor_add_one x
  simp only [roundEven]
  rw [abs_le]
  split_ifs with hless hmore
  · constructor <;> linarith
  · push_cast
    constructor <;> linarith
  · have htie : x - ⌊x⌋ = 1 / 2 := le_antisymm (not_lt.mp hmore) (not_lt.mp hless)
    have hparity : ((⌊x⌋ % 2 : ℤ) : ℚ) = 0 ∨ ((⌊x⌋ % 2 : ℤ) : ℚ) = 1 := by
      rcases Int.emod_two_eq_zero_or_one ⌊x⌋ with h | h <;> simp [h]
    push_cast
    rcases hparity with h | h <;> rw [h] <;> constructor <;> linarith

/-- Below `2 ^ (k + 1)` the doubles are at most `2 ^ (k - 52)` apart. -/
theorem ulp_le {x : ℚ} {k : ℕ} (h : |x| < 2 ^ (k + 1)) : ulp x ≤ 2 ^ ((k : ℤ) - 52) := by
  apply zpow_le_zpow_right₀ (by norm_num)
  rw [sub_le_sub_iff_right]
  rcases (abs_nonneg x).eq_or_lt with hzero | hpos
  · rw [← hzero, Int.log_zero_right]
    exact Int.natCast_nonneg k
  · have hlog : |x| < ((2 : ℕ) : ℚ) ^ ((k : ℤ) + 1) := by exact_mod_cast h
    rw [Int.lt_zpow_iff_log_lt (by norm_num) hpos] at hlog
    omega

/-- Rounding moves by half the spacing at most. -/
theorem abs_double_sub_le (x : ℚ) : |double x - x| ≤ ulp x / 2 := by
  have hpos := ulp_pos x
  have hround := abs_roundEven_sub_le (x / ulp x)
  calc |double x - x| = |roundEven (x / ulp x) - x / ulp x| * ulp x := by
        rw [← abs_of_pos hpos, ← abs_mul, abs_of_pos hpos, sub_mul, div_mul_cancel₀ x hpos.ne', double]
    _ ≤ 1 / 2 * ulp x := mul_le_mul_of_nonneg_right hround hpos.le
    _ = ulp x / 2 := by ring

/-- An integer of 53 bits is a double. -/
theorem double_intCast {n : ℤ} (h : |n| < 2 ^ 53) : double n = n := by
  have hpos := ulp_pos (n : ℚ)
  obtain ⟨k, hk⟩ : ∃ k : ℕ, Int.log 2 |(n : ℚ)| - 52 = -(k : ℤ) := by
    refine ⟨(52 - Int.log 2 |(n : ℚ)|).toNat, ?_⟩
    rcases (abs_nonneg (n : ℚ)).eq_or_lt with hzero | hn
    · rw [← hzero, Int.log_zero_right]
      rfl
    · have hlog : |(n : ℚ)| < ((2 : ℕ) : ℚ) ^ (53 : ℤ) := by exact_mod_cast h
      rw [Int.lt_zpow_iff_log_lt (by norm_num) hn] at hlog
      omega
  have hint : (n : ℚ) / ulp n = ((n * 2 ^ k : ℤ) : ℚ) := by
    rw [ulp, hk, zpow_neg, zpow_natCast, div_inv_eq_mul]
    push_cast
    rfl
  rw [double, hint, roundEven_intCast, ← hint, div_mul_cancel₀ _ hpos.ne']

end Dcrtxmatcher.Lib
