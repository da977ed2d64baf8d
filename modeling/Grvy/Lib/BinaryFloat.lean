import Mathlib.Data.Int.Log
import Mathlib.Data.Rat.Floor
import Mathlib.Algebra.Order.Field.Power
import Mathlib.Tactic.Linarith
import Mathlib.Tactic.NormNum

/-!
Rounding to binary floating point, to nearest with ties to even.

A format has a number of significant bits and a least exponent of the last place,
where it becomes subnormal. Its largest number is left out: the formats are used on
numbers far below it.
-/

namespace Grvy.Lib

/-- A way to round exact results. -/
structure Rounding where
  round : ℚ → ℚ
  round_zero : round 0 = 0

/-- Exact arithmetic. -/
def Rounding.exact : Rounding := ⟨id, rfl⟩

/-! ### The nearest integer -/

/-- The nearest integer, the even one of two. -/
def roundHalfEven (x : ℚ) : ℤ :=
  if 2 * Int.fract x < 1 then ⌊x⌋
  else if 1 < 2 * Int.fract x then ⌊x⌋ + 1
  else if Even ⌊x⌋ then ⌊x⌋
  else ⌊x⌋ + 1

theorem floor_le_roundHalfEven (x : ℚ) : ⌊x⌋ ≤ roundHalfEven x := by
  rw [roundHalfEven]
  split_ifs <;> omega

theorem roundHalfEven_le_floor_add_one (x : ℚ) : roundHalfEven x ≤ ⌊x⌋ + 1 := by
  rw [roundHalfEven]
  split_ifs <;> omega

@[simp] theorem roundHalfEven_intCast (n : ℤ) : roundHalfEven n = n := by
  simp [roundHalfEven]

/-- Rounding passes over no integer. -/
theorem le_roundHalfEven {n : ℤ} {x : ℚ} (h : n ≤ x) : n ≤ roundHalfEven x :=
  (Int.le_floor.mpr h).trans (floor_le_roundHalfEven x)

theorem roundHalfEven_le {n : ℤ} {x : ℚ} (h : x ≤ n) : roundHalfEven x ≤ n := by
  rcases h.lt_or_eq with hlt | rfl
  · have hfloor : ⌊x⌋ < n := Int.floor_lt.mpr hlt
    have := roundHalfEven_le_floor_add_one x
    omega
  · rw [roundHalfEven_intCast]

/-- An even integer is rounded to from the middle on. -/
theorem le_roundHalfEven_iff {n : ℤ} (hn : Even n) {x : ℚ} :
    n ≤ roundHalfEven x ↔ (n : ℚ) - 1 / 2 ≤ x := by
  have hfract := Int.floor_add_fract x
  have hpos := Int.fract_nonneg x
  have hlt := Int.fract_lt_one x
  rcases lt_trichotomy (⌊x⌋ + 1) n with hless | heq | hmore
  · have hcast : (⌊x⌋ : ℚ) + 2 ≤ n := by
      exact_mod_cast (by omega : ⌊x⌋ + 2 ≤ n)
    have := roundHalfEven_le_floor_add_one x
    refine iff_of_false (by omega) (by linarith)
  · have hcast : (⌊x⌋ : ℚ) + 1 = n := by exact_mod_cast heq
    have hodd : ¬Even ⌊x⌋ := by
      rw [← heq, Int.even_add_one] at hn
      exact hn
    rw [roundHalfEven]
    split_ifs with hdown
    · exact iff_of_false (by omega) (by linarith)
    · exact iff_of_true (by omega) (by linarith)
    · exact iff_of_true (by omega) (by linarith)
  · have hle : (n : ℚ) ≤ ⌊x⌋ := by exact_mod_cast (by omega : n ≤ ⌊x⌋)
    refine iff_of_true ?_ (by linarith)
    have := floor_le_roundHalfEven x
    omega

/-! ### Formats -/

structure BinaryFormat where
  /-- significant bits -/
  precision : ℕ
  /-- the exponent of the last place of a subnormal number -/
  minExponent : ℤ

namespace BinaryFormat

def binary32 : BinaryFormat := ⟨24, -149⟩

def binary64 : BinaryFormat := ⟨53, -1074⟩

variable {fmt : BinaryFormat} {x : ℚ} {k : ℤ}

/-- The exponent of the last place of what is rounded. -/
def lastPlace (fmt : BinaryFormat) (x : ℚ) : ℤ :=
  max (Int.log 2 |x| + 1 - fmt.precision) fmt.minExponent

/-- Round to nearest. -/
def round (fmt : BinaryFormat) (x : ℚ) : ℚ :=
  roundHalfEven (x / 2 ^ fmt.lastPlace x) * 2 ^ fmt.lastPlace x

@[simp] theorem round_zero (fmt : BinaryFormat) : fmt.round 0 = 0 := by
  have hzero : roundHalfEven 0 = 0 := roundHalfEven_intCast 0
  rw [round, zero_div, hzero, Int.cast_zero, zero_mul]

def rounding (fmt : BinaryFormat) : Rounding := ⟨fmt.round, fmt.round_zero⟩

/-- A power of two down to the last place is a whole number of last places. -/
theorem zpow_div_zpow (hk : fmt.lastPlace x ≤ k) :
    (2 : ℚ) ^ k / 2 ^ fmt.lastPlace x = ((2 ^ (k - fmt.lastPlace x).toNat : ℤ) : ℚ) := by
  rw [← zpow_sub₀ two_ne_zero, Int.cast_pow, Int.cast_two, ← zpow_natCast,
    Int.toNat_of_nonneg (sub_nonneg.mpr hk)]

theorem le_round_of_zpow_le (hk : fmt.lastPlace x ≤ k) (hx : 2 ^ k ≤ x) :
    2 ^ k ≤ fmt.round x := by
  have hpos : (0 : ℚ) < 2 ^ fmt.lastPlace x := zpow_pos two_pos _
  rw [round, ← div_le_iff₀ hpos, zpow_div_zpow hk, Int.cast_le]
  apply le_roundHalfEven
  rw [← zpow_div_zpow hk]
  exact div_le_div_of_nonneg_right hx hpos.le

theorem round_le_of_le_zpow (hk : fmt.lastPlace x ≤ k) (hx : x ≤ 2 ^ k) :
    fmt.round x ≤ 2 ^ k := by
  have hpos : (0 : ℚ) < 2 ^ fmt.lastPlace x := zpow_pos two_pos _
  rw [round, ← le_div_iff₀ hpos, zpow_div_zpow hk, Int.cast_le]
  apply roundHalfEven_le
  rw [← zpow_div_zpow hk]
  exact div_le_div_of_nonneg_right hx hpos.le

/-! ### Numbers that are rounded to one -/

section One

variable (hprecision : 0 < fmt.precision) (hmin : fmt.minExponent ≤ -fmt.precision)

include hprecision in
theorem lastPlace_le (h : Int.log 2 |x| ≤ k) (hle : fmt.minExponent ≤ k) :
    fmt.lastPlace x ≤ k := max_le (by omega) hle

include hprecision hmin

/-- The last place of a number divides its first. -/
theorem one_le_round (hone : 1 ≤ x) : 1 ≤ fmt.round x := by
  have hpos : 0 < x := zero_lt_one.trans_le hone
  have habs : |x| = x := abs_of_pos hpos
  have hlog : 0 ≤ Int.log 2 |x| := by
    rw [habs, Int.log_of_one_le_right 2 hone]
    exact Int.natCast_nonneg _
  have hpow : (2 : ℚ) ^ Int.log 2 |x| ≤ x := by
    rw [habs]
    exact_mod_cast Int.zpow_log_le_self (b := 2) (by decide) hpos
  exact (one_le_zpow₀ one_le_two hlog).trans
    (le_round_of_zpow_le (lastPlace_le hprecision le_rfl (by omega)) hpow)

theorem round_lt_one (hx : 0 ≤ x) (hhalf : x < 1 / 2) : fmt.round x < 1 := by
  rcases hx.lt_or_eq with hpos | rfl
  · have hlt : x < 2 ^ (-1 : ℤ) := by
      norm_num
      exact hhalf
    have hlog : Int.log 2 |x| < -1 := by
      rw [abs_of_pos hpos]
      exact (Int.lt_zpow_iff_log_lt (by decide) hpos).mp (by exact_mod_cast hlt)
    refine (round_le_of_le_zpow (lastPlace_le hprecision hlog.le (by omega)) hlt.le).trans_lt ?_
    norm_num
  · rw [round_zero]
    exact zero_lt_one

omit hprecision in
/-- From a half on the last place is that of the last number below one. -/
theorem lastPlace_of_half_le (hhalf : 1 / 2 ≤ x) (hone : x < 1) :
    fmt.lastPlace x = -(fmt.precision : ℤ) := by
  have hpos : 0 < x := by linarith
  have hlog : Int.log 2 |x| = -1 := by
    rw [abs_of_pos hpos]
    apply le_antisymm
    · have h := (Int.lt_zpow_iff_log_lt (b := 2) (x := 0) (by decide) hpos).mp (by simpa)
      omega
    · refine (Int.zpow_le_iff_le_log (b := 2) (by decide) hpos).mp ?_
      norm_num
      exact hhalf
  rw [lastPlace, hlog, max_eq_left] <;> omega

/-- One is rounded to from the middle between it and the last number below it. -/
theorem one_le_round_iff (hx : 0 ≤ x) :
    1 ≤ fmt.round x ↔ 1 - 2 ^ (-(fmt.precision : ℤ) - 1) ≤ x := by
  have hplace : (2 : ℚ) ^ (-(fmt.precision : ℤ) - 1) ≤ 1 / 4 := by
    calc
      (2 : ℚ) ^ (-(fmt.precision : ℤ) - 1) ≤ 2 ^ (-2 : ℤ) :=
        zpow_le_zpow_right₀ one_le_two (by omega)
      _ = 1 / 4 := by norm_num
  have hpos : (0 : ℚ) < 2 ^ (-(fmt.precision : ℤ) - 1) := zpow_pos two_pos _
  rcases le_or_gt 1 x with hone | hone
  · exact iff_of_true (one_le_round hprecision hmin hone) (by linarith)
  rcases lt_or_ge x (1 / 2) with hhalf | hhalf
  · exact iff_of_false (not_le.mpr (round_lt_one hprecision hmin hx hhalf)) (by linarith)
  have hunit : (0 : ℚ) < 2 ^ (-(fmt.precision : ℤ)) := zpow_pos two_pos _
  have hscale : (1 : ℚ) / 2 ^ (-(fmt.precision : ℤ)) = ((2 ^ fmt.precision : ℤ) : ℚ) := by
    rw [zpow_neg, one_div, inv_inv, zpow_natCast, Int.cast_pow, Int.cast_two]
  have heven : Even (2 ^ fmt.precision : ℤ) := Int.even_pow.mpr ⟨even_two, by omega⟩
  rw [round, lastPlace_of_half_le hmin hhalf hone, ← div_le_iff₀ hunit, hscale,
    Int.cast_le, le_roundHalfEven_iff heven, ← hscale, le_div_iff₀ hunit, sub_mul,
    div_mul_cancel₀ _ hunit.ne', zpow_sub_one₀ two_ne_zero, one_div, mul_comm]

end One

/-- A third in decimal is below a third, and three times that is rounded up. -/
example : binary64.round (3 * binary64.round (3333333333333333 / 10 ^ 16)) = 1 := by
  decide +kernel

end BinaryFormat

end Grvy.Lib
