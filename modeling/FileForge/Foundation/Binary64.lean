import Mathlib.Data.Int.Log
import Mathlib.Data.Rat.Floor
import Mathlib.Tactic.Linarith
import Mathlib.Tactic.Positivity
import Mathlib.Tactic.Ring

/-!
# Rounding to binary64

The rational numbers that a double can be (`Representable`) and the rounding of a rational to the
nearest of them, a tie to the even significand (`rounded`), before the overflow to infinity is
looked at. `rounded_of_representable` says that a double stays as it is, `abs_rounded_sub_le` how
far any other number moves, and `rounded_mono` that the order is kept.
-/

set_option autoImplicit false
set_option relaxedAutoImplicit false

namespace FileForge.Foundation.Binary64

/-! ### The nearest integer -/

/-- The nearest integer, of two equally near ones the even one. -/
def roundHalfEven (q : ℚ) : ℤ :=
  if q - ⌊q⌋ < 1 / 2 then ⌊q⌋
  else if 1 / 2 < q - ⌊q⌋ then ⌊q⌋ + 1
  else if ⌊q⌋ % 2 = 0 then ⌊q⌋
  else ⌊q⌋ + 1

/-- It is one of the two neighbours, and the upper one only from the middle on. -/
theorem roundHalfEven_cases (q : ℚ) :
    (roundHalfEven q = ⌊q⌋ ∧ q - ⌊q⌋ ≤ 1 / 2) ∨
      (roundHalfEven q = ⌊q⌋ + 1 ∧ 1 / 2 ≤ q - ⌊q⌋) := by
  unfold roundHalfEven
  split_ifs with hlow hhigh heven
  · exact Or.inl ⟨rfl, hlow.le⟩
  · exact Or.inr ⟨rfl, hhigh.le⟩
  · exact Or.inl ⟨rfl, not_lt.mp hhigh⟩
  · exact Or.inr ⟨rfl, not_lt.mp hlow⟩

theorem abs_roundHalfEven_sub_le (q : ℚ) : |(roundHalfEven q : ℚ) - q| ≤ 1 / 2 := by
  have hfloor := Int.floor_le q
  have hnext := Int.lt_floor_add_one q
  rw [abs_le]
  rcases roundHalfEven_cases q with ⟨hround, hdistance⟩ | ⟨hround, hdistance⟩
  · rw [hround]
    constructor <;> linarith
  · rw [hround]
    push_cast
    constructor <;> linarith

@[simp] theorem roundHalfEven_intCast (n : ℤ) : roundHalfEven n = n := by
  rcases roundHalfEven_cases n with ⟨hround, -⟩ | ⟨-, hdistance⟩
  · rw [hround, Int.floor_intCast]
  · rw [Int.floor_intCast, sub_self] at hdistance
    norm_num at hdistance

theorem le_roundHalfEven {n : ℤ} {q : ℚ} (h : (n : ℚ) ≤ q) : n ≤ roundHalfEven q := by
  have hfloor : n ≤ ⌊q⌋ := Int.le_floor.mpr h
  rcases roundHalfEven_cases q with ⟨hround, -⟩ | ⟨hround, -⟩ <;> omega

theorem roundHalfEven_le {n : ℤ} {q : ℚ} (h : q ≤ n) : roundHalfEven q ≤ n := by
  rcases roundHalfEven_cases q with ⟨hround, -⟩ | ⟨hround, hdistance⟩
  · rw [hround]
    exact Int.floor_le_iff.mpr (h.trans_lt (lt_add_one _))
  · have hbelow : (⌊q⌋ : ℚ) < n := by linarith
    have hint : ⌊q⌋ < n := by exact_mod_cast hbelow
    omega

theorem roundHalfEven_mono {p q : ℚ} (h : p ≤ q) : roundHalfEven p ≤ roundHalfEven q := by
  rcases (Int.floor_le_floor h).lt_or_eq with hless | hsame
  · calc roundHalfEven p ≤ ⌊p⌋ + 1 :=
          roundHalfEven_le (by exact_mod_cast (Int.lt_floor_add_one p).le)
      _ ≤ ⌊q⌋ := hless
      _ ≤ roundHalfEven q := le_roundHalfEven (Int.floor_le q)
  · unfold roundHalfEven
    rw [hsame]
    split_ifs <;> first | omega | (exfalso; linarith)

/-! ### Doubles -/

/-- A finite double: at most fifty-three significant binary digits, none of them below the
smallest subnormal, and a magnitude below the overflow threshold. -/
def Representable (q : ℚ) : Prop :=
  ∃ significand exponent : ℤ, |significand| ≤ 2 ^ 53 ∧ -1074 ≤ exponent ∧
    q = significand * 2 ^ exponent ∧ |q| < 2 ^ 1024

/-- The exponent of the last binary digit of the doubles around a number. -/
def exponentOf (q : ℚ) : ℤ := max (Int.log 2 |q| - 52) (-1074)

/-- The nearest number with the digits of a double, as if there were no overflow. -/
def rounded (q : ℚ) : ℚ := roundHalfEven (q / 2 ^ exponentOf q) * 2 ^ exponentOf q

theorem two_zpow_pos (exponent : ℤ) : (0 : ℚ) < 2 ^ exponent := zpow_pos (by norm_num) exponent

/-- The significand before it is rounded has at most fifty-three digits. -/
theorem abs_div_exponentOf_le (q : ℚ) : |q / 2 ^ exponentOf q| ≤ (2 ^ 53 : ℤ) := by
  have hpos := two_zpow_pos (exponentOf q)
  have hlog : |q| < (2 : ℚ) ^ (Int.log 2 |q| + 1) :=
    Int.lt_zpow_succ_log_self (b := 2) (by norm_num) |q|
  have hexponent : Int.log 2 |q| + 1 ≤ 53 + exponentOf q := by
    have hmax : Int.log 2 |q| - 52 ≤ exponentOf q := le_max_left _ _
    omega
  have hpower : (2 : ℚ) ^ (Int.log 2 |q| + 1) ≤ 2 ^ (53 + exponentOf q) :=
    zpow_le_zpow_right₀ (by norm_num) hexponent
  rw [abs_div, abs_of_pos hpos, div_le_iff₀ hpos]
  calc |q| ≤ 2 ^ (53 + exponentOf q) := hlog.le.trans hpower
    _ = ((2 ^ 53 : ℤ) : ℚ) * 2 ^ exponentOf q := by
      rw [zpow_add₀ (by norm_num)]
      norm_num

theorem abs_significand_le (q : ℚ) : |roundHalfEven (q / 2 ^ exponentOf q)| ≤ 2 ^ 53 := by
  have hbounds := abs_le.mp (abs_div_exponentOf_le q)
  rw [abs_le]
  constructor
  · refine le_roundHalfEven ?_
    rw [Int.cast_neg]
    exact hbounds.1
  · exact roundHalfEven_le hbounds.2

/-- Below the overflow threshold the rounded number is a double. -/
theorem representable_rounded {q : ℚ} (h : |rounded q| < 2 ^ 1024) : Representable (rounded q) :=
  ⟨_, exponentOf q, abs_significand_le q, le_max_right _ _, rfl, h⟩

/-- A number whose digits lie on the grid of its exponent stays as it is. -/
theorem rounded_of_integral {q : ℚ} {n : ℤ} (h : q / 2 ^ exponentOf q = n) : rounded q = q := by
  rw [rounded, h, roundHalfEven_intCast, ← h]
  exact div_mul_cancel₀ q (two_zpow_pos _).ne'

/-- A double stays as it is. -/
theorem rounded_of_representable {q : ℚ} (h : Representable q) : rounded q = q := by
  obtain ⟨significand, exponent, hsignificand, hexponent, hq, -⟩ := h
  by_cases hzero : significand = 0
  · refine rounded_of_integral (n := 0) ?_
    rw [hq, hzero]
    simp
  have hpos := two_zpow_pos exponent
  have habs : |q| = |significand| * 2 ^ exponent := by
    rw [hq, abs_mul, abs_of_pos hpos, Int.cast_abs]
  have hne : |q| ≠ 0 := by
    rw [habs]
    exact mul_ne_zero (by exact_mod_cast abs_ne_zero.mpr hzero) hpos.ne'
  have hlog : (2 : ℚ) ^ Int.log 2 |q| ≤ |q| :=
    Int.zpow_log_le_self (by norm_num) (lt_of_le_of_ne (abs_nonneg q) hne.symm)
  by_cases hfull : |significand| = 2 ^ 53
  · -- the carry to fifty-four digits: a power of two, one exponent up
    have hpower : |q| = ((2 : ℕ) : ℚ) ^ (exponent + 53) := by
      rw [habs, hfull, zpow_add₀ (by norm_num)]
      push_cast
      ring
    have hexponentOf : exponentOf q = exponent + 1 := by
      rw [exponentOf, hpower, Int.log_zpow (by norm_num)]
      omega
    refine rounded_of_integral (n := significand / 2) ?_
    have heven : significand / 2 * 2 = significand := by
      refine Int.ediv_mul_cancel ?_
      rw [← dvd_abs, hfull]
      norm_num
    rw [hexponentOf, hq, zpow_add₀ (by norm_num), zpow_one, div_eq_iff (by positivity)]
    calc (significand : ℚ) * 2 ^ exponent
        = ((significand / 2 * 2 : ℤ) : ℚ) * 2 ^ exponent := by rw [heven]
      _ = ((significand / 2 : ℤ) : ℚ) * (2 ^ exponent * 2) := by
        push_cast
        ring
  · have hless : |significand| < 2 ^ 53 := lt_of_le_of_ne hsignificand hfull
    have hbelow : (2 : ℚ) ^ Int.log 2 |q| < 2 ^ (53 + exponent) := by
      refine hlog.trans_lt ?_
      rw [habs, zpow_add₀ (by norm_num)]
      refine mul_lt_mul_of_pos_right ?_ hpos
      exact_mod_cast hless
    have hlogLess : Int.log 2 |q| < 53 + exponent :=
      (zpow_lt_zpow_iff_right₀ (by norm_num)).mp hbelow
    have hdown : exponentOf q ≤ exponent := max_le (by omega) hexponent
    obtain ⟨shift, hshift⟩ := Int.eq_ofNat_of_zero_le (Int.sub_nonneg_of_le hdown)
    refine rounded_of_integral (n := significand * 2 ^ shift) ?_
    have hsplit : exponent = exponentOf q + shift := by omega
    rw [hq, div_eq_iff (two_zpow_pos _).ne']
    rw [hq] at hsplit
    conv_lhs => rw [hsplit]
    rw [zpow_add₀ (by norm_num), zpow_natCast]
    push_cast
    ring

/-- An integer of at most fifty-three digits is a double. -/
theorem representable_intCast {n : ℤ} (h : |n| ≤ 2 ^ 53) : Representable n := by
  refine ⟨n, 0, h, by norm_num, by simp, ?_⟩
  have hcast : |(n : ℚ)| ≤ 2 ^ 53 := by exact_mod_cast h
  exact hcast.trans_lt (pow_lt_pow_right₀ (by norm_num) (by norm_num))

theorem Representable.neg {q : ℚ} (h : Representable q) : Representable (-q) := by
  obtain ⟨significand, exponent, hsignificand, hexponent, hq, hbound⟩ := h
  refine ⟨-significand, exponent, ?_, hexponent, ?_, ?_⟩
  · rwa [abs_neg]
  · rw [hq]
    push_cast
    ring
  · rwa [abs_neg]

/-! ### The order -/

theorem rounded_nonneg {q : ℚ} (h : 0 ≤ q) : 0 ≤ rounded q := by
  have hround : 0 ≤ roundHalfEven (q / 2 ^ exponentOf q) :=
    le_roundHalfEven (by rw [Int.cast_zero]; exact div_nonneg h (two_zpow_pos _).le)
  exact mul_nonneg (by exact_mod_cast hround) (two_zpow_pos _).le

/-- The double of the next exponent begins where those of this exponent end. -/
theorem rounded_le_of_exponentOf_lt {p q : ℚ} (hq : 0 < q) (h : exponentOf p < exponentOf q) :
    rounded p ≤ rounded q := by
  have hexponent : exponentOf q = Int.log 2 |q| - 52 := by
    have hleast : -1074 ≤ exponentOf p := le_max_right _ _
    rcases max_choice (Int.log 2 |q| - 52) (-1074) with hmax | hmax
    · exact hmax
    · have hfloor : exponentOf q = -1074 := hmax
      omega
  have hlog : (2 : ℚ) ^ Int.log 2 |q| ≤ q := by
    have hbound := Int.zpow_log_le_self (b := 2) (by norm_num) (abs_pos.mpr hq.ne')
    rwa [abs_of_pos hq] at hbound ⊢
  have hbelow : roundHalfEven (p / 2 ^ exponentOf p) ≤ 2 ^ 53 :=
    (le_abs_self _).trans (abs_significand_le p)
  have habove : 2 ^ 52 ≤ roundHalfEven (q / 2 ^ exponentOf q) := by
    refine le_roundHalfEven ?_
    rw [le_div_iff₀ (two_zpow_pos _), hexponent, zpow_sub₀ (by norm_num)]
    refine le_trans (le_of_eq ?_) hlog
    norm_num
    ring
  calc rounded p ≤ 2 ^ 53 * 2 ^ exponentOf p :=
        mul_le_mul_of_nonneg_right (by exact_mod_cast hbelow) (two_zpow_pos _).le
    _ = 2 ^ 52 * 2 ^ (exponentOf p + 1) := by
      rw [zpow_add₀ (by norm_num), zpow_one]
      ring
    _ ≤ 2 ^ 52 * 2 ^ exponentOf q :=
        mul_le_mul_of_nonneg_left (zpow_le_zpow_right₀ (by norm_num) h) (by norm_num)
    _ ≤ rounded q := mul_le_mul_of_nonneg_right (by exact_mod_cast habove) (two_zpow_pos _).le

/-- Rounding keeps the order. -/
theorem rounded_mono {p q : ℚ} (hp : 0 ≤ p) (h : p ≤ q) : rounded p ≤ rounded q := by
  rcases hp.eq_or_lt with rfl | hpos
  · rw [rounded_of_integral (q := 0) (n := 0) (by simp)]
    exact rounded_nonneg h
  have hexponent : exponentOf p ≤ exponentOf q := by
    have hlog : Int.log 2 |p| ≤ Int.log 2 |q| := by
      rw [abs_of_pos hpos, abs_of_pos (hpos.trans_le h)]
      exact Int.log_mono_right hpos h
    exact max_le_max (Int.sub_le_sub_right hlog 52) le_rfl
  rcases hexponent.lt_or_eq with hless | hsame
  · exact rounded_le_of_exponentOf_lt (hpos.trans_le h) hless
  · have hround : roundHalfEven (p / 2 ^ exponentOf p) ≤ roundHalfEven (q / 2 ^ exponentOf q) := by
      rw [hsame]
      exact roundHalfEven_mono (div_le_div_of_nonneg_right h (two_zpow_pos _).le)
    rw [rounded, rounded, ← hsame] at *
    exact mul_le_mul_of_nonneg_right (by exact_mod_cast hround) (two_zpow_pos _).le

/-! ### How far a number moves -/

/-- Half a unit in the last place. -/
theorem abs_rounded_sub_le_half (q : ℚ) : |rounded q - q| ≤ 2 ^ exponentOf q / 2 := by
  have hpos := two_zpow_pos (exponentOf q)
  have hround := abs_roundHalfEven_sub_le (q / 2 ^ exponentOf q)
  have hsplit : rounded q - q =
      (roundHalfEven (q / 2 ^ exponentOf q) - q / 2 ^ exponentOf q) * 2 ^ exponentOf q := by
    rw [rounded, sub_mul, div_mul_cancel₀ q hpos.ne']
  rw [hsplit, abs_mul, abs_of_pos hpos]
  calc _ ≤ 1 / 2 * (2 : ℚ) ^ exponentOf q := mul_le_mul_of_nonneg_right hround hpos.le
    _ = 2 ^ exponentOf q / 2 := by ring

/-- A fifty-third binary digit of the number, or half of the smallest subnormal. -/
theorem abs_rounded_sub_le (q : ℚ) : |rounded q - q| ≤ |q| / 2 ^ 53 + 2 ^ (-1075 : ℤ) := by
  have hsubnormal := two_zpow_pos (-1075)
  by_cases hzero : q = 0
  · have hround : rounded q = q := by
      refine rounded_of_integral (n := 0) ?_
      rw [hzero, zero_div, Int.cast_zero]
    rw [hround, hzero, sub_self, abs_zero, zero_div, zero_add]
    exact hsubnormal.le
  refine (abs_rounded_sub_le_half q).trans ?_
  rcases max_choice (Int.log 2 |q| - 52) (-1074) with hmax | hmax
  · have hlog : (2 : ℚ) ^ Int.log 2 |q| ≤ |q| :=
      Int.zpow_log_le_self (by norm_num) (abs_pos.mpr hzero)
    have hhalf : (2 : ℚ) ^ exponentOf q / 2 = 2 ^ Int.log 2 |q| / 2 ^ 53 := by
      rw [exponentOf, hmax, zpow_sub₀ (by norm_num)]
      norm_num
      ring
    rw [hhalf]
    have hdiv : (2 : ℚ) ^ Int.log 2 |q| / 2 ^ 53 ≤ |q| / 2 ^ 53 :=
      div_le_div_of_nonneg_right hlog (by norm_num)
    linarith
  · rw [exponentOf, hmax, div_eq_mul_inv, ← zpow_sub_one₀ two_ne_zero]
    exact le_add_of_nonneg_left (by positivity)

end FileForge.Foundation.Binary64
