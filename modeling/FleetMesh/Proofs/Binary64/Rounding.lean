/-
Rounding to binary64.

`ofRatio` rounds a ratio to the nearest number.  It picks the exponent that leaves 53
bits before the point, or the least one (`roundingExponent_spec`), and rounds what is
left to a natural.  So a ratio that is not halfway past the largest number rounds to a number
(`ofRatio_of_lt`), and one that is at least one rounds with a relative error of at
most `2 ^ -53` (`ofRatio_spec`).
-/
import FleetMesh.Binary64
import Mathlib.Data.Rat.Cast.Order
import Mathlib.Algebra.Order.Field.Power
import Mathlib.Tactic.FieldSimp
import Mathlib.Tactic.Linarith
import Mathlib.Tactic.NormNum
import Mathlib.Tactic.Positivity
import Mathlib.Tactic.Ring

namespace FleetMesh
namespace Binary64

/-- The fields are within the bounds of the format. -/
structure Fits (x : Binary64) : Prop where
  significand : x.significand < 2 ^ 53
  low : minExponent ≤ x.exponent
  high : x.exponent ≤ maxExponent

def magnitude (x : Binary64) : ℚ := x.significand * 2 ^ x.exponent

/-- Halfway between the largest number and the one that would follow it. -/
def overflow : ℚ := (2 ^ 54 - 1) * 2 ^ (970 : ℤ)

theorem Fits.neg {x : Binary64} (h : x.Fits) : x.neg.Fits := ⟨h.significand, h.low, h.high⟩

theorem fits_zero (negative : Bool) : (zero negative).Fits :=
  ⟨Nat.pow_pos (by decide), Int.le_refl _, by simp only [zero]; decide⟩

theorem Fits.magnitude_lt {x : Binary64} (h : x.Fits) : x.magnitude < overflow := by
  have hs : (x.significand : ℚ) ≤ 2 ^ 53 - 1 := by
    have hle : (x.significand : ℚ) + 1 ≤ 2 ^ 53 := by exact_mod_cast h.significand
    linarith
  have he : (2 : ℚ) ^ x.exponent ≤ 2 ^ (971 : ℤ) := zpow_le_zpow_right₀ (by norm_num) h.high
  have hpos : (0 : ℚ) < 2 ^ (970 : ℤ) := by positivity
  have htwo : (2 : ℚ) ^ (971 : ℤ) = 2 * 2 ^ (970 : ℤ) := by
    rw [show (971 : ℤ) = 1 + 970 from rfl, zpow_add₀ (by norm_num), zpow_one]
  calc x.magnitude ≤ (2 ^ 53 - 1) * 2 ^ (971 : ℤ) :=
        mul_le_mul hs he (by positivity) (by norm_num)
    _ < overflow := by
        rw [overflow, htwo]
        generalize (2 : ℚ) ^ (970 : ℤ) = p at hpos
        linarith

theorem magnitude_nonneg (x : Binary64) : 0 ≤ x.magnitude := by
  rw [magnitude]
  positivity

/-! ## Scaling and rounding -/

theorem scaled_ratio (num : ℕ) {den : ℕ} (hden : 0 < den) (shift : ℤ) :
    0 < (scaled num den shift).2 ∧
      ((scaled num den shift).1 : ℚ) / (scaled num den shift).2 = num / den * 2 ^ shift := by
  have hdenq : (den : ℚ) ≠ 0 := by exact_mod_cast hden.ne'
  rw [scaled]
  split
  · rename_i h
    refine ⟨hden, ?_⟩
    obtain ⟨k, rfl⟩ := Int.eq_ofNat_of_zero_le h
    simp only [Int.toNat_natCast, Nat.pow_eq, Nat.cast_mul, Nat.cast_pow, zpow_natCast]
    push_cast
    field_simp
  · rename_i h
    obtain ⟨k, hk⟩ := Int.eq_ofNat_of_zero_le (show 0 ≤ -shift by omega)
    obtain rfl : shift = -(k : ℤ) := by omega
    refine ⟨Nat.mul_pos hden (Nat.pow_pos (by decide)), ?_⟩
    simp only [neg_neg, Int.toNat_natCast, Nat.pow_eq, Nat.cast_mul, Nat.cast_pow, zpow_neg,
      zpow_natCast]
    push_cast
    field_simp

theorem roundDiv_bounds (num : ℕ) {den : ℕ} (hden : 0 < den) :
    (num : ℚ) / den - 1 / 2 ≤ roundDiv num den ∧ (roundDiv num den : ℚ) ≤ num / den + 1 / 2 ∧
      num / den ≤ roundDiv num den ∧ roundDiv num den ≤ num / den + 1 := by
  have hdenq : (0 : ℚ) < den := by exact_mod_cast hden
  have hdiv : (den : ℚ) * (num / den : ℕ) + (num % den : ℕ) = num := by
    exact_mod_cast Nat.div_add_mod num den
  have hratio : (num : ℚ) / den = (num / den : ℕ) + (num % den : ℕ) / den := by
    rw [← hdiv]
    field_simp
  rw [hratio, roundDiv]
  split
  · rename_i h
    have hhalf : ((num % den : ℕ) : ℚ) / den ≤ 1 / 2 := by
      rw [div_le_div_iff₀ hdenq (by norm_num)]
      have : ((2 * (num % den) : ℕ) : ℚ) ≤ den := by exact_mod_cast h.le
      push_cast at this
      linarith
    have hpos : (0 : ℚ) ≤ ((num % den : ℕ) : ℚ) / den := by positivity
    refine ⟨by linarith, by linarith, le_rfl, Nat.le_succ _⟩
  · split
    · rename_i h
      have hhalf : (1 / 2 : ℚ) ≤ ((num % den : ℕ) : ℚ) / den := by
        rw [div_le_div_iff₀ (by norm_num) hdenq]
        have : (den : ℚ) ≤ ((2 * (num % den) : ℕ) : ℚ) := by exact_mod_cast h.le
        push_cast at this
        linarith
      have hone : ((num % den : ℕ) : ℚ) / den ≤ 1 := by
        rw [div_le_one hdenq]
        exact_mod_cast (Nat.mod_lt num hden).le
      push_cast
      refine ⟨by linarith, by linarith, Nat.le_succ _, le_rfl⟩
    · rename_i h h'
      have htie : ((num % den : ℕ) : ℚ) / den = 1 / 2 := by
        have heq : 2 * (num % den) = den := by omega
        rw [div_eq_div_iff hdenq.ne' (by norm_num)]
        have : ((2 * (num % den) : ℕ) : ℚ) = den := by exact_mod_cast heq
        push_cast at this
        linarith
      have hparity : num / den % 2 = 0 ∨ num / den % 2 = 1 := by omega
      rw [htie]
      rcases hparity with hp | hp <;> rw [hp] <;> push_cast <;>
        exact ⟨by linarith, by linarith, by omega, by omega⟩

/-! ## The exponent -/

theorem two_zpow_pos (e : ℤ) : (0 : ℚ) < 2 ^ e := zpow_pos (by norm_num) e

/-- A natural is between two powers of two. -/
theorem log2_bounds {n : ℕ} (hn : n ≠ 0) :
    (2 : ℚ) ^ (Nat.log2 n : ℤ) ≤ n ∧ (n : ℚ) < 2 ^ ((Nat.log2 n : ℤ) + 1) := by
  constructor
  · rw [zpow_natCast]
    exact_mod_cast Nat.log2_self_le hn
  · have h : n < 2 ^ (Nat.log2 n + 1) := Nat.lt_log2_self
    rw [show ((Nat.log2 n : ℤ) + 1) = ((Nat.log2 n + 1 : ℕ) : ℤ) by push_cast; rfl, zpow_natCast]
    exact_mod_cast h

theorem ratio_bounds {num den : ℕ} (hnum : num ≠ 0) (hden : 0 < den) :
    (2 : ℚ) ^ ((Nat.log2 num : ℤ) - (Nat.log2 den : ℤ) - 1) ≤ num / den ∧
      (num : ℚ) / den < 2 ^ ((Nat.log2 num : ℤ) - (Nat.log2 den : ℤ) + 1) := by
  obtain ⟨hn1, hn2⟩ := log2_bounds hnum
  obtain ⟨hd1, hd2⟩ := log2_bounds hden.ne'
  have hdenq : (0 : ℚ) < den := by exact_mod_cast hden
  constructor
  · rw [le_div_iff₀ hdenq]
    calc (2 : ℚ) ^ ((Nat.log2 num : ℤ) - (Nat.log2 den : ℤ) - 1) * den
        ≤ 2 ^ ((Nat.log2 num : ℤ) - (Nat.log2 den : ℤ) - 1) * 2 ^ ((Nat.log2 den : ℤ) + 1) :=
          mul_le_mul_of_nonneg_left hd2.le (two_zpow_pos _).le
      _ = 2 ^ (Nat.log2 num : ℤ) := by
          rw [← zpow_add₀ (by norm_num)]
          congr 1
          ring
      _ ≤ num := hn1
  · rw [div_lt_iff₀ hdenq]
    calc (num : ℚ) < 2 ^ ((Nat.log2 num : ℤ) + 1) := hn2
      _ = 2 ^ ((Nat.log2 num : ℤ) - (Nat.log2 den : ℤ) + 1) * 2 ^ (Nat.log2 den : ℤ) := by
          rw [← zpow_add₀ (by norm_num)]
          congr 1
          ring
      _ ≤ 2 ^ ((Nat.log2 num : ℤ) - (Nat.log2 den : ℤ) + 1) * den :=
          mul_le_mul_of_nonneg_left hd1 (two_zpow_pos _).le

/-- Comparing the scaled ratio with a natural compares the ratio with its multiple of the
unit. -/
theorem mul_le_scaled (num : ℕ) {den : ℕ} (hden : 0 < den) (k : ℕ) (e : ℤ) :
    k * (scaled num den (-e)).2 ≤ (scaled num den (-e)).1 ↔ (k : ℚ) * 2 ^ e ≤ num / den := by
  obtain ⟨hpos, hscaled⟩ := scaled_ratio num hden (-e)
  have hposq : (0 : ℚ) < (scaled num den (-e)).2 := by exact_mod_cast hpos
  calc k * (scaled num den (-e)).2 ≤ (scaled num den (-e)).1
      ↔ (k : ℚ) * (scaled num den (-e)).2 ≤ (scaled num den (-e)).1 := by
        exact_mod_cast Iff.rfl
    _ ↔ (k : ℚ) ≤ num / den * 2 ^ (-e) := by rw [← le_div_iff₀ hposq, hscaled]
    _ ↔ (k : ℚ) * 2 ^ e ≤ num / den := by
        rw [zpow_neg, le_mul_inv_iff₀ (two_zpow_pos e)]

/-- The exponent leaves at most 53 bits before the point, and no fewer unless it is the
least one. -/
theorem roundingExponent_spec {num den : ℕ} (hnum : num ≠ 0) (hden : 0 < den) :
    minExponent ≤ roundingExponent num den ∧
      (num : ℚ) / den < 2 ^ 53 * 2 ^ roundingExponent num den ∧
      (minExponent < roundingExponent num den →
        2 ^ 52 * 2 ^ roundingExponent num den ≤ (num : ℚ) / den) := by
  obtain ⟨hlow, hhigh⟩ := ratio_bounds hnum hden
  have hcompare := mul_le_scaled num hden (2 ^ 53) (firstExponent num den)
  obtain ⟨e, he⟩ : ∃ e, e = firstExponent num den := ⟨_, rfl⟩
  have hmin : minExponent ≤ e := he ▸ le_max_right _ _
  have hlog : (Nat.log2 num : ℤ) - (Nat.log2 den : ℤ) - 53 ≤ e := he ▸ le_max_left _ _
  rw [roundingExponent, ← he]
  rw [← he] at hcompare
  rw [mul_comm] at hcompare
  push_cast at hcompare
  split
  · rename_i h
    refine ⟨by omega, ?_, fun _ => ?_⟩
    · calc (num : ℚ) / den < 2 ^ ((Nat.log2 num : ℤ) - (Nat.log2 den : ℤ) + 1) := hhigh
        _ ≤ 2 ^ (53 + (e + 1)) := zpow_le_zpow_right₀ (by norm_num) (by omega)
        _ = 2 ^ 53 * 2 ^ (e + 1) := by
            rw [zpow_add₀ (by norm_num)]
            norm_num
    · calc (2 : ℚ) ^ 52 * (2 : ℚ) ^ (e + 1) = (2 : ℚ) ^ 53 * (2 : ℚ) ^ e := by
            rw [zpow_add₀ (by norm_num), zpow_one]
            ring
        _ ≤ (num : ℚ) / den := hcompare.mp h
  · rename_i h
    refine ⟨hmin, not_le.mp fun hle => h (hcompare.mpr hle), fun hnormal => ?_⟩
    have hexact : e = (Nat.log2 num : ℤ) - (Nat.log2 den : ℤ) - 53 := by
      rw [he, firstExponent] at hnormal ⊢
      omega
    calc (2 : ℚ) ^ 52 * 2 ^ e = 2 ^ ((Nat.log2 num : ℤ) - (Nat.log2 den : ℤ) - 1) := by
          rw [hexact, show (2 : ℚ) ^ 52 = 2 ^ (52 : ℤ) by norm_num, ← zpow_add₀ (by norm_num)]
          congr 1
          ring
      _ ≤ num / den := hlow

/-! ## The rounded number -/

/-- The significand before it is brought into form. -/
def rounded (num den : ℕ) : ℕ :=
  roundDiv (scaled num den (-roundingExponent num den)).1
    (scaled num den (-roundingExponent num den)).2

theorem ofRatio_eq (negative : Bool) {num : ℕ} (hnum : num ≠ 0) (den : ℕ) :
    ofRatio negative num den =
      if rounded num den = Nat.pow 2 53 then
        finite? negative (Nat.pow 2 52) (roundingExponent num den + 1)
      else finite? negative (rounded num den) (roundingExponent num den) := by
  rw [ofRatio, if_neg hnum]
  rfl

/-- The significand is the ratio in units of the last place, to half a unit. -/
theorem rounded_spec {num den : ℕ} (hnum : num ≠ 0) (hden : 0 < den) :
    (rounded num den : ℚ) * 2 ^ roundingExponent num den
        ≤ num / den + 1 / 2 * 2 ^ roundingExponent num den ∧
      num / den - 1 / 2 * 2 ^ roundingExponent num den
        ≤ (rounded num den : ℚ) * 2 ^ roundingExponent num den ∧
      rounded num den ≤ 2 ^ 53 ∧
      (minExponent < roundingExponent num den → 2 ^ 52 ≤ rounded num den) := by
  obtain ⟨-, hbelow, hnormal⟩ := roundingExponent_spec hnum hden
  obtain ⟨hpos, hscaled⟩ := scaled_ratio num hden (-roundingExponent num den)
  obtain ⟨hlow, hhigh, hfloor, hceil⟩ :=
    roundDiv_bounds (scaled num den (-roundingExponent num den)).1 hpos
  have hcompare : ∀ k : ℕ, _ := fun k => mul_le_scaled num hden k (roundingExponent num den)
  rw [← rounded] at hlow hhigh hfloor hceil
  rw [hscaled] at hlow hhigh
  generalize scaled num den (-roundingExponent num den) = s at *
  generalize roundingExponent num den = e at *
  generalize rounded num den = m at *
  have hunit := two_zpow_pos e
  have hback : (num : ℚ) / den * 2 ^ (-e) * 2 ^ e = num / den := by
    rw [mul_assoc, ← zpow_add₀ (by norm_num), neg_add_cancel, zpow_zero, mul_one]
  have hup := mul_le_mul_of_nonneg_right hhigh hunit.le
  have hdown := mul_le_mul_of_nonneg_right hlow hunit.le
  rw [add_mul, hback] at hup
  rw [sub_mul, hback] at hdown
  have hquotient : s.1 / s.2 < 2 ^ 53 := by
    rw [Nat.div_lt_iff_lt_mul hpos, ← not_le, hcompare, not_le]
    exact_mod_cast hbelow
  refine ⟨hup, hdown, by omega, fun h => Nat.le_trans ?_ hfloor⟩
  rw [Nat.le_div_iff_mul_le hpos, hcompare]
  exact_mod_cast hnormal h

theorem finite?_eq_some {negative : Bool} {significand : ℕ} {exponent : ℤ} {x : Binary64}
    (h : finite? negative significand exponent = some x) :
    exponent ≤ maxExponent ∧ x = ⟨negative, significand, exponent⟩ := by
  rw [finite?] at h
  split at h
  · cases h
  · exact ⟨by omega, (Option.some.inj h).symm⟩

theorem finite?_isSome {negative : Bool} {significand : ℕ} {exponent : ℤ}
    (h : exponent ≤ maxExponent) :
    finite? negative significand exponent = some ⟨negative, significand, exponent⟩ :=
  if_neg (Int.not_lt.mpr h)

/-- What a ratio rounds to, if it does. -/
theorem eq_of_ofRatio {negative : Bool} {num den : ℕ} (hnum : num ≠ 0) (hden : 0 < den)
    {x : Binary64} (h : ofRatio negative num den = some x) :
    x.Fits ∧ x.magnitude = rounded num den * 2 ^ roundingExponent num den := by
  obtain ⟨hmin, -, -⟩ := roundingExponent_spec hnum hden
  obtain ⟨-, -, hle, -⟩ := rounded_spec hnum hden
  rw [ofRatio_eq negative hnum] at h
  split at h
  · rename_i hm
    obtain ⟨hmax, rfl⟩ := finite?_eq_some h
    refine ⟨⟨Nat.pow_lt_pow_right (by decide) (by decide), Int.le_add_one hmin, hmax⟩, ?_⟩
    rw [hm, magnitude, zpow_add₀ (by norm_num)]
    push_cast
    ring
  · rename_i hm
    obtain ⟨hmax, rfl⟩ := finite?_eq_some h
    exact ⟨⟨Nat.lt_of_le_of_ne hle hm, hmin, hmax⟩, rfl⟩

theorem fits_of_ofRatio {negative : Bool} {num den : ℕ} (hden : 0 < den) {x : Binary64}
    (h : ofRatio negative num den = some x) : x.Fits := by
  by_cases hnum : num = 0
  · rw [ofRatio, if_pos hnum] at h
    exact Option.some.inj h ▸ fits_zero negative
  · exact (eq_of_ofRatio hnum hden h).1

/-- A ratio that is not halfway past the largest number rounds to a number. -/
theorem ofRatio_of_lt (negative : Bool) {num den : ℕ} (hden : 0 < den)
    (h : (num : ℚ) / den < overflow) : ∃ x, ofRatio negative num den = some x := by
  by_cases hnum : num = 0
  · exact ⟨zero negative, by rw [ofRatio, if_pos hnum]⟩
  obtain ⟨-, -, hnormal⟩ := roundingExponent_spec hnum hden
  obtain ⟨-, hdown, -, -⟩ := rounded_spec hnum hden
  have hmax : (minExponent : ℤ) < maxExponent := by decide
  have hexponent : roundingExponent num den ≤ maxExponent := by
    by_contra hlarge
    have hbig := hnormal (by omega)
    have hpow : (2 : ℚ) ^ (972 : ℤ) ≤ 2 ^ roundingExponent num den :=
      zpow_le_zpow_right₀ (by norm_num) (by rw [maxExponent] at hlarge; omega)
    have hsplit : (2 : ℚ) ^ (972 : ℤ) = 4 * 2 ^ (970 : ℤ) := by
      rw [show (972 : ℤ) = 2 + 970 from rfl, zpow_add₀ (by norm_num)]
      norm_num
    have hunit := two_zpow_pos 970
    rw [hsplit] at hpow
    rw [overflow] at h
    generalize (2 : ℚ) ^ (970 : ℤ) = p at *
    generalize (2 : ℚ) ^ roundingExponent num den = unit at *
    linarith only [h, hunit, hbig, hpow]
  rw [ofRatio_eq negative hnum]
  split
  · rename_i hm
    refine ⟨_, finite?_isSome ?_⟩
    by_contra hlarge
    have hlast : roundingExponent num den = 971 := by
      rw [maxExponent] at hexponent hlarge
      omega
    have hsplit : (2 : ℚ) ^ (971 : ℤ) = 2 * 2 ^ (970 : ℤ) := by
      rw [show (971 : ℤ) = 1 + 970 from rfl, zpow_add₀ (by norm_num), zpow_one]
    obtain ⟨hup, -, -, -⟩ := rounded_spec hnum hden
    rw [hm, hlast, hsplit] at hup
    rw [overflow] at h
    generalize (2 : ℚ) ^ (970 : ℤ) = p at *
    push_cast at hup
    linarith
  · exact ⟨_, finite?_isSome hexponent⟩

/-- A ratio from one on rounds to a number from one on, with a small relative error. -/
theorem magnitude_of_ofRatio {negative : Bool} {num den : ℕ} (hden : 0 < den)
    (hone : 1 ≤ (num : ℚ) / den) {x : Binary64} (h : ofRatio negative num den = some x) :
    1 ≤ x.magnitude ∧ x.magnitude ≤ num / den * (1 + 2 ^ (-53 : ℤ)) := by
  have hnum : num ≠ 0 := by
    rintro rfl
    norm_num at hone
  obtain ⟨-, hbelow, hnormal⟩ := roundingExponent_spec hnum hden
  obtain ⟨hup, -, -, hbig⟩ := rounded_spec hnum hden
  rw [(eq_of_ofRatio hnum hden h).2]
  have hexponent : -53 < roundingExponent num den := by
    by_contra hsmall
    have hpow : (2 : ℚ) ^ roundingExponent num den ≤ 2 ^ (-53 : ℤ) :=
      zpow_le_zpow_right₀ (by norm_num) (by omega)
    have hsplit : (2 : ℚ) ^ 53 * 2 ^ (-53 : ℤ) = 1 := by norm_num
    linarith
  have hmin : minExponent < roundingExponent num den := by
    rw [minExponent]
    omega
  have hlast := hnormal hmin
  have hsignificand : (2 : ℚ) ^ 52 ≤ rounded num den := by exact_mod_cast hbig hmin
  constructor
  · have hunit : (2 : ℚ) ^ (-52 : ℤ) ≤ 2 ^ roundingExponent num den :=
      zpow_le_zpow_right₀ (by norm_num) (by omega)
    calc (1 : ℚ) = 2 ^ 52 * 2 ^ (-52 : ℤ) := by norm_num
      _ ≤ rounded num den * 2 ^ roundingExponent num den :=
          mul_le_mul hsignificand hunit (two_zpow_pos _).le (by positivity)
  · have hhalf : (1 : ℚ) / 2 * 2 ^ roundingExponent num den
        = 2 ^ (-53 : ℤ) * (2 ^ 52 * 2 ^ roundingExponent num den) := by
      rw [← mul_assoc]
      congr 1
      norm_num
    have herror : (2 : ℚ) ^ (-53 : ℤ) * (2 ^ 52 * 2 ^ roundingExponent num den)
        ≤ 2 ^ (-53 : ℤ) * (num / den) := mul_le_mul_of_nonneg_left hlast (two_zpow_pos _).le
    linarith

/-! ## Products, quotients and powers of ten -/

theorem ratio_spec (x : Binary64) :
    0 < x.ratio.2 ∧ (x.ratio.1 : ℚ) / x.ratio.2 = x.magnitude := by
  obtain ⟨hpos, hratio⟩ := scaled_ratio x.significand Nat.one_pos x.exponent
  refine ⟨hpos, hratio.trans ?_⟩
  rw [magnitude, Nat.cast_one, div_one]

theorem mul_of_lt {a b : Binary64} (h : a.magnitude * b.magnitude < overflow) :
    ∃ x, a.mul b = some x ∧ x.Fits := by
  obtain ⟨ha, hamag⟩ := ratio_spec a
  obtain ⟨hb, hbmag⟩ := ratio_spec b
  have hden : 0 < a.ratio.2 * b.ratio.2 := Nat.mul_pos ha hb
  have hratio : ((a.ratio.1 * b.ratio.1 : ℕ) : ℚ) / (a.ratio.2 * b.ratio.2 : ℕ)
      = a.magnitude * b.magnitude := by
    rw [← hamag, ← hbmag]
    push_cast
    rw [mul_div_mul_comm]
  obtain ⟨x, hx⟩ := ofRatio_of_lt (a.negative != b.negative) hden (hratio ▸ h)
  exact ⟨x, hx, fits_of_ofRatio hden hx⟩

/-- A quotient by a number from one on is a number. -/
theorem div_of_one_le {a b : Binary64} (ha : a.Fits) (hb : 1 ≤ b.magnitude) :
    ∃ x, a.div b = some x ∧ x.Fits := by
  obtain ⟨hada, hamag⟩ := ratio_spec a
  obtain ⟨hbd, hbmag⟩ := ratio_spec b
  have hbn : 0 < b.ratio.1 := by
    rw [Nat.pos_iff_ne_zero]
    intro hzero
    rw [← hbmag, hzero] at hb
    norm_num at hb
  have hden : 0 < a.ratio.2 * b.ratio.1 := Nat.mul_pos hada hbn
  have hratio : ((a.ratio.1 * b.ratio.2 : ℕ) : ℚ) / (a.ratio.2 * b.ratio.1 : ℕ)
      = a.magnitude / b.magnitude := by
    rw [← hamag, ← hbmag]
    push_cast
    rw [div_div_div_eq]
  have hle : a.magnitude / b.magnitude ≤ a.magnitude := div_le_self (magnitude_nonneg a) hb
  obtain ⟨x, hx⟩ := ofRatio_of_lt (a.negative != b.negative) hden
    (hratio ▸ lt_of_le_of_lt hle ha.magnitude_lt)
  exact ⟨x, hx, fits_of_ofRatio hden hx⟩

theorem ofNat_of_lt {n : ℕ} (h : (n : ℚ) < overflow) :
    ∃ x, ofNat n = some x ∧ x.Fits ∧ (1 ≤ n → 1 ≤ x.magnitude ∧
      x.magnitude ≤ n * (1 + 2 ^ (-53 : ℤ))) := by
  have hone : (n : ℚ) / (1 : ℕ) = n := by rw [Nat.cast_one, div_one]
  obtain ⟨x, hx⟩ := ofRatio_of_lt false Nat.one_pos (hone.symm ▸ h)
  refine ⟨x, hx, fits_of_ofRatio Nat.one_pos hx, fun hn => ?_⟩
  have hmag := magnitude_of_ofRatio Nat.one_pos (hone.symm ▸ by exact_mod_cast hn) hx
  rwa [hone] at hmag

theorem powerOfTen_of_le {k : ℕ} (h : k ≤ 308) :
    ∃ x, powerOfTen k = some x ∧ x.Fits ∧ 1 ≤ x.magnitude ∧
      x.magnitude ≤ 10 ^ k * (1 + 2 ^ (-53 : ℤ)) := by
  have hlt : ((Nat.pow 10 k : ℕ) : ℚ) < overflow := by
    have hle : ((Nat.pow 10 k : ℕ) : ℚ) ≤ 10 ^ 308 := by
      rw [Nat.pow_eq, Nat.cast_pow, Nat.cast_ofNat]
      exact pow_le_pow_right₀ (by norm_num) h
    refine lt_of_le_of_lt hle ?_
    have hbig : 10 ^ 308 + 2 ^ 970 < 2 ^ 54 * 2 ^ 970 := by decide +kernel
    have hcast : ((10 ^ 308 + 2 ^ 970 : ℕ) : ℚ) < (2 ^ 54 * 2 ^ 970 : ℕ) := Nat.cast_lt.mpr hbig
    simp only [Nat.cast_add, Nat.cast_mul, Nat.cast_pow, Nat.cast_ofNat] at hcast
    rw [overflow, show (970 : ℤ) = (970 : ℕ) from rfl, zpow_natCast]
    generalize (2 : ℚ) ^ 970 = p at *
    generalize (10 : ℚ) ^ 308 = t at *
    linarith
  obtain ⟨x, hx, hfits, hmag⟩ := ofNat_of_lt hlt
  obtain ⟨hone, hup⟩ := hmag (Nat.pow_pos (by decide))
  refine ⟨x, hx, hfits, hone, ?_⟩
  rw [Nat.pow_eq] at hup
  exact_mod_cast hup

end Binary64
end FleetMesh
