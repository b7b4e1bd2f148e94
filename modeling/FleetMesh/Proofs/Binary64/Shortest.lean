/-
The shortest decimal of a number.

It has at most seventeen digits, and unless it is a natural it is no greater than the
number and half a unit of its last place (`shortest_spec`).
-/
import FleetMesh.Binary64.Shortest
import FleetMesh.Proofs.Binary64.Rounding

namespace FleetMesh

def Decimal.value (d : Decimal) : ℚ := d.digits * 10 ^ d.exponent

theorem Decimal.trimmed_spec (fuel : ℕ) (d : Decimal) (hd : d.digits ≠ 0) :
    (trimmed fuel d).digits ≠ 0 ∧ (trimmed fuel d).digits ≤ d.digits ∧
      (trimmed fuel d).value = d.value := by
  induction fuel generalizing d with
  | zero => exact ⟨hd, le_rfl, rfl⟩
  | succ fuel ih =>
    rw [trimmed]
    split
    · rename_i h
      obtain ⟨h1, h2, h3⟩ := ih ⟨d.digits / 10, d.exponent + 1⟩ (by show d.digits / 10 ≠ 0; omega)
      refine ⟨h1, h2.trans (Nat.div_le_self _ _), h3.trans ?_⟩
      have hten : ((d.digits / 10 : ℕ) : ℚ) * 10 = d.digits := by
        have : d.digits / 10 * 10 = d.digits := by omega
        exact_mod_cast this
      rw [value, value, zpow_add₀ (by norm_num), zpow_one, ← hten]
      ring
    · exact ⟨hd, le_rfl, rfl⟩

namespace Binary64

theorem tenTo_spec (p : ℤ) : 0 < (tenTo p).1 ∧ 0 < (tenTo p).2 ∧
    ((tenTo p).1 : ℚ) / (tenTo p).2 = 10 ^ p := by
  rw [tenTo]
  split
  · rename_i h
    obtain ⟨k, rfl⟩ := Int.eq_ofNat_of_zero_le h
    refine ⟨Nat.pow_pos (by decide), Nat.one_pos, ?_⟩
    simp
  · rename_i h
    obtain ⟨k, hk⟩ := Int.eq_ofNat_of_zero_le (show 0 ≤ -p by omega)
    obtain rfl : p = -(k : ℤ) := by omega
    refine ⟨Nat.one_pos, Nat.pow_pos (by decide), ?_⟩
    simp

/-! ## The interval -/

/-- The upper end of the interval is half a unit of the last place above the number. -/
theorem interval_spec (a : Binary64) : 0 < a.interval.den ∧
    (a.interval.high : ℚ) / a.interval.den = (a.significand + 1 / 2) * 2 ^ a.exponent := by
  obtain ⟨hpos, hratio⟩ := scaled_ratio 1 Nat.one_pos (a.exponent - 2)
  refine ⟨hpos, ?_⟩
  show (((4 * a.significand + 2) * (scaled 1 1 (a.exponent - 2)).1 : ℕ) : ℚ)
    / (scaled 1 1 (a.exponent - 2)).2 = _
  rw [Nat.cast_mul, mul_div_assoc, hratio, zpow_sub₀ (by norm_num)]
  push_cast
  norm_num
  ring

theorem value_le_of_holds {i : Interval} (hden : 0 < i.den) {d : Decimal} (h : i.holds d = true) :
    d.value ≤ i.high / i.den := by
  obtain ⟨-, htd, hratio⟩ := tenTo_spec d.exponent
  have hle : d.digits * (tenTo d.exponent).1 * i.den ≤ i.high * (tenTo d.exponent).2 := by
    rw [Interval.holds] at h
    dsimp only at h
    split at h
    · simp only [Bool.and_eq_true, decide_eq_true_eq] at h
      exact h.2
    · simp only [Bool.and_eq_true, decide_eq_true_eq] at h
      exact h.2.le
  have hdenq : (0 : ℚ) < i.den := by exact_mod_cast hden
  have htdq : (0 : ℚ) < (tenTo d.exponent).2 := by exact_mod_cast htd
  have hleq : (d.digits : ℚ) * (tenTo d.exponent).1 * i.den ≤ i.high * (tenTo d.exponent).2 := by
    exact_mod_cast hle
  rw [Decimal.value, ← hratio, ← mul_div_assoc, div_le_div_iff₀ htdq hdenq]
  exact hleq

/-! ## Digits -/

theorem digitCount_spec {n : ℕ} (hn : n ≠ 0) :
    n < 10 ^ digitCount n ∧ 10 ^ (digitCount n - 1) ≤ n := by
  rw [digitCount, if_neg hn]
  constructor
  · exact (Nat.length_toDigits_le_iff (by decide) Nat.length_toDigits_pos).mp le_rfl
  · by_contra hlt
    have hpos : 0 < (Nat.toDigits 10 n).length := Nat.length_toDigits_pos
    by_cases hone : (Nat.toDigits 10 n).length - 1 = 0
    · rw [hone] at hlt
      omega
    · have hle := (Nat.length_toDigits_le_iff (b := 10) (by decide)
        (Nat.pos_of_ne_zero hone)).mpr (Nat.lt_of_not_le hlt)
      omega

/-- The number is below the power of ten above its leading digit. -/
theorem lt_leadingExponent {num den : ℕ} (hnum : num ≠ 0) (hden : 0 < den) :
    (num : ℚ) / den < 10 ^ (leadingExponent num den + 1) := by
  have hdenq : (0 : ℚ) < den := by exact_mod_cast hden
  have hnumq : (0 : ℚ) < num := by exact_mod_cast Nat.pos_of_ne_zero hnum
  rw [leadingExponent]
  split
  · rename_i hle
    have hne : num / den ≠ 0 := (Nat.div_pos hle hden).ne'
    have hlt : num < 10 ^ digitCount (num / den) * den :=
      (Nat.div_lt_iff_lt_mul hden).mp (digitCount_spec hne).1
    rw [sub_add_cancel, zpow_natCast, div_lt_iff₀ hdenq]
    exact_mod_cast hlt
  · rename_i hlt
    -- the quotient is the greatest natural below `den / num`
    obtain ⟨q, hq⟩ : ∃ q, q = (den + num - 1) / num - 1 := ⟨_, rfl⟩
    have hpos : 0 < num := Nat.pos_of_ne_zero hnum
    have hquotient : (den + num - 1) / num = (den - 1) / num + 1 := by
      rw [show den + num - 1 = den - 1 + num by omega, Nat.add_div_right _ hpos]
    have hbelow : q * num < den := by
      have := Nat.div_mul_le_self (den - 1) num
      rw [hq, hquotient, Nat.add_sub_cancel]
      omega
    have hne : q ≠ 0 := by
      have : 0 < (den - 1) / num := Nat.div_pos (by omega) hpos
      omega
    rw [← hq]
    have hdigits := (digitCount_spec hne).2
    have hcount : 1 ≤ digitCount q := by
      rw [digitCount, if_neg hne]
      exact Nat.length_toDigits_pos
    have hlarge : 10 ^ (digitCount q - 1) * num < den :=
      lt_of_le_of_lt (Nat.mul_le_mul_right num hdigits) hbelow
    have hexponent : -(digitCount q : ℤ) + 1 = -((digitCount q - 1 : ℕ) : ℤ) := by omega
    rw [hexponent, zpow_neg, zpow_natCast, div_lt_iff₀ hdenq, inv_mul_eq_div,
      lt_div_iff₀ (by positivity)]
    have hlargeq : ((10 ^ (digitCount q - 1) * num : ℕ) : ℚ) < den := by exact_mod_cast hlarge
    push_cast at hlargeq
    linarith

/-! ## The search -/

/-- What is found on a grid is there, it is not zero, and it is in the interval. -/
theorem onGrid_spec {a : Binary64} {p : ℤ} {d : Decimal} (h : onGrid a p = some d) :
    d.exponent = p ∧ d.digits ≠ 0 ∧ a.interval.holds d = true ∧
      d.digits ≤ a.ratio.1 * (tenTo p).2 / (a.ratio.2 * (tenTo p).1) + 1 := by
  rw [onGrid] at h
  dsimp only at h
  split at h
  · rename_i hfloor habove
    simp only [Bool.and_eq_true, bne_iff_ne, ne_eq] at hfloor
    split at h
    · obtain rfl := Option.some.inj h
      exact ⟨rfl, hfloor.2, hfloor.1, Nat.le_succ _⟩
    · obtain rfl := Option.some.inj h
      exact ⟨rfl, Nat.succ_ne_zero _, habove, le_rfl⟩
  · rename_i hfloor _
    simp only [Bool.and_eq_true, bne_iff_ne, ne_eq] at hfloor
    obtain rfl := Option.some.inj h
    exact ⟨rfl, hfloor.2, hfloor.1, Nat.le_succ _⟩
  · rename_i _ habove
    obtain rfl := Option.some.inj h
    exact ⟨rfl, Nat.succ_ne_zero _, habove, le_rfl⟩
  · cases h

theorem searchGrids_spec {a : Binary64} {tries : ℕ} {p : ℤ} {d : Decimal}
    (h : searchGrids a tries p = some d) : ∃ q, p - tries < q ∧ onGrid a q = some d := by
  induction tries generalizing p with
  | zero => cases h
  | succ tries ih =>
    rw [searchGrids] at h
    split at h
    · rename_i e he
      obtain rfl := Option.some.inj h
      exact ⟨p, by omega, he⟩
    · obtain ⟨q, hq, hgrid⟩ := ih h
      exact ⟨q, by push_cast; omega, hgrid⟩

theorem digits_le {a : Binary64} (ha : a.significand ≠ 0) {d : Decimal}
    (h : searchGrids a 17 (leadingExponent a.ratio.1 a.ratio.2) = some d) :
    d.digits ≤ 10 ^ 17 := by
  obtain ⟨q, hq, hgrid⟩ := searchGrids_spec h
  obtain ⟨-, -, -, hle⟩ := onGrid_spec hgrid
  obtain ⟨hden, hmag⟩ := ratio_spec a
  obtain ⟨htn, htd, hten⟩ := tenTo_spec q
  have hnum : a.ratio.1 ≠ 0 := by
    intro hzero
    rw [hzero, magnitude, Nat.cast_zero, zero_div] at hmag
    have hpos : (0 : ℚ) < a.significand * 2 ^ a.exponent :=
      mul_pos (by exact_mod_cast Nat.pos_of_ne_zero ha) (two_zpow_pos _)
    exact hpos.ne hmag
  have hbound := lt_leadingExponent hnum hden
  have hpower : (10 : ℚ) ^ (leadingExponent a.ratio.1 a.ratio.2 + 1) ≤ 10 ^ (q + 17) :=
    zpow_le_zpow_right₀ (by norm_num) (by push_cast at hq; omega)
  have hgridden : 0 < a.ratio.2 * (tenTo q).1 := Nat.mul_pos hden htn
  have hdenq : (0 : ℚ) < a.ratio.2 := by exact_mod_cast hden
  have htnq : (0 : ℚ) < (tenTo q).1 := by exact_mod_cast htn
  have htdq : (0 : ℚ) < (tenTo q).2 := by exact_mod_cast htd
  have hfloor : a.ratio.1 * (tenTo q).2 / (a.ratio.2 * (tenTo q).1) < 10 ^ 17 := by
    rw [Nat.div_lt_iff_lt_mul hgridden]
    have hlt : (a.ratio.1 : ℚ) / a.ratio.2 < 10 ^ 17 * ((tenTo q).1 / (tenTo q).2) := by
      rw [hten, show (10 : ℚ) ^ 17 = 10 ^ (17 : ℤ) by norm_num, ← zpow_add₀ (by norm_num),
        add_comm]
      exact lt_of_lt_of_le hbound hpower
    rw [← mul_div_assoc, div_lt_div_iff₀ hdenq htdq] at hlt
    have hcast : ((a.ratio.1 * (tenTo q).2 : ℕ) : ℚ)
        < ((10 ^ 17 * (a.ratio.2 * (tenTo q).1) : ℕ) : ℚ) := by
      push_cast
      linarith
    exact_mod_cast hcast
  omega

theorem shortest_spec {a : Binary64} (hfits : a.Fits) (ha : a.significand ≠ 0) :
    a.shortest.digits ≠ 0 ∧ a.shortest.digits ≤ 10 ^ 17 ∧
      (a.shortest.exponent = 0 ∨
        a.shortest.value ≤ (a.significand + 1 / 2) * 2 ^ a.exponent) := by
  rw [shortest, if_neg ha]
  dsimp only
  cases hsearch : searchGrids a 17 (leadingExponent a.ratio.1 a.ratio.2) with
  | none =>
    have hsmall := hfits.significand
    exact ⟨ha, by show a.significand ≤ _; omega, Or.inl rfl⟩
  | some d =>
    obtain ⟨q, -, hgrid⟩ := searchGrids_spec hsearch
    obtain ⟨-, hne, hholds, -⟩ := onGrid_spec hgrid
    obtain ⟨hne', hle, hvalue⟩ := Decimal.trimmed_spec 18 d hne
    obtain ⟨hden, hhigh⟩ := interval_spec a
    refine ⟨hne', hle.trans (digits_le ha hsearch), Or.inr ?_⟩
    rw [hvalue, ← hhigh]
    exact value_le_of_holds hden hholds

end Binary64
end FleetMesh
