/-
Floats and the numerals they are written as.

A float is read in two roundings, so it may come back as a neighbour of itself, and a
product that is rounded might in principle pass the largest float.  It never does for
a float that was written (`legible_float`).  For all but the two largest floats the
shortest decimal is far enough below the limit to leave room for both roundings; the
two are evaluated.
-/
import FleetMesh.Proofs.Binary64.Shortest
import FleetMesh.Proofs.Json.Number

namespace FleetMesh
namespace Json

open Numeral (digitsOf Digits toFloat scale ofDigits gather maxWord)
open Binary64 (overflow)

/-! ## Reading a float -/

namespace Numeral

theorem fits_of_scale {tries : ℕ} {f g : Binary64} (hf : f.Fits) {e : ℤ}
    (h : scale f e tries = some g) : g.Fits := by
  induction tries generalizing f e with
  | zero => exact Option.some.inj h ▸ Binary64.fits_zero false
  | succ tries ih =>
    rw [scale] at h
    split at h
    · rename_i hsmall
      obtain ⟨p, hp, -, hone, -⟩ := Binary64.powerOfTen_of_le hsmall
      rw [hp, Option.bind_some] at h
      split at h
      · obtain ⟨hd, -⟩ := Binary64.ratio_spec f
        obtain ⟨hd', -⟩ := Binary64.ratio_spec p
        exact Binary64.fits_of_ofRatio (Nat.mul_pos hd hd') h
      · obtain ⟨g', hg', hfits⟩ := Binary64.div_of_one_le hf hone
        exact Option.some.inj (hg'.symm.trans h) ▸ hfits
    · split at h
      · exact Option.some.inj h ▸ hf
      · split at h
        · cases h
        · obtain ⟨p, hp, -, hone, -⟩ := Binary64.powerOfTen_of_le (le_refl 308)
          obtain ⟨g', hg', hfits⟩ := Binary64.div_of_one_le hf hone
          rw [greatestPower, hp, Option.bind_some, hg', Option.bind_some] at h
          exact ih hfits h

theorem scale_of_neg {f : Binary64} (hf : f.Fits) {e : ℤ} (he : e < 0) (tries : ℕ) :
    ∃ g, scale f e tries = some g := by
  induction tries generalizing f e with
  | zero => exact ⟨_, rfl⟩
  | succ tries ih =>
    rw [scale]
    split
    · rename_i hsmall
      obtain ⟨p, hp, -, hone, -⟩ := Binary64.powerOfTen_of_le hsmall
      obtain ⟨g, hg, -⟩ := Binary64.div_of_one_le hf hone
      rw [hp, Option.bind_some, if_neg (Int.not_le.mpr he)]
      exact ⟨g, hg⟩
    · rename_i hlarge
      split
      · exact ⟨f, rfl⟩
      · obtain ⟨p, hp, -, hone, -⟩ := Binary64.powerOfTen_of_le (le_refl 308)
        obtain ⟨g, hg, hfits⟩ := Binary64.div_of_one_le hf hone
        rw [if_neg (Int.not_le.mpr he), greatestPower, hp, Option.bind_some, hg, Option.bind_some]
        refine ih hfits ?_
        rw [greatestPower] at hlarge
        omega

/-- The float of `n * 10 ^ e` exists if `e` is negative, or if there is room for the
roundings of both factors. -/
theorem toFloat_isSome (negative : Bool) {n : ℕ} {e : ℤ} (hn : (n : ℚ) < overflow)
    (h : e < 0 ∨ 0 ≤ e ∧ e ≤ 308 ∧ 1 ≤ n ∧ n * 10 ^ e * (1 + 2 ^ (-53 : ℤ)) ^ 2 < overflow) :
    (toFloat negative n e).isSome = true := by
  obtain ⟨f, hf, hfits, hmag⟩ := Binary64.ofNat_of_lt hn
  rw [toFloat, hf, Option.bind_some, Option.isSome_map]
  rcases h with h | ⟨h0, h308, hone, hroom⟩
  · obtain ⟨g, hg⟩ := scale_of_neg hfits h 4
    rw [hg]
    rfl
  · obtain ⟨k, rfl⟩ := Int.eq_ofNat_of_zero_le h0
    have hk : k ≤ 308 := by omega
    obtain ⟨p, hp, -, hp1, hpmag⟩ := Binary64.powerOfTen_of_le hk
    obtain ⟨hf1, hfmag⟩ := hmag hone
    have hproduct : f.magnitude * p.magnitude < overflow := by
      refine lt_of_le_of_lt (mul_le_mul hfmag hpmag (by linarith) (by positivity)) ?_
      rw [zpow_natCast] at hroom
      calc _ = (n : ℚ) * 10 ^ k * (1 + 2 ^ (-53 : ℤ)) ^ 2 := by ring
        _ < overflow := hroom
    obtain ⟨g, hg, -⟩ := Binary64.mul_of_lt hproduct
    rw [scale, Int.natAbs_natCast, greatestPower, if_pos hk, hp, Option.bind_some, if_pos h0, hg]
    rfl

theorem fits_of_toFloat {negative : Bool} {n : ℕ} {e : ℤ} {x : Binary64}
    (h : toFloat negative n e = some (.float x)) : x.Fits := by
  rw [toFloat] at h
  obtain ⟨f, hf, h⟩ := Option.bind_eq_some_iff.mp h
  obtain ⟨g, hg, hx⟩ := Option.map_eq_some_iff.mp h
  have hfits := fits_of_scale (Binary64.fits_of_ofRatio Nat.one_pos hf) hg
  obtain rfl := Number.float.inj hx
  split
  · exact hfits.neg
  · exact hfits

theorem toFloat_ne_int {negative : Bool} {n : ℕ} {e i : ℤ} :
    toFloat negative n e ≠ some (.int i) := by
  intro h
  rw [toFloat] at h
  obtain ⟨f, -, h⟩ := Option.bind_eq_some_iff.mp h
  obtain ⟨g, -, hx⟩ := Option.map_eq_some_iff.mp h
  cases hx

/-! ## The numeral of a decimal -/

/-- What an exponent that is written adds to the power of ten. -/
def shift : Option (Bool × List ℕ) → ℤ
  | none => 0
  | some (true, ds) => -(ofDigits ds : ℤ)
  | some (false, ds) => ofDigits ds

theorem shift_signed (place : ℤ) :
    shift (some (decide (place < 0), digitsOf place.natAbs)) = place := by
  by_cases hneg : place < 0
  · rw [decide_eq_true hneg, shift, ofDigits_digitsOf]
    omega
  · rw [decide_eq_false hneg, shift, ofDigits_digitsOf]
    omega

/-- A numeral with a point or an exponent whose digits stay within a word. -/
theorem number_eq_toFloat {m : Numeral} (hfloat : m.fraction.isSome ∨ m.exponent.isSome)
    (h : ofDigits (m.whole ++ m.fraction.getD []) ≤ maxWord) :
    m.number = toFloat m.negative (ofDigits (m.whole ++ m.fraction.getD []))
      (shift m.exponent - (m.fraction.getD []).length) := by
  obtain ⟨negative, whole, fraction, exponent⟩ := m
  have hfold : ∀ ds es : List ℕ,
      es.foldl (fun n d => 10 * n + d) (ofDigits ds) = ofDigits (ds ++ es) := by
    intro ds es
    rw [ofDigits, ofDigits, List.foldl_append]
  have hwhole : ofDigits whole ≤ maxWord := by
    refine Nat.le_trans ?_ h
    rw [ofDigits_append]
    exact Nat.le_add_right_of_le (Nat.le_mul_of_pos_right _ (Nat.pow_pos (by decide)))
  have hgather : gather 0 whole = (ofDigits whole, 0) := gather_eq hwhole
  have hgather' : gather (ofDigits whole) (fraction.getD [])
      = (ofDigits (whole ++ fraction.getD []), 0) := by
    rw [gather_eq (by rwa [hfold]), hfold]
  cases fraction with
  | none =>
    cases exponent with
    | none => simp at hfloat
    | some e =>
      obtain ⟨minus, ds⟩ := e
      simp only [Option.getD_none] at hgather'
      simp only [number, hgather, hgather', Option.getD_none]
      congr 1
      cases minus <;> simp [shift]
  | some fs =>
    simp only [Option.getD_some] at hgather'
    simp only [number, hgather, hgather', Option.getD_some]
    congr 1
    cases exponent with
    | none => simp [shift]
    | some e =>
      obtain ⟨minus, ds⟩ := e
      cases minus <;> simp [shift] <;> ring

theorem number_pointed {negative : Bool} {whole fs : List ℕ}
    (h : ofDigits (whole ++ fs) ≤ maxWord) :
    (⟨negative, whole, some fs, none⟩ : Numeral).number
      = toFloat negative (ofDigits (whole ++ fs)) (-(fs.length : ℤ)) := by
  rw [number_eq_toFloat (Or.inl rfl) h]
  simp only [Option.getD_some, shift, zero_sub]

/-- One digit before the point, and an exponent that counts the digits after it. -/
theorem number_scientific {negative : Bool} {ds : List ℕ} (hne : ds ≠ [])
    (h : ofDigits ds ≤ maxWord) (place : ℤ) :
    (⟨negative, ds.take 1, if ds.length ≤ 1 then none else some (ds.drop 1),
        some (decide (place < 0), digitsOf place.natAbs)⟩ : Numeral).number
      = toFloat negative (ofDigits ds) (place + 1 - ds.length) := by
  have hfraction : (if ds.length ≤ 1 then none else some (ds.drop 1)).getD [] = ds.drop 1 := by
    split
    · rename_i hshort
      rw [List.drop_eq_nil_iff.mpr hshort]
      rfl
    · rfl
  have hvalue : ofDigits (ds.take 1 ++ ds.drop 1) = ofDigits ds := by rw [List.take_append_drop]
  rw [number_eq_toFloat (Or.inr rfl) (by rwa [hfraction, hvalue])]
  simp only [hfraction, hvalue, shift_signed]
  have hpos := List.length_pos_iff.mpr hne
  rw [List.length_drop]
  congr 1
  omega

theorem ofDigits_le_maxWord {ds : List ℕ} (h : ∀ d ∈ ds, d < 10) (hlength : ds.length ≤ 19) :
    ofDigits ds ≤ maxWord :=
  ((ofDigits_lt h).trans_le (Nat.pow_le_pow_right (by decide) hlength)).le.trans (by decide)

theorem digitsOf_lead_ne {n d : ℕ} (hn : n ≠ 0) {ds : List ℕ} (h : digitsOf n = d :: ds) :
    d ≠ 0 := by
  rintro rfl
  have hnil := digitsOf_lead h
  rw [hnil] at h
  have hzero := ofDigits_digitsOf n
  rw [h] at hzero
  exact hn hzero.symm

theorem digits_append {ds es : List ℕ} (hds : Digits ds) (hes : ∀ d ∈ es, d < 10) :
    Digits (ds ++ es) := by
  refine ⟨by simp [hds.1], fun d hd => ?_⟩
  rcases List.mem_append.mp hd with hd | hd
  · exact hds.2 d hd
  · exact hes d hd

theorem digit_of_mem_replicate {n d : ℕ} (h : d ∈ List.replicate n 0) : d < 10 := by
  rw [List.eq_of_mem_replicate h]
  decide

theorem digits_zero : Digits [0] := ⟨by decide, by decide⟩

theorem digits_zeros_append (n : ℕ) {ds : List ℕ} (h : Digits ds) :
    Digits (List.replicate n 0 ++ ds) := by
  refine ⟨by simp [h.1], fun d hd => ?_⟩
  rcases List.mem_append.mp hd with hd | hd
  · exact digit_of_mem_replicate hd
  · exact h.2 d hd

theorem digits_take {ds : List ℕ} (h : Digits ds) (n : ℕ) : Digits (ds.take (n + 1)) :=
  ⟨by simp [h.1], fun d hd => h.2 d (List.mem_of_mem_take hd)⟩

theorem digits_drop {ds : List ℕ} (h : Digits ds) {n : ℕ} (hn : ¬ ds.length ≤ n) :
    Digits (ds.drop n) :=
  ⟨fun hnil => hn (List.drop_eq_nil_iff.mp hnil), fun d hd => h.2 d (List.mem_of_mem_drop hd)⟩

theorem proper_pointed {negative : Bool} {whole fs : List ℕ} (hwhole : Digits whole)
    (hlead : ∀ ds, whole = 0 :: ds → ds = []) (hfs : Digits fs) :
    Proper ⟨negative, whole, some fs, none⟩ :=
  ⟨hwhole, hlead, fun _ h => Option.some.inj h ▸ hfs, by simp⟩

end Numeral

end Json

namespace Decimal

open Json Json.Numeral

theorem proper_numeral {d : Decimal} (hd : d.digits ≠ 0) (negative : Bool) :
    (d.numeral negative).Proper := by
  have hdigits := digits_digitsOf d.digits
  have hlead : ∀ c ds, digitsOf d.digits = c :: ds → c ≠ 0 := fun c ds h => digitsOf_lead_ne hd h
  rw [Decimal.numeral]
  generalize digitsOf d.digits = ds at *
  obtain ⟨c, cs, rfl⟩ := List.exists_cons_of_ne_nil hdigits.1
  -- digits that begin as those of the decimal have no leading zero
  have hone : ∀ cs ds : List ℕ, c :: cs = 0 :: ds → ds = [] :=
    fun _ _ h => absurd (List.cons.inj h).1 (hlead c cs rfl)
  split
  · split
    · -- zero, and the digits after the point
      exact proper_pointed digits_zero (by simp) (digits_zeros_append _ hdigits)
    · split
      · -- all digits before the point
        exact proper_pointed (digits_append hdigits fun d => digit_of_mem_replicate) (hone _)
          digits_zero
      · -- some digits before the point and some after it
        rename_i hlong
        exact proper_pointed (digits_take hdigits _) (hone _) (digits_drop hdigits hlong)
  · -- one digit before the point, and an exponent
    refine ⟨digits_take hdigits 0, hone _, fun fs h => ?_, fun minus es h => ?_⟩
    · dsimp only at h
      split at h
      · cases h
      · rename_i hlong
        exact Option.some.inj h ▸ digits_drop hdigits hlong
    · obtain ⟨rfl, rfl⟩ := Prod.mk.inj (Option.some.inj h)
      exact digits_digitsOf _

/-- The numeral of a decimal writes its digits with its exponent, unless it has a negative
power of ten. -/
theorem number_numeral {d : Decimal} (hd : d.digits ≤ 10 ^ 17) (negative : Bool) :
    ∃ (n : ℕ) (e : ℤ), (d.numeral negative).number = toFloat negative n e ∧ n ≤ maxWord ∧
      (e < 0 ∨ n = d.digits ∧ e = d.exponent) := by
  have hback := ofDigits_digitsOf d.digits
  obtain ⟨hne, hlt⟩ := digits_digitsOf d.digits
  have hword : d.digits ≤ maxWord := hd.trans (by decide)
  have hsplit : ∀ n, ofDigits ((digitsOf d.digits).take n ++ (digitsOf d.digits).drop n)
      = d.digits := fun n => by rw [List.take_append_drop, hback]
  rw [Decimal.numeral]
  generalize digitsOf d.digits = ds at *
  -- a numeral with a point: its fraction is not empty, and its digits stay within a word
  have hpointed : ∀ whole fs : List ℕ, fs ≠ [] → ofDigits (whole ++ fs) ≤ maxWord →
      ∃ (n : ℕ) (e : ℤ), (⟨negative, whole, some fs, none⟩ : Numeral).number
        = toFloat negative n e ∧ n ≤ maxWord ∧ (e < 0 ∨ n = d.digits ∧ e = d.exponent) := by
    intro whole fs hfs h
    exact ⟨_, _, number_pointed h, h, Or.inl (by simpa [List.length_pos_iff] using hfs)⟩
  split
  · rename_i hpositional
    split
    · refine hpointed _ _ (by simp [hne]) ?_
      rw [ofDigits_append, ofDigits_append, ofDigits_zeros, hback]
      simpa [ofDigits] using hword
    · split
      · refine hpointed _ _ (by simp) (ofDigits_le_maxWord ?_ ?_)
        · exact (digits_append (digits_append ⟨hne, hlt⟩ fun c => digit_of_mem_replicate)
            (by simp)).2
        · have hplace := hpositional.2
          simp only [Number.positional] at hplace
          simp only [List.length_append, List.length_replicate, List.length_singleton]
          omega
      · rename_i hlong
        exact hpointed _ _ (fun hnil => hlong (List.drop_eq_nil_iff.mp hnil))
          ((hsplit _).trans_le hword)
  · refine ⟨d.digits, d.exponent, ?_, hword, Or.inr ⟨rfl, rfl⟩⟩
    rw [number_scientific hne (hback.trans_le hword), hback]
    congr 1
    omega

end Decimal

namespace Json

open Numeral (toFloat maxWord)
open Binary64 (overflow)

theorem word_lt_overflow {n : ℕ} (h : n ≤ maxWord) :
    (n : ℚ) * (1 + 2 ^ (-53 : ℤ)) ^ 2 < overflow := by
  have hn : (n : ℚ) ≤ 2 ^ 64 := by
    have hle : n ≤ 2 ^ 64 := h.trans (by decide)
    exact_mod_cast hle
  have hround : (1 + (2 : ℚ) ^ (-53 : ℤ)) ^ 2 ≤ 2 := by norm_num
  have hbig : (2 : ℚ) ^ 66 ≤ 2 ^ (970 : ℤ) := by
    rw [show (2 : ℚ) ^ 66 = 2 ^ (66 : ℤ) by norm_num]
    exact zpow_le_zpow_right₀ (by norm_num) (by norm_num)
  have hproduct := mul_le_mul hn hround (by positivity) (by norm_num)
  rw [overflow]
  generalize (2 : ℚ) ^ (970 : ℤ) = p at *
  linarith

theorem overflow_lt : overflow < 10 ^ (309 : ℤ) := by
  have hbig : 2 ^ 54 * 2 ^ 970 < 10 ^ 309 := by decide +kernel
  have hcast : ((2 ^ 54 * 2 ^ 970 : ℕ) : ℚ) < (10 ^ 309 : ℕ) := Nat.cast_lt.mpr hbig
  simp only [Nat.cast_mul, Nat.cast_pow, Nat.cast_ofNat] at hcast
  have hpos := Binary64.two_zpow_pos 970
  rw [show (970 : ℤ) = (970 : ℕ) from rfl, zpow_natCast] at hpos
  rw [overflow, show (970 : ℤ) = (970 : ℕ) from rfl, show (309 : ℤ) = (309 : ℕ) from rfl,
    zpow_natCast, zpow_natCast]
  generalize (2 : ℚ) ^ 970 = p at *
  generalize (10 : ℚ) ^ 309 = t at *
  linarith

/-- Below the two largest floats there is room for the roundings. -/
theorem room_of_fits {x : Binary64} (h : x.Fits)
    (hlargest : ¬ (x.exponent = 971 ∧ 2 ^ 53 - 2 ≤ x.significand)) :
    (x.significand + 1 / 2 : ℚ) * 2 ^ x.exponent * (1 + 2 ^ (-53 : ℤ)) ^ 2 < overflow := by
  have hround : (1 + (2 : ℚ) ^ (-53 : ℤ)) ^ 2 * (2 ^ 54 - 5) < 2 ^ 54 - 1 := by norm_num
  have hlt := h.significand
  have hhigh := h.high
  rw [Binary64.maxExponent] at hhigh
  have hhalf : (x.significand + 1 / 2 : ℚ) * 2 ^ x.exponent ≤ (2 ^ 54 - 5) * 2 ^ (970 : ℤ) := by
    by_cases he : x.exponent = 971
    · have hs : (x.significand : ℚ) ≤ 2 ^ 53 - 3 := by
        have hle : x.significand + 3 ≤ 2 ^ 53 := by omega
        have hleq : ((x.significand + 3 : ℕ) : ℚ) ≤ ((2 ^ 53 : ℕ) : ℚ) := by exact_mod_cast hle
        push_cast at hleq
        linarith
      rw [he, show (971 : ℤ) = 1 + 970 from rfl, zpow_add₀ (by norm_num), zpow_one, ← mul_assoc]
      exact mul_le_mul_of_nonneg_right (by linarith) (Binary64.two_zpow_pos 970).le
    · have hs : (x.significand : ℚ) ≤ 2 ^ 53 := by exact_mod_cast hlt.le
      have hpow : (2 : ℚ) ^ x.exponent ≤ 2 ^ (970 : ℤ) :=
        zpow_le_zpow_right₀ (by norm_num) (by omega)
      exact mul_le_mul (by linarith) hpow (Binary64.two_zpow_pos _).le (by norm_num)
  have hpos := Binary64.two_zpow_pos 970
  have hsquare : (0 : ℚ) < (1 + 2 ^ (-53 : ℤ)) ^ 2 := by positivity
  rw [overflow]
  calc _ ≤ (2 ^ 54 - 5) * 2 ^ (970 : ℤ) * (1 + 2 ^ (-53 : ℤ)) ^ 2 :=
        mul_le_mul_of_nonneg_right hhalf hsquare.le
    _ = (1 + 2 ^ (-53 : ℤ)) ^ 2 * (2 ^ 54 - 5) * 2 ^ (970 : ℤ) := by ring
    _ < (2 ^ 54 - 1) * 2 ^ (970 : ℤ) := mul_lt_mul_of_pos_right hround hpos

/-- The two largest floats, of either sign. -/
theorem legible_largest : ∀ negative, ∀ m ∈ [2 ^ 53 - 2, 2 ^ 53 - 1],
    (Number.float ⟨negative, m, 971⟩).numeral.number.isSome = true := by decide +kernel

theorem legible_zero {x : Binary64} (hzero : x.significand = 0) : (Number.float x).Legible := by
  rw [Number.Legible, Number.numeral, if_pos hzero]
  refine ⟨Numeral.proper_pointed Numeral.digits_zero (by simp) Numeral.digits_zero, ?_⟩
  rw [Numeral.number_pointed (Nat.zero_le _)]
  refine Numeral.toFloat_isSome x.negative ?_ (Or.inl (by simp))
  have hroom := word_lt_overflow (Nat.zero_le maxWord)
  rw [Nat.cast_zero, zero_mul] at hroom
  exact_mod_cast hroom

/-- Below the two largest floats the power of ten of the shortest decimal is a float, and
there is room for the roundings of both factors. -/
theorem room_of_shortest {x : Binary64} (h : x.Fits) (hzero : x.significand ≠ 0)
    (hlargest : ¬ (x.exponent = 971 ∧ 2 ^ 53 - 2 ≤ x.significand)) :
    x.shortest.exponent ≤ 308 ∧
      (x.shortest.digits : ℚ) * 10 ^ x.shortest.exponent * (1 + 2 ^ (-53 : ℤ)) ^ 2 < overflow := by
  obtain ⟨hne, hle, hvalue⟩ := Binary64.shortest_spec h hzero
  have hround : (1 : ℚ) ≤ (1 + 2 ^ (-53 : ℤ)) ^ 2 := by norm_num
  rcases hvalue with hvalue | hvalue
  · refine ⟨by omega, ?_⟩
    rw [hvalue, zpow_zero, mul_one]
    exact word_lt_overflow (hle.trans (by decide))
  · have hroom := (mul_le_mul_of_nonneg_right hvalue (by positivity)).trans_lt
      (room_of_fits h hlargest)
    refine ⟨?_, hroom⟩
    -- the power of ten alone would be past the limit
    by_contra hlarge
    have hdigits : (1 : ℚ) ≤ x.shortest.digits := by
      exact_mod_cast Nat.one_le_iff_ne_zero.mpr hne
    have hpast : (10 : ℚ) ^ (309 : ℤ) ≤ x.shortest.value :=
      calc (10 : ℚ) ^ (309 : ℤ) ≤ 10 ^ x.shortest.exponent :=
            zpow_le_zpow_right₀ (by norm_num) (by omega)
        _ ≤ x.shortest.value := le_mul_of_one_le_left (by positivity) hdigits
    have hstay := le_mul_of_one_le_right (le_trans (by positivity) hpast) hround
    exact absurd (hpast.trans hstay) (not_le.mpr (hroom.trans overflow_lt))

theorem legible_float {x : Binary64} (h : x.Fits) : (Number.float x).Legible := by
  by_cases hzero : x.significand = 0
  · exact legible_zero hzero
  obtain ⟨hne, hle, -⟩ := Binary64.shortest_spec h hzero
  refine ⟨by rw [Number.numeral, if_neg hzero]; exact Decimal.proper_numeral hne x.negative, ?_⟩
  by_cases hlargest : x.exponent = 971 ∧ 2 ^ 53 - 2 ≤ x.significand
  · obtain ⟨negative, m, e⟩ := x
    obtain ⟨rfl, hm⟩ := hlargest
    have hlow : 2 ^ 53 - 2 ≤ m := hm
    have hhigh : m < 2 ^ 53 := h.significand
    refine legible_largest negative m ?_
    simp only [List.mem_cons, List.not_mem_nil, or_false]
    omega
  · obtain ⟨n, e, hnumber, hword, hcases⟩ := Decimal.number_numeral hle x.negative
    rw [Number.numeral, if_neg hzero, hnumber]
    have hround : (1 : ℚ) ≤ (1 + 2 ^ (-53 : ℤ)) ^ 2 := by norm_num
    refine Numeral.toFloat_isSome x.negative
      ((le_mul_of_one_le_right (by positivity) hround).trans_lt (word_lt_overflow hword)) ?_
    rcases hcases with he | ⟨rfl, rfl⟩
    · exact Or.inl he
    · by_cases he : x.shortest.exponent < 0
      · exact Or.inl he
      · obtain ⟨hpower, hroom⟩ := room_of_shortest h hzero hlargest
        exact Or.inr ⟨by omega, hpower, Nat.one_le_iff_ne_zero.mpr hne, hroom⟩

end Json
end FleetMesh
