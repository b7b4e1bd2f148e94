/-
Dates of the calendar.

`dateOf` counts years from March in eras of 400 years.  A day of an era falls into a
century, a group of four years and a year of it (`yearOfEra_cases`); the day that is
left over at the end of a year is the leap day.  From that every day has a month and
a day of it, within the length of the month (`dateOf_isDate`).
-/
import FleetMesh.Timestamp

namespace FleetMesh
namespace Timestamp

/-- A month, and a day of it. -/
def IsDate (year : Int) (month day : Nat) : Prop :=
  1 ≤ month ∧ month ≤ 12 ∧ 1 ≤ day ∧ day ≤ monthLength year month

instance (year : Int) (month day : Nat) : Decidable (IsDate year month day) :=
  inferInstanceAs (Decidable (_ ∧ _ ∧ _ ∧ _))

theorem isLeapYear_iff (year : Int) :
    isLeapYear year = true ↔ year % 4 = 0 ∧ (year % 100 ≠ 0 ∨ year % 400 = 0) := by
  simp [isLeapYear]

/-- The year of an era that a day falls into, counted from March, and the day of that year. -/
def yearOfEra (dayOfEra : Int) : Int :=
  (dayOfEra - dayOfEra / 1460 + dayOfEra / 36524 - dayOfEra / 146096) / 365

def dayOfYear (dayOfEra : Int) : Int :=
  dayOfEra - (365 * yearOfEra dayOfEra + yearOfEra dayOfEra / 4 - yearOfEra dayOfEra / 100)

/-- A year has 365 days, and one more if the February at its end has a leap day. -/
theorem yearOfEra_cases {d : Int} (h0 : 0 ≤ d) (h : d < 146097) :
    0 ≤ yearOfEra d ∧ yearOfEra d ≤ 399 ∧ 0 ≤ dayOfYear d ∧ dayOfYear d ≤ 365 ∧
      (dayOfYear d = 365 → isLeapYear (yearOfEra d + 1) = true) := by
  rw [isLeapYear_iff]
  by_cases hlast : d = 146096
  · subst hlast
    decide
  -- the day is day `s` of the `k`-th group of four years in century `b`
  obtain ⟨b, hb⟩ : ∃ b, b = d / 36524 := ⟨_, rfl⟩
  obtain ⟨k, hk⟩ : ∃ k, k = (d - 36524 * b) / 1461 := ⟨_, rfl⟩
  obtain ⟨s, hs⟩ : ∃ s, s = d - 36524 * b - 1461 * k := ⟨_, rfl⟩
  have hb03 : 0 ≤ b ∧ b ≤ 3 := by omega
  have hk024 : 0 ≤ k ∧ k ≤ 24 := by omega
  have hs1460 : 0 ≤ s ∧ s ≤ 1460 := by omega
  have hend : k = 24 → s < 1460 := by omega
  have hera : d / 146096 = 0 := by omega
  -- leap days before it, as the division by 1460 counts them
  obtain ⟨t, ht⟩ : ∃ t, t = (24 * b + k + s) / 1460 := ⟨_, rfl⟩
  have ht01 : 0 ≤ t ∧ t ≤ 1 := by omega
  have hquarters : d / 1460 = 25 * b + k + t := by omega
  obtain ⟨j, hj⟩ : ∃ j, j = (s - t) / 365 := ⟨_, rfl⟩
  have hj03 : 0 ≤ j ∧ j ≤ 3 := by omega
  have hyear : yearOfEra d = 100 * b + 4 * k + j := by
    rw [yearOfEra, hera, hquarters, ← hb]
    omega
  have hfour : (100 * b + 4 * k + j) / 4 = 25 * b + k := by omega
  have hhundred : (100 * b + 4 * k + j) / 100 = b := by omega
  have hday : dayOfYear d = s - 365 * j := by
    rw [dayOfYear, hyear, hfour, hhundred]
    omega
  rw [hday, hyear]
  refine ⟨by omega, by omega, by omega, by omega, fun hleap => ?_⟩
  have hj3 : j = 3 := by omega
  omega

/-- The month that is `m` months after March. -/
def monthOf (m : Int) : Int := if m < 10 then m + 3 else m - 9

/-- The month `m`, counted from March, and the day of it. -/
theorem isDate_of_dayOfYear {d m : Int} (h0 : 0 ≤ d) (h : d ≤ 365) (hm : m = (5 * d + 2) / 153)
    {year : Int} (hleap : d = 365 → isLeapYear year = true) :
    IsDate year (monthOf m).toNat (d - (153 * m + 2) / 5 + 1).toNat := by
  have hcases : m = 0 ∨ m = 1 ∨ m = 2 ∨ m = 3 ∨ m = 4 ∨ m = 5 ∨ m = 6 ∨ m = 7 ∨ m = 8 ∨ m = 9 ∨
      m = 10 ∨ m = 11 := by omega
  rw [IsDate]
  rcases hcases with rfl | rfl | rfl | rfl | rfl | rfl | rfl | rfl | rfl | rfl | rfl | rfl
  -- February, at the end of the year
  case inr.inr.inr.inr.inr.inr.inr.inr.inr.inr.inr =>
    by_cases h365 : d = 365
    · simp [monthOf, monthLength, hleap h365]
      omega
    · simp [monthOf, monthLength]
      split <;> omega
  all_goals
    simp [monthOf, monthLength]
    omega

theorem dateOf_eq (days : Int) {era d m : Int} (hera : era = (days + 719468) / 146097)
    (hd : d = days + 719468 - era * 146097) (hm : m = (5 * dayOfYear d + 2) / 153) :
    dateOf days =
      (if monthOf m ≤ 2 then yearOfEra d + era * 400 + 1 else yearOfEra d + era * 400,
      (monthOf m).toNat, (dayOfYear d - (153 * m + 2) / 5 + 1).toNat) := by
  subst hm hd hera
  rfl

/-- A day has a month and a day of it. -/
theorem dateOf_isDate (days : Int) :
    IsDate (dateOf days).1 (dateOf days).2.1 (dateOf days).2.2 := by
  obtain ⟨era, hera⟩ : ∃ era, era = (days + 719468) / 146097 := ⟨_, rfl⟩
  obtain ⟨d, hd⟩ : ∃ d, d = days + 719468 - era * 146097 := ⟨_, rfl⟩
  obtain ⟨m, hm⟩ : ∃ m, m = (5 * dayOfYear d + 2) / 153 := ⟨_, rfl⟩
  rw [dateOf_eq days hera hd hm]
  obtain ⟨-, -, hlow, hhigh, hleap⟩ := yearOfEra_cases (d := d) (by omega) (by omega)
  refine isDate_of_dayOfYear hlow hhigh hm fun h365 => ?_
  have hfebruary : monthOf m = 2 := by
    rw [hm, h365]
    rfl
  have hyear : yearOfEra d + era * 400 + 1 = yearOfEra d + 1 + era * 400 := by omega
  have hmod : isLeapYear (yearOfEra d + 1 + era * 400) = isLeapYear (yearOfEra d + 1) := by
    rw [Bool.eq_iff_iff, isLeapYear_iff, isLeapYear_iff]
    omega
  rw [hfebruary, if_pos (by decide), hyear, hmod]
  exact hleap h365

/-- The first and the last day whose year is written with four digits. -/
theorem dateOf_year {days : Int} (h : -719528 ≤ days ∧ days ≤ 2932896) :
    0 ≤ (dateOf days).1 ∧ (dateOf days).1 ≤ 9999 := by
  obtain ⟨era, hera⟩ : ∃ era, era = (days + 719468) / 146097 := ⟨_, rfl⟩
  obtain ⟨d, hd⟩ : ∃ d, d = days + 719468 - era * 146097 := ⟨_, rfl⟩
  obtain ⟨m, hm⟩ : ∃ m, m = (5 * dayOfYear d + 2) / 153 := ⟨_, rfl⟩
  rw [dateOf_eq days hera hd hm]
  obtain ⟨hy0, hy399, hlow, hhigh, -⟩ := yearOfEra_cases (d := d) (by omega) (by omega)
  have hday : dayOfYear d = d - (365 * yearOfEra d + yearOfEra d / 4 - yearOfEra d / 100) := rfl
  have hcases : era = -1 ∨ era = 24 ∨ 0 ≤ era ∧ era ≤ 23 := by omega
  rcases hcases with hera | hera | hera
  · have hlast : yearOfEra d = 399 := by omega
    have hfebruary : monthOf m ≤ 2 := by
      rw [monthOf, if_neg] <;> omega
    rw [if_pos hfebruary]
    omega
  · by_cases hlast : yearOfEra d = 399
    · have hdecember : ¬ monthOf m ≤ 2 := by
        rw [monthOf, if_pos] <;> omega
      rw [if_neg hdecember]
      omega
    · split <;> omega
  · split <;> omega

end Timestamp
end FleetMesh
