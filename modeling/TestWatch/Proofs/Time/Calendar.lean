import TestWatch.Time.Calendar

/-!
# Every day has a date

The date of a day is a date of the calendar, and its day number is that day. Four hundred years
have 146097 days, so the guessed year is never off by more than one.
-/

namespace TestWatch.Date

theorem daysBeforeYear_succ (y : Int) :
    daysBeforeYear (y + 1) = daysBeforeYear y + daysBeforeMonth (isLeapYear y) 13 := by
  cases leap : isLeapYear y with
  | true =>
    simp only [isLeapYear, Bool.and_eq_true, Bool.or_eq_true, beq_iff_eq, bne_iff_ne] at leap
    simp only [daysBeforeYear, daysBeforeMonth, if_true]
    omega
  | false =>
    simp only [isLeapYear, Bool.and_eq_false_iff, Bool.or_eq_false_iff, beq_eq_false_iff_ne,
      bne_eq_false_iff_eq] at leap
    simp only [daysBeforeYear, daysBeforeMonth, Bool.false_eq_true, if_false]
    omega

/-- A day lies in its year. -/
theorem daysBeforeYear_yearOf (n : Int) :
    daysBeforeYear (yearOf n) ≤ n ∧ n < daysBeforeYear (yearOf n + 1) := by
  simp only [yearOf]
  generalize guessed : n * 400 / 146097 = guess
  split
  · rename_i too_late
    rw [Int.sub_add_cancel]
    refine ⟨?_, too_late⟩
    simp only [daysBeforeYear]
    omega
  · split
    · rename_i too_early
      refine ⟨too_early, ?_⟩
      simp only [daysBeforeYear]
      omega
    · omega

/-- The day of the year lies in its month. -/
theorem month_of_rest (leap : Bool) {rest : Nat} (h : rest < daysBeforeMonth leap 13) :
    let month := ((List.range 12).find? fun m => rest < daysBeforeMonth leap (m + 2)).getD 11 + 1
    month ≤ 12 ∧ daysBeforeMonth leap month ≤ rest ∧ rest < daysBeforeMonth leap (month + 1) := by
  have all_days : ∀ leap : Bool, ∀ rest < 366, rest < daysBeforeMonth leap 13 →
      let month := ((List.range 12).find? fun m => rest < daysBeforeMonth leap (m + 2)).getD 11 + 1
      month ≤ 12 ∧ daysBeforeMonth leap month ≤ rest ∧
        rest < daysBeforeMonth leap (month + 1) := by
    decide +kernel
  have at_most : daysBeforeMonth leap 13 ≤ 366 := by cases leap <;> decide
  exact all_days leap rest (by omega) h

theorem daysInMonth_le (y : Int) {month : Nat} (pos : 1 ≤ month) (h : month ≤ 12) :
    daysInMonth y month ≤ 31 := by
  have all_months : ∀ leap : Bool, ∀ month < 13, 1 ≤ month →
      daysBeforeMonth leap (month + 1) - daysBeforeMonth leap month ≤ 31 := by decide
  exact all_months (isLeapYear y) month (by omega) pos

section OfDay

variable (day : Int)

theorem ofDay_month :
    let date := ofDay day
    let rest := (day + epoch - daysBeforeYear date.year).toNat
    date.month ≤ 12 ∧ 1 ≤ date.month ∧ daysBeforeMonth (isLeapYear date.year) date.month ≤ rest ∧
      rest < daysBeforeMonth (isLeapYear date.year) (date.month + 1) ∧
      date.day = rest - daysBeforeMonth (isLeapYear date.year) date.month + 1 := by
  obtain ⟨least, below⟩ := daysBeforeYear_yearOf (day + epoch)
  rw [daysBeforeYear_succ] at below
  have in_year : (day + epoch - daysBeforeYear (yearOf (day + epoch))).toNat <
      daysBeforeMonth (isLeapYear (yearOf (day + epoch))) 13 := by omega
  obtain ⟨at_most, from_month, before_next⟩ := month_of_rest _ in_year
  exact ⟨at_most, Nat.le_add_left .., from_month, before_next, rfl⟩

theorem toDay_ofDay : (ofDay day).toDay = day := by
  obtain ⟨least, _⟩ := daysBeforeYear_yearOf (day + epoch)
  obtain ⟨-, -, from_month, -, day_eq⟩ := ofDay_month day
  have year_eq : (ofDay day).year = yearOf (day + epoch) := rfl
  rw [year_eq] at from_month day_eq
  rw [toDay, year_eq, day_eq]
  omega

variable {day}

theorem valid_ofDay (least : minYear ≤ (ofDay day).year) (greatest : (ofDay day).year ≤ maxYear) :
    (ofDay day).Valid := by
  obtain ⟨at_most, at_least, from_month, before_next, day_eq⟩ := ofDay_month day
  refine ⟨least, greatest, at_least, at_most, by omega, ?_⟩
  rw [daysInMonth]
  omega

end OfDay

end TestWatch.Date
