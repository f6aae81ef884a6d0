import Mathlib.Tactic.SplitIfs
import Parley.Time.Calendar

/-!
# Counting days back and forth

Every count of days is the count of the date it leads to (`toDays_ofDays`), and that date is in
the calendar (`isValid_ofDays`).

Inside an era of 146097 days the year is found by a division that first takes the leap days out
(`yearOfEra`).  That it is the right year comes from cutting the era into centuries and these into
spans of four years (`yearOfEra_eq`): in every span the leap day is the last.
-/

namespace Parley.Time

/-! ## Eras -/

/-- The year of an era that a day of the era lies in. -/
def yearOfEra (day : Int) : Int :=
  (day - day / 1460 + day / 36524 - day / 146096) / 365

/-- The day of the era on which a year of the era begins. -/
def startOfYear (year : Int) : Int := 365 * year + year / 4 - year / 100

/-- Day `s` of the span `k` of four years of the century `b` lies in the year of the span that
`s` says; the last day of the span is its leap day. -/
theorem yearOfEra_eq {day b k s : Int} (hday : 0 ≤ day) (hlt : day < 146096)
    (hb : b = day / 36524) (hk : k = (day - b * 36524) / 1461)
    (hs : s = day - b * 36524 - 1461 * k) :
    yearOfEra day = 100 * b + 4 * k + (if s = 1460 then 3 else s / 365) := by
  have hera : day / 146096 = 0 := by omega
  have hcentury : 0 ≤ b ∧ b ≤ 3 := by omega
  have hspan : 0 ≤ k ∧ k ≤ 24 := by omega
  have hin : 0 ≤ s ∧ s ≤ 1460 := by omega
  rw [yearOfEra, hera, ← hb]
  split <;> omega

/-- **A day of an era lies in its year.**  It is the last of 366 days only where the year after,
which has the leap day, is a leap year. -/
theorem yearOfEra_spec (day : Int) (hday : 0 ≤ day) (hlt : day < 146097) :
    0 ≤ yearOfEra day ∧ yearOfEra day < 400 ∧ startOfYear (yearOfEra day) ≤ day ∧
      day ≤ startOfYear (yearOfEra day) + 365 ∧
      (day = startOfYear (yearOfEra day) + 365 → isLeapYear (yearOfEra day + 1)) := by
  by_cases hlast : day = 146096
  · subst hlast
    decide
  · obtain ⟨b, hb⟩ : ∃ b, b = day / 36524 := ⟨_, rfl⟩
    obtain ⟨k, hk⟩ : ∃ k, k = (day - b * 36524) / 1461 := ⟨_, rfl⟩
    obtain ⟨s, hs⟩ : ∃ s, s = day - b * 36524 - 1461 * k := ⟨_, rfl⟩
    have hyear := yearOfEra_eq hday (by omega) hb hk hs
    have hcentury : 0 ≤ b ∧ b ≤ 3 := by omega
    have hspan : 0 ≤ k ∧ k ≤ 24 := by omega
    have hin : 0 ≤ s ∧ s ≤ 1460 := by omega
    obtain ⟨j, hj⟩ : ∃ j, j = if s = 1460 then 3 else s / 365 := ⟨_, rfl⟩
    have hjrange : 0 ≤ j ∧ j ≤ 3 := by split_ifs at hj <;> omega
    have hjday : 0 ≤ s - 365 * j ∧ s - 365 * j ≤ 365 := by split_ifs at hj <;> omega
    have hjleap : s - 365 * j = 365 → s = 1460 ∧ j = 3 := by split_ifs at hj <;> omega
    have hstart : startOfYear (100 * b + 4 * k + j) = 36524 * b + 1461 * k + 365 * j := by
      have hfours : (100 * b + 4 * k + j) / 4 = 25 * b + k := by omega
      have hhundreds : (100 * b + 4 * k + j) / 100 = b := by omega
      rw [startOfYear, hfours, hhundreds]
      omega
    rw [hyear, ← hj, hstart]
    refine ⟨by omega, by omega, by omega, by omega, fun hfull => ?_⟩
    obtain ⟨hs1460, hj3⟩ := hjleap (by omega)
    have hnotlast : k ≠ 24 := by omega
    rw [isLeapYear, Bool.and_eq_true, Bool.or_eq_true, decide_eq_true_eq, decide_eq_true_eq]
    omega

/-! ## Months -/

/-- The day of the year, counted from the first of March, on which a month begins. -/
def startOfMonth (month : Int) : Int := (153 * month + 2) / 5

/-- The month, counted from March, that a day of the year lies in. -/
def monthOfYear (day : Int) : Int := (5 * day + 2) / 153

theorem monthOfYear_spec (day : Int) (hday : 0 ≤ day) (hlt : day ≤ 365) :
    0 ≤ monthOfYear day ∧ monthOfYear day ≤ 11 ∧ startOfMonth (monthOfYear day) ≤ day ∧
      day < startOfMonth (monthOfYear day + 1) := by
  rw [monthOfYear, startOfMonth, startOfMonth]
  omega

/-! ## Dates -/

namespace Date

/-- The date of a day of a month, both counted from zero, in a year that begins in March. -/
def fromMarch (year month day : Int) : Date :=
  let civil := if month < 10 then month + 3 else month - 9
  ⟨year + (if civil ≤ 2 then 1 else 0), civil.toNat, (day + 1).toNat⟩

/-- A day in the count from March: the year of its era, its month, and its day of that month. -/
structure IsDay (year month day : Int) : Prop where
  year_nonneg : 0 ≤ year
  year_lt : year < 400
  month_nonneg : 0 ≤ month
  month_le : month ≤ 11
  day_nonneg : 0 ≤ day
  in_month : startOfMonth month + day < startOfMonth (month + 1)
  in_year : startOfMonth month + day ≤ 365
  leap : startOfMonth month + day = 365 → isLeapYear (year + 1)

/-- The parts of the date of a count of days. -/
theorem ofDays_eq (days : Int) : ∃ era year month day, IsDay year month day ∧
    days + 719468 = era * 146097 + (startOfYear year + (startOfMonth month + day)) ∧
    ofDays days = fromMarch (year + era * 400) month day := by
  obtain ⟨era, hera⟩ : ∃ era, era = (days + 719468).fdiv 146097 := ⟨_, rfl⟩
  obtain ⟨dayOfEra, hdayOfEra⟩ : ∃ d, d = days + 719468 - era * 146097 := ⟨_, rfl⟩
  have hdiv := hera
  rw [Int.fdiv_eq_ediv_of_nonneg _ (by decide)] at hdiv
  obtain ⟨hyear, hyearlt, hstart, hend, hleap⟩ :=
    yearOfEra_spec dayOfEra (by omega) (by omega)
  obtain ⟨year, hyeareq⟩ : ∃ y, y = yearOfEra dayOfEra := ⟨_, rfl⟩
  rw [← hyeareq] at hyear hyearlt hstart hend hleap
  obtain ⟨dayOfYear, hdayOfYear⟩ : ∃ d, d = dayOfEra - startOfYear year := ⟨_, rfl⟩
  obtain ⟨hmonth, hmonthle, hmonthstart, hmonthend⟩ :=
    monthOfYear_spec dayOfYear (by omega) (by omega)
  obtain ⟨month, hmontheq⟩ : ∃ m, m = monthOfYear dayOfYear := ⟨_, rfl⟩
  rw [← hmontheq] at hmonth hmonthle hmonthstart hmonthend
  refine ⟨era, year, month, dayOfYear - startOfMonth month, ⟨hyear, hyearlt, hmonth, hmonthle,
    by omega, by omega, by omega, fun hfull => hleap (by omega)⟩, by omega, ?_⟩
  subst hmontheq hdayOfYear hyeareq hdayOfEra hera
  rfl

theorem toDays_fromMarch {era year month day : Int} (h : IsDay year month day) :
    (fromMarch (year + era * 400) month day).toDays =
      era * 146097 + (startOfYear year + (startOfMonth month + day)) - 719468 := by
  obtain ⟨hyear, hyearlt, hmonth, hmonthle, hday, -, -, -⟩ := h
  rw [toDays, fromMarch, Int.fdiv_eq_ediv_of_nonneg _ (by decide), startOfYear, startOfMonth]
  dsimp only
  split_ifs <;> omega

/-- **The date of a count of days has that count.** -/
theorem toDays_ofDays (days : Int) : (ofDays days).toDays = days := by
  obtain ⟨era, year, month, day, hpart, hdays, hdate⟩ := ofDays_eq days
  rw [hdate, toDays_fromMarch hpart]
  omega

/-- Leap years come back with every era. -/
theorem isLeapYear_era {year era : Int} (h : isLeapYear year) : isLeapYear (year + era * 400) := by
  rw [isLeapYear, Bool.and_eq_true, Bool.or_eq_true, decide_eq_true_eq, decide_eq_true_eq,
    decide_eq_true_eq] at h ⊢
  omega

theorem isValid_fromMarch {era year month day : Int} (h : IsDay year month day) :
    (fromMarch (year + era * 400) month day).isValid := by
  obtain ⟨hyear, hyearlt, hmonth, hmonthle, hday, hin, hlast, hleap⟩ := h
  simp only [isValid, Bool.and_eq_true, decide_eq_true_eq]
  have hcases : month = 0 ∨ month = 1 ∨ month = 2 ∨ month = 3 ∨ month = 4 ∨ month = 5 ∨ month = 6 ∨
      month = 7 ∨ month = 8 ∨ month = 9 ∨ month = 10 ∨ month = 11 := by omega
  rcases hcases with rfl | rfl | rfl | rfl | rfl | rfl | rfl | rfl | rfl | rfl | rfl | hfebruary
  case inr.inr.inr.inr.inr.inr.inr.inr.inr.inr.inr =>
    subst hfebruary
    have hstart : startOfMonth 11 = 337 := rfl
    have hdays : daysInMonth (fromMarch (year + era * 400) 11 day).year 2 =
        if isLeapYear (year + 1 + era * 400) then 29 else 28 := by
      rw [show year + 1 + era * 400 = year + era * 400 + 1 by omega]
      rfl
    have hmonth : (fromMarch (year + era * 400) 11 day).month = 2 := rfl
    have hday' : (fromMarch (year + era * 400) 11 day).day = (day + 1).toNat := rfl
    rw [hmonth, hdays, hday']
    refine ⟨⟨⟨by decide, by decide⟩, by omega⟩, ?_⟩
    by_cases hfull : day = 28
    · rw [if_pos (isLeapYear_era (hleap (by omega)))]
      omega
    · split_ifs <;> omega
  all_goals
    simp [fromMarch, daysInMonth, startOfMonth] at hin ⊢
    omega

/-- **The date of a count of days is in the calendar.** -/
theorem isValid_ofDays (days : Int) : (ofDays days).isValid := by
  obtain ⟨era, year, month, day, hpart, -, hdate⟩ := ofDays_eq days
  rw [hdate]
  exact isValid_fromMarch hpart

theorem month_le {d : Date} (h : d.isValid) : d.month ≤ 12 := by
  simp only [isValid, Bool.and_eq_true, decide_eq_true_eq] at h
  exact h.1.1.2

theorem day_le {d : Date} (h : d.isValid) : d.day ≤ 31 := by
  have hmost : daysInMonth d.year d.month ≤ 31 := by
    unfold daysInMonth
    split_ifs <;> decide
  simp only [isValid, Bool.and_eq_true, decide_eq_true_eq] at h
  exact Nat.le_trans h.2 hmost

end Date

end Parley.Time
