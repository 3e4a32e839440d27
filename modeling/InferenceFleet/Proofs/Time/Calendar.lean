import InferenceFleet.Time.Calendar

/-!
# Days and dates

`Date.ofDayNumber` gives a date that exists, and `dayNumber` leads back from it to the day. Both
count the days of a year from 1 March, so a date is looked at as its year from March and the day in
it (`afterMarch`).
-/

namespace InferenceFleet

theorem daysInMonth_le (year : Int) (month : Nat) : daysInMonth year month ≤ 31 := by
  unfold daysInMonth
  split
  · split <;> decide
  all_goals decide

namespace Date

/-- The date `r` days after 1 March of `year`. -/
def afterMarch (year r : Int) : Date :=
  let month := (5 * r + 2) / 153
  { year := if month < 10 then year else year + 1
    month := (if month < 10 then month + 3 else month - 9).toNat
    day := (r - (153 * month + 2) / 5 + 1).toNat }

/-- How many days of an era lie before its year `y`. -/
def daysBefore (y : Int) : Int := 365 * y + y / 4 - y / 100

variable {d y r : Int}

/-- Each day of an era lies in one of its 400 years, in which it has a day number below 366. -/
theorem exists_yearOfEra (h : 0 ≤ d) (h' : d < 146097) :
    ∃ y r, 0 ≤ y ∧ y < 400 ∧ 0 ≤ r ∧ (r < 365 ∨ r = 365 ∧ isLeapYear (y + 1) = true) ∧
      d = daysBefore y + r := by
  -- Centuries, then spans of four years, then years; the last of each kind may be longer by a day.
  obtain ⟨c, hc⟩ : ∃ c, c = min (d / 36524) 3 := ⟨_, rfl⟩
  obtain ⟨q, hq⟩ : ∃ q, q = (d - 36524 * c) / 1461 := ⟨_, rfl⟩
  obtain ⟨k, hk⟩ : ∃ k, k = min ((d - 36524 * c - 1461 * q) / 365) 3 := ⟨_, rfl⟩
  have hquarters : (100 * c + 4 * q + k) / 4 = 25 * c + q := by omega
  have hcenturies : (100 * c + 4 * q + k) / 100 = c := by omega
  refine ⟨100 * c + 4 * q + k, d - 36524 * c - 1461 * q - 365 * k, by omega, by omega, by omega,
    ?_, by rw [daysBefore]; omega⟩
  by_cases hlast : d - 36524 * c - 1461 * q - 365 * k < 365
  · exact .inl hlast
  · refine .inr ⟨by omega, ?_⟩
    simp only [isLeapYear, Bool.and_eq_true, Bool.or_eq_true, beq_iff_eq, bne_iff_ne]
    omega

theorem yearOfEra_eq (hy : 0 ≤ y) (hy' : y < 400) (hr : 0 ≤ r)
    (hr' : r < 365 ∨ r = 365 ∧ isLeapYear (y + 1) = true) (hd : d = daysBefore y + r) :
    (d - d / 1460 + d / 36524 - d / 146096) / 365 = y := by
  have hleap : r = 365 → (y + 1) % 4 = 0 ∧ ((y + 1) % 100 ≠ 0 ∨ (y + 1) % 400 = 0) := by
    intro h
    rcases hr' with hlt | ⟨-, hleap⟩
    · omega
    · simpa [isLeapYear] using hleap
  obtain ⟨c, hc⟩ : ∃ c, c = y / 100 := ⟨_, rfl⟩
  obtain ⟨q, hq⟩ : ∃ q, q = y % 100 / 4 := ⟨_, rfl⟩
  obtain ⟨k, hk⟩ : ∃ k, k = y % 4 := ⟨_, rfl⟩
  have hparts : y = 100 * c + 4 * q + k := by omega
  have hbounds : 0 ≤ c ∧ c ≤ 3 ∧ 0 ≤ q ∧ q ≤ 24 ∧ 0 ≤ k ∧ k ≤ 3 := by omega
  have hdays : d = 36524 * c + 1461 * q + 365 * k + r := by
    rw [hd, daysBefore]
    omega
  have hlong : r ≤ 365 ∧ (r = 365 → k = 3 ∧ (q ≤ 23 ∨ c = 3)) := by omega
  clear hc hq hk hd hleap hr'
  -- Each quotient counts the spans that are over; `d / 1460` runs ahead as its spans are too short.
  have hquarters : d / 1460 = 25 * c + q + if 1460 ≤ 24 * c + q + 365 * k + r then 1 else 0 := by
    split <;> omega
  have hcenturies : d / 36524 = c + if d = 146096 then 1 else 0 := by
    split <;> omega
  have heras : d / 146096 = if d = 146096 then 1 else 0 := by
    split <;> omega
  rw [hquarters, hcenturies, heras]
  split <;> split <;> omega

/-- The date of a day, by the day's era, the year of the era and the day of the year. -/
theorem exists_ofDayNumber (n : Int) :
    ∃ era y r, 0 ≤ y ∧ y < 400 ∧ 0 ≤ r ∧ (r < 365 ∨ r = 365 ∧ isLeapYear (y + 1) = true) ∧
      n = era * 146097 + (daysBefore y + r) - 719468 ∧
      ofDayNumber n = afterMarch (era * 400 + y) r := by
  obtain ⟨d, hd⟩ : ∃ d, d = (n + 719468) % 146097 := ⟨_, rfl⟩
  obtain ⟨y, r, hy, hy', hr, hr', hdays⟩ := exists_yearOfEra (d := d) (by omega) (by omega)
  have hyear := yearOfEra_eq hy hy' hr hr' hdays
  have hday : d - (365 * y + y / 4 - y / 100) = r := by
    rw [hdays, daysBefore]
    omega
  refine ⟨(n + 719468) / 146097, y, r, hy, hy', hr, hr', by omega, ?_⟩
  have hmonth : 0 ≤ (5 * r + 2) / 153 := by omega
  simp only [ofDayNumber, afterMarch, ← hd, hyear, hday]
  by_cases hm : (5 * r + 2) / 153 < 10
  · simp only [if_pos hm]
    rw [if_neg (by omega), Int.add_comm y]
  · simp only [if_neg hm]
    rw [if_pos (by omega), Int.add_comm y]

theorem isLeapYear_era (era y : Int) : isLeapYear (era * 400 + y) = isLeapYear y := by
  have hfour : (era * 400 + y) % 4 = y % 4 := by omega
  have hcentury : (era * 400 + y) % 100 = y % 100 := by omega
  have hera : (era * 400 + y) % 400 = y % 400 := by omega
  rw [isLeapYear, hfour, hcentury, hera, isLeapYear]

theorem afterMarch_month (year : Int) (hr : 0 ≤ r) (hr' : r ≤ 365) :
    1 ≤ (afterMarch year r).month ∧ (afterMarch year r).month ≤ 12 := by
  simp only [afterMarch]
  split <;> omega

theorem afterMarch_day (hr : 0 ≤ r) (hr' : r < 365 ∨ r = 365 ∧ isLeapYear (y + 1) = true) :
    1 ≤ (afterMarch y r).day ∧
      (afterMarch y r).day ≤ daysInMonth (afterMarch y r).year (afterMarch y r).month := by
  obtain ⟨m, hm⟩ : ∃ m, m = (5 * r + 2) / 153 := ⟨_, rfl⟩
  have hmonths : m = 0 ∨ m = 1 ∨ m = 2 ∨ m = 3 ∨ m = 4 ∨ m = 5 ∨ m = 6 ∨ m = 7 ∨ m = 8 ∨ m = 9 ∨
      m = 10 ∨ m = 11 := by omega
  simp only [afterMarch, ← hm]
  refine ⟨by omega, ?_⟩
  rcases hmonths with rfl | rfl | rfl | rfl | rfl | rfl | rfl | rfl | rfl | rfl | rfl | rfl
  · show _ ≤ 31; omega
  · show _ ≤ 30; omega
  · show _ ≤ 31; omega
  · show _ ≤ 30; omega
  · show _ ≤ 31; omega
  · show _ ≤ 31; omega
  · show _ ≤ 30; omega
  · show _ ≤ 31; omega
  · show _ ≤ 30; omega
  · show _ ≤ 31; omega
  · show _ ≤ 31; omega
  · show _ ≤ if isLeapYear (y + 1) then 29 else 28
    rcases hr' with hlt | ⟨hlast, hleap⟩
    · split <;> omega
    · rw [if_pos hleap]
      omega

theorem dayNumber_afterMarch (era : Int) (hy : 0 ≤ y) (hy' : y < 400) (hr : 0 ≤ r)
    (hr' : r ≤ 365) :
    (afterMarch (era * 400 + y) r).dayNumber = era * 146097 + (daysBefore y + r) - 719468 := by
  obtain ⟨m, hm⟩ : ∃ m, m = (5 * r + 2) / 153 := ⟨_, rfl⟩
  have hera : (era * 400 + y) / 400 = era := by omega
  have hyear : (era * 400 + y) % 400 = y := by omega
  have hday : ((r - (153 * m + 2) / 5 + 1).toNat : Int) - 1 = r - (153 * m + 2) / 5 := by omega
  have hdays : era * 146097 + (y * 365 + y / 4 - y / 100 + ((153 * m + 2) / 5 +
      (r - (153 * m + 2) / 5))) - 719468 = era * 146097 + (daysBefore y + r) - 719468 := by
    rw [daysBefore]
    omega
  simp only [dayNumber, afterMarch, ← hm]
  by_cases hmonth : m < 10
  · have hmarch : (((m + 3).toNat + 9) % 12 : Nat) = m := by omega
    simp only [if_pos hmonth]
    rw [if_neg (by omega), hera, hyear, hmarch, hday, hdays]
  · have hmarch : (((m - 9).toNat + 9) % 12 : Nat) = m := by omega
    simp only [if_neg hmonth]
    rw [if_pos (by omega), Int.add_sub_cancel, hera, hyear, hmarch, hday, hdays]

/-- The day of a day's date is that day. -/
theorem dayNumber_ofDayNumber (n : Int) : (ofDayNumber n).dayNumber = n := by
  obtain ⟨era, y, r, hy, hy', hr, hr', hn, hdate⟩ := exists_ofDayNumber n
  rw [hdate, dayNumber_afterMarch era hy hy' hr (by omega), ← hn]

theorem month_ofDayNumber (n : Int) : 1 ≤ (ofDayNumber n).month ∧ (ofDayNumber n).month ≤ 12 := by
  obtain ⟨era, y, r, -, -, hr, hr', -, hdate⟩ := exists_ofDayNumber n
  rw [hdate]
  exact afterMarch_month _ hr (by omega)

theorem day_ofDayNumber (n : Int) : 1 ≤ (ofDayNumber n).day ∧
    (ofDayNumber n).day ≤ daysInMonth (ofDayNumber n).year (ofDayNumber n).month := by
  obtain ⟨era, y, r, -, -, hr, hr', -, hdate⟩ := exists_ofDayNumber n
  rw [hdate]
  refine afterMarch_day hr ?_
  rwa [Int.add_assoc, isLeapYear_era]

theorem year_ofDayNumber {n : Int} (h : dayNumber { year := firstYear, month := 1, day := 1 } ≤ n)
    (h' : n ≤ dayNumber { year := lastYear, month := 12, day := 31 }) :
    firstYear ≤ (ofDayNumber n).year ∧ (ofDayNumber n).year ≤ lastYear := by
  have hfirst : dayNumber { year := firstYear, month := 1, day := 1 } = -96465292 := by decide
  have hlast : dayNumber { year := lastYear, month := 12, day := 31 } = 95026236 := by decide
  obtain ⟨era, y, r, hy, hy', hr, hr', hn, hdate⟩ := exists_ofDayNumber n
  rw [hfirst] at h
  rw [hlast] at h'
  rw [daysBefore] at hn
  rw [hdate]
  have hera : -656 ≤ era ∧ era ≤ 655 := by omega
  simp only [afterMarch, firstYear, lastYear]
  split <;> omega

/-- Every day of the calendar's range has a date. -/
theorem isValid_ofDayNumber {n : Int}
    (h : dayNumber { year := firstYear, month := 1, day := 1 } ≤ n)
    (h' : n ≤ dayNumber { year := lastYear, month := 12, day := 31 }) :
    (ofDayNumber n).isValid = true := by
  obtain ⟨hfirst, hlast⟩ := year_ofDayNumber h h'
  obtain ⟨hmonth, hmonth'⟩ := month_ofDayNumber n
  obtain ⟨hday, hday'⟩ := day_ofDayNumber n
  simp [isValid, *]

end Date

end InferenceFleet
