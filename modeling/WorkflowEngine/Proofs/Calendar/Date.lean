import WorkflowEngine.Calendar.Date

/-!
Days and dates. A day of an era of 400 years lies in one of its centuries, there in one of 25 runs of
four years, and there in one of the years; the leap day is the last one of its year. With these parts
the divisions that find year, month and day of the month come out even.
-/

namespace WorkflowEngine.Date

/-- Where a day of an era lies: its century, the four years in it, the year and the day in that. -/
structure InEra (e c q k j : Int) : Prop where
  century : 0 ≤ c ∧ c ≤ 3
  quad : 0 ≤ q ∧ q ≤ 24
  year : 0 ≤ k ∧ k ≤ 3
  day : 0 ≤ j ∧ j ≤ 365
  leap : j = 365 → k = 3 ∧ (q ≤ 23 ∨ c = 3)
  sum : e = 36524 * c + 1461 * q + 365 * k + j

variable {e c q k j : Int}

theorem exists_inEra (low : 0 ≤ e) (high : e < 146097) : ∃ c q k j, InEra e c q k j := by
  by_cases last : e = 146096
  · exact ⟨3, 24, 3, 365, by constructor <;> omega⟩
  · by_cases leap : e % 36524 % 1461 = 1460
    · exact ⟨e / 36524, e % 36524 / 1461, 3, 365, by constructor <;> omega⟩
    · refine ⟨e / 36524, e % 36524 / 1461, e % 36524 % 1461 / 365, e % 36524 % 1461 % 365, ?_⟩
      constructor <;> omega

namespace InEra

theorem yearOfEra (at' : InEra e c q k j) :
    (e - e / 1460 + e / 36524 - e / 146096) / 365 = 100 * c + 4 * q + k := by
  obtain ⟨century, quad, year, day, leap, sum⟩ := at'
  have eras : e / 146096 = if e = 146096 then 1 else 0 := by split <;> omega
  have centuries : e / 36524 = if e = 146096 then 4 else c := by split <;> omega
  have quads : e / 1460 = 25 * c + q + (if 1460 ≤ 24 * c + q + 365 * k + j then 1 else 0) := by
    split <;> omega
  rw [eras, centuries, quads]
  split <;> split <;> omega

theorem dayOfYear (at' : InEra e c q k j) :
    e - (365 * (100 * c + 4 * q + k) + (100 * c + 4 * q + k) / 4 - (100 * c + 4 * q + k) / 100) = j := by
  obtain ⟨century, quad, year, day, leap, sum⟩ := at'
  omega

end InEra

/-! ### Months, counted from March -/

/-- The month of a year that begins in March, and the day in it. -/
def monthOf (j : Int) : Nat :=
  (if (5 * j + 2) / 153 < 10 then (5 * j + 2) / 153 + 3 else (5 * j + 2) / 153 - 9).toNat

def monthDay (j : Int) : Nat := (j - (153 * ((5 * j + 2) / 153) + 2) / 5 + 1).toNat

theorem monthOf_range (day : 0 ≤ j ∧ j ≤ 365) : 1 ≤ monthOf j ∧ monthOf j ≤ 12 := by
  have := day
  unfold monthOf
  split <;> omega

theorem monthOf_shifted (day : 0 ≤ j ∧ j ≤ 365) :
    (((monthOf j : Int) + 9) % 12 = (5 * j + 2) / 153) ∧ (monthOf j ≤ 2 ↔ 306 ≤ j) := by
  have := day
  unfold monthOf
  split <;> omega

theorem monthDay_sum (day : 0 ≤ j ∧ j ≤ 365) :
    (153 * ((5 * j + 2) / 153) + 2) / 5 + (monthDay j : Int) - 1 = j := by
  have := day
  unfold monthDay
  omega

/-- The days of every month but the last are the same in all years. -/
theorem monthDay_range {year : Int} (day : 0 ≤ j ∧ j ≤ 365) (leap : j = 365 → isLeap year = true) :
    1 ≤ monthDay j ∧ monthDay j ≤ daysInMonth year (monthOf j) := by
  have range : monthDay j = (j - (153 * ((5 * j + 2) / 153) + 2) / 5 + 1).toNat := rfl
  have month : monthOf j = (if (5 * j + 2) / 153 < 10 then (5 * j + 2) / 153 + 3
    else (5 * j + 2) / 153 - 9).toNat := rfl
  generalize monthDay j = d at range ⊢
  generalize monthOf j = m at month ⊢
  unfold daysInMonth
  split
  · by_cases last : j = 365
    · rw [leap last, if_pos rfl]
      split at month <;> omega
    · have shorter : 28 ≤ (if isLeap year = true then 29 else 28) := by split <;> omega
      split at month <;> omega
  all_goals split at month <;> omega

theorem isLeap_of_last {era : Int} (quad : 0 ≤ q ∧ q ≤ 24) (last : q ≤ 23 ∨ c = 3) :
    isLeap (100 * c + 4 * q + 3 + era * 400 + 1) = true := by
  simp only [isLeap, Bool.and_eq_true, Bool.or_eq_true, beq_iff_eq, bne_iff_ne, ne_eq]
  omega

/-- The first year of the calendar, from its first day. A year begins in March, and `b` tells whether
the day is in one of its last two months. -/
theorem year_low {n b : Int} (century : 0 ≤ c ∧ c ≤ 3) (quad : 0 ≤ q ∧ q ≤ 24) (year : 0 ≤ k ∧ k ≤ 3)
    (day : 0 ≤ j ∧ j ≤ 365) (late : (b = 1 ∧ 306 ≤ j) ∨ (b = 0 ∧ j < 306))
    (low : -96465292 ≤ n * 146097 + (36524 * c + 1461 * q + 365 * k + j) - 719468) :
    -262143 ≤ 100 * c + 4 * q + k + n * 400 + b := by
  have era : -656 ≤ n := by omega
  by_cases first : n = -656
  · subst first
    have past : (c = 2 ∧ 14 ≤ q) ∨ c = 3 := by omega
    omega
  · omega

theorem year_high {n b : Int} (century : 0 ≤ c ∧ c ≤ 3) (quad : 0 ≤ q ∧ q ≤ 24) (year : 0 ≤ k ∧ k ≤ 3)
    (day : 0 ≤ j ∧ j ≤ 365) (late : (b = 1 ∧ 306 ≤ j) ∨ (b = 0 ∧ j < 306))
    (high : n * 146097 + (36524 * c + 1461 * q + 365 * k + j) - 719468 ≤ 95026236) :
    100 * c + 4 * q + k + n * 400 + b ≤ 262142 := by
  have era : n ≤ 655 := by omega
  by_cases last : n = 655
  · subst last
    omega
  · omega

theorem dayNumber_march {n y : Int} {m d : Nat} (year : 0 ≤ y ∧ y ≤ 399) :
    dayNumber (y + n * 400 + (if m ≤ 2 then 1 else 0)) m d =
      n * 146097 + (y * 365 + y / 4 - y / 100 + ((153 * (((m : Int) + 9) % 12) + 2) / 5 + d - 1)) -
        719468 := by
  have march : (if m ≤ 2 then y + n * 400 + (if m ≤ 2 then 1 else 0) - 1
      else y + n * 400 + (if m ≤ 2 then 1 else 0)) = y + n * 400 := by
    split <;> omega
  have era : (y + n * 400) / 400 = n := by omega
  have yearOfEra : (y + n * 400) % 400 = y := by omega
  unfold dayNumber
  simp only [march, era, yearOfEra]

/-! ### Dates -/

theorem ymd_inEra {d : Date} {n : Int} (whole : d.day + 719468 = n * 146097 + e)
    (at' : InEra e c q k j) :
    d.ymd = (100 * c + 4 * q + k + n * 400 + (if monthOf j ≤ 2 then 1 else 0), monthOf j,
      monthDay j) := by
  have bounds : 0 ≤ e ∧ e < 146097 := by
    obtain ⟨century, quad, year, day, leap, sum⟩ := at'
    omega
  have era : (d.day + 719468) / 146097 = n := by omega
  have inside : (d.day + 719468) % 146097 = e := by omega
  unfold ymd
  simp only [era, inside, at'.yearOfEra, at'.dayOfYear]
  rfl

/-- The March year of a day of an era, and the days before its last part. -/
theorem InEra.days (at' : InEra e c q k j) :
    (100 * c + 4 * q + k) * 365 + (100 * c + 4 * q + k) / 4 - (100 * c + 4 * q + k) / 100 + j = e := by
  have day := at'.dayOfYear
  omega

theorem InEra.yearRange (at' : InEra e c q k j) :
    0 ≤ 100 * c + 4 * q + k ∧ 100 * c + 4 * q + k ≤ 399 := by
  obtain ⟨century, quad, year, -⟩ := at'
  omega

theorem dayNumber_inEra {n : Int} (at' : InEra e c q k j) :
    dayNumber (100 * c + 4 * q + k + n * 400 + (if monthOf j ≤ 2 then 1 else 0)) (monthOf j)
      (monthDay j) = n * 146097 + e - 719468 := by
  rw [dayNumber_march at'.yearRange, (monthOf_shifted at'.day).1, monthDay_sum at'.day, at'.days]

theorem lateMonth (day : 0 ≤ j ∧ j ≤ 365) :
    ((if monthOf j ≤ 2 then 1 else 0 : Int) = 1 ∧ 306 ≤ j) ∨
      ((if monthOf j ≤ 2 then 1 else 0 : Int) = 0 ∧ j < 306) := by
  obtain ⟨_, early⟩ := monthOf_shifted day
  by_cases late : 306 ≤ j
  · rw [if_pos (early.mpr late)]
    exact Or.inl ⟨rfl, late⟩
  · rw [if_neg fun old => late (early.mp old)]
    exact Or.inr ⟨rfl, Int.not_le.mp late⟩

theorem InEra.isLeap_of_leapDay {n : Int} (at' : InEra e c q k j) (last : j = 365) :
    isLeap (100 * c + 4 * q + k + n * 400 + (if monthOf j ≤ 2 then 1 else 0)) = true := by
  obtain ⟨fourth, quads⟩ := at'.leap last
  subst fourth last
  exact isLeap_of_last at'.quad quads

theorem minDay_eq : minDay = -96465292 := by decide

theorem maxDay_eq : maxDay = 95026236 := by decide

/-- A day of the calendar has the date that it is read from. -/
theorem ofYmd?_ymd {d : Date} (low : minDay ≤ d.day) (high : d.day ≤ maxDay) :
    ofYmd? d.ymd.1 d.ymd.2.1 d.ymd.2.2 = some d := by
  obtain ⟨c, q, k, j, at'⟩ := @exists_inEra ((d.day + 719468) % 146097)
    (Int.emod_nonneg _ (by decide)) (Int.emod_lt_of_pos _ (by decide))
  have parts := Int.mul_ediv_add_emod (d.day + 719468) 146097
  generalize (d.day + 719468) % 146097 = e at at' parts
  generalize (d.day + 719468) / 146097 = n at parts
  have whole : d.day + 719468 = n * 146097 + e := by rw [← parts, Int.mul_comm]
  have day : d.day = n * 146097 + (36524 * c + 1461 * q + 365 * k + j) - 719468 := by
    rw [← at'.sum, ← whole, Int.add_sub_cancel]
  rw [minDay_eq, day] at low
  rw [maxDay_eq, day] at high
  have first := year_low at'.century at'.quad at'.year at'.day (lateMonth at'.day) low
  have last := year_high at'.century at'.quad at'.year at'.day (lateMonth at'.day) high
  obtain ⟨positive, within⟩ := monthDay_range at'.day fun leapDay => at'.isLeap_of_leapDay leapDay
  obtain ⟨january, december⟩ := monthOf_range at'.day
  rw [ymd_inEra whole at']
  unfold ofYmd?
  rw [if_pos ⟨first, last, january, december, positive, within⟩, dayNumber_inEra at', ← whole,
    Int.add_sub_cancel]

/-- Months and days of the month have two digits. -/
theorem ofYmd?_small {d : Date} {year : Int} {month day : Nat}
    (h : ofYmd? year month day = some d) : month < 100 ∧ day < 100 := by
  unfold ofYmd? at h
  split at h
  · rename_i range
    obtain ⟨-, -, -, december, -, last⟩ := range
    have days : daysInMonth year month ≤ 31 := by
      unfold daysInMonth
      split
      · split <;> decide
      all_goals decide
    omega
  · cases h

end WorkflowEngine.Date
