import TypedSchema.Time.Calendar

/-!
Every number of days has a date. A cycle of 400 years is split into centuries, these into runs of
four years, and these into years that start in March. The last run of a century is a day shorter
than the others, unless the century is the last one of its cycle.
-/

namespace TypedSchema.Time

/-! ## Years -/

/-- The place of a day in a cycle: the century, the run of four years in that, the year in that and
the day in that, all counted from nought. -/
structure YearPlace where
  century : Nat
  olympiad : Nat
  year : Nat
  day : Nat
  century_le : century ≤ 3
  olympiad_le : olympiad ≤ 24
  year_le : year ≤ 3
  day_le : day ≤ 365
  /-- Only leap years have a last day. -/
  leap : day = 365 → year = 3 ∧ (olympiad = 24 → century = 3)

namespace YearPlace

def dayOfCycle (place : YearPlace) : Nat :=
  36524 * place.century + 1461 * place.olympiad + 365 * place.year + place.day

def yearOfCycle (place : YearPlace) : Nat :=
  100 * place.century + 4 * place.olympiad + place.year

theorem exists_place {day : Nat} (within : day < 146097) :
    ∃ place : YearPlace, place.dayOfCycle = day := by
  obtain ⟨century, inCentury, split, centuries, most, last⟩ :
      ∃ century rest, day = 36524 * century + rest ∧ century ≤ 3 ∧ rest ≤ 36524 ∧
        (rest = 36524 → century = 3) :=
    ⟨min (day / 36524) 3, day - 36524 * min (day / 36524) 3, by omega, by omega, by omega, by omega⟩
  obtain ⟨year, inYear, inOlympiad, years, days, lastDay⟩ :
      ∃ year rest, inCentury % 1461 = 365 * year + rest ∧ year ≤ 3 ∧ rest ≤ 365 ∧
        (rest = 365 → year = 3) :=
    ⟨min (inCentury % 1461 / 365) 3, inCentury % 1461 - 365 * min (inCentury % 1461 / 365) 3,
      by omega, by omega, by omega, by omega⟩
  refine ⟨⟨century, inCentury / 1461, year, inYear, centuries, by omega, years, days, by omega⟩, ?_⟩
  simp only [dayOfCycle]
  omega

variable (place : YearPlace)

theorem yearOfCycle_lt : place.yearOfCycle < 400 := by
  have := place.century_le
  have := place.olympiad_le
  have := place.year_le
  unfold yearOfCycle
  omega

/-- Of the years before, every fourth is longer by a day, but not every hundredth. -/
theorem dayOfCycle_eq : place.dayOfCycle =
    365 * place.yearOfCycle + place.yearOfCycle / 4 - place.yearOfCycle / 100 + place.day := by
  have := place.century_le
  have := place.olympiad_le
  have := place.year_le
  have : place.yearOfCycle / 4 = 25 * place.century + place.olympiad := by
    unfold yearOfCycle
    omega
  have : place.yearOfCycle / 100 = place.century := by
    unfold yearOfCycle
    omega
  unfold yearOfCycle dayOfCycle at *
  omega

/-- With the leap days taken off, all years have 365 days. -/
theorem yearOfCycle_eq :
    (place.dayOfCycle - place.dayOfCycle / 1460 + place.dayOfCycle / 36524 -
      place.dayOfCycle / 146096) / 365 = place.yearOfCycle := by
  obtain ⟨century, olympiad, year, day, centuries, olympiads, years, days, leap⟩ := place
  simp only [dayOfCycle, yearOfCycle]
  have inOlympiad : 365 * year + day ≤ 1460 := by omega
  have inCentury : 1461 * olympiad + 365 * year + day ≤ 36524 ∧
      (1461 * olympiad + 365 * year + day = 36524 → century = 3) := by omega
  generalize all : 36524 * century + 1461 * olympiad + 365 * year + day = whole
  have centuryDays : whole / 36524 = century + whole / 146096 := by omega
  obtain ⟨late, leapDays, lateDays⟩ : ∃ late, whole / 1460 = 25 * century + olympiad + late ∧
      (late = 0 ∧ 24 * century + olympiad + 365 * year + day < 1460 ∨
        late = 1 ∧ 1460 ≤ 24 * century + olympiad + 365 * year + day) := by
    refine ⟨(24 * century + olympiad + 365 * year + day) / 1460, ?_, ?_⟩ <;> omega
  rw [centuryDays, leapDays]
  omega

end YearPlace

/-! ## Months -/

/-- The calendar month that stands at a place in a year from March. -/
def monthFromMarch (place : Nat) : Nat :=
  if place < 10 then place + 3 else place - 9

theorem monthFromMarch_place {place : Nat} (small : place < 12) :
    (monthFromMarch place + 9) % 12 = place ∧ 1 ≤ monthFromMarch place ∧
      monthFromMarch place ≤ 12 := by
  unfold monthFromMarch
  split <;> omega

/-- The days of a year from March before one of its months. -/
def daysBefore (place : Nat) : Nat :=
  (153 * place + 2) / 5

/-- The months in their order fill the year. -/
theorem daysBefore_bounds {day place : Nat} (found : place = (5 * day + 2) / 153) :
    daysBefore place ≤ day ∧ day < daysBefore (place + 1) := by
  unfold daysBefore
  omega

theorem daysInMonth_bounds (year : Int) (month : Nat) :
    28 ≤ daysInMonth year month ∧ daysInMonth year month ≤ 31 := by
  unfold daysInMonth
  repeat' split
  all_goals decide

/-- All months but February have the days up to the next one. -/
theorem daysInMonth_fromMarch (year : Int) : ∀ place < 11,
    daysInMonth year (monthFromMarch place) + daysBefore place = daysBefore (place + 1) := by
  have fixed : ∀ place < 11, monthFromMarch place ≠ 2 ∧
      daysInMonth 0 (monthFromMarch place) + daysBefore place = daysBefore (place + 1) := by
    decide
  intro place small
  obtain ⟨other, length⟩ := fixed place small
  rw [← length]
  simp [daysInMonth, other]

namespace YearPlace

variable (place : YearPlace)

/-- The place of the month in a year from March. -/
def monthPlace : Nat :=
  (5 * place.day + 2) / 153

theorem monthPlace_lt : place.monthPlace < 12 := by
  have := place.day_le
  unfold monthPlace
  omega

/-- January and February belong to the next calendar year. -/
def date (cycle : Int) : Date where
  year := cycle * 400 + place.yearOfCycle + if monthFromMarch place.monthPlace ≤ 2 then 1 else 0
  month := monthFromMarch place.monthPlace
  day := place.day - daysBefore place.monthPlace + 1

theorem toDays_date (cycle : Int) :
    (place.date cycle).toDays = cycle * 146097 + place.dayOfCycle - Date.epochShift := by
  have small := place.yearOfCycle_lt
  have year : (if (place.date cycle).month ≤ 2 then (place.date cycle).year - 1
      else (place.date cycle).year) = cycle * 400 + place.yearOfCycle := by
    unfold date
    split <;> simp [*]
  have cycles : (cycle * 400 + (place.yearOfCycle : Int)) / 400 = cycle := by omega
  have years : ((cycle * 400 + (place.yearOfCycle : Int)) % 400).toNat = place.yearOfCycle := by
    omega
  have months : ((place.date cycle).month + 9) % 12 = place.monthPlace :=
    (monthFromMarch_place place.monthPlace_lt).1
  have dayOfYear : (153 * place.monthPlace + 2) / 5 + (place.date cycle).day - 1 = place.day := by
    have started := (daysBefore_bounds (rfl : place.monthPlace = _)).1
    simp only [daysBefore, date] at *
    omega
  simp only [Date.toDays, year, cycles, years, months, dayOfYear, place.dayOfCycle_eq,
    Nat.mul_comm 365]

theorem isLeapYear_next (last : place.day = 365) (cycle : Int) :
    isLeapYear (cycle * 400 + place.yearOfCycle + 1) = true := by
  obtain ⟨year, century⟩ := place.leap last
  have := place.century_le
  have := place.olympiad_le
  have whole : place.yearOfCycle = 100 * place.century + 4 * place.olympiad + place.year := rfl
  simp only [isLeapYear, Bool.and_eq_true, Bool.or_eq_true, decide_eq_true_eq]
  omega

theorem isValid_date (cycle : Int) : (place.date cycle).isValid = true := by
  obtain ⟨-, first, last⟩ := monthFromMarch_place place.monthPlace_lt
  obtain ⟨started, ends⟩ := daysBefore_bounds (rfl : place.monthPlace = _)
  have length : (place.date cycle).day ≤
      daysInMonth (place.date cycle).year (place.date cycle).month := by
    by_cases february : place.monthPlace = 11
    · -- The last month ends with the year, and only a leap year has its last day.
      have limit := place.day_le
      have month : monthFromMarch place.monthPlace = 2 := by rw [february]; rfl
      have before : daysBefore place.monthPlace = 337 := by rw [february]; rfl
      by_cases leap : place.day = 365
      · simp [date, month, before, daysInMonth, leap, place.isLeapYear_next leap]
      · have most : (place.date cycle).day ≤ 28 := by
          simp only [date, before]
          omega
        exact Nat.le_trans most (daysInMonth_bounds _ _).1
    · have := place.monthPlace_lt
      have fills := daysInMonth_fromMarch (place.date cycle).year place.monthPlace (by omega)
      simp only [date] at *
      omega
  simp only [Date.isValid, Bool.and_eq_true, decide_eq_true_eq]
  exact ⟨⟨⟨first, last⟩, Nat.le_add_left 1 _⟩, length⟩

end YearPlace

namespace Date

/-- Every number of days has its place in a cycle, and that gives the date. -/
theorem ofDays_eq (days : Int) : ∃ (cycle : Int) (place : YearPlace),
    days + epochShift = cycle * 146097 + place.dayOfCycle ∧ ofDays days = place.date cycle := by
  have within : ((days + epochShift) % 146097).toNat < 146097 := by omega
  obtain ⟨place, same⟩ := YearPlace.exists_place within
  refine ⟨(days + epochShift) / 146097, place, by omega, ?_⟩
  have dayOfYear : place.dayOfCycle - (365 * place.yearOfCycle + place.yearOfCycle / 4 -
      place.yearOfCycle / 100) = place.day := by
    have := place.dayOfCycle_eq
    omega
  have month : (if place.monthPlace < 10 then place.monthPlace + 3 else place.monthPlace - 9) =
      monthFromMarch place.monthPlace := rfl
  unfold ofDays
  simp only [← same, place.yearOfCycle_eq, dayOfYear]
  rw [← YearPlace.monthPlace, month, YearPlace.date]
  split <;> simp [daysBefore]

theorem toDays_ofDays (days : Int) : (ofDays days).toDays = days := by
  obtain ⟨cycle, place, split, date⟩ := ofDays_eq days
  rw [date, place.toDays_date]
  omega

theorem isValid_ofDays (days : Int) : (ofDays days).isValid = true := by
  obtain ⟨cycle, place, -, date⟩ := ofDays_eq days
  rw [date, place.isValid_date]

theorem le_of_isValid {date : Date} (valid : date.isValid = true) :
    date.month ≤ 12 ∧ date.day ≤ 31 := by
  simp only [isValid, Bool.and_eq_true, decide_eq_true_eq] at valid
  exact ⟨valid.1.1.2, Nat.le_trans valid.2 (daysInMonth_bounds _ _).2⟩

end Date

end TypedSchema.Time
