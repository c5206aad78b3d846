import Mathlib
import SwiftLens.Calendar

/-!
# The days of the calendar

The calendar is given by what follows a day (`Date.next`): the next day of its month, or the first of the
next month, or the first of the next year, where a month has as many days as the Gregorian rule for leap
years says. The main statement, `dateOfDay_succ`, is that counting days goes through the calendar in this
way, without end in both directions. With `dateOfDay_zero` it determines the date of every day.

The date of a day is computed from years that begin on the first of March. `exists_march` shows which day
of which such year it is: the divisions of `dateOfDay` are undone by splitting an era into centuries, four
years, years and days. Within such a year, `exists_month` finds the month, and a step from one day to the
next stays in the month, leaves the month, or leaves the year (`next_ofMarch`, `next_ofMarch_last`).

Since a date is before the next one, dates come in the order of their days (`key_dateOfDay_strictMono`), no
two days have the same date (`dateOfDay_injective`), and the years between two days are between those of
the two (`year_dateOfDay_mono`).
-/

namespace SwiftLens.Calendar

/-! ### Months and years -/

/-- A year with a leap day: every fourth one, but of those that end a century only every fourth. -/
def IsLeap (year : Int) : Prop := year % 4 = 0 ∧ (year % 100 = 0 → year % 400 = 0)

instance (year : Int) : Decidable (IsLeap year) := inferInstanceAs (Decidable (_ ∧ (_ → _)))

/-- The number of days of a month. -/
def monthLength (year : Int) : Nat → Nat
  | 2 => if IsLeap year then 29 else 28
  | 4 | 6 | 9 | 11 => 30
  | _ => 31

/-- No month has more than 31 days. -/
theorem monthLength_le (year : Int) (month : Nat) : monthLength year month ≤ 31 := by
  unfold monthLength
  split
  · split_ifs <;> decide
  all_goals decide

namespace Date

/-- A date that stands in the calendar. -/
structure IsValid (d : Date) : Prop where
  month_pos : 1 ≤ d.month
  month_le : d.month ≤ 12
  day_pos : 1 ≤ d.day
  day_le : d.day ≤ monthLength d.year d.month

/-- The day of a date in the calendar is at most 31. -/
theorem IsValid.day_le_31 {d : Date} (h : d.IsValid) : d.day ≤ 31 :=
  h.day_le.trans (monthLength_le d.year d.month)

/-- The date of the next day. -/
def next (d : Date) : Date :=
  if d.day < monthLength d.year d.month then ⟨d.year, d.month, d.day + 1⟩
  else if d.month < 12 then ⟨d.year, d.month + 1, 1⟩
  else ⟨d.year + 1, 1, 1⟩

/-- What dates are ordered by: the year, then the month, then the day. -/
def key (d : Date) : Int ×ₗ Nat ×ₗ Nat := toLex (d.year, toLex (d.month, d.day))

/-- A date is before another one if its year is, or in one year its month, or in one month its day. -/
theorem key_lt_iff {d e : Date} : d.key < e.key ↔
    d.year < e.year ∨ d.year = e.year ∧ (d.month < e.month ∨ d.month = e.month ∧ d.day < e.day) := by
  simp [key, Prod.Lex.toLex_lt_toLex]

/-- A date is before that of the next day. -/
theorem key_lt_key_next (d : Date) : d.key < d.next.key := by
  rw [key_lt_iff]
  unfold next
  split_ifs
  · exact .inr ⟨rfl, .inr ⟨rfl, Nat.lt_succ_self _⟩⟩
  · exact .inr ⟨rfl, .inl (Nat.lt_succ_self _)⟩
  · exact .inl (Int.lt_succ _)

end Date

/-! ### Years that begin in March -/

/-- The number of days of the year that begins on the first of March of the given one. -/
def marchLength (year : Int) : Nat := if IsLeap (year + 1) then 366 else 365

/-- The number of days from the first of March of the year 0 to that of the given year. -/
def marchDay (year : Int) : Int := 365 * year + year / 4 - year / 100 + year / 400

/-- A year begins when the one before it is over. -/
theorem marchDay_succ (year : Int) : marchDay (year + 1) = marchDay year + marchLength year := by
  unfold marchDay marchLength
  by_cases h : IsLeap (year + 1)
  · rw [if_pos h]
    unfold IsLeap at h
    push_cast
    omega
  · rw [if_neg h]
    unfold IsLeap at h
    push_cast
    omega

/-- After 400 years the calendar repeats itself. -/
theorem marchDay_add_era (era year : Int) :
    marchDay (era * 400 + year) = era * daysPerEra + marchDay year := by
  have hfours : (era * 400 + year) / 4 = era * 100 + year / 4 := by omega
  have hcenturies : (era * 400 + year) / 100 = era * 4 + year / 100 := by omega
  have heras : (era * 400 + year) / 400 = era + year / 400 := by omega
  unfold marchDay daysPerEra
  omega

/-- The number of days from the first of March to the first of the month with the given number, where March
has the number 0. -/
def monthStart (m : Nat) : Nat := (153 * m + 2) / 5

/-- The number of days from the first of March to the end of the month with the given number. -/
def monthEnd (year : Int) (m : Nat) : Nat := if m = 11 then marchLength year else monthStart (m + 1)

/-- The date of the given day of the given month, both counted from the first of March. -/
def ofMonth (year : Int) (m day : Nat) : Date :=
  ⟨if m < 10 then year else year + 1, if m < 10 then m + 3 else m - 9, day + 1⟩

/-- The date of the given day of the year that begins on the first of March. -/
def ofMarch (year : Int) (k : Nat) : Date :=
  let m := (5 * k + 2) / 153
  ofMonth year m (k - monthStart m)

/-- A year has 365 or 366 days. -/
theorem marchLength_bounds (year : Int) : 365 ≤ marchLength year ∧ marchLength year ≤ 366 := by
  unfold marchLength
  split_ifs <;> omega

/-- A day of the year is in one of its months. -/
theorem exists_month {year : Int} {k : Nat} (hk : k < marchLength year) :
    ∃ m < 12, monthStart m ≤ k ∧ k < monthEnd year m := by
  have hlength := (marchLength_bounds year).2
  refine ⟨(5 * k + 2) / 153, by omega, ?_, ?_⟩
  · unfold monthStart
    omega
  · unfold monthEnd monthStart
    split_ifs <;> omega

/-- The month to which a day belongs is the one by which its date is computed. -/
theorem ofMarch_eq {year : Int} {m k : Nat} (hlow : monthStart m ≤ k) (hhigh : k < monthEnd year m) :
    ofMarch year k = ofMonth year m (k - monthStart m) := by
  have hlength := (marchLength_bounds year).2
  have hmonth : (5 * k + 2) / 153 = m := by
    unfold monthEnd at hhigh
    unfold monthStart at hlow hhigh
    split_ifs at hhigh <;> omega
  rw [ofMarch, hmonth]

/-- The months have the lengths that the calendar gives them. -/
theorem monthLength_ofMonth (year : Int) {m : Nat} (hm : m < 12) (day : Nat) :
    monthLength (ofMonth year m day).year (ofMonth year m day).month = monthEnd year m - monthStart m := by
  rcases Nat.lt_succ_iff_lt_or_eq.mp hm with hm | rfl
  · interval_cases m <;> simp [ofMonth, monthLength, monthEnd, monthStart]
  · have hfebruary : monthEnd year 11 - monthStart 11 = if IsLeap (year + 1) then 29 else 28 := by
      unfold monthEnd marchLength
      by_cases h : IsLeap (year + 1)
      · rw [if_pos rfl, if_pos h, if_pos h]
        rfl
      · rw [if_pos rfl, if_neg h, if_neg h]
        rfl
    rw [hfebruary]
    rfl

/-- A day of a month has a date that stands in the calendar. -/
theorem isValid_ofMonth {year : Int} {m day : Nat} (hm : m < 12)
    (hday : monthStart m + day < monthEnd year m) : (ofMonth year m day).IsValid := by
  have hlength := monthLength_ofMonth year hm day
  have hdate : (ofMonth year m day).day = day + 1 := rfl
  have hmonth : (ofMonth year m day).month = if m < 10 then m + 3 else m - 9 := rfl
  split_ifs at hmonth
  · exact ⟨by omega, by omega, by omega, by omega⟩
  · exact ⟨by omega, by omega, by omega, by omega⟩

/-! ### From one day to the next -/

/-- The month goes on after a day unless it is the last one. -/
theorem day_lt_monthLength_iff {year : Int} {m day : Nat} (hm : m < 12) :
    (ofMonth year m day).day < monthLength (ofMonth year m day).year (ofMonth year m day).month ↔
      monthStart m + day + 1 < monthEnd year m := by
  have hdate : (ofMonth year m day).day = day + 1 := rfl
  rw [monthLength_ofMonth year hm day, hdate]
  omega

/-- Inside a month the day goes up. -/
theorem next_ofMonth {year : Int} {m day : Nat} (hm : m < 12)
    (hday : monthStart m + day + 1 < monthEnd year m) :
    (ofMonth year m day).next = ofMonth year m (day + 1) :=
  if_pos ((day_lt_monthLength_iff hm).mpr hday)

/-- After the last day of a month comes the first of the next one. -/
theorem next_ofMonth_last {year : Int} {m day : Nat} (hm : m < 11)
    (hday : monthStart m + day + 1 = monthEnd year m) :
    (ofMonth year m day).next = ofMonth year (m + 1) 0 := by
  rw [Date.next, if_neg (mt (day_lt_monthLength_iff (Nat.lt_succ_of_lt hm)).mp (by omega))]
  interval_cases m <;> rfl

/-- After the last day of February comes the first of March. -/
theorem next_ofMonth_february {year : Int} {day : Nat} (hday : monthStart 11 + day + 1 = marchLength year) :
    (ofMonth year 11 day).next = ofMonth (year + 1) 0 0 := by
  have hend : monthEnd year 11 = marchLength year := rfl
  rw [Date.next, if_neg (mt (day_lt_monthLength_iff (by decide)).mp (by omega))]
  rfl

/-- The next day of the same year. -/
theorem next_ofMarch {year : Int} {k : Nat} (hk : k + 1 < marchLength year) :
    (ofMarch year k).next = ofMarch year (k + 1) := by
  obtain ⟨m, hm, hlow, hhigh⟩ := exists_month (Nat.lt_of_succ_lt hk)
  rw [ofMarch_eq hlow hhigh]
  rcases Nat.lt_or_eq_of_le hhigh with hinside | hlast
  · rw [next_ofMonth hm (by omega), ofMarch_eq (by omega) hinside, Nat.succ_sub hlow]
  · -- February, with which the year ends, is not over yet
    have hmonth : m < 11 := by
      unfold monthEnd at hlast
      split_ifs at hlast <;> omega
    have hstart : monthStart (m + 1) = k + 1 := by
      rw [← Nat.succ_eq_add_one k, hlast, monthEnd, if_neg (by omega)]
    have hend : k + 1 < monthEnd year (m + 1) := by
      unfold monthEnd
      unfold monthStart at hstart ⊢
      split_ifs <;> omega
    rw [next_ofMonth_last hmonth (by omega), ofMarch_eq hstart.le hend, hstart, Nat.sub_self]

/-- After the last day of a year comes the first of the next one. -/
theorem next_ofMarch_last {year : Int} {k : Nat} (hk : k + 1 = marchLength year) :
    (ofMarch year k).next = ofMarch (year + 1) 0 := by
  have hlength := (marchLength_bounds year).1
  have hstart : monthStart 11 = 337 := rfl
  have hend : k < monthEnd year 11 := by
    rw [monthEnd, if_pos rfl]
    omega
  rw [ofMarch_eq (by omega) hend, next_ofMonth_february (by omega)]
  rfl

/-! ### The year of a day -/

/-- The days of an era as centuries, four years, years and days. A century ends, and four years end, with
the leap day, if they have one. -/
theorem exists_split_of_era {dayOfEra : Nat} (h : dayOfEra < 146097) : ∃ century four year day,
    dayOfEra = 36524 * century + 1461 * four + 365 * year + day ∧ century ≤ 3 ∧ four ≤ 24 ∧ year ≤ 3 ∧
      day ≤ 365 ∧ (day = 365 → year = 3 ∧ (four = 24 → century = 3)) := by
  obtain ⟨century, rest, hrest, hcentury, hlast⟩ : ∃ century rest, dayOfEra = 36524 * century + rest ∧
      century ≤ 3 ∧ (rest < 36524 ∨ rest = 36524 ∧ century = 3) :=
    ⟨min (dayOfEra / 36524) 3, dayOfEra - 36524 * min (dayOfEra / 36524) 3, by omega, by omega, by omega⟩
  obtain ⟨year, day, hday, hyear, hleap⟩ : ∃ year day, rest % 1461 = 365 * year + day ∧
      year ≤ 3 ∧ (day < 365 ∨ day = 365 ∧ year = 3) :=
    ⟨min (rest % 1461 / 365) 3, rest % 1461 - 365 * min (rest % 1461 / 365) 3, by omega, by omega, by omega⟩
  exact ⟨century, rest / 1461, year, day, by omega, hcentury, by omega, hyear, by omega, by omega⟩

/-- The year of an era: the subtrahends take away the leap days that a division by 365 would count for days
of a later year. -/
theorem yearOfEra_eq {century four year day : Nat} (hcentury : century ≤ 3) (hfour : four ≤ 24)
    (hyear : year ≤ 3) (hday : day ≤ 365) (hleap : day = 365 → year = 3 ∧ (four = 24 → century = 3)) :
    let dayOfEra := 36524 * century + 1461 * four + 365 * year + day
    (dayOfEra - dayOfEra / 1460 + dayOfEra / 36524 - dayOfEra / 146096) / 365
      = 100 * century + 4 * four + year := by
  intro dayOfEra
  have hdays : dayOfEra = 36524 * century + 1461 * four + 365 * year + day := rfl
  have hera : dayOfEra / 146096 = if day = 365 ∧ four = 24 then 1 else 0 := by
    split_ifs <;> omega
  have hcenturies : dayOfEra / 36524 = century + dayOfEra / 146096 := by
    split_ifs at hera <;> omega
  -- a division by 1460 leaves out the leap days, and is ahead by one at the end of the four years
  have hfours : dayOfEra / 1460 = 25 * century + four
      + if 1460 ≤ 24 * century + four + 365 * year + day then 1 else 0 := by
    split_ifs <;> omega
  split_ifs at hfours <;> omega

/-- Which day of which year of its era a day is. -/
theorem exists_year_of_era {dayOfEra : Nat} (h : dayOfEra < 146097) : ∃ year day,
    (dayOfEra - dayOfEra / 1460 + dayOfEra / 36524 - dayOfEra / 146096) / 365 = year ∧
      dayOfEra = 365 * year + year / 4 - year / 100 + day ∧ year < 400 ∧
      (day < 365 ∨ day = 365 ∧ (year + 1) % 4 = 0 ∧ ((year + 1) % 100 = 0 → year + 1 = 400)) := by
  obtain ⟨century, four, year, day, rfl, hcentury, hfour, hyear, hday, hleap⟩ := exists_split_of_era h
  refine ⟨_, day, yearOfEra_eq hcentury hfour hyear hday hleap, ?_, by omega, ?_⟩
  · have hfours : (100 * century + 4 * four + year) / 4 = 25 * century + four := by omega
    have hcenturies : (100 * century + 4 * four + year) / 100 = century := by omega
    omega
  · omega

/-- The date of a day by its year and its day of the year. -/
theorem dateOfDay_of_era {day : Int} {dayOfEra year k : Nat} (hera : (day + epochDay) % daysPerEra = dayOfEra)
    (hyear : (dayOfEra - dayOfEra / 1460 + dayOfEra / 36524 - dayOfEra / 146096) / 365 = year)
    (hday : dayOfEra - (365 * year + year / 4 - year / 100) = k) (hk : k ≤ 365) :
    dateOfDay day = ofMarch ((day + epochDay) / daysPerEra * 400 + year) k := by
  have hpos : 0 ≤ daysPerEra := by decide
  have hfmod : ((day + epochDay).fmod daysPerEra).toNat = dayOfEra := by
    rw [Int.fmod_eq_emod_of_nonneg _ hpos, hera, Int.toNat_natCast]
  unfold dateOfDay
  simp only [Int.fdiv_eq_ediv_of_nonneg _ hpos, hfmod, hyear, hday]
  unfold ofMarch ofMonth monthStart
  by_cases hm : (5 * k + 2) / 153 < 10
  · simp only [if_pos hm]
    rw [if_neg (by omega), add_zero]
  · simp only [if_neg hm]
    rw [if_pos (by omega)]

/-- Which day of which year a day is. -/
theorem exists_march (day : Int) : ∃ year k, day + epochDay = marchDay year + (k : Nat) ∧
    k < marchLength year ∧ dateOfDay day = ofMarch year k := by
  obtain ⟨dayOfEra, hera⟩ : ∃ dayOfEra : Nat, (day + epochDay) % daysPerEra = dayOfEra :=
    ⟨_, (Int.toNat_of_nonneg (Int.emod_nonneg _ (by decide))).symm⟩
  have hbound : (dayOfEra : Int) < daysPerEra := hera ▸ Int.emod_lt_of_pos _ (by decide)
  have hsplit : day + epochDay = (day + epochDay) / daysPerEra * daysPerEra + dayOfEra := by
    rw [← hera, Int.ediv_mul_add_emod]
  obtain ⟨year, k, hyear, hday, hlt, hlast⟩ := exists_year_of_era (Int.ofNat_lt.mp hbound)
  have hdate := dateOfDay_of_era hera hyear (by omega : _ = k) (by omega)
  -- the divisions in `hyear` would only stand in the way from here on
  clear hyear
  refine ⟨(day + epochDay) / daysPerEra * 400 + year, k, ?_, ?_, hdate⟩
  · have hyears : marchDay year = 365 * year + year / 4 - year / 100 := by
      unfold marchDay
      omega
    rw [marchDay_add_era, hyears]
    omega
  · unfold marchLength
    split_ifs with h
    · omega
    · unfold IsLeap at h
      omega

/-! ### The date of a day -/

/-- Years begin in their order. -/
theorem marchDay_strictMono : StrictMono marchDay := by
  refine strictMono_int_of_lt_succ fun year => ?_
  have hlength := (marchLength_bounds year).1
  rw [marchDay_succ]
  omega

/-- A day belongs to one year only. -/
theorem march_unique {year year' : Int} {k k' : Nat} (h : marchDay year + k = marchDay year' + k')
    (hk : k < marchLength year) (hk' : k' < marchLength year') : year = year' ∧ k = k' := by
  have hle : ∀ {y y' : Int} {j j' : Nat}, marchDay y + j = marchDay y' + j' → j < marchLength y →
      y' ≤ y := by
    intro y y' j j' heq hj
    by_contra hlt
    have hnext := marchDay_strictMono.monotone (Int.add_one_le_of_lt (not_le.mp hlt))
    rw [marchDay_succ] at hnext
    omega
  obtain rfl := le_antisymm (hle h.symm hk') (hle h hk)
  exact ⟨rfl, by omega⟩

/-- The date of the given day of a year is that of the day with that number. -/
theorem dateOfDay_eq_ofMarch {day year : Int} {k : Nat} (h : day + epochDay = marchDay year + k)
    (hk : k < marchLength year) : dateOfDay day = ofMarch year k := by
  obtain ⟨year', k', hday, hk', hdate⟩ := exists_march day
  obtain ⟨rfl, rfl⟩ := march_unique (hday.symm.trans h) hk' hk
  exact hdate

/-- The days are counted from the first of January 1970. -/
theorem dateOfDay_zero : dateOfDay 0 = ⟨1970, 1, 1⟩ := by decide

/-- The day after a day has the date that follows in the calendar. -/
theorem dateOfDay_succ (day : Int) : dateOfDay (day + 1) = (dateOfDay day).next := by
  obtain ⟨year, k, hday, hk, hdate⟩ := exists_march day
  rw [hdate]
  rcases Nat.lt_or_eq_of_le (Nat.succ_le_of_lt hk) with hinside | hlast
  · rw [next_ofMarch hinside]
    exact dateOfDay_eq_ofMarch (by push_cast; omega) hinside
  · have hlength := (marchLength_bounds (year + 1)).1
    have hnext := marchDay_succ year
    rw [next_ofMarch_last hlast]
    exact dateOfDay_eq_ofMarch (by push_cast; omega) (by omega)

/-- Every day has a date that stands in the calendar. -/
theorem isValid_dateOfDay (day : Int) : (dateOfDay day).IsValid := by
  obtain ⟨year, k, -, hk, hdate⟩ := exists_march day
  obtain ⟨m, hm, hlow, hhigh⟩ := exists_month hk
  rw [hdate, ofMarch_eq hlow hhigh]
  exact isValid_ofMonth hm (by omega)

/-- Dates come in the order of their days. -/
theorem key_dateOfDay_strictMono : StrictMono fun day => (dateOfDay day).key :=
  strictMono_int_of_lt_succ fun day => dateOfDay_succ day ▸ (dateOfDay day).key_lt_key_next

/-- No two days have the same date. -/
theorem dateOfDay_injective : Function.Injective dateOfDay := fun _ _ h =>
  key_dateOfDay_strictMono.injective (congrArg Date.key h)

/-- Years come in the order of their days. -/
theorem year_dateOfDay_mono : Monotone fun day => (dateOfDay day).year := by
  intro day day' h
  rcases h.lt_or_eq with hlt | rfl
  · rcases Date.key_lt_iff.mp (key_dateOfDay_strictMono hlt) with hyear | ⟨hyear, -⟩
    · exact hyear.le
    · exact hyear.le
  · exact le_rfl

end SwiftLens.Calendar
