import FilterForest.Calendar.Moment
import Mathlib.Algebra.Order.Group.Int

/-!
# Counting days

Days are counted from the first of January of the year zero. The next day counts one more, in the
middle of a month, at its end and at the end of a year, so the clock of universal time shows the
same minute as any other clock. Two clocks are less than a day apart, so they show the same date or
dates next to one another.
-/
namespace FilterForest
namespace Date

/-- The leap years from the year zero up to a year, which does not count itself. -/
def leapYearsBefore (year : ℤ) : ℤ := (year + 3) / 4 - (year + 99) / 100 + (year + 399) / 400

/-- The days of a year before a month. -/
def daysBeforeMonth (year : ℤ) : ℕ → ℕ
  | 0 => 0
  | month + 1 => daysBeforeMonth year month + daysInMonth year month

/-- The number of days from the first of January of the year zero to a date. -/
def ordinal (d : Date) : ℤ :=
  365 * d.year + leapYearsBefore d.year + daysBeforeMonth d.year d.month + d.day - 1

theorem leapYearsBefore_succ (year : ℤ) :
    leapYearsBefore (year + 1) = leapYearsBefore year + if isLeapYear year then 1 else 0 := by
  unfold leapYearsBefore
  by_cases hleap : isLeapYear year = true
  · rw [if_pos hleap]
    simp only [isLeapYear, Bool.and_eq_true, Bool.or_eq_true, decide_eq_true_eq] at hleap
    omega
  · rw [if_neg hleap]
    simp only [isLeapYear, Bool.and_eq_true, Bool.or_eq_true, decide_eq_true_eq] at hleap
    omega

theorem daysBeforeMonth_succ (year : ℤ) (month : ℕ) :
    daysBeforeMonth year (month + 1) = daysBeforeMonth year month + daysInMonth year month := rfl

theorem daysBeforeMonth_one (year : ℤ) : daysBeforeMonth year 1 = 0 := rfl

theorem daysBeforeMonth_twelve (year : ℤ) :
    ((daysBeforeMonth year 12 : ℕ) : ℤ) + 31 = 365 + if isLeapYear year then 1 else 0 := by
  cases h : isLeapYear year <;> simp [daysBeforeMonth, daysInMonth, h]

theorem eq_of_parts {d e : Date} (hyear : d.year = e.year) (hmonth : d.month = e.month)
    (hday : d.day = e.day) : d = e := by
  cases d
  cases e
  simp_all

theorem next_of_lt {d : Date} (h : d.day < daysInMonth d.year d.month) :
    d.next.year = d.year ∧ d.next.month = d.month ∧ d.next.day = d.day + 1 := by
  rw [next, dif_pos (Nat.succ_le_of_lt h)]
  exact ⟨rfl, rfl, rfl⟩

theorem next_of_last {d : Date} (h : d.day = daysInMonth d.year d.month) (hmonth : d.month < 12) :
    d.next.year = d.year ∧ d.next.month = d.month + 1 ∧ d.next.day = 1 := by
  rw [next, dif_neg (by omega), dif_pos hmonth]
  exact ⟨rfl, rfl, rfl⟩

theorem next_of_december {d : Date} (h : d.day = daysInMonth d.year d.month)
    (hmonth : d.month = 12) :
    d.next.year = d.year + 1 ∧ d.next.month = 1 ∧ d.next.day = 1 := by
  rw [next, dif_neg (by omega), dif_neg (by omega)]
  exact ⟨rfl, rfl, rfl⟩

theorem ordinal_next (d : Date) : d.next.ordinal = d.ordinal + 1 := by
  have hmonth := d.month_range
  have hsucc := daysBeforeMonth_succ d.year d.month
  -- The three cases of `next`: within a month, at its end, and at the end of the year.
  rcases Nat.lt_or_eq_of_le d.day_le with hday | hlast
  · obtain ⟨hy, hm, hd⟩ := next_of_lt hday
    simp only [ordinal, hy, hm, hd]
    omega
  · rcases Nat.lt_or_eq_of_le hmonth.2 with hbefore | hdecember
    · obtain ⟨hy, hm, hd⟩ := next_of_last hlast hbefore
      simp only [ordinal, hy, hm, hd]
      omega
    · obtain ⟨hy, hm, hd⟩ := next_of_december hlast hdecember
      have hdays := daysBeforeMonth_twelve d.year
      have hleap := leapYearsBefore_succ d.year
      have hday : d.day = 31 := by rw [hlast, hdecember, daysInMonth]
      simp only [ordinal, hy, hm, hd, hdecember, hday, daysBeforeMonth_one, hleap]
      omega

theorem previous_of_lt {d : Date} (h : 1 < d.day) :
    d.previous.year = d.year ∧ d.previous.month = d.month ∧ d.previous.day = d.day - 1 := by
  rw [previous, dif_pos h]
  exact ⟨rfl, rfl, rfl⟩

theorem previous_of_first {d : Date} (h : d.day = 1) (hmonth : 1 < d.month) :
    d.previous.year = d.year ∧ d.previous.month = d.month - 1 ∧
      d.previous.day = daysInMonth d.year (d.month - 1) := by
  rw [previous, dif_neg (by omega), dif_pos hmonth]
  exact ⟨rfl, rfl, rfl⟩

theorem previous_of_january {d : Date} (h : d.day = 1) (hmonth : d.month = 1) :
    d.previous.year = d.year - 1 ∧ d.previous.month = 12 ∧ d.previous.day = 31 := by
  rw [previous, dif_neg (by omega), dif_neg (by omega)]
  exact ⟨rfl, rfl, rfl⟩

theorem next_previous (d : Date) : d.previous.next = d := by
  have hmonth := d.month_range
  have hle := d.day_le
  rcases Nat.lt_or_eq_of_le d.day_pos with hday | hfirst
  · obtain ⟨hy, hm, hd⟩ := previous_of_lt hday
    obtain ⟨hy', hm', hd'⟩ := next_of_lt (d := d.previous) (by rw [hy, hm, hd]; omega)
    exact eq_of_parts (hy'.trans hy) (hm'.trans hm) (by omega)
  · rcases Nat.lt_or_eq_of_le hmonth.1 with hafter | hjanuary
    · obtain ⟨hy, hm, hd⟩ := previous_of_first hfirst.symm hafter
      obtain ⟨hy', hm', hd'⟩ := next_of_last (d := d.previous) (by rw [hy, hm, hd]) (by omega)
      exact eq_of_parts (hy'.trans hy) (by omega) (by omega)
    · obtain ⟨hy, hm, hd⟩ := previous_of_january hfirst.symm hjanuary.symm
      obtain ⟨hy', hm', hd'⟩ := next_of_december (d := d.previous) (by rw [hm, hd]; rfl) hm
      exact eq_of_parts (by omega) (by omega) (by omega)

theorem ordinal_previous (d : Date) : d.previous.ordinal = d.ordinal - 1 := by
  have hnext := d.previous.ordinal_next
  rw [next_previous] at hnext
  omega

end Date

namespace Clock

theorem minutes_lt (c : Clock) : c.minutes < 1440 := by
  have := c.hour_lt
  have := c.minute_lt
  unfold minutes
  omega

@[simp]
theorem minutes_atMinute (c : Clock) (minutes : ℕ) (h : minutes < 1440) :
    (c.atMinute minutes h).minutes = minutes := by
  simp only [atMinute, Clock.minutes]
  omega

theorem atMinute_minutes (c : Clock) (h : c.minutes < 1440) : c.atMinute c.minutes h = c := by
  have hhour := c.hour_lt
  have hminute := c.minute_lt
  cases c
  simp only [atMinute, minutes, mk.injEq, and_true]
  omega

end Clock

namespace Moment

/-- The number of minutes from the start of the year zero in universal time. -/
def instant (m : Moment) : ℤ := 1440 * m.date.ordinal + m.clock.minutes - m.offset

theorem instant_universal (d : Date) (c : Clock) :
    (universal d c).instant = 1440 * d.ordinal + c.minutes := by
  simp [instant, universal]

theorem offset_utc (m : Moment) : m.utc.offset = 0 := by
  simp only [utc]
  split
  · rfl
  · split <;> rfl

/-- The clock of universal time shows the same minute as any other. -/
theorem instant_utc (m : Moment) : m.utc.instant = m.instant := by
  have hclock := m.clock.minutes_lt
  have hoffset := m.offset_lt
  simp only [utc]
  split
  · rw [instant_universal, Date.ordinal_previous, Clock.minutes_atMinute, instant]
    omega
  · split
    · rw [instant_universal, Date.ordinal_next, Clock.minutes_atMinute, instant]
      omega
    · rw [instant_universal, Clock.minutes_atMinute, instant]
      omega

/-- A clock and the clock of universal time show the same date or dates next to one another. -/
theorem natAbs_ordinal_utc_sub_le (m : Moment) :
    (m.utc.date.ordinal - m.date.ordinal).natAbs ≤ 1 := by
  have hinstant := m.instant_utc
  have hclock := m.clock.minutes_lt
  have hutc := m.utc.clock.minutes_lt
  have hoffset := m.offset_lt
  rw [instant, instant, offset_utc] at hinstant
  omega

theorem utc_of_offset_eq_zero {m : Moment} (h : m.offset = 0) :
    m.utc = universal m.date m.clock := by
  have hclock := m.clock.minutes_lt
  simp only [utc, h]
  rw [dif_neg (by omega), dif_neg (by omega)]
  simp only [sub_zero, Int.toNat_natCast, Clock.atMinute_minutes]

end Moment
end FilterForest
