import FilterForest.Number.Decimal

/-!
# Dates

Days of the proleptic Gregorian calendar, with a year zero and years before it.
-/

namespace FilterForest

def isLeapYear (year : Int) : Bool := year % 4 = 0 && (year % 100 ≠ 0 || year % 400 = 0)

/-- The length of a month, zero for a number that is not a month. -/
def daysInMonth (year : Int) : Nat → Nat
  | 2 => if isLeapYear year then 29 else 28
  | 4 | 6 | 9 | 11 => 30
  | 1 | 3 | 5 | 7 | 8 | 10 | 12 => 31
  | _ => 0

theorem daysInMonth_pos {year : Int} {month : Nat} (h1 : 1 ≤ month) (h12 : month ≤ 12) :
    1 ≤ daysInMonth year month := by
  by_cases h2 : month = 2
  · subst h2
    simp only [daysInMonth]
    split <;> decide
  · have hall : ∀ m < 13, 1 ≤ m → m ≠ 2 → 1 ≤ daysInMonth 0 m := by decide
    have hyear : daysInMonth year month = daysInMonth 0 month := by
      simp only [daysInMonth]
      split
      · contradiction
      all_goals rfl
    rw [hyear]
    exact hall month (by omega) h1 h2

theorem month_le_of_daysInMonth_pos {year : Int} {month : Nat} (h : 1 ≤ daysInMonth year month) :
    1 ≤ month ∧ month ≤ 12 := by
  unfold daysInMonth at h
  split at h <;> omega

structure Date where
  year : Int
  month : Nat
  day : Nat
  day_pos : 1 ≤ day
  day_le : day ≤ daysInMonth year month
deriving DecidableEq

namespace Date

def firstYear : Int := -262143

def lastYear : Int := 262142

/-- The date with the given parts, if there is one in the range of years. -/
def ofParts? (year : Int) (month day : Nat) : Option Date :=
  if h : (firstYear ≤ year ∧ year ≤ lastYear) ∧ 1 ≤ day ∧ day ≤ daysInMonth year month then
    some ⟨year, month, day, h.2.1, h.2.2⟩
  else none

variable (d : Date)

theorem month_range : 1 ≤ d.month ∧ d.month ≤ 12 :=
  month_le_of_daysInMonth_pos (Nat.le_trans d.day_pos d.day_le)

def next : Date :=
  if h : d.day + 1 ≤ daysInMonth d.year d.month then
    ⟨d.year, d.month, d.day + 1, by omega, h⟩
  else if h : d.month < 12 then
    ⟨d.year, d.month + 1, 1, Nat.le_refl 1, daysInMonth_pos (by omega) (by omega)⟩
  else
    ⟨d.year + 1, 1, 1, Nat.le_refl 1, daysInMonth_pos (by decide) (by decide)⟩

def previous : Date :=
  if h : 1 < d.day then
    ⟨d.year, d.month, d.day - 1, by omega, by have := d.day_le; omega⟩
  else if h : 1 < d.month then
    ⟨d.year, d.month - 1, daysInMonth d.year (d.month - 1),
      daysInMonth_pos (by omega) (by have := d.month_range; omega), Nat.le_refl _⟩
  else
    ⟨d.year - 1, 12, 31, by decide, Nat.le_refl 31⟩

/-- Digits with zeros in front up to a width. -/
def padded (width n : Nat) : List Char :=
  List.replicate (width - (Decimal.digits n).length) '0' ++ Decimal.digits n

/-- Years of four digits stand as they are; other years have a sign and at least four digits. -/
def yearText (year : Int) : List Char :=
  if 0 ≤ year ∧ year ≤ 9999 then padded 4 year.natAbs
  else (if year < 0 then '-' else '+') :: padded 4 year.natAbs

/-- Year, month and day with hyphens between them. -/
def text : List Char := yearText d.year ++ '-' :: padded 2 d.month ++ '-' :: padded 2 d.day

end Date
end FilterForest
