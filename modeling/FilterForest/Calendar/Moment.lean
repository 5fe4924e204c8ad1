import FilterForest.Calendar.Date

/-!
# Moments

A moment is a date and a time of day, as a clock shows it that is some minutes ahead of universal
time. Clocks show a second 60 in leap seconds, and nothing smaller than a second.
-/

namespace FilterForest

structure Clock where
  hour : Nat
  minute : Nat
  second : Nat
  hour_lt : hour < 24
  minute_lt : minute < 60
  second_le : second ≤ 60
deriving DecidableEq

namespace Clock

def midnight : Clock := ⟨0, 0, 0, by decide, by decide, by decide⟩

def ofParts? (hour minute second : Nat) : Option Clock :=
  if h : hour < 24 ∧ minute < 60 ∧ second ≤ 60 then
    some ⟨hour, minute, second, h.1, h.2.1, h.2.2⟩
  else none

/-- Whole minutes since midnight. -/
def minutes (c : Clock) : Nat := 60 * c.hour + c.minute

/-- The same second of another minute of the day. -/
def atMinute (c : Clock) (minutes : Nat) (h : minutes < 1440) : Clock :=
  ⟨minutes / 60, minutes % 60, c.second, by omega, by omega, c.second_le⟩

def text (c : Clock) : List Char :=
  Date.padded 2 c.hour ++ ':' :: Date.padded 2 c.minute ++ ':' :: Date.padded 2 c.second

end Clock

/-- What a clock shows that is `offset` minutes ahead of universal time, less than a day. -/
structure Moment where
  date : Date
  clock : Clock
  offset : Int
  offset_lt : offset.natAbs < 1440
deriving DecidableEq

namespace Moment

/-- A moment in universal time. -/
def universal (date : Date) (clock : Clock) : Moment := ⟨date, clock, 0, by decide⟩

/-- Midnight of a day in universal time. -/
def ofDate (date : Date) : Moment := universal date .midnight

variable (m : Moment)

/-- The same moment on a clock of universal time. Offsets are less than a day, so that the date is
the same or one of its neighbours. -/
def utc : Moment :=
  let minutes := (m.clock.minutes : Int) - m.offset
  have hclock : m.clock.minutes < 1440 := by
    have := m.clock.hour_lt
    have := m.clock.minute_lt
    unfold Clock.minutes
    omega
  have hoffset := m.offset_lt
  if h : minutes < 0 then
    universal m.date.previous (m.clock.atMinute (minutes + 1440).toNat (by omega))
  else if h : 1440 ≤ minutes then
    universal m.date.next (m.clock.atMinute (minutes - 1440).toNat (by omega))
  else
    universal m.date (m.clock.atMinute minutes.toNat (by omega))

/-- Date and time of day of a moment in universal time. -/
def timestamp : List Char := m.utc.date.text ++ 'T' :: m.utc.clock.text ++ ['Z']

end Moment

namespace Date

/-- The first second of a day in universal time. -/
def startText (d : Date) : List Char := d.text ++ "T00:00:00Z".toList

/-- The last second of a day in universal time. -/
def endText (d : Date) : List Char := d.text ++ "T23:59:59Z".toList

end Date
end FilterForest
