import FleetUpdate.Calendar.Clock
import FleetUpdate.Cron.Field

/-!
# Cron patterns and the times they match

A pattern has six fields.  A second of the wall clock matches when its time of day matches the
first three fields and its day matches the other three.  A day has to match the month, and further:
if only one of day of month and weekday is restricted, that one; if both are, either.
-/

namespace FleetUpdate.Cron

open Calendar

/-- A cron pattern. -/
structure Pattern where
  second : Field
  minute : Field
  hour : Field
  day : Field
  month : Field
  weekday : Field

namespace Pattern

/-- The day is a working day, and it is the nearest one to a day of the month that asks for it:
that day itself, or a Sunday just before, or a Saturday just after. -/
def matchesNearest (p : Pattern) (d : Int) : Bool :=
  let w := Calendar.weekday d
  decide (1 ≤ w) && decide (w ≤ 5) &&
    (p.day.has (dateOf d).day .nearest ||
      (w == 1 && p.day.has (dateOf (d - 1)).day .nearest) ||
      (w == 5 && p.day.has (dateOf (d + 1)).day .nearest))

/-- The day of the month matches. -/
def matchesMonthDay (p : Pattern) (d : Int) : Bool :=
  p.day.allows (dateOf d).day ||
    (p.day.lastDay && (dateOf (d + 1)).month != (dateOf d).month) ||
    p.matchesNearest d

/-- The weekday matches: as such, as the nth of its month, or as the last of its month. -/
def matchesWeekday (p : Pattern) (d : Int) : Bool :=
  let w := Calendar.weekday d
  p.weekday.allows w ||
    p.weekday.has w (.nth (((dateOf d).day - 1) / 7 + 1)) ||
    (p.weekday.has w .last && (dateOf (d + 7)).month != (dateOf d).month)

/-- The day matches. -/
def matchesDay (p : Pattern) (d : Int) : Bool :=
  p.month.allows (dateOf d).month &&
    ((p.weekday.star && p.matchesMonthDay d) ||
      (p.day.star && p.matchesWeekday d) ||
      (!p.day.star && !p.weekday.star && (p.matchesMonthDay d || p.matchesWeekday d)))

/-- The time of day, in seconds, matches. -/
def matchesTime (p : Pattern) (t : Nat) : Bool :=
  p.hour.allows (t / 3600) && p.minute.allows (t / 60 % 60) && p.second.allows (t % 60)

/-- A second of the wall clock matches. -/
def matchesAt (p : Pattern) (s : Int) : Bool :=
  p.matchesDay (dayOf s) && p.matchesTime (timeOf s)

end Pattern

end FleetUpdate.Cron
