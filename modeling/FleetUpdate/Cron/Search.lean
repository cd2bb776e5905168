import FleetUpdate.Cron.Pattern

/-!
# The next second that matches

From a second on, the search takes the first time of day that still matches on the same day, else
the first matching time of the next matching day.  It gives up at the year 5000: it never moves on
from a day, an hour or a minute of that year or a later one, though within them it still finds what
lies ahead.
-/

namespace FleetUpdate.Cron.Pattern

open Calendar

/-- The year in which the search ends. -/
def searchLimit : Int := 5000

/-- The first matching second of a minute from `s` on. -/
def secondFrom (p : Pattern) (h m s : Nat) : Option Nat :=
  (p.second.leastFrom 60 s).map fun s => h * 3600 + m * 60 + s

/-- The first matching second of an hour from minute `m` on. -/
def minuteFrom (p : Pattern) (h m : Nat) : Option Nat :=
  (p.minute.leastFrom 60 m).bind fun m => p.secondFrom h m 0

/-- The first matching second of a day from hour `h` on. -/
def hourFrom (p : Pattern) (h : Nat) : Option Nat :=
  (p.hour.leastFrom 24 h).bind fun h => p.minuteFrom h 0

/-- The first matching time of day from `t` on. -/
def timeFrom (p : Pattern) (t : Nat) : Option Nat :=
  let h := t / 3600
  let m := t / 60 % 60
  if p.hour.allows h then
    if p.minute.allows m then
      ((p.secondFrom h m (t % 60)).or (p.minuteFrom h (m + 1))).or (p.hourFrom (h + 1))
    else (p.minuteFrom h (m + 1)).or (p.hourFrom (h + 1))
  else p.hourFrom (h + 1)

/-- As `timeFrom`, but an hour or a minute that matches is not left again. -/
def timeWithin (p : Pattern) (t : Nat) : Option Nat :=
  let h := t / 3600
  let m := t / 60 % 60
  if p.hour.allows h then
    if p.minute.allows m then p.secondFrom h m (t % 60) else p.minuteFrom h (m + 1)
  else p.hourFrom (h + 1)

/-- The first matching day among `n` days from `d` on. -/
def dayFrom (p : Pattern) : Nat → Int → Option Int
  | 0, _ => none
  | n + 1, d => if p.matchesDay d then some d else dayFrom p n (d + 1)

/-- The second at time `t` of day `d`. -/
def secondOf (d : Int) (t : Nat) : Int := d * daySeconds + t

/-- The first matching second on a day after `d`, up to the first day of the limit year. -/
def laterDay (p : Pattern) (d : Int) : Option Int :=
  (p.timeFrom 0).bind fun t =>
    (p.dayFrom (yearStart searchLimit - d).toNat (d + 1)).map fun e => secondOf e t

/-- The first matching second from `s` on. -/
def nextFrom (p : Pattern) (s : Int) : Option Int :=
  let d := dayOf s
  -- from the limit year on, the search stays on the day it starts on
  if d < yearStart searchLimit then
    match (if p.matchesDay d then p.timeFrom (timeOf s) else none) with
    | some t => some (secondOf d t)
    | none => p.laterDay d
  else if p.matchesDay d then (p.timeWithin (timeOf s)).map (secondOf d)
  else none

end FleetUpdate.Cron.Pattern
