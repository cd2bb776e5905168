import FleetUpdate.Calendar.Date
import FleetUpdate.Tenancy
import FleetUpdate.Text.Numeral

/-!
# Wall clocks at a fixed offset

Schedules are kept by a wall clock that runs ahead of UTC by a fixed number of seconds.  Its time is
counted in whole seconds since it showed the start of 1970; the parts of a second of an instant are
dropped, towards the past.
-/

namespace FleetUpdate.Calendar

/-- The seconds of a day. -/
def daySeconds : Int := 86400

/-- The second that a wall clock at `offset` shows at an instant. -/
def localSecond (offset : Int) (t : Instant) : Int := t / 1000 + offset

/-- The instant at which a wall clock at `offset` begins to show a second. -/
def instantOf (offset second : Int) : Instant := (second - offset) * 1000

/-- The day a second belongs to. -/
def dayOf (second : Int) : Int := second / daySeconds

/-- How far into its day a second lies. -/
def timeOf (second : Int) : Nat := (second % daySeconds).toNat

@[simp] theorem localSecond_instantOf (offset s : Int) :
    localSecond offset (instantOf offset s) = s := by
  unfold localSecond instantOf; omega

theorem dayOf_timeOf (s : Int) : dayOf s * daySeconds + (timeOf s : Int) = s := by
  unfold dayOf timeOf daySeconds; omega

theorem timeOf_lt (s : Int) : timeOf s < 86400 := by
  unfold timeOf daySeconds; omega

/-- The text of an offset: sign, hours and minutes. -/
def offsetText (offset : Int) : String :=
  let m := offset.natAbs / 60
  (if offset < 0 then "-" else "+") ++ Text.padded 2 (m / 60) ++ ":" ++ Text.padded 2 (m % 60)

/-- The text of a year: four digits; outside `0` to `9999` a sign and at least four digits. -/
def yearText (year : Int) : String :=
  if 0 ≤ year ∧ year ≤ 9999 then Text.padded 4 year.toNat
  else (if year < 0 then "-" else "+") ++ Text.padded 4 year.natAbs

/-- The text of an instant by a wall clock at `offset`: date, time, the milliseconds where there
are any, and the offset. -/
def instantText (offset : Int) (t : Instant) : String :=
  let s := localSecond offset t
  let d := dateOf (dayOf s)
  let h := timeOf s
  let ms := (t % 1000).toNat
  yearText d.year ++ "-" ++ Text.padded 2 d.month ++ "-" ++ Text.padded 2 d.day ++ "T" ++
    Text.padded 2 (h / 3600) ++ ":" ++ Text.padded 2 (h / 60 % 60) ++ ":" ++
    Text.padded 2 (h % 60) ++ (if ms = 0 then "" else "." ++ Text.padded 3 ms) ++
    offsetText offset

end FleetUpdate.Calendar
