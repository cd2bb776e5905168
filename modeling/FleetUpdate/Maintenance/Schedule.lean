import FleetUpdate.Cron.Parse
import FleetUpdate.Cron.Search
import FleetUpdate.Maintenance.Duration
import FleetUpdate.Maintenance.Spec
import FleetUpdate.Maintenance.Years
import FleetUpdate.Text.Quoted

/-!
# Maintenance schedules

A schedule opens a window of fixed length at every occurrence of its pattern in an allowed year, by
a wall clock at a fixed offset from UTC.  Windows are half-open.  `Schedule.occursAt` says what an
occurrence is, without any search; the search answers the first occurrence from a second on, and
everything else is asked of it: whether a window is open, which one comes next, and whether there
will be none any more.
-/

namespace FleetUpdate

open Calendar

/-- The first second from `second` on that `next` finds in an allowed year.  A match in a year that
is not allowed sends the search to the first moment of the next allowed year, at most `jumps` times
in all. -/
def Maintenance.Years.search (years : Years) (next : Int → Option Int) :
    (jumps : Nat) → (second : Int) → Option Int
  | 0, _ => none
  | n + 1, second =>
    match next second with
    | none => none
    | some t =>
      let year := yearOf (dayOf t)
      if years.allows year then some t
      else
        -- `year` itself is not allowed, so the next allowed year is a later one
        match years.nextFrom year with
        | none => none
        | some y => years.search next n (yearStart y * daySeconds)

/-- A maintenance schedule. -/
structure Schedule where
  /-- The cron expression as it was given. -/
  expression : String
  pattern : Cron.Pattern
  years : Maintenance.Years
  /-- The length of a window in seconds. -/
  duration : Nat
  /-- The seconds by which the wall clock is ahead of UTC. -/
  offset : Int

/-- A maintenance window, from its start up to but not including its end. -/
structure Window where
  start : Instant
  stop : Instant
  deriving DecidableEq

/-- The instant lies in the window. -/
def Window.contains (w : Window) (t : Instant) : Bool :=
  decide (w.start ≤ t) && decide (t < w.stop)

namespace Schedule

/-- The words of a cron expression: six for the pattern, and possibly the year field.  The year
field is read before the pattern. -/
def readExpression (expression : String) : Except String (Cron.Pattern × Maintenance.Years) := do
  let words := (Text.words expression).map String.toList
  let years ←
    if words.length = 6 then .ok Maintenance.Years.any
    else if words.length = 7 then Maintenance.Years.parse (words.getLastD [])
    else .error ("expected 6 or 7 fields, found " ++ toString words.length)
  match Cron.Pattern.ofWords (words.take 6) with
  | .ok pattern => .ok (pattern, years)
  | .error e => .error e.message

/-- Reads a schedule from its three texts, none of which may be blank: first the expression, then
the duration, then the offset. -/
def parse (schedule duration timezone : String) : Except MaintenanceError Schedule :=
  if Text.allBlank schedule || Text.allBlank duration || Text.allBlank timezone then
    .error .incomplete
  else
    match readExpression schedule with
    | .error reason => .error (.invalidSchedule schedule reason)
    | .ok (pattern, years) => do
      let d ← Maintenance.parseDuration duration
      let o ← Maintenance.parseOffset timezone
      .ok ⟨schedule, pattern, years, d, o⟩

/-- Reads the schedule of a specification. -/
def ofSpec (spec : MaintenanceSpec) : Except MaintenanceError Schedule :=
  parse spec.schedule spec.duration spec.timezone

/-- A second of the wall clock at which a window opens. -/
def occursAt (s : Schedule) (second : Int) : Bool :=
  s.pattern.matchesAt second && s.years.allows (yearOf (dayOf second))

/-- The most often the search moves on to a later year. -/
def maxYearJumps : Nat := 256

/-- The first second from `second` on at which a window opens. -/
def nextOccurrence (s : Schedule) (second : Int) : Option Int :=
  s.years.search s.pattern.nextFrom maxYearJumps second

/-- The first start of a window from an instant on. -/
def nextStart (s : Schedule) (now : Instant) : Option Instant :=
  (s.nextOccurrence (localSecond s.offset now)).map (instantOf s.offset)

/-- The end of a window that starts at an instant. -/
def windowEnd (s : Schedule) (start : Instant) : Instant := start + s.duration * 1000

/-- The window that starts first among those that start after `now` less the duration: one that is
open now, else the next one. -/
def currentOrNext (s : Schedule) (now : Instant) : Option Window :=
  (s.nextOccurrence (localSecond s.offset (now - s.duration * 1000) + 1)).map fun t =>
    let start := instantOf s.offset t
    ⟨start, s.windowEnd start⟩

/-- A window is open. -/
def isAvailable (s : Schedule) (now : Instant) : Bool :=
  match s.currentOrNext now with
  | some w => w.contains now
  | none => false

/-- No window is open and none will open. -/
def isLapsed (s : Schedule) (now : Instant) : Bool :=
  (s.currentOrNext now).isNone

/-- The starts of at most `n` windows, each the first one at least a second after the one before. -/
def startsFrom (s : Schedule) : (n : Nat) → (now : Instant) → List Instant
  | 0, _ => []
  | n + 1, now =>
    match s.nextStart now with
    | none => []
    | some t => t :: s.startsFrom n (t + 1000)

/-- The schedule in one line, as it is shown in diagnostics. -/
def describe (s : Schedule) : String :=
  "MaintenanceSchedule \x7b expression: " ++ Text.quoted s.expression ++
    ", duration: TimeDelta \x7b secs: " ++ toString s.duration ++ ", nanos: 0 \x7d, offset: " ++
    offsetText s.offset ++ " \x7d"

end Schedule

/-- Accepts a specification that can be read and has not lapsed. -/
def validateWindow (spec : MaintenanceSpec) (now : Instant) : Except MaintenanceError Schedule := do
  let s ← Schedule.ofSpec spec
  if s.isLapsed now then .error (.lapsed spec.schedule) else .ok s

/-- Whether a device may act; without a specification it always may. -/
def isWindowAvailable (spec : Option MaintenanceSpec) (now : Instant) :
    Except MaintenanceError Bool :=
  match spec with
  | none => .ok true
  | some spec => (Schedule.ofSpec spec).map fun s => s.isAvailable now

end FleetUpdate
