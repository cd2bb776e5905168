import FleetUpdate.Text.Split

/-!
# Faults of maintenance specifications
-/

namespace FleetUpdate

/-- Why a maintenance specification is refused.  The texts are those that were given. -/
inductive MaintenanceError where
  | incomplete
  | invalidSchedule (expression reason : String)
  | invalidDuration (text : String)
  | invalidTimezone (text : String)
  /-- The schedule is well-formed but no window is current or to come. -/
  | lapsed (expression : String)
  deriving DecidableEq

/-- The text of the error. -/
def MaintenanceError.message : MaintenanceError → String
  | incomplete => "maintenance schedule, duration and timezone must all be set"
  | invalidSchedule expression reason =>
    "invalid maintenance schedule " ++ expression ++ ": " ++ reason
  | invalidDuration text => "invalid maintenance duration " ++ text ++ ", expected HH:mm:ss"
  | invalidTimezone text => "invalid maintenance timezone " ++ text ++ ", expected ±HH:mm"
  | lapsed expression => "maintenance schedule " ++ expression ++ " has no upcoming window"

end FleetUpdate
