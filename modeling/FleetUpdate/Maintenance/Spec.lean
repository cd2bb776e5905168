/-!
# Maintenance specifications

An action may be restricted to maintenance windows.  The specification is stored as it was given:
three texts, a cron expression with a seconds field, a duration, and a fixed offset from UTC.
-/

namespace FleetUpdate

/-- When a device may act: windows of the given duration that start at the scheduled times. -/
structure MaintenanceSpec where
  schedule : String
  duration : String
  timezone : String
  deriving DecidableEq

end FleetUpdate
