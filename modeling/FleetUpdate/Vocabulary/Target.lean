import FleetUpdate.Vocabulary.Basic

/-!
# Update states of targets

The update state sums up where a target stands: never seen, seen, driven by an action, in its
desired state, or failed.
-/

namespace FleetUpdate

/-- The update state of a target. -/
inductive UpdateStatus where
  | unknown
  | registered
  | pending
  | inSync
  | error
  deriving DecidableEq

namespace UpdateStatus

/-- The name of an update state, in records and in messages. -/
def name : UpdateStatus → String
  | unknown => "UNKNOWN"
  | registered => "REGISTERED"
  | pending => "PENDING"
  | inSync => "IN_SYNC"
  | error => "ERROR"

/-- The code under which an update state is stored. -/
def code : UpdateStatus → Int
  | unknown => 0
  | inSync => 1
  | pending => 2
  | error => 3
  | registered => 4

/-- The update states of targets. -/
def vocabulary : Vocabulary UpdateStatus where
  kind := "target update status"
  values := [unknown, registered, pending, inSync, error]
  name := name
  code := code

end UpdateStatus

end FleetUpdate
