import FleetUpdate.Vocabulary.Basic

/-!
# States and types of actions

An action drives one target towards one distribution set.  Its state is set partly by the server
and partly by reports of the device; the two predicates below say which side may set which.
-/

namespace FleetUpdate

/-- The state of an action. -/
inductive ActionStatus where
  | scheduled
  | retrieved
  | download
  | downloaded
  | running
  | waitForConfirmation
  | canceling
  | warning
  | finished
  | error
  | canceled
  | cancelRejected
  deriving DecidableEq

namespace ActionStatus

/-- The name of a state, in records and in messages. -/
def name : ActionStatus → String
  | scheduled => "SCHEDULED"
  | retrieved => "RETRIEVED"
  | download => "DOWNLOAD"
  | downloaded => "DOWNLOADED"
  | running => "RUNNING"
  | waitForConfirmation => "WAIT_FOR_CONFIRMATION"
  | canceling => "CANCELING"
  | warning => "WARNING"
  | finished => "FINISHED"
  | error => "ERROR"
  | canceled => "CANCELED"
  | cancelRejected => "CANCEL_REJECTED"

/-- The code under which a state is stored. -/
def code : ActionStatus → Int
  | finished => 0
  | error => 1
  | warning => 2
  | running => 3
  | canceled => 4
  | canceling => 5
  | retrieved => 6
  | download => 7
  | scheduled => 8
  | cancelRejected => 9
  | downloaded => 10
  | waitForConfirmation => 11

/-- The states of actions. -/
def vocabulary : Vocabulary ActionStatus where
  kind := "action status"
  values := [scheduled, retrieved, download, downloaded, running, waitForConfirmation, canceling,
    warning, finished, error, canceled, cancelRejected]
  name := name
  code := code

/-- The device has not fetched the action yet, so a cancellation takes effect at once. -/
def isUndispatched : ActionStatus → Bool
  | scheduled | waitForConfirmation => true
  | _ => false

/-- A device may report this state; the other three are set by the server alone. -/
def isDeviceReportable : ActionStatus → Bool
  | scheduled | canceling | waitForConfirmation => false
  | _ => true

end ActionStatus

/-- How strongly an action is imposed on the device. -/
inductive ActionType where
  | forced
  | soft
  | timeForced
  | downloadOnly
  deriving DecidableEq

namespace ActionType

/-- The name of a type, in records and in messages. -/
def name : ActionType → String
  | forced => "FORCED"
  | soft => "SOFT"
  | timeForced => "TIMEFORCED"
  | downloadOnly => "DOWNLOAD_ONLY"

/-- The code under which a type is stored. -/
def code : ActionType → Int
  | forced => 0
  | soft => 1
  | timeForced => 2
  | downloadOnly => 3

/-- The types of actions. -/
def vocabulary : Vocabulary ActionType where
  kind := "action type"
  values := [forced, soft, timeForced, downloadOnly]
  name := name
  code := code

end ActionType

end FleetUpdate
