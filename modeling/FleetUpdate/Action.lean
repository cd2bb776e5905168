import FleetUpdate.Maintenance.Spec
import FleetUpdate.Tenancy
import FleetUpdate.Vocabulary.Action

/-!
# Actions and their status logs

An action brings one distribution set to one target.  It is active until it has ended; its log
holds, oldest first, every state that the server set or the device reported.
-/

namespace FleetUpdate

/-- An action as it is stored. -/
structure Action where
  tenantId : String
  id : Int
  controllerId : String
  /-- The distribution set the action brings. -/
  setId : Int
  active : Bool
  status : ActionStatus
  actionType : ActionType
  forcedTime : Option Instant
  weight : Option Int
  maintenance : Option MaintenanceSpec
  /-- The code of the latest report that carried one. -/
  lastCode : Option Int
  rolloutId : Option Int
  rolloutGroupId : Option Int
  initiatedBy : String
  revision : Int
  audit : Audit
  deriving DecidableEq

/-- What a new action is created with; its id comes from the store. -/
structure NewAction where
  setId : Int
  status : ActionStatus
  actionType : ActionType
  forcedTime : Option Instant
  weight : Option Int
  maintenance : Option MaintenanceSpec
  rolloutId : Option Int
  rolloutGroupId : Option Int
  initiatedBy : String
  deriving DecidableEq

/-- An entry of a status log. -/
structure StatusEntry where
  tenantId : String
  id : Int
  actionId : Int
  status : ActionStatus
  time : Instant
  messages : List String
  code : Option Int
  deriving DecidableEq

/-- An action in a list for people: with the name of its distribution set and the length of its
log. -/
structure ActionSummary where
  action : Action
  setName : String
  setVersion : String
  logLength : Int
  deriving DecidableEq

end FleetUpdate
