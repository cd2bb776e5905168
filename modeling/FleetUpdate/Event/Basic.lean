import FleetUpdate.Change
import FleetUpdate.Wire.Value

/-!
# Deployment events

Whoever follows the deployment is told about every action that is created or changed, and devices
are told about new assignments and cancellations.  While a change is planned the ids of its new
actions are not known yet, so its events are planned by position and resolved after the commit.
-/

namespace FleetUpdate

/-- What an event says of an action. -/
structure ActionEvent where
  tenantId : String
  actionId : Int
  controllerId : String
  setId : Int
  status : ActionStatus
  actionType : ActionType
  active : Bool
  rolloutId : Option Int
  rolloutGroupId : Option Int
  deriving DecidableEq

/-- What a device is told of an assignment. -/
structure AssignmentEvent where
  tenantId : String
  controllerId : String
  actionId : Int
  setId : Int
  actionType : ActionType
  deriving DecidableEq

/-- The part of an action that events carry. -/
def Action.toEvent (a : Action) : ActionEvent :=
  ⟨a.tenantId, a.id, a.controllerId, a.setId, a.status, a.actionType, a.active, a.rolloutId,
    a.rolloutGroupId⟩

/-- The part of an action that devices are told. -/
def Action.toAssignmentEvent (a : Action) : AssignmentEvent :=
  ⟨a.tenantId, a.controllerId, a.id, a.setId, a.actionType⟩

/-- A deployment event. -/
inductive Event where
  | actionCreated (e : ActionEvent)
  | actionUpdated (e : ActionEvent)
  | targetAssigned (e : AssignmentEvent)
  | cancelTargetAssignment (e : AssignmentEvent)
  deriving DecidableEq

namespace Event

/-- The name of the type of an event. -/
def typeName : Event → String
  | actionCreated _ => "action_created"
  | actionUpdated _ => "action_updated"
  | targetAssigned _ => "target_assigned"
  | cancelTargetAssignment _ => "cancel_target_assignment"

/-- The action an event is about. -/
def actionId : Event → Int
  | actionCreated e | actionUpdated e => e.actionId
  | targetAssigned e | cancelTargetAssignment e => e.actionId

/-- The target an event is about. -/
def controllerId : Event → String
  | actionCreated e | actionUpdated e => e.controllerId
  | targetAssigned e | cancelTargetAssignment e => e.controllerId

end Event

open Wire

/-- The written form of an action event. -/
def ActionEvent.toValue (e : ActionEvent) : Value :=
  .record [("tenant_id", .text e.tenantId), ("action_id", .int e.actionId),
    ("controller_id", .text e.controllerId), ("ds_id", .int e.setId),
    ("status", .text e.status.name), ("action_type", .text e.actionType.name),
    ("active", .bool e.active), ("rollout_id", .ofOption .int e.rolloutId),
    ("rollout_group_id", .ofOption .int e.rolloutGroupId)]

/-- The written form of an assignment event. -/
def AssignmentEvent.toValue (e : AssignmentEvent) : Value :=
  .record [("tenant_id", .text e.tenantId), ("controller_id", .text e.controllerId),
    ("action_id", .int e.actionId), ("ds_id", .int e.setId),
    ("action_type", .text e.actionType.name)]

/-- The written form of an event: its type, then what it says. -/
def Event.toValue (e : Event) : Value :=
  .record [("event_type", .text e.typeName),
    ("payload", match e with
      | .actionCreated e | .actionUpdated e => e.toValue
      | .targetAssigned e | .cancelTargetAssignment e => e.toValue)]

/-- The text of an event. -/
def Event.text (e : Event) : String := e.toValue.compact

/-- An event to be published when a change has been committed. -/
inductive PlannedEvent where
  /-- The action that the change creates at this position was assigned. -/
  | assigned (index : Nat)
  /-- The action was changed. -/
  | updated (actionId : Int)
  /-- The device is to be told to give up the action. -/
  | cancelRequested (actionId : Int)
  deriving DecidableEq

/-- The events that a planned event stands for after the commit; none, if the commit does not know
the action. -/
def PlannedEvent.resolve (c : Committed) : PlannedEvent → List Event
  | assigned i =>
    match c.created[i]? with
    | some a => [.actionCreated a.toEvent, .targetAssigned a.toAssignmentEvent]
    | none => []
  | updated a => (c.action? a).toList.map fun a => .actionUpdated a.toEvent
  | cancelRequested a =>
    (c.action? a).toList.map fun a => .cancelTargetAssignment a.toAssignmentEvent

/-- The events of a committed change, in the order in which they were planned. -/
def Committed.resolve (c : Committed) (planned : List PlannedEvent) : List Event :=
  planned.flatMap (PlannedEvent.resolve c)

end FleetUpdate
