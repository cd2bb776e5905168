import FleetUpdate.Action
import FleetUpdate.Target

/-!
# Changes of one target

All life-cycle writes have one form: a change of a single target, with the actions it creates, the
actions it updates and the log entries it appends.  A change names the revisions it was planned
on; the store commits it as a whole or not at all.
-/

namespace FleetUpdate

/-- An update of the state of an existing action. -/
structure ActionUpdate where
  actionId : Int
  expectedRevision : Int
  status : ActionStatus
  active : Bool
  actionType : ActionType
  lastCode : Option Int
  deriving DecidableEq

/-- The action a log entry belongs to. -/
inductive ActionRef where
  | existing (actionId : Int)
  /-- The action that the same change creates at this position. -/
  | created (index : Nat)
  deriving DecidableEq

/-- A log entry to append. -/
structure NewStatusEntry where
  action : ActionRef
  status : ActionStatus
  time : Instant
  messages : List String
  code : Option Int
  deriving DecidableEq

/-- A change of one target. -/
structure TargetChange where
  controllerId : String
  expectedRevision : Int
  targetState : Option TargetState
  newActions : List NewAction
  actionUpdates : List ActionUpdate
  entries : List NewStatusEntry
  deriving DecidableEq

/-- The change that says nothing but which target and revision it is about. -/
def TargetChange.ofTarget (t : Target) : TargetChange :=
  ⟨t.controllerId, t.revision, none, [], [], []⟩

/-- What a committed change left behind: the target, the created actions in the order of the
change, and after each update the action it wrote. -/
structure Committed where
  target : Target
  created : List Action
  updated : List Action
  deriving DecidableEq

/-- The first action with this id among those created and then those updated. -/
def Committed.action? (c : Committed) (actionId : Int) : Option Action :=
  (c.created ++ c.updated).find? fun a => a.id == actionId

end FleetUpdate
