import FleetUpdate.Action
import FleetUpdate.DistributionSet
import FleetUpdate.Store.Error
import FleetUpdate.Target

/-!
# The store

Four tables and three counters hold everything there is.  Rows are kept in the order in which they
were created, so actions and log entries stand in ascending order of their ids.  The log of an
action is the part of the log table that names it.  Ids are counted up and never used again.

Every lookup of a caller names the tenant; the lookups here that do not, by id alone, serve the
store itself.
-/

namespace FleetUpdate

/-- The tables of the store, and the last id given out for each kind of row. -/
structure Store where
  targets : List Target
  sets : List DistributionSet
  actions : List Action
  log : List StatusEntry
  lastSetId : Int
  lastActionId : Int
  lastEntryId : Int
  deriving DecidableEq

namespace Store

/-- A store with no rows. -/
def empty : Store := ⟨[], [], [], [], 0, 0, 0⟩

/-- The target of a tenant with a controller id. -/
def target? (s : Store) (tenantId controllerId : String) : Option Target :=
  s.targets.find? fun t => t.key == (tenantId, controllerId)

/-- The distribution set with an id, whoever it belongs to. -/
def setById? (s : Store) (setId : Int) : Option DistributionSet :=
  s.sets.find? fun d => d.id == setId

/-- The distribution set of a tenant with an id. -/
def set? (s : Store) (tenantId : String) (setId : Int) : Option DistributionSet :=
  (s.setById? setId).filter fun d => d.tenantId == tenantId

/-- The action with an id, whoever it belongs to. -/
def actionById? (s : Store) (actionId : Int) : Option Action :=
  s.actions.find? fun a => a.id == actionId

/-- The action of a tenant with an id. -/
def action? (s : Store) (tenantId : String) (actionId : Int) : Option Action :=
  (s.actionById? actionId).filter fun a => a.tenantId == tenantId

/-- The actions of a target, in ascending order of their ids. -/
def actionsOf (s : Store) (tenantId controllerId : String) : List Action :=
  s.actions.filter fun a => a.tenantId == tenantId && a.controllerId == controllerId

/-- The log of an action, oldest entry first. -/
def logOf (s : Store) (actionId : Int) : List StatusEntry :=
  s.log.filter fun e => e.actionId == actionId

/-- Some action, of whichever tenant, brings the distribution set. -/
def isReferenced (s : Store) (setId : Int) : Bool :=
  s.actions.any fun a => a.setId == setId

/-- Replaces the row of a target. -/
def putTarget (s : Store) (t : Target) : Store :=
  { s with targets := s.targets.map fun u => if u.key = t.key then t else u }

/-- Replaces the row of a distribution set. -/
def putSet (s : Store) (d : DistributionSet) : Store :=
  { s with sets := s.sets.map fun u => if u.id = d.id then d else u }

/-- Replaces the row of an action. -/
def putAction (s : Store) (a : Action) : Store :=
  { s with actions := s.actions.map fun u => if u.id = a.id then a else u }

end Store

end FleetUpdate
