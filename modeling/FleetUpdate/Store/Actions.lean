import FleetUpdate.Order
import FleetUpdate.Store.Basic

/-!
# Looking up actions and logs

All lookups stay within the tenant of the caller, but for the name of a distribution set in a
summary, which is found by its id alone.
-/

namespace FleetUpdate.Store

/-- The active actions of a target, in ascending order of their ids. -/
def activeOf (s : Store) (tenantId controllerId : String) : List Action :=
  (s.actionsOf tenantId controllerId).filter fun a => a.active

/-- The active actions of several targets, in ascending order of their ids. -/
def activeOfAll (s : Store) (tenantId : String) (ids : List String) : List Action :=
  s.actions.filter fun a => a.active && a.tenantId == tenantId && ids.contains a.controllerId

/-- How many actions each of the targets has, for those that have any. -/
def countsOf (s : Store) (tenantId : String) (ids : List String) : List (String × Nat) :=
  ids.eraseDups.filterMap fun c =>
    let n := (s.actionsOf tenantId c).length
    if n = 0 then none else some (c, n)

/-- An action with the name of its distribution set and the length of its log. -/
def summarize (s : Store) (a : Action) : ActionSummary :=
  { action := a
    setName := ((s.setById? a.setId).map fun d => d.name).getD ""
    setVersion := ((s.setById? a.setId).map fun d => d.version).getD ""
    logLength := (s.logOf a.id).length }

/-- The log of an action of the tenant; no other action has one for the caller. -/
def findLog (s : Store) (tenantId : String) (actionId : Int) : List StatusEntry :=
  match s.action? tenantId actionId with
  | none => []
  | some _ => s.logOf actionId

/-- The order in which actions ended: by the time of their last change, then by their id. -/
def endedNoLater (a b : Action) : Bool :=
  decide (a.audit.lastModifiedAt < b.audit.lastModifiedAt) ||
    (decide (a.audit.lastModifiedAt = b.audit.lastModifiedAt) && decide (a.id ≤ b.id))

/-- The action of a target that ended last. -/
def lastEnded (s : Store) (tenantId controllerId : String) : Option Action :=
  greatest? endedNoLater ((s.actionsOf tenantId controllerId).filter fun a => !a.active)

end FleetUpdate.Store
