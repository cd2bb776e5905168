import FleetUpdate.Deployment.Transition
import FleetUpdate.Lifecycle.Report
import FleetUpdate.Maintenance.Schedule

/-!
# Calls of the management side

Operators cancel, end and force actions, look at actions, logs and windows, and may have the state
of a target computed anew from its history.
-/

namespace FleetUpdate

open Program

/-- Cancels an action. -/
def cancelAction (ctx : Context) (actionId : Int) : Program Action := do
  let a ← loadAction ctx actionId
  let v ← loadView ctx a.controllerId
  let p ← ofExcept (planCancel v a (← recordedNow))
  let u ← commitAction ctx p actionId
  if u.status = .canceled then count .actionsCanceled 1 else count .cancelRequests 1
  log (.actionCanceled ctx.tenantId u.controllerId actionId u.status ctx.userId)
  return u

/-- Ends a canceling action without waiting for its device. -/
def forceQuitAction (ctx : Context) (actionId : Int) : Program Action := do
  let a ← loadAction ctx actionId
  let v ← loadView ctx a.controllerId
  let p ← ofExcept (planForceQuit v a (← recordedNow))
  let u ← commitAction ctx p actionId
  count .forceQuits 1
  count .actionsCanceled 1
  log (.actionForceQuit ctx.tenantId u.controllerId actionId ctx.userId)
  return u

/-- Turns a soft action into a forced one; any other is returned as it is. -/
def forceAction (ctx : Context) (actionId : Int) : Program Action := do
  let a ← loadAction ctx actionId
  let v ← loadView ctx a.controllerId
  match planForce v a with
  | none => return a
  | some p =>
    let u ← commitAction ctx p actionId
    log (.actionForced ctx.tenantId u.controllerId actionId)
    return u

/-- Looks up an action. -/
def findAction (ctx : Context) (actionId : Int) : Program (Option Action) :=
  request ctx (.findAction actionId)

/-- The actions of a target, youngest first. -/
def findActions (ctx : Context) (controllerId : String) : Program (List Action) :=
  request ctx (.findActions controllerId)

/-- The active actions of a target, oldest first. -/
def findActiveActions (ctx : Context) (controllerId : String) : Program (List Action) :=
  request ctx (.findActive controllerId)

/-- The actions of a target that have ended, youngest first. -/
def findInactiveActions (ctx : Context) (controllerId : String) : Program (List Action) := do
  return (← findActions ctx controllerId).filter fun a => !a.active

/-- The actions of a target for a list, youngest first. -/
def findActionSummaries (ctx : Context) (controllerId : String) : Program (List ActionSummary) :=
  request ctx (.findSummaries controllerId)

/-- The log of an action, which must exist. -/
def findActionLog (ctx : Context) (actionId : Int) : Program (List StatusEntry) := do
  let _ ← loadAction ctx actionId
  request ctx (.findLog actionId)

/-- An action with all that it refers to. -/
structure ActionDetails where
  action : Action
  set : DistributionSet
  target : Target
  /-- The distribution set that the target is driven to now. -/
  assignedSet : Option DistributionSet
  deriving DecidableEq

/-- Looks up an action with all that it refers to. -/
def findActionDetails (ctx : Context) (actionId : Int) : Program ActionDetails := do
  let a ← loadAction ctx actionId
  let t ← require .target a.controllerId (← request ctx (.findTarget a.controllerId))
  let sets ← request ctx (.findSets (a.setId :: t.assigned.toList))
  let find (setId : Int) : Option DistributionSet := sets.find? fun d => d.id == setId
  let d ← require .distributionSet (toString a.setId) (find a.setId)
  return ⟨a, d, t, t.assigned.bind find⟩

/-- Whether the device may carry out an action at an instant. -/
def isActionAvailable (ctx : Context) (actionId : Int) (time : Instant) : Program Bool := do
  let a ← loadAction ctx actionId
  match isWindowAvailable a.maintenance time with
  | .ok b => return b
  | .error e => fail e.toDeployment

/-- The current or next window of an action, with the schedule that it belongs to. -/
def actionWindow (ctx : Context) (actionId : Int) (time : Instant) :
    Program (Option (Schedule × Window)) := do
  let a ← loadAction ctx actionId
  match a.maintenance with
  | none => return none
  | some spec =>
    match Schedule.ofSpec spec with
    | .ok s => return (s.currentOrNext time).map fun w => (s, w)
    | .error e => fail e.toDeployment

/-- Computes the update state of a target from its history, and stores it if it differs. -/
def recalculateStatus (ctx : Context) (controllerId : String) : Program Target := do
  let v ← loadView ctx controllerId
  let ended ← request ctx (.findLastEnded controllerId)
  let t := v.target
  let status := deriveUpdateStatus (!v.active.isEmpty) ended t.assigned t.installed
    t.lastContact.isSome
  if status = t.updateStatus then return t
  else
    let change : TargetChange :=
      { TargetChange.ofTarget t with
        targetState := some { t.state with updateStatus := status } }
    let c ← commitPlan ctx ⟨change, []⟩
    log (.statusRecalculated ctx.tenantId controllerId status)
    return c.target

end FleetUpdate
