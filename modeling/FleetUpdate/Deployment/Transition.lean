import FleetUpdate.Lifecycle.Plan
import FleetUpdate.Program

/-!
# Loading and committing one target

A transition of one action loads the action, its target and the active actions of the target, in
three requests; plans; and commits the plan in a fourth.  Others may come in between: the revisions
in the plan make the store refuse a change that was planned on data that is no longer there.
Events are published after the commit, and only then.
-/

namespace FleetUpdate

open Program

/-- Loads an action. -/
def loadAction (ctx : Context) (actionId : Int) : Program Action := do
  require .action (toString actionId) (← request ctx (.findAction actionId))

/-- Loads a target with its active actions. -/
def loadView (ctx : Context) (controllerId : String) : Program TargetView := do
  let t ← require .target controllerId (← request ctx (.findTarget controllerId))
  let actions ← request ctx (.findActive controllerId)
  return TargetView.ofActions t actions

/-- Commits a plan and publishes its events. -/
def commitPlan (ctx : Context) (p : Plan) : Program Committed := do
  match (← request ctx (.applyChanges [p.change])) with
  | [] => fail StorageError.emptyCommit.toDeployment
  | .error e :: _ =>
    if e.isConflict then
      count .optimisticConflicts 1
      log (.changeConflict ctx.tenantId p.change.controllerId e.message)
    fail e.toDeployment
  | .ok c :: _ =>
    publish (c.resolve p.events)
    return c

/-- Commits a plan and returns one of the actions that it touched. -/
def commitAction (ctx : Context) (p : Plan) (actionId : Int) : Program Action := do
  let c ← commitPlan ctx p
  require .action (toString actionId) (c.action? actionId)

end FleetUpdate
