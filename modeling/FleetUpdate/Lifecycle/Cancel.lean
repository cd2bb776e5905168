import FleetUpdate.Error
import FleetUpdate.Lifecycle.Plan

/-!
# Planning cancellations

A cancellation takes effect at once if the device has not fetched the action; otherwise the device
is asked to stop, and the action is canceling until the device answers.  The device may agree,
refuse, fail or go on reporting; only an agreement ends the action.  A canceling action can be ended
by force without the device.
-/

namespace FleetUpdate

/-- The plan to cancel an action. -/
def planCancel (v : TargetView) (a : Action) (now : Instant) : Except DeploymentError Plan :=
  if !a.active then .error (.cancelNotAllowed a.id "action is not active")
  else if a.status = .canceling then
    .error (.cancelNotAllowed a.id "cancellation already requested")
  else if a.status.isUndispatched then
    .ok (.ofUpdate v (a.moveTo .canceled false)
      [a.entry .canceled now ["canceled before dispatch"] none]
      (some (v.stateAfter a .canceled .released)) [])
  else
    .ok (.ofUpdate v (a.moveTo .canceling true)
      [a.entry .canceling now ["cancel requested"] none] none [.cancelRequested a.id])

/-- The plan to end a canceling action without its device. -/
def planForceQuit (v : TargetView) (a : Action) (now : Instant) : Except DeploymentError Plan :=
  if !a.active ∨ a.status ≠ .canceling then .error (.forceQuitNotAllowed a.id a.status)
  else
    .ok (.ofUpdate v (a.moveTo .canceled false)
      [a.entry .canceled now ["canceled by force quit"] none]
      (some (v.stateAfter a .canceled .released)) [])

/-- A status in a log that an action does not return to when its cancellation is refused. -/
def ActionStatus.isPassing : ActionStatus → Bool
  | .canceling | .cancelRejected | .warning | .canceled => true
  | _ => false

/-- The status that an action returns to when its cancellation is refused: the last one in its log
that it can return to, and running if there is none. -/
def statusBeforeCanceling (log : List StatusEntry) : ActionStatus :=
  ((log.reverse.map fun e => e.status).find? fun s => !s.isPassing).getD .running

/-- The plan for what a device reports of the cancellation it was asked for. -/
def planCancelFeedback (v : TargetView) (a : Action) (r : StatusReport) (log : List StatusEntry) :
    Except DeploymentError Plan :=
  if !a.active ∨ a.status ≠ .canceling then .error (.invalidTransition a.id a.status r.status)
  else
    let write (status : ActionStatus) (active : Bool) (state : Option TargetState) : Plan :=
      .ofUpdate v { a.moveTo status active with lastCode := r.codeOver a } [r.entry a] state []
    match r.status with
    | .canceled => .ok (write .canceled false (some (v.stateAfter a .canceled .released)))
    | .cancelRejected | .error => .ok (write (statusBeforeCanceling log) true none)
    | _ => .ok (write .canceling true none)

end FleetUpdate
