import FleetUpdate.Lifecycle.Cancel

/-!
# Planning reports, confirmations and forcing

A device reports the progress of an active action that does not wait for a confirmation.  A report
of success or failure ends the action, and so does a finished download where no more was asked for.
While the action is canceling, a report of progress goes into the log only, and an answer to the
cancellation is treated as such.
-/

namespace FleetUpdate

/-- How a report ends an action of a type, if it does. -/
def StatusReport.termination? (r : StatusReport) (t : ActionType) : Option Termination :=
  match r.status with
  | .finished => some (.finished r.time)
  | .error => some .failed
  | .downloaded => if t = .downloadOnly then some .released else none
  | _ => none

/-- The plan for what a device reports of an action; the log matters only for the answer to a
cancellation. -/
def planStatusUpdate (v : TargetView) (a : Action) (r : StatusReport) (log : List StatusEntry) :
    Except DeploymentError Plan :=
  let invalid : Except DeploymentError Plan := .error (.invalidTransition a.id a.status r.status)
  if !a.active ∨ a.status = .waitForConfirmation ∨ !r.status.isDeviceReportable then invalid
  else if r.status = .canceled ∨ r.status = .cancelRejected then
    if a.status ≠ .canceling then invalid else planCancelFeedback v a r log
  else
    let write (status : ActionStatus) (active : Bool) (state : Option TargetState) : Plan :=
      .ofUpdate v { a.moveTo status active with lastCode := r.codeOver a } [r.entry a] state []
    match r.termination? a.actionType with
    | some t => .ok (write r.status false (some (v.stateAfter a r.status t)))
    | none => .ok (write (if a.status = .canceling then .canceling else r.status) true none)

/-- An action that waits for a confirmation can be confirmed or denied, no other. -/
def ensureWaiting (a : Action) (goal : ActionStatus) : Except DeploymentError Unit :=
  if !a.active then .error (.actionNotActive a.id)
  else if a.status ≠ .waitForConfirmation then .error (.invalidTransition a.id a.status goal)
  else .ok ()

/-- The plan to confirm an action, which then runs. -/
def planConfirm (v : TargetView) (a : Action) (messages : List String) (now : Instant) :
    Except DeploymentError Plan := do
  ensureWaiting a .running
  .ok (.ofUpdate v (a.moveTo .running true)
    [a.entry .running now ("assignment confirmed" :: messages) none] none [])

/-- The plan to deny an action, which goes on waiting. -/
def planDeny (v : TargetView) (a : Action) (messages : List String) (now : Instant) :
    Except DeploymentError Plan := do
  ensureWaiting a .waitForConfirmation
  .ok (.ofUpdate v (a.moveTo .waitForConfirmation true)
    [a.entry .waitForConfirmation now ("assignment denied" :: messages) none] none [])

/-- The plan to force a soft action; nothing is to be done for any other. -/
def planForce (v : TargetView) (a : Action) : Option Plan :=
  if a.active ∧ a.actionType = .soft then
    some (.ofUpdate v { a.moveTo a.status true with actionType := .forced } [] none [])
  else none

end FleetUpdate
