import FleetUpdate.Lifecycle.Plan
import FleetUpdate.Policy

/-!
# Planning an assignment

A new action supersedes every other active action of its target.  In the immediate mode each of
them is canceled.  In the graceful mode those that the device has fetched are asked to stop, unless
they have been asked already, and only the others are canceled.
-/

namespace FleetUpdate

/-- The status in which a new action starts. -/
def initialStatus (confirmationRequired : Bool) : ActionStatus :=
  if confirmationRequired then .waitForConfirmation else .scheduled

/-- What becomes of a superseded action: its status, whether it stays active, and the remark in its
log; nothing if it has been asked to stop before. -/
def supersession (mode : SupersedeMode) (status : ActionStatus) :
    Option (ActionStatus × Bool × String) :=
  if mode = .immediate ∨ status.isUndispatched then
    some (.canceled, false, "canceled by new assignment")
  else if status ≠ .canceling then
    some (.canceling, true, "cancel requested by new assignment")
  else none

/-- The active actions that a new assignment changes, with what becomes of each. -/
def TargetView.superseded (v : TargetView) (mode : SupersedeMode) :
    List (Action × ActionStatus × Bool × String) :=
  v.active.filterMap fun a => (supersession mode a.status).map fun s => (a, s)

/-- The plan to assign a new action to a target. -/
def planAssignment (v : TargetView) (n : NewAction) (mode : SupersedeMode) (now : Instant) :
    Plan :=
  let old := v.superseded mode
  { change :=
      { TargetChange.ofTarget v.target with
        targetState :=
          some { v.target.state with assigned := some n.setId, updateStatus := .pending }
        newActions := [n]
        actionUpdates := old.map fun (a, status, active, _) => a.moveTo status active
        entries :=
          (old.map fun (a, status, _, remark) => a.entry status now [remark] none) ++
            [⟨.created 0, n.status, now, [], none⟩] }
    events :=
      (old.flatMap fun (a, _) => [.updated a.id, .cancelRequested a.id]) ++ [.assigned 0] }

end FleetUpdate
