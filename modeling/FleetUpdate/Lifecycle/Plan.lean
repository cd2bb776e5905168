import FleetUpdate.Event.Basic
import FleetUpdate.Lifecycle.Outcome

/-!
# Plans

A transition is planned from a view of one target, without any effect, and gives a change to commit
and the events to publish when it has been committed.  What is planned here are the parts that all
transitions share: the update of an action, a log entry, the state of a target that an ending
action leaves behind.
-/

namespace FleetUpdate

/-- A target and its active actions, in ascending order of their ids. -/
structure TargetView where
  target : Target
  active : List Action
  deriving DecidableEq

/-- The view of a target, given some of its actions in any order. -/
def TargetView.ofActions (t : Target) (actions : List Action) : TargetView :=
  ⟨t, (actions.filter fun a => a.active).mergeSort fun a b => decide (a.id ≤ b.id)⟩

/-- The active actions but the given one. -/
def TargetView.others (v : TargetView) (actionId : Int) : List Action :=
  v.active.filter fun a => a.id != actionId

/-- The state that a target is left in by an action that ends in a status. -/
def TargetView.stateAfter (v : TargetView) (a : Action) (status : ActionStatus)
    (termination : Termination) : TargetState :=
  v.target.stateAfter { a with status := status, active := false } (v.others a.id) termination

/-- A change to commit, and the events to publish then. -/
structure Plan where
  change : TargetChange
  events : List PlannedEvent
  deriving DecidableEq

/-- How many existing actions a plan updates. -/
def Plan.updateCount (p : Plan) : Nat := p.change.actionUpdates.length

/-- The update that moves an action to a status, with all else kept. -/
def Action.moveTo (a : Action) (status : ActionStatus) (active : Bool) : ActionUpdate :=
  ⟨a.id, a.revision, status, active, a.actionType, a.lastCode⟩

/-- A log entry for an action. -/
def Action.entry (a : Action) (status : ActionStatus) (time : Instant) (messages : List String)
    (code : Option Int) : NewStatusEntry :=
  ⟨.existing a.id, status, time, messages, code⟩

/-- A plan that updates one action. -/
def Plan.ofUpdate (v : TargetView) (u : ActionUpdate) (entries : List NewStatusEntry)
    (state : Option TargetState) (more : List PlannedEvent) : Plan :=
  ⟨{ TargetChange.ofTarget v.target with
      targetState := state
      actionUpdates := [u]
      entries := entries },
    .updated u.actionId :: more⟩

/-- What a device, or someone on its behalf, reports of an action. -/
structure StatusReport where
  status : ActionStatus
  messages : List String
  code : Option Int
  time : Instant
  deriving DecidableEq

/-- The code that an action has after a report: a report without one leaves the code as it is. -/
def StatusReport.codeOver (r : StatusReport) (a : Action) : Option Int := r.code.or a.lastCode

/-- The log entry of a report, which keeps it as it was made. -/
def StatusReport.entry (r : StatusReport) (a : Action) : NewStatusEntry :=
  a.entry r.status r.time r.messages r.code

end FleetUpdate
