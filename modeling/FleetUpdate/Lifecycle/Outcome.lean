import FleetUpdate.Action
import FleetUpdate.Order
import FleetUpdate.Target

/-!
# How actions decide the state of their target

The update state of a target follows from whether it has active actions, from the action that ended
last, from its two distribution sets, and from whether its device was ever seen.  When an action
ends, the state is brought up to date from these.
-/

namespace FleetUpdate

/-- The action only had to download, and did. -/
def Action.isDownloadDone (a : Action) : Bool :=
  a.actionType == .downloadOnly && a.status == .downloaded

/-- The update state of a target. -/
def deriveUpdateStatus (hasActive : Bool) (lastEnded : Option Action)
    (assigned installed : Option Int) (contacted : Bool) : UpdateStatus :=
  if hasActive then .pending
  else if lastEnded.any fun a => a.status == .error then .error
  else if lastEnded.any Action.isDownloadDone then .inSync
  else if assigned.isSome && assigned == installed then .inSync
  else if contacted then .registered
  else .unknown

/-- The distribution set that a target falls back to when the one it was driven to is given up: that
of the youngest action still active, else the installed one. -/
def fallbackSet (remaining : List Action) (installed : Option Int) : Option Int :=
  ((greatest? (fun a b : Action => decide (a.id ≤ b.id)) remaining).map fun a => a.setId).or
    installed

/-- How an action ends. -/
inductive Termination where
  /-- Its distribution set is installed. -/
  | finished (time : Instant)
  /-- It failed; the target keeps what it should have. -/
  | failed
  /-- It was given up, or had only to download; the target falls back. -/
  | released
  deriving DecidableEq

/-- The state of a target after `ended` has ended, while `remaining` are still active. -/
def Target.stateAfter (t : Target) (ended : Action) (remaining : List Action)
    (termination : Termination) : TargetState :=
  let s : TargetState :=
    match termination with
    | .finished time => { t.state with installed := some ended.setId, installedAt := some time }
    | .failed => t.state
    | .released => { t.state with assigned := fallbackSet remaining t.installed }
  { s with
    updateStatus :=
      deriveUpdateStatus (!remaining.isEmpty) (some ended) s.assigned s.installed
        t.lastContact.isSome }

end FleetUpdate
