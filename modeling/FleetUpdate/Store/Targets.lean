import FleetUpdate.Store.Basic
import FleetUpdate.Text.Blank

/-!
# Registering, describing and deleting targets

None of these writes is a step in the life cycle of a target, so none touches its revision.  A
contact of the device is noted without a trace in the audit data.  Deleting a target deletes its
actions and their logs.
-/

namespace FleetUpdate.Store

/-- Registers a target.  The controller id must not be blank and not be taken. -/
def createTarget (s : Store) (ctx : Context) (now : Instant) (n : NewTarget) :
    Except StorageError (Target × Store) :=
  if Text.allBlank n.controllerId then .error .controllerRequired
  else if (s.target? ctx.tenantId n.controllerId).isSome then
    .error (.targetExists n.controllerId)
  else
    let t : Target :=
      { tenantId := ctx.tenantId
        controllerId := n.controllerId
        name := n.name
        description := n.description
        assigned := none
        installed := none
        installedAt := none
        updateStatus := .unknown
        lastContact := none
        revision := 1
        audit := Audit.created ctx.userId now }
    .ok (t, { s with targets := s.targets ++ [t] })

/-- The targets with the given controller ids, in the order of the ids; a repeated id counts
again, a missing one does not. -/
def findTargets (s : Store) (ctx : Context) (ids : List String) : List Target :=
  ids.filterMap (s.target? ctx.tenantId)

/-- Applies a function to the row of a target, if there is one. -/
def changeTarget (s : Store) (ctx : Context) (controllerId : String) (f : Target → Target) :
    Option Target × Store :=
  match s.target? ctx.tenantId controllerId with
  | none => (none, s)
  | some t => (some (f t), s.putTarget (f t))

/-- Changes the description of a target. -/
def updateTarget (s : Store) (ctx : Context) (now : Instant) (controllerId : String)
    (d : TargetDescription) : Option Target × Store :=
  s.changeTarget ctx controllerId fun t =>
    { t with
      name := d.name.getD t.name
      description := d.description.or t.description
      audit := t.audit.touch ctx.userId now }

/-- Notes that the device spoke to the server; a target never seen before is registered now. -/
def markContacted (s : Store) (ctx : Context) (controllerId : String) (time : Instant) :
    Option Target × Store :=
  s.changeTarget ctx controllerId fun t =>
    { t with
      lastContact := some time
      updateStatus := if t.updateStatus = .unknown then .registered else t.updateStatus }

/-- Deletes a target with its actions and their logs; says whether there was one. -/
def deleteTarget (s : Store) (ctx : Context) (controllerId : String) : Bool × Store :=
  match s.target? ctx.tenantId controllerId with
  | none => (false, s)
  | some _ =>
    let gone := s.actionsOf ctx.tenantId controllerId
    (true,
      { s with
        targets := s.targets.filter fun t => t.key != (ctx.tenantId, controllerId)
        actions := s.actions.filter fun a =>
          !(a.tenantId == ctx.tenantId && a.controllerId == controllerId)
        log := s.log.filter fun e => !gone.any fun a => a.id == e.actionId })

end FleetUpdate.Store
