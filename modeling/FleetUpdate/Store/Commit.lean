import FleetUpdate.Change
import FleetUpdate.Store.Basic

/-!
# Committing changes

A change is checked against the store as it is, and then written: the new actions, the updated
actions, the log entries, and the target, whose revision always grows.  The checks are the target's
revision, the distribution sets of the new actions, the owner and the revision of each updated
action, and the owner of each log entry; the first one that fails decides the error, and nothing is
written then.  Each change of a list is checked against what the changes before it left.
-/

namespace FleetUpdate.Store

/-- The action with an id, if it belongs to the target. -/
def ownedAction (s : Store) (ctx : Context) (controllerId : String) (actionId : Int) :
    Except StorageError Action :=
  match (s.action? ctx.tenantId actionId).filter fun a => a.controllerId == controllerId with
  | some a => .ok a
  | none => .error (.actionNotOfTarget actionId controllerId)

/-- Checks a new action. -/
def checkNew (s : Store) (ctx : Context) (n : NewAction) : Except StorageError Unit :=
  if (s.set? ctx.tenantId n.setId).isSome then .ok () else .error (.setMissing n.setId)

/-- Checks an update. -/
def checkUpdate (s : Store) (ctx : Context) (controllerId : String) (u : ActionUpdate) :
    Except StorageError Unit := do
  let a ← s.ownedAction ctx controllerId u.actionId
  if a.revision = u.expectedRevision then .ok ()
  else .error (.actionModified u.actionId u.expectedRevision a.revision)

/-- Checks a log entry of a change that creates `created` actions. -/
def checkEntry (s : Store) (ctx : Context) (controllerId : String) (created : Nat)
    (e : NewStatusEntry) : Except StorageError Unit :=
  match e.action with
  | .existing a => (s.ownedAction ctx controllerId a).map fun _ => ()
  | .created i => if i < created then .ok () else .error (.entryUnowned i)

/-- Checks a change. -/
def checkChange (s : Store) (ctx : Context) (c : TargetChange) : Except StorageError Unit := do
  match s.target? ctx.tenantId c.controllerId with
  | none => .error (.targetMissing c.controllerId)
  | some t =>
    if t.revision ≠ c.expectedRevision then
      .error (.targetModified c.controllerId c.expectedRevision t.revision)
    else
      c.newActions.forM (s.checkNew ctx)
      c.actionUpdates.forM (s.checkUpdate ctx c.controllerId)
      c.entries.forM (s.checkEntry ctx c.controllerId c.newActions.length)

/-- Creates an action. -/
def createAction (s : Store) (ctx : Context) (now : Instant) (controllerId : String)
    (n : NewAction) : Action × Store :=
  let a : Action :=
    { tenantId := ctx.tenantId
      id := s.lastActionId + 1
      controllerId := controllerId
      setId := n.setId
      active := true
      status := n.status
      actionType := n.actionType
      forcedTime := n.forcedTime
      weight := n.weight
      maintenance := n.maintenance
      lastCode := none
      rolloutId := n.rolloutId
      rolloutGroupId := n.rolloutGroupId
      initiatedBy := n.initiatedBy
      revision := 1
      audit := Audit.created ctx.userId now }
  (a, { s with actions := s.actions ++ [a], lastActionId := a.id })

/-- Creates actions in order. -/
def createActions (s : Store) (ctx : Context) (now : Instant) (controllerId : String) :
    List NewAction → List Action × Store
  | [] => ([], s)
  | n :: ns =>
    let (a, s) := s.createAction ctx now controllerId n
    let (as, s) := s.createActions ctx now controllerId ns
    (a :: as, s)

/-- Updates an action; its revision grows. -/
def updateAction (s : Store) (ctx : Context) (now : Instant) (u : ActionUpdate) :
    Except StorageError (Action × Store) :=
  match s.actionById? u.actionId with
  | none => .error (.actionMissing u.actionId)
  | some a =>
    let a' : Action :=
      { a with
        status := u.status
        active := u.active
        actionType := u.actionType
        lastCode := u.lastCode
        revision := a.revision + 1
        audit := a.audit.touch ctx.userId now }
    .ok (a', s.putAction a')

/-- Updates actions in order. -/
def updateActions (s : Store) (ctx : Context) (now : Instant) :
    List ActionUpdate → Except StorageError (List Action × Store)
  | [] => .ok ([], s)
  | u :: us => do
    let (a, s) ← s.updateAction ctx now u
    let (as, s) ← s.updateActions ctx now us
    .ok (a :: as, s)

/-- The id of the action that a log entry belongs to. -/
def entryOwner (created : List Action) : ActionRef → Except StorageError Int
  | .existing a => .ok a
  | .created i =>
    match created[i]? with
    | some a => .ok a.id
    | none => .error .entryUnresolved

/-- Appends a log entry. -/
def appendEntry (s : Store) (ctx : Context) (created : List Action) (n : NewStatusEntry) :
    Except StorageError Store := do
  let owner ← entryOwner created n.action
  let e : StatusEntry :=
    { tenantId := ctx.tenantId
      id := s.lastEntryId + 1
      actionId := owner
      status := n.status
      time := n.time
      messages := n.messages
      code := n.code }
  .ok { s with log := s.log ++ [e], lastEntryId := e.id }

/-- Appends log entries in order. -/
def appendEntries (s : Store) (ctx : Context) (created : List Action) :
    List NewStatusEntry → Except StorageError Store
  | [] => .ok s
  | n :: ns => do
    let s ← s.appendEntry ctx created n
    s.appendEntries ctx created ns

/-- Writes the state of a target; its revision grows. -/
def advanceTarget (s : Store) (ctx : Context) (now : Instant) (controllerId : String)
    (state : Option TargetState) : Except StorageError (Target × Store) :=
  match s.target? ctx.tenantId controllerId with
  | none => .error (.targetMissing controllerId)
  | some t =>
    let t' : Target :=
      { t.withState (state.getD t.state) with
        revision := t.revision + 1
        audit := t.audit.touch ctx.userId now }
    .ok (t', s.putTarget t')

/-- Writes a change. -/
def writeChange (s : Store) (ctx : Context) (now : Instant) (c : TargetChange) :
    Except StorageError (Committed × Store) := do
  -- log entries may name the new actions, so these get their ids first
  let (created, s) := s.createActions ctx now c.controllerId c.newActions
  let (updated, s) ← s.updateActions ctx now c.actionUpdates
  let s ← s.appendEntries ctx created c.entries
  let (target, s) ← s.advanceTarget ctx now c.controllerId c.targetState
  .ok (⟨target, created, updated⟩, s)

/-- Checks and writes a change. -/
def commit (s : Store) (ctx : Context) (now : Instant) (c : TargetChange) :
    Except StorageError Committed × Store :=
  match s.checkChange ctx c with
  | .error e => (.error e, s)
  | .ok () =>
    match s.writeChange ctx now c with
    | .error e => (.error e, s)
    | .ok (r, s') => (.ok r, s')

/-- Commits changes one after the other; a refused change does not stop the others. -/
def commitAll (s : Store) (ctx : Context) (now : Instant) :
    List TargetChange → List (Except StorageError Committed) × Store
  | [] => ([], s)
  | c :: cs =>
    let (r, s) := s.commit ctx now c
    let (rs, s) := s.commitAll ctx now cs
    (r :: rs, s)

end FleetUpdate.Store
