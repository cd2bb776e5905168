import FleetUpdate.Deployment.Transition
import FleetUpdate.Lifecycle.Assign
import FleetUpdate.Maintenance.Schedule

/-!
# Assigning a distribution set

An assignment brings one distribution set to many targets.  The request as a whole is checked first,
and nothing is touched when it is refused.  Then each target stands for itself: targets are read and
committed in batches, and what happens to one of them does not concern the others.  Only a store
that does not work ends the assignment early, and what has been committed by then stays.
-/

namespace FleetUpdate

open Program

/-- What is assigned to whom, and how. -/
structure AssignmentRequest where
  setId : Int
  actionType : ActionType
  forcedTime : Option Instant
  weight : Option Int
  maintenance : Option MaintenanceSpec
  confirmationRequired : Bool
  rolloutId : Option Int
  rolloutGroupId : Option Int
  controllerIds : List String
  deriving DecidableEq

/-- A forced assignment with no more conditions. -/
def AssignmentRequest.forced (setId : Int) (controllerIds : List String) : AssignmentRequest :=
  ⟨setId, .forced, none, none, none, false, none, none, controllerIds⟩

/-- The action that an assignment creates for each target. -/
def AssignmentRequest.newAction (r : AssignmentRequest) (ctx : Context) : NewAction :=
  ⟨r.setId, initialStatus r.confirmationRequired, r.actionType, r.forcedTime, r.weight,
    r.maintenance, r.rolloutId, r.rolloutGroupId, ctx.userId⟩

/-- Why a target was left out. -/
inductive AssignmentFailure where
  | notFound
  | quotaExceeded
  /-- Somebody else changed the target in between; it may be asked for again. -/
  | conflict
  | rejected (message : String)
  deriving DecidableEq

/-- The failure of a target whose change the store refused. -/
def AssignmentFailure.ofError (e : StorageError) : AssignmentFailure :=
  match e.kind with
  | .conflict => .conflict
  | .notFound => .notFound
  | .invalid | .backend => .rejected e.message

/-- What an assignment has done, target by target. -/
structure AssignmentResult where
  assigned : Nat
  alreadyAssigned : Nat
  actionIds : List Int
  assignedTargets : List String
  alreadyAssignedTargets : List String
  failed : List (String × AssignmentFailure)
  /-- How many different targets were asked for. -/
  total : Nat
  deriving DecidableEq

namespace AssignmentResult

/-- The result before any target has been looked at. -/
def start (total : Nat) : AssignmentResult := ⟨0, 0, [], [], [], [], total⟩

/-- A target was left out. -/
def fail (r : AssignmentResult) (controllerId : String) (f : AssignmentFailure) :
    AssignmentResult :=
  { r with failed := r.failed ++ [(controllerId, f)] }

/-- A target has the distribution set already. -/
def skip (r : AssignmentResult) (controllerId : String) : AssignmentResult :=
  { r with
    alreadyAssigned := r.alreadyAssigned + 1
    alreadyAssignedTargets := r.alreadyAssignedTargets ++ [controllerId] }

/-- A target was assigned by a committed change. -/
def assign (r : AssignmentResult) (controllerId : String) (c : Committed) : AssignmentResult :=
  { r with
    assigned := r.assigned + 1
    assignedTargets := r.assignedTargets ++ [controllerId]
    actionIds := r.actionIds ++ c.created.map fun a => a.id }

end AssignmentResult

/-- The bounds of a weight. -/
def weightMin : Int := 0
def weightMax : Int := 1000

/-- Checks the weight of a request. -/
def checkWeight (p : Policy) : Option Int → Except DeploymentError Unit
  | some w =>
    if weightMin ≤ w ∧ w ≤ weightMax then .ok ()
    else .error (.invalidWeight (toString w ++ " is outside [" ++ toString weightMin ++ ", " ++
      toString weightMax ++ "]"))
  | none => if p.weightRequired then .error (.invalidWeight "weight is required") else .ok ()

/-- Checks that a request with a forced time has one. -/
def checkForcedTime (r : AssignmentRequest) : Except DeploymentError Unit :=
  if r.actionType = .timeForced ∧ r.forcedTime.all (· ≤ 0) then
    .error (.invalidRequest "TIMEFORCED assignment requires a forced time")
  else .ok ()

/-- Checks the maintenance window of a request by the clock. -/
def checkMaintenance (r : AssignmentRequest) : Program Unit := do
  match r.maintenance with
  | none => return ()
  | some spec =>
    let t ← now
    match validateWindow spec t with
    | .ok _ => return ()
    | .error e => fail e.toDeployment

/-- Checks a request as a whole. -/
def checkRequest (ctx : Context) (p : Policy) (r : AssignmentRequest) : Program Unit := do
  let d ← require .distributionSet (toString r.setId) (← request ctx (.findSet r.setId))
  if d.deleted then fail (.setDeleted d.id)
  else if !d.complete then
    log (.setIncomplete ctx.tenantId d.id)
    fail (.setIncomplete d.id)
  else
    ofExcept (checkWeight p r.weight)
    ofExcept (checkForcedTime r)
    checkMaintenance r

/-- What a batch has read of its targets. -/
structure BatchView where
  targets : List Target
  active : List Action
  counts : List (String × Nat)

/-- Reads what a batch needs of its targets; without a limit their actions are not counted. -/
def readBatch (ctx : Context) (p : Policy) (ids : List String) : Program BatchView := do
  let targets ← request ctx (.findTargets ids)
  let active ← request ctx (.findActiveOfAll ids)
  let counts ← if 0 < p.maxActions then request ctx (.countActions ids) else pure []
  return ⟨targets, active, counts⟩

/-- The target that was read last under a controller id. -/
def BatchView.target? (b : BatchView) (controllerId : String) : Option Target :=
  b.targets.reverse.find? fun t => t.controllerId == controllerId

/-- The actions of a target that were read. -/
def BatchView.activeOf (b : BatchView) (controllerId : String) : List Action :=
  b.active.filter fun a => a.controllerId == controllerId

/-- How many actions a target has. -/
def BatchView.count (b : BatchView) (controllerId : String) : Nat :=
  (b.counts.lookup controllerId).getD 0

/-- What is to be done about one target. -/
inductive Decision where
  | left (f : AssignmentFailure)
  | already
  | change (p : Plan)

/-- Decides about a target from what was read of it: whether it is there, has the distribution set
already, or has as many actions as it may have. -/
def decideTarget (ctx : Context) (p : Policy) (r : AssignmentRequest) (b : BatchView)
    (now : Instant) (controllerId : String) : Decision :=
  match b.target? controllerId with
  | none => .left .notFound
  | some t =>
    if t.assigned = some r.setId then .already
    else if 0 < p.maxActions ∧ p.maxActions < b.count controllerId + 1 then .left .quotaExceeded
    else
      .change (planAssignment (.ofActions t (b.activeOf controllerId)) (r.newAction ctx)
        p.supersede now)

/-- Enters the targets of a batch that need no change, and collects the plans of the others. -/
def sortDecisions : List (String × Decision) → AssignmentResult → AssignmentResult × List Plan
  | [], acc => (acc, [])
  | (c, .left f) :: ds, acc => sortDecisions ds (acc.fail c f)
  | (c, .already) :: ds, acc => sortDecisions ds (acc.skip c)
  | (_, .change p) :: ds, acc =>
    let (acc, ps) := sortDecisions ds acc
    (acc, p :: ps)

/-- Enters what became of the changes of a batch, each with its plan; publishes the events of those
that were committed. -/
def enterOutcomes (ctx : Context) (r : AssignmentRequest) :
    List (Plan × Except StorageError Committed) → AssignmentResult → Program AssignmentResult
  | [], acc => done acc
  | (p, .ok c) :: os, acc => do
    count .actionsSuperseded p.updateCount
    publish (c.resolve p.events)
    enterOutcomes ctx r os (acc.assign p.change.controllerId c)
  | (p, .error e) :: os, acc => do
    if e.isConflict then count .optimisticConflicts 1
    log (.targetFailed ctx.tenantId p.change.controllerId r.setId e.message)
    enterOutcomes ctx r os (acc.fail p.change.controllerId (.ofError e))

/-- Assigns the targets of one batch. -/
def assignBatch (ctx : Context) (p : Policy) (r : AssignmentRequest) (ids : List String)
    (acc : AssignmentResult) : Program AssignmentResult := do
  let b ← readBatch ctx p ids
  let t ← recordedNow
  -- all targets of the batch are judged by what was read before any of them is written
  let (acc, plans) := sortDecisions (ids.map fun c => (c, decideTarget ctx p r b t c)) acc
  if plans.isEmpty then return acc
  else
    let outcomes ← request ctx (.applyChanges (plans.map fun p => p.change))
    enterOutcomes ctx r (plans.zip outcomes) acc

/-- The list in parts of `n` elements, the last one possibly shorter. -/
def batches {α : Type} (n : Nat) (as : List α) : List (List α) :=
  go as.length as
where
  /-- No part is empty, so there are at most as many parts as elements. -/
  go : Nat → List α → List (List α)
    | 0, _ => []
    | _, [] => []
    | fuel + 1, a :: as => (a :: as).take n :: go fuel ((a :: as).drop n)

/-- Assigns batches one after the other, counting them from `index`. -/
def assignBatches (ctx : Context) (p : Policy) (r : AssignmentRequest) :
    (index : Nat) → List (List String) → AssignmentResult → Program AssignmentResult
  | _, [], acc => done acc
  | i, ids :: rest, acc => do
    let acc ← assignBatch ctx p r ids acc
    log (.batchCommitted i ids.length acc.assigned)
    assignBatches ctx p r (i + 1) rest acc

/-- Assigns a distribution set to targets; a controller id that occurs again does not count. -/
def assignSet (p : Policy) (ctx : Context) (r : AssignmentRequest) : Program AssignmentResult := do
  write (.opened ⟨ctx.tenantId, r.setId⟩)
  count .assignmentsRequested 1
  checkRequest ctx p r
  let ids := r.controllerIds.eraseDups
  log (.assignmentRequested ctx.tenantId r.setId r.actionType ids.length)
  let acc ← assignBatches ctx p r 0 (batches p.batchSize ids) (.start ids.length)
  count .actionsCreated acc.assigned
  count .targetsAlreadyAssigned acc.alreadyAssigned
  count .targetsFailed acc.failed.length
  count .assignmentsTimed 1
  log (.assignmentCompleted ctx.tenantId r.setId acc.assigned acc.alreadyAssigned
    acc.failed.length)
  return acc

end FleetUpdate
