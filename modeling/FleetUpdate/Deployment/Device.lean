import FleetUpdate.Deployment.Transition
import FleetUpdate.Lifecycle.Report

/-!
# Calls of the device side

A device registers by its first contact, asks for the action it should carry out, and reports how
that goes.  Confirmations and refusals of an assignment come in here as well.
-/

namespace FleetUpdate

open Program

/-- A report as it comes in; without a time it counts from now. -/
structure IncomingReport where
  status : ActionStatus
  messages : List String
  code : Option Int
  time : Option Instant
  deriving DecidableEq

/-- Dates a report. -/
def IncomingReport.date (r : IncomingReport) : Program StatusReport :=
  match r.time with
  | some t => done ⟨r.status, r.messages, r.code, t⟩
  | none => recordedNow.bind fun t => done ⟨r.status, r.messages, r.code, t⟩

/-- Registers a target unless it is there.  If somebody else was faster, that is as good. -/
def registerTarget (ctx : Context) (controllerId : String) : Program Unit := do
  match (← attempt ctx (.createTarget (.ofId controllerId))) with
  | .ok _ => log (.targetRegistered ctx.tenantId controllerId)
  | .error e => if e.isConflict then return () else fail e.toDeployment

/-- Finds the target of a device, registers it if need be, and notes the contact. -/
def findOrRegister (ctx : Context) (controllerId : String) : Program Target := do
  let known ← request ctx (.findTarget controllerId)
  if known.isNone then registerTarget ctx controllerId
  let t ← recordedNow
  require .target controllerId (← request ctx (.markContacted controllerId t))

/-- The action that a device should carry out: the oldest one that is active. -/
def oldestActive (ctx : Context) (controllerId : String) : Program (Option Action) := do
  let as ← request ctx (.findActive controllerId)
  return as.foldl (fun best a =>
    match best with
    | none => some a
    | some b => if a.id < b.id then some a else some b) none

/-- The log of an action while it is canceling; it does not matter otherwise. -/
def logIfCanceling (ctx : Context) (a : Action) : Program (List StatusEntry) :=
  if a.status = .canceling then request ctx (.findLog a.id) else done []

/-- Takes in a report of progress. -/
def reportStatus (ctx : Context) (actionId : Int) (r : IncomingReport) : Program Action := do
  let a ← loadAction ctx actionId
  let v ← loadView ctx a.controllerId
  let entries ← logIfCanceling ctx a
  let r ← r.date
  let p ← ofExcept (planStatusUpdate v a r entries)
  let u ← commitAction ctx p actionId
  count .statusUpdates 1
  if u.status = .canceled ∧ u.active = false then count .actionsCanceled 1
  log (.statusUpdated ctx.tenantId u.controllerId actionId r.status u.status u.active)
  return u

/-- Takes in the answer of a device to a cancellation. -/
def reportCancel (ctx : Context) (actionId : Int) (r : IncomingReport) : Program Action := do
  let a ← loadAction ctx actionId
  let v ← loadView ctx a.controllerId
  let entries ← logIfCanceling ctx a
  let r ← r.date
  let p ← ofExcept (planCancelFeedback v a r entries)
  let u ← commitAction ctx p actionId
  count .statusUpdates 1
  if u.active = false then count .actionsCanceled 1
  log (.cancelFeedback ctx.tenantId u.controllerId actionId r.status u.status)
  return u

/-- Confirms an action that waits for it. -/
def confirmAction (ctx : Context) (actionId : Int) (messages : List String) : Program Action := do
  let a ← loadAction ctx actionId
  let v ← loadView ctx a.controllerId
  let p ← ofExcept (planConfirm v a messages (← recordedNow))
  let u ← commitAction ctx p actionId
  log (.actionConfirmed ctx.tenantId u.controllerId actionId ctx.userId)
  return u

/-- Denies an action that waits for a confirmation. -/
def denyAction (ctx : Context) (actionId : Int) (messages : List String) : Program Action := do
  let a ← loadAction ctx actionId
  let v ← loadView ctx a.controllerId
  let p ← ofExcept (planDeny v a messages (← recordedNow))
  let u ← commitAction ctx p actionId
  log (.actionDenied ctx.tenantId u.controllerId actionId ctx.userId)
  return u

end FleetUpdate
