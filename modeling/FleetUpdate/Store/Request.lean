import FleetUpdate.Store.Actions
import FleetUpdate.Store.Commit
import FleetUpdate.Store.Sets
import FleetUpdate.Store.Targets

/-!
# Requests to a store

Everything that callers ask of a store is one of these requests, and `Request.Answer` says what an
answer to each holds.  A request is answered in one step that nobody can interrupt;
`Store.perform` is that step for the store in memory.  Every request of a call that names no tenant
is refused.
-/

namespace FleetUpdate

/-- What can be asked of a store. -/
inductive Request where
  | createTarget (n : NewTarget)
  | findTarget (controllerId : String)
  | findTargets (ids : List String)
  | updateTarget (controllerId : String) (d : TargetDescription)
  | markContacted (controllerId : String) (time : Instant)
  | deleteTarget (controllerId : String)
  | createSet (n : NewDistributionSet)
  | findSet (setId : Int)
  | findSets (ids : List Int)
  | setModules (setId : Int) (modules : List String)
  | deleteSet (setId : Int)
  | findAction (actionId : Int)
  | findActions (controllerId : String)
  | findActive (controllerId : String)
  | findActiveOfAll (ids : List String)
  | countActions (ids : List String)
  | findSummaries (controllerId : String)
  | findLog (actionId : Int)
  | findLastEnded (controllerId : String)
  | applyChanges (changes : List TargetChange)

/-- What the answer to a request holds. -/
@[reducible] def Request.Answer : Request → Type
  | createTarget _ => Target
  | findTarget _ => Option Target
  | findTargets _ => List Target
  | updateTarget .. => Option Target
  | markContacted .. => Option Target
  | deleteTarget _ => Bool
  | createSet _ => DistributionSet
  | findSet _ => Option DistributionSet
  | findSets _ => List DistributionSet
  | setModules .. => Option DistributionSet
  | deleteSet _ => Option Deletion
  | findAction _ => Option Action
  | findActions _ => List Action
  | findActive _ => List Action
  | findActiveOfAll _ => List Action
  | countActions _ => List (String × Nat)
  | findSummaries _ => List ActionSummary
  | findLog _ => List StatusEntry
  | findLastEnded _ => Option Action
  | applyChanges _ => List (Except StorageError Committed)

/-- The answer of a store: what was asked for, or an error. -/
abbrev Request.Result (r : Request) : Type := Except StorageError r.Answer

namespace Store

/-- The outcome of a write that leaves the store as it was when it fails. -/
def settle {α : Type} (s : Store) : Except StorageError (α × Store) → Except StorageError α × Store
  | .ok (a, s') => (.ok a, s')
  | .error e => (.error e, s)

/-- The outcome of a write that cannot fail. -/
def done {α : Type} (r : α × Store) : Except StorageError α × Store := (.ok r.1, r.2)

/-- Answers a request of a tenant. -/
def answer (s : Store) (ctx : Context) (now : Instant) : (r : Request) → r.Result × Store
  | .createTarget n => s.settle (s.createTarget ctx now n)
  | .findTarget c => (.ok (s.target? ctx.tenantId c), s)
  | .findTargets cs => (.ok (s.findTargets ctx cs), s)
  | .updateTarget c d => done (s.updateTarget ctx now c d)
  | .markContacted c t => done (s.markContacted ctx c t)
  | .deleteTarget c => done (s.deleteTarget ctx c)
  | .createSet n => s.settle (s.createSet ctx now n)
  | .findSet d => (.ok (s.set? ctx.tenantId d), s)
  | .findSets ds => (.ok (s.findSets ctx ds), s)
  | .setModules d ms => s.settle (s.setModules ctx now d ms)
  | .deleteSet d => done (s.deleteSet ctx now d)
  | .findAction a => (.ok (s.action? ctx.tenantId a), s)
  | .findActions c => (.ok (s.actionsOf ctx.tenantId c).reverse, s)
  | .findActive c => (.ok (s.activeOf ctx.tenantId c), s)
  | .findActiveOfAll cs => (.ok (s.activeOfAll ctx.tenantId cs), s)
  | .countActions cs => (.ok (s.countsOf ctx.tenantId cs), s)
  | .findSummaries c => (.ok ((s.actionsOf ctx.tenantId c).reverse.map s.summarize), s)
  | .findLog a => (.ok (s.findLog ctx.tenantId a), s)
  | .findLastEnded c => (.ok (s.lastEnded ctx.tenantId c), s)
  | .applyChanges cs => done (s.commitAll ctx now cs)

/-- Answers a request, if it comes from a tenant; `now` is the time that rows record. -/
def perform (s : Store) (ctx : Context) (now : Instant) (r : Request) : r.Result × Store :=
  if ctx.tenantId = "" then (.error .tenantRequired, s) else s.answer ctx now r

end Store

end FleetUpdate
