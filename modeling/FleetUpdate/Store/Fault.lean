import FleetUpdate.Store.Database
import FleetUpdate.Store.Request

/-!
# Stores that fail

Calls have to cope with stores that fail, lose a race or answer nothing.  Such a store is the store
in memory with faults armed: each fault waits for a request of its kind, and when that comes,
happens once instead of the request or just before it.  The other extreme is a database whose
connections have been closed, which can answer no more than what needs no query.
-/

namespace FleetUpdate

/-- What goes wrong. -/
inductive FaultEffect where
  /-- The request fails. -/
  | error (e : StorageError)
  /-- The request is not carried out and the answer is that there is nothing. -/
  | empty
  /-- One of the changes to apply is left out and fails. -/
  | inner (index : Nat) (e : StorageError)
  /-- Somebody else commits a change of a target first. -/
  | bump (controllerId : String)
  /-- Somebody else deletes a target first. -/
  | delete (controllerId : String)

/-- A fault that waits for a request. -/
structure Fault where
  /-- The requests it waits for. -/
  awaits : Request → Bool
  /-- How many of them it lets pass before. -/
  skip : Nat
  effect : FaultEffect

/-- The fault that a request triggers, if one does, and the faults that are armed after it.  Only
the first fault that waits for such a request counts it. -/
def Fault.trigger (r : Request) : List Fault → Option FaultEffect × List Fault
  | [] => (none, [])
  | f :: fs =>
    if f.awaits r then
      match f.skip with
      | 0 => (some f.effect, fs)
      | n + 1 => (none, { f with skip := n } :: fs)
    else
      let (e, fs) := trigger r fs
      (e, f :: fs)

/-- The answer that there is nothing; a request to create something has no such answer. -/
def Request.emptyAnswer? : (r : Request) → Option r.Answer
  | .createTarget _ | .createSet _ => none
  | .findTarget _ => some none
  | .findTargets _ => some []
  | .updateTarget .. => some none
  | .markContacted .. => some none
  | .deleteTarget _ => some false
  | .findSet _ => some none
  | .findSets _ => some []
  | .setModules .. => some none
  | .deleteSet _ => some none
  | .findAction _ => some none
  | .findActions _ => some []
  | .findActive _ => some []
  | .findActiveOfAll _ => some []
  | .countActions _ => some []
  | .findSummaries _ => some []
  | .findLog _ => some []
  | .findLastEnded _ => some none
  | .applyChanges _ => some []

namespace Store

/-- Commits a change that says nothing but that the target was changed. -/
def bump (s : Store) (ctx : Context) (now : Instant) (controllerId : String) : Store :=
  match s.target? ctx.tenantId controllerId with
  | none => s
  | some t => (s.perform ctx now (.applyChanges [TargetChange.ofTarget t])).2

/-- Answers a request that a fault happens to. -/
def performFaulty (s : Store) (ctx : Context) (now : Instant) :
    FaultEffect → (r : Request) → r.Result × Store
  | .error e, _ => (.error e, s)
  | .empty, r =>
    match r.emptyAnswer? with
    | some a => (.ok a, s)
    | none => s.perform ctx now r
  | .inner i e, .applyChanges cs =>
    if i < cs.length then
      let (result, s) := s.perform ctx now (.applyChanges (cs.eraseIdx i))
      (result.map fun rs => rs.insertIdx i (.error e), s)
    else s.perform ctx now (.applyChanges cs)
  | .inner _ _, r => s.perform ctx now r
  | .bump c, r => (s.bump ctx now c).perform ctx now r
  | .delete c, r => (s.perform ctx now (.deleteTarget c)).2.perform ctx now r

end Store

/-- A store in memory with faults armed. -/
structure FaultyStore where
  store : Store
  faults : List Fault

/-- Answers a request, or lets the fault happen that it triggers. -/
def FaultyStore.perform (s : FaultyStore) (ctx : Context) (now : Instant) (r : Request) :
    r.Result × FaultyStore :=
  let (effect, faults) := Fault.trigger r s.faults
  let (result, store) :=
    match effect with
    | none => s.store.perform ctx now r
    | some e => s.store.performFaulty ctx now e r
  (result, ⟨store, faults⟩)

/-- The answer of a database without connections: what can be said without a query, else that the
connections are closed. -/
def closedAnswer (ctx : Context) (r : Request) : r.Result :=
  if ctx.tenantId = "" then .error .tenantRequired
  else
    match r with
    | .createTarget n =>
      if Text.allBlank n.controllerId then .error .controllerRequired
      else .error DatabaseError.poolClosed.toStorageError
    | .findTargets [] => .ok []
    | .findSets [] => .ok []
    | .findActiveOfAll [] => .ok []
    | .countActions [] => .ok []
    | _ => .error DatabaseError.poolClosed.toStorageError

end FleetUpdate
