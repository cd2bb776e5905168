/-!
# Errors of the store

A store refuses a call for a reason of its own, listed here, or passes on what the system beneath
it reported.  Callers only distinguish four kinds: somebody else was faster, something is missing,
the call makes no sense, or the store itself does not work.
-/

namespace FleetUpdate

/-- What a caller can do about an error: retry on fresh data, give up on the missing thing, mend
the call, or wait for the store. -/
inductive ErrorKind where
  | conflict
  | notFound
  | invalid
  | backend
  deriving DecidableEq

/-- Why the store did not do as it was told. -/
inductive StorageError where
  | tenantRequired
  | controllerRequired
  | targetExists (controllerId : String)
  | targetMissing (controllerId : String)
  | targetModified (controllerId : String) (expected found : Int)
  | setExists (name version : String)
  | setInUse (setId : Int)
  | setMissing (setId : Int)
  /-- No action of this id belongs to the target. -/
  | actionNotOfTarget (actionId : Int) (controllerId : String)
  | actionMissing (actionId : Int)
  | actionModified (actionId expected found : Int)
  /-- A log entry refers to an action that the change does not create. -/
  | entryUnowned (index : Nat)
  | entryUnresolved
  /-- What the system beneath reported. -/
  | reported (kind : ErrorKind) (message : String)
  deriving DecidableEq

namespace StorageError

/-- The kind of an error. -/
def kind : StorageError → ErrorKind
  | tenantRequired | controllerRequired | setInUse _ | entryUnowned _ | entryUnresolved => .invalid
  | targetExists _ | targetModified .. | setExists .. | actionModified .. => .conflict
  | targetMissing _ | setMissing _ | actionNotOfTarget .. | actionMissing _ => .notFound
  | reported k _ => k

/-- The text of a lost race: what was changed, and the revisions. -/
def modifiedText (what : String) (expected found : Int) : String :=
  what ++ " was modified concurrently (expected revision " ++ toString expected ++ ", found " ++
    toString found ++ ")"

/-- The text of an error. -/
def message : StorageError → String
  | tenantRequired => "tenant_id required"
  | controllerRequired => "controller_id required"
  | targetExists c => "target " ++ c ++ " already exists"
  | targetMissing c => "target " ++ c ++ " not found"
  | targetModified c e f => modifiedText ("target " ++ c) e f
  | setExists n v => "distribution set " ++ n ++ ":" ++ v ++ " already exists"
  | setInUse d => "distribution set " ++ toString d ++ " is in use and cannot be modified"
  | setMissing d => "distribution set " ++ toString d ++ " not found"
  | actionNotOfTarget a c => "action " ++ toString a ++ " not found for target " ++ c
  | actionMissing a => "action " ++ toString a ++ " not found"
  | actionModified a e f => modifiedText ("action " ++ toString a) e f
  | entryUnowned i => "status entry refers to unknown new action #" ++ toString i
  | entryUnresolved => "status entry refers to unknown new action"
  | reported _ m => m

/-- Somebody else was faster. -/
def isConflict (e : StorageError) : Bool := e.kind == .conflict

/-- The error concerns one target only, so that work on others can go on. -/
def isTargetScoped (e : StorageError) : Bool := e.kind != .backend

/-- The answer of a store that should have committed something and says nothing. -/
def emptyCommit : StorageError := .reported .backend "empty commit result"

end StorageError

end FleetUpdate
