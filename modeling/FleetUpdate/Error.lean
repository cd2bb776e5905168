import FleetUpdate.Maintenance.Error
import FleetUpdate.Store.Error
import FleetUpdate.Vocabulary.Action
import FleetUpdate.Vocabulary.CodeTable

/-!
# Errors of deployment calls

Every way in which a call can fail, with its text.  Errors of the store, of maintenance
specifications and of vocabularies are turned into these when they leave a call.
-/

namespace FleetUpdate

/-- What can be missing. -/
inductive Entity where
  | target
  | action
  | distributionSet
  /-- A row that the store missed when it committed a change. -/
  | record
  deriving DecidableEq

/-- The name of an entity in messages. -/
def Entity.name : Entity → String
  | target => "target"
  | action => "action"
  | distributionSet => "distribution set"
  | record => "record"

/-- Why a deployment call failed. -/
inductive DeploymentError where
  | setIncomplete (setId : Int)
  | setDeleted (setId : Int)
  | forceQuitNotAllowed (actionId : Int) (status : ActionStatus)
  | cancelNotAllowed (actionId : Int) (reason : String)
  | invalidTransition (actionId : Int) (source target : ActionStatus)
  | actionNotActive (actionId : Int)
  | concurrentModification (message : String)
  | notFound (entity : Entity) (id : String)
  | invalidSchedule (message : String)
  | invalidWeight (message : String)
  | invalidRequest (message : String)
  | configuration (message : String)
  | storage (message : String)
  deriving DecidableEq

namespace DeploymentError

/-- The text of an error. -/
def message : DeploymentError → String
  | setIncomplete d => "distribution set " ++ toString d ++ " is incomplete"
  | setDeleted d => "distribution set " ++ toString d ++ " is deleted"
  | forceQuitNotAllowed a s =>
    "action " ++ toString a ++ " cannot be force quit in status " ++ s.name
  | cancelNotAllowed a reason => "action " ++ toString a ++ " cannot be canceled: " ++ reason
  | invalidTransition a source target =>
    "action " ++ toString a ++ " cannot move from " ++ source.name ++ " to " ++ target.name
  | actionNotActive a => "action " ++ toString a ++ " is not active"
  | concurrentModification m => "concurrent modification: " ++ m
  | notFound e id => e.name ++ " not found: " ++ id
  | invalidSchedule m => "invalid maintenance schedule: " ++ m
  | invalidWeight m => "invalid weight: " ++ m
  | invalidRequest m => "invalid request: " ++ m
  | configuration m => "configuration error: " ++ m
  | storage m => "storage error: " ++ m

/-- Something else changed the data in between; the call may be repeated. -/
def isConflict : DeploymentError → Bool
  | concurrentModification _ => true
  | _ => false

end DeploymentError

/-- The error of a call whose store failed. -/
def StorageError.toDeployment (e : StorageError) : DeploymentError :=
  match e.kind with
  | .conflict => .concurrentModification e.message
  | .notFound => .notFound .record e.message
  | .invalid | .backend => .storage e.message

/-- The error of a call with a maintenance specification that is refused. -/
def MaintenanceError.toDeployment (e : MaintenanceError) : DeploymentError :=
  .invalidSchedule e.message

/-- The error of a call that met an unknown name or code. -/
def VocabularyError.toDeployment (e : VocabularyError) : DeploymentError :=
  .configuration e.message

/-- The error of a store that met an unknown name or code in its rows. -/
def VocabularyError.toStorage (e : VocabularyError) : StorageError :=
  .reported .invalid e.message

/-- Only a conflict in the store makes a conflict of the call. -/
theorem StorageError.isConflict_toDeployment (e : StorageError) :
    e.toDeployment.isConflict = e.isConflict := by
  unfold toDeployment isConflict
  cases h : e.kind <;> rfl

end FleetUpdate
