import FleetUpdate.Program

/-!
# Snapshots

What the store holds of some targets: each with its actions, youngest first, and their logs.
-/

namespace FleetUpdate

open Program

/-- What the store holds of a target. -/
structure Snapshot where
  target : Option Target
  actions : List (Action × List StatusEntry)

/-- Asks the store; an error of the store ends what follows. -/
def query (ctx : Context) (r : Request) : ExceptT StorageError Program r.Answer :=
  ExceptT.mk (attempt ctx r)

/-- The actions with their logs. -/
def snapshotActions (ctx : Context) :
    List Action → ExceptT StorageError Program (List (Action × List StatusEntry))
  | [] => return []
  | a :: as => do
    let entries ← query ctx (.findLog a.id)
    return (a, entries) :: (← snapshotActions ctx as)

/-- What the store holds of the given targets. -/
def snapshots (ctx : Context) : List String → ExceptT StorageError Program (List Snapshot)
  | [] => return []
  | c :: cs => do
    let target ← query ctx (.findTarget c)
    let actions ← query ctx (.findActions c)
    let actions ← snapshotActions ctx actions
    return ⟨target, actions⟩ :: (← snapshots ctx cs)

end FleetUpdate
