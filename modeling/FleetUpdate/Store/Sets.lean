import FleetUpdate.Store.Basic

/-!
# Creating, filling and deleting distribution sets

Name and version identify a set within its tenant, deleted sets included.  As soon as some action
brings a set, its modules are fixed, and deleting it only marks it.
-/

namespace FleetUpdate.Store

/-- Creates a distribution set. -/
def createSet (s : Store) (ctx : Context) (now : Instant) (n : NewDistributionSet) :
    Except StorageError (DistributionSet × Store) :=
  if s.sets.any fun d => d.tenantId == ctx.tenantId && d.name == n.name && d.version == n.version
  then .error (.setExists n.name n.version)
  else
    let d : DistributionSet :=
      { tenantId := ctx.tenantId
        id := s.lastSetId + 1
        name := n.name
        version := n.version
        typeKey := n.typeKey
        requiredModules := n.requiredModules
        modules := n.modules
        complete := isComplete n.requiredModules n.modules
        deleted := false
        revision := 1
        audit := Audit.created ctx.userId now }
    .ok (d, { s with sets := s.sets ++ [d], lastSetId := d.id })

/-- The distribution sets with the given ids, in the order of the ids; a repeated id counts again,
a missing one does not. -/
def findSets (s : Store) (ctx : Context) (ids : List Int) : List DistributionSet :=
  ids.filterMap (s.set? ctx.tenantId)

/-- Replaces the modules of a set that nobody depends on yet. -/
def setModules (s : Store) (ctx : Context) (now : Instant) (setId : Int) (modules : List String) :
    Except StorageError (Option DistributionSet × Store) :=
  match s.set? ctx.tenantId setId with
  | none => .ok (none, s)
  | some d =>
    if d.deleted || s.isReferenced setId then .error (.setInUse setId)
    else
      let d' : DistributionSet :=
        { d with
          modules := modules
          complete := isComplete d.requiredModules modules
          revision := d.revision + 1
          audit := d.audit.touch ctx.userId now }
      .ok (some d', s.putSet d')

/-- Deletes a distribution set, or marks it as deleted while some action brings it. -/
def deleteSet (s : Store) (ctx : Context) (now : Instant) (setId : Int) :
    Option Deletion × Store :=
  match s.set? ctx.tenantId setId with
  | none => (none, s)
  | some d =>
    if s.isReferenced setId then
      (some .soft,
        s.putSet
          { d with
            deleted := true
            revision := d.revision + 1
            audit := d.audit.touch ctx.userId now })
    else (some .hard, { s with sets := s.sets.filter fun u => u.id != setId })

end FleetUpdate.Store
