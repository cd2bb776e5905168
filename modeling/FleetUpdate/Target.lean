import FleetUpdate.Tenancy
import FleetUpdate.Vocabulary.Target

/-!
# Targets

A target is a device of a tenant, known by its controller id.  It remembers the distribution set it
should have, the one it is known to have, and how that stands.  Its revision grows with every
committed change of its life cycle, and only with those.
-/

namespace FleetUpdate

/-- A target as it is stored. -/
structure Target where
  tenantId : String
  controllerId : String
  name : String
  description : Option String
  /-- The distribution set the target is driven to. -/
  assigned : Option Int
  /-- The distribution set the device last reported as installed. -/
  installed : Option Int
  installedAt : Option Instant
  updateStatus : UpdateStatus
  /-- When the device last spoke to the server. -/
  lastContact : Option Instant
  revision : Int
  audit : Audit
  deriving DecidableEq

/-- What a new target is registered with. -/
structure NewTarget where
  controllerId : String
  name : String
  description : Option String
  deriving DecidableEq

/-- A registration under a bare controller id, which serves as the name too. -/
def NewTarget.ofId (controllerId : String) : NewTarget := ⟨controllerId, controllerId, none⟩

/-- The part of a target that describes it; what is `none` stays as it is. -/
structure TargetDescription where
  name : Option String
  description : Option String
  deriving DecidableEq

/-- The part of a target that its actions decide. -/
structure TargetState where
  assigned : Option Int
  installed : Option Int
  installedAt : Option Instant
  updateStatus : UpdateStatus
  deriving DecidableEq

namespace Target

/-- The row key: the tenant and the controller id. -/
def key (t : Target) : String × String := (t.tenantId, t.controllerId)

/-- The life-cycle state of a target. -/
def state (t : Target) : TargetState := ⟨t.assigned, t.installed, t.installedAt, t.updateStatus⟩

/-- The target with another life-cycle state. -/
def withState (t : Target) (s : TargetState) : Target :=
  { t with
    assigned := s.assigned
    installed := s.installed
    installedAt := s.installedAt
    updateStatus := s.updateStatus }

@[simp] theorem state_withState (t : Target) (s : TargetState) : (t.withState s).state = s := rfl

@[simp] theorem withState_state (t : Target) : t.withState t.state = t := rfl

end Target

end FleetUpdate
