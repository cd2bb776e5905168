import FleetUpdate.Tenancy

/-!
# Distribution sets

A distribution set is a named version of software, made of modules.  Its type asks for certain
module types; the set is complete when it has a module of each.
-/

namespace FleetUpdate

/-- A distribution set as it is stored. -/
structure DistributionSet where
  tenantId : String
  id : Int
  name : String
  version : String
  typeKey : String
  /-- The module types the set must have. -/
  requiredModules : List String
  /-- The module types the set has. -/
  modules : List String
  complete : Bool
  deleted : Bool
  revision : Int
  audit : Audit
  deriving DecidableEq

/-- What a new distribution set is created with. -/
structure NewDistributionSet where
  name : String
  version : String
  typeKey : String
  requiredModules : List String
  modules : List String
  deriving DecidableEq

/-- How a distribution set was deleted. -/
inductive Deletion where
  /-- No action referred to it, so the row is gone. -/
  | hard
  /-- Some action refers to it, so the row stays and is marked. -/
  | soft
  deriving DecidableEq

/-- Every required module type is among the given ones. -/
def isComplete (required modules : List String) : Bool :=
  required.all fun r => modules.contains r

theorem isComplete_iff {required modules : List String} :
    isComplete required modules = true ↔ ∀ r ∈ required, r ∈ modules := by
  simp [isComplete]

end FleetUpdate
