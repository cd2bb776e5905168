import FleetUpdate.Text.Blank

/-!
# Deployment policy

A few numbers and choices govern assignments: how many targets are committed together, how many
actions a target may collect, what happens to the actions that a new one supersedes, and whether
every assignment must carry a weight.
-/

namespace FleetUpdate

/-- What happens to the active actions of a target when a new one is assigned. -/
inductive SupersedeMode where
  /-- They are canceled at once, whatever the device is doing. -/
  | immediate
  /-- Those that the device has fetched are asked to stop, the others are canceled at once. -/
  | graceful
  deriving DecidableEq

namespace SupersedeMode

/-- The name of a mode. -/
def name : SupersedeMode → String
  | immediate => "immediate"
  | graceful => "graceful"

/-- The mode that is used when none is asked for. -/
def standard : SupersedeMode := immediate

/-- Reads a mode; blanks around it and the case of its letters do not count. -/
def ofText? (s : String) : Option SupersedeMode :=
  let w := String.ofList ((Text.trimChars s.toList).map Char.toLower)
  if w = immediate.name then some immediate
  else if w = graceful.name then some graceful
  else none

end SupersedeMode

/-- The rules under which assignments are made. -/
structure Policy where
  /-- The most targets that are read and committed together; zero counts as one. -/
  maxEntries : Nat
  /-- The most actions a target may have in all; zero sets no limit. -/
  maxActions : Nat
  supersede : SupersedeMode
  weightRequired : Bool
  deriving DecidableEq

namespace Policy

/-- The policy that holds when nothing else is configured. -/
def standard : Policy := ⟨999, 400, .standard, false⟩

/-- The size of a batch, which is never zero. -/
def batchSize (p : Policy) : Nat := max 1 p.maxEntries

end Policy

end FleetUpdate
