/-!
# Greatest elements

The action that ended last and the action with the greatest id are picked from lists by a total
preorder; of several equally great elements the one that stands last is taken.
-/

namespace FleetUpdate

/-- The greatest element of a list, the last of several; `le` tells which of two is not greater. -/
def greatest? {α : Type} (le : α → α → Bool) (as : List α) : Option α :=
  as.foldl (fun best a =>
    match best with
    | none => some a
    | some b => if le b a then some a else some b) none

end FleetUpdate
