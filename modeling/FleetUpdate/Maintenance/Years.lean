import FleetUpdate.Text.Numeral
import FleetUpdate.Text.Split

/-!
# The year field

A schedule may be restricted to some years, given as a list of years and ranges of years between
1970 and 2099, in any order and possibly overlapping.  A star or a question mark allows all years.
-/

namespace FleetUpdate.Maintenance

open Text

/-- The years in which windows may start. -/
inductive Years where
  | any
  /-- Closed ranges in ascending order. -/
  | ranges (rs : List (Int × Int))
  deriving DecidableEq

namespace Years

/-- The first and the last year that can be asked for. -/
def lowest : Nat := 1970
def highest : Nat := 2099

/-- The largest number that counts as a year at all. -/
def largest : Nat := 2147483647

/-- Reads one year; the error is a reason in words. -/
def parseYear (cs : List Char) : Except String Int :=
  match (natural? cs).filter (· ≤ largest) with
  | none => .error ("invalid year " ++ String.ofList cs)
  | some y =>
    if lowest ≤ y ∧ y ≤ highest then .ok y
    else .error ("year " ++ toString y ++ " out of range " ++ toString lowest ++ "-" ++
      toString highest)

/-- Reads a year or a range of years. -/
def parseRange (part : List Char) : Except String (Int × Int) :=
  match cutAt '-' part with
  | some (a, b) => do
    let a ← parseYear a
    let b ← parseYear b
    if b < a then .error ("year range " ++ String.ofList part ++ " is reversed") else .ok (a, b)
  | none => do
    let y ← parseYear part
    .ok (y, y)

/-- The order of ranges: by their first year, then by their last. -/
def rangeLe (p q : Int × Int) : Bool :=
  decide (p.1 < q.1) || (decide (p.1 = q.1) && decide (p.2 ≤ q.2))

/-- Reads a year field. -/
def parse (field : List Char) : Except String Years :=
  if field = ['*'] ∨ field = ['?'] then .ok any
  else do
    let rs ← (pieces (· == ',') field).mapM parseRange
    .ok (ranges (rs.mergeSort rangeLe))

/-- The year is allowed. -/
def allows : Years → Int → Bool
  | any, _ => true
  | ranges rs, y => rs.any fun r => decide (r.1 ≤ y) && decide (y ≤ r.2)

/-- The first allowed year from `y` on. -/
def nextFrom : Years → Int → Option Int
  | any, y => some y
  -- the first range that ends late enough starts no later than any other such range
  | ranges rs, y => (rs.find? fun r => decide (y ≤ r.2)).map fun r => max r.1 y

end Years

end FleetUpdate.Maintenance
