/-!
# Fields of a cron pattern

A field says which values of one part of the time it allows.  Besides a plain value it may carry
marks that only make sense together with a calendar: the nth or the last such weekday of a month,
or the weekday nearest to a day of the month.  Which marks a field can carry is decided by its slot.
-/

namespace FleetUpdate.Cron

/-- What a field says of a value. -/
inductive Mark where
  /-- The value is allowed. -/
  | plain
  /-- The nth weekday of this number in the month is allowed. -/
  | nth (n : Nat)
  /-- The last weekday of this number in the month is allowed. -/
  | last
  /-- The working day nearest to this day of the month is allowed. -/
  | nearest
  deriving DecidableEq

/-- The bit that stands for a mark in a set of marks. -/
def Mark.bit : Mark → Nat
  | plain => 1
  | nth n => 1 <<< n
  | last => 64
  | nearest => 128

/-- A place in the pattern: the bounds of its values, and whether nth and nearest weekdays can be
asked for there. -/
structure Slot where
  low : Nat
  high : Nat
  nth : Bool
  nearest : Bool

namespace Slot

def second : Slot := ⟨0, 59, false, false⟩
def minute : Slot := ⟨0, 59, false, false⟩
def hour : Slot := ⟨0, 23, false, false⟩
def day : Slot := ⟨1, 31, false, true⟩
def month : Slot := ⟨1, 12, false, false⟩

/-- Weekdays count from Sunday, which is both `0` and `7`. -/
def weekday : Slot := ⟨0, 7, true, false⟩

/-- The mark can be carried by a field in this slot. -/
def supports (s : Slot) : Mark → Bool
  | .plain | .last => true
  | .nth _ => s.nth
  | .nearest => s.nearest

/-- The set of the marks that are supported, one bit for each. -/
def markBits (s : Slot) : Nat :=
  Mark.plain.bit + Mark.last.bit + (if s.nth then 62 else 0) +
    (if s.nearest then Mark.nearest.bit else 0)

/-- The value lies within the bounds. -/
def holds (s : Slot) (v : Nat) : Bool := decide (s.low ≤ v) && decide (v ≤ s.high)

end Slot

/-- A field as it was read. -/
structure Field where
  marks : List (Nat × Mark)
  /-- The last day of the month is allowed. -/
  lastDay : Bool
  /-- The field was written as a single star. -/
  star : Bool

namespace Field

/-- A field that allows nothing. -/
def none : Field := ⟨[], false, false⟩

/-- A field that allows every value of its slot. -/
def all (s : Slot) : Field :=
  ⟨(List.range' s.low (s.high + 1 - s.low)).map fun v => (v, .plain), false, true⟩

/-- The field puts the mark on the value. -/
def has (f : Field) (v : Nat) (m : Mark) : Bool := f.marks.contains (v, m)

/-- The value is allowed as such. -/
def allows (f : Field) (v : Nat) : Bool := f.has v .plain

/-- The least allowed value from `v` up to, but not including, `bound`. -/
def leastFrom (f : Field) (bound v : Nat) : Option Nat :=
  (List.range' v (bound - v)).find? f.allows

/-- Puts a mark on each of some values. -/
def mark (f : Field) (vs : List Nat) (m : Mark) : Field :=
  { f with marks := f.marks ++ vs.map fun v => (v, m) }

/-- Sunday, where it was written as `7`, is `0`; the last Sunday stays as it was written. -/
def foldSunday (f : Field) : Field :=
  { f with marks := f.marks.map fun p => if p.1 = 7 ∧ p.2 ≠ .last then (0, p.2) else p }

end Field

end FleetUpdate.Cron
