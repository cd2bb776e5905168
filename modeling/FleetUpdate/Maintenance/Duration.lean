import FleetUpdate.Maintenance.Error
import FleetUpdate.Text.Numeral

/-!
# Durations and offsets

A duration is written as hours, minutes and seconds, an offset from UTC as a sign, hours and
minutes, or as `Z`.  Blanks around either do not count.  Each number is a run of digits of any
length; what is bounded is its value.
-/

namespace FleetUpdate.Maintenance

open Text

/-- The value of a numeral below `bound`. -/
def naturalBelow? (bound : Nat) (cs : List Char) : Option Nat :=
  (natural? cs).filter (· < bound)

/-- The seconds of a duration `h:m:s`, with less than 100000 hours, minutes and seconds below sixty,
and not nothing. -/
def durationSeconds? (cs : List Char) : Option Nat :=
  match pieces (· == ':') cs with
  | [h, m, s] => do
    let h ← naturalBelow? 100000 h
    let m ← naturalBelow? 60 m
    let s ← naturalBelow? 60 s
    let total := h * 3600 + m * 60 + s
    if total = 0 then none else some total
  | _ => none

/-- Reads a duration. -/
def parseDuration (text : String) : Except MaintenanceError Nat :=
  match durationSeconds? (trimChars text.toList) with
  | some n => .ok n
  | none => .error (.invalidDuration text)

/-- The seconds of an unsigned offset `h:m`, up to eighteen hours and some minutes. -/
def offsetSeconds? (cs : List Char) : Option Nat := do
  let (h, m) ← cutAt ':' cs
  let h ← naturalBelow? 19 h
  let m ← naturalBelow? 60 m
  some (h * 3600 + m * 60)

/-- The seconds by which a zone is ahead of UTC. -/
def zoneSeconds? : List Char → Option Int
  | ['Z'] => some 0
  | '+' :: r => (offsetSeconds? r).map fun n => (n : Int)
  | '-' :: r => (offsetSeconds? r).map fun n => -(n : Int)
  | _ => none

/-- Reads an offset from UTC. -/
def parseOffset (text : String) : Except MaintenanceError Int :=
  match zoneSeconds? (trimChars text.toList) with
  | some n => .ok n
  | none => .error (.invalidTimezone text)

end FleetUpdate.Maintenance
