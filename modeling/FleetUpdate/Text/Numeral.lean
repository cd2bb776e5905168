/-!
# Decimal numerals

Numbers in settings, schedules, durations and offsets are runs of ASCII digits.  Leading zeros are
allowed and a run may be of any length; only the value is bounded, and by whoever reads it.  Digits
of other scripts are no digits here.
-/

namespace FleetUpdate.Text

/-- The number an ASCII digit stands for. -/
def digitValue (c : Char) : Nat := c.toNat - '0'.toNat

/-- The number a run of digits stands for, most significant digit first. -/
def valueOfDigits (cs : List Char) : Nat :=
  cs.foldl (fun n c => 10 * n + digitValue c) 0

/-- A non-empty run of ASCII digits. -/
def isNumeral (cs : List Char) : Bool :=
  !cs.isEmpty && cs.all Char.isDigit

/-- The value of a non-empty run of ASCII digits; nothing else is a numeral. -/
def natural? (cs : List Char) : Option Nat :=
  if isNumeral cs then some (valueOfDigits cs) else none

/-- A numeral up to `max`, after at most one plus sign. -/
def unsigned? (max : Nat) (cs : List Char) : Option Nat :=
  (natural? (match cs with
    | '+' :: r => r
    | cs => cs)).filter (· ≤ max)

theorem natural?_eq_some_iff {cs : List Char} {n : Nat} :
    natural? cs = some n ↔ isNumeral cs = true ∧ valueOfDigits cs = n := by
  simp [natural?]

/-- A value read under a bound keeps to it. -/
theorem le_of_unsigned?_eq_some {max n : Nat} {cs : List Char} (h : unsigned? max cs = some n) :
    n ≤ max := by
  have := (Option.filter_eq_some_iff.mp h).2
  simpa using this

/-- The decimal text of `n`, filled with zeros on the left up to `width` digits. -/
def padded (width n : Nat) : String :=
  let digits := Nat.toDigits 10 n
  String.ofList (List.replicate (width - digits.length) '0' ++ digits)

end FleetUpdate.Text
