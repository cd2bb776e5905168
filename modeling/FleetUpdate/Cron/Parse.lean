import FleetUpdate.Cron.Pattern
import FleetUpdate.Text.Numeral
import FleetUpdate.Text.Split

/-!
# Reading cron patterns

A pattern is read from six words.  Letters count alike in both cases, names of weekdays and months
stand for their numbers wherever they occur, and a question mark is a star.  A field is a star or a
list of parts separated by commas, read from left to right; a part is a step, a range, a nearest
weekday, the last day, or a number.  The first fault found is the one reported.
-/

namespace FleetUpdate.Cron

open Text

/-- Why a pattern cannot be read. -/
inductive ParseError where
  | fieldCount
  | stepShape
  | stepValue
  | stepZero
  | stepRangeShape
  | stepRangeStart
  | stepRangeEnd
  | stepStart
  | stepBounds
  | stepOverflow
  | rangeShape
  | rangeStart
  | rangeEnd
  | rangeBounds
  | nearestDay
  | nearestBounds
  | nthForbidden
  | lastForbidden
  | number
  | numberBounds
  | nthNumber
  | nthBounds
  /-- The mark with the first bit is not among the marks of the second set. -/
  | unsupported (bit bits : Nat)
  deriving DecidableEq

/-- A byte in binary, eight digits. -/
def binary (n : Nat) : String :=
  String.ofList ((List.range 8).reverse.map fun i => if n.testBit i then '1' else '0')

/-- What is wrong with a field. -/
def ParseError.detail : ParseError → String
  | fieldCount => "Pattern must consist of five or six fields (minute, hour, day, month, " ++
      "day of week, and optional second)."
  | stepShape => "Invalid stepped range syntax."
  | stepValue => "Invalid step."
  | stepZero => "Step cannot be zero."
  | stepRangeShape => "Invalid range syntax in stepping."
  | stepRangeStart => "Invalid range start."
  | stepRangeEnd => "Invalid range end."
  | stepStart => "Invalid start."
  | stepBounds => "Range is out of bounds in stepping."
  | stepOverflow => "Value exceeded max after stepping."
  | rangeShape => "Invalid range syntax."
  | rangeStart => "Invalid start of range."
  | rangeEnd => "Invalid end of range."
  | rangeBounds => "Range out of bounds."
  | nearestDay => "Invalid day for closest weekday."
  | nearestBounds => "Day for closest weekday out of bounds."
  | nthForbidden => "Nth specifier # not allowed in the current field."
  | lastForbidden => "L not allowed in the current field."
  | number => "Invalid number."
  | numberBounds => "Number out of bounds."
  | nthNumber => "Invalid nth specifier."
  | nthBounds => "Nth specifier out of bounds."
  | unsupported bit bits => "Bit 0b" ++ binary bit ++
      " is not supported by the current features 0b" ++ binary bits ++ "."

/-- The text of the error. -/
def ParseError.message : ParseError → String
  | fieldCount => "Invalid pattern: " ++ fieldCount.detail
  | e => "Component error: " ++ e.detail

/-- A number as fields hold it: a byte. -/
def byte? (cs : List Char) : Option Nat := unsigned? 255 cs

/-- Reads a number or fails with the given error. -/
def byteOr (e : ParseError) (cs : List Char) : Except ParseError Nat :=
  match byte? cs with
  | some n => .ok n
  | none => .error e

/-- The mark that the end of a part asks for: a final `l` for the last weekday of a month, a number
after `#` for the nth, and nothing for a plain value. -/
def markOf (part : List Char) : Except ParseError Mark :=
  if part.getLast? = some 'l' ∨ part.getLast? = some 'L' then .ok .last
  else
    match cutAt '#' part with
    | none => .ok .plain
    | some (_, r) => do
      let n ← byteOr .nthNumber r
      if 1 ≤ n ∧ n ≤ 5 then .ok (.nth n) else .error .nthBounds

/-- The part without what follows `#`. -/
def unmarked (part : List Char) : List Char := part.takeWhile (· ≠ '#')

/-- Marks some values, if the slot knows the mark. -/
def markValues (s : Slot) (f : Field) (vs : List Nat) (m : Mark) : Except ParseError Field :=
  if s.supports m then .ok (f.mark vs m) else .error (.unsupported m.bit s.markBits)

/-- The values that a step runs over: a star, two bounds, or a start alone. -/
def stepBounds (s : Slot) (range : List Char) : Except ParseError (Nat × Nat) :=
  if range = ['*'] then .ok (s.low, s.high)
  else if range.contains '-' then
    match pieces (· == '-') range with
    | [a, b] => do
      let a ← byteOr .stepRangeStart a
      let b ← byteOr .stepRangeEnd b
      .ok (a, b)
    | _ => .error .stepRangeShape
  else do
    let a ← byteOr .stepStart range
    .ok (a, s.high)

/-- Reads a step: every so many values of a range.  The value after the last one must still be a
byte. -/
def readStep (s : Slot) (f : Field) (part : List Char) : Except ParseError Field := do
  let m ← markOf part
  match pieces (· == '/') (unmarked part) with
  | [range, step] =>
    let step ← byteOr .stepValue step
    if step = 0 then .error .stepZero
    else
      let (a, b) ← stepBounds s range
      if a < s.low ∨ s.high < b ∨ b < a then .error .stepBounds
      else
        -- the last value is the greatest one not beyond `b`
        let vs := (List.range ((b - a) / step + 1)).map fun i => a + i * step
        let f ← markValues s f vs m
        -- counting goes one step beyond the last value before it stops
        if 255 < a + vs.length * step then .error .stepOverflow else .ok f
  | _ => .error .stepShape

/-- Reads a range of values, both ends included. -/
def readRange (s : Slot) (f : Field) (part : List Char) : Except ParseError Field := do
  let m ← markOf part
  match pieces (· == '-') (unmarked part) with
  | [a, b] =>
    let a ← byteOr .rangeStart a
    let b ← byteOr .rangeEnd b
    if a < s.low ∨ s.high < b ∨ b < a then .error .rangeBounds
    else markValues s f (List.range' a (b + 1 - a)) m
  | _ => .error .rangeShape

/-- Reads the weekday nearest to a day; what follows the letter does not count. -/
def readNearest (s : Slot) (f : Field) (part : List Char) : Except ParseError Field := do
  let v ← byteOr .nearestDay (part.takeWhile (· ≠ 'w'))
  if s.holds v then markValues s f [v] .nearest else .error .nearestBounds

/-- A final `l` counts as `#L`, and with it every other one, unless the part has a `#` already. -/
def spellLast (part : List Char) : List Char :=
  let up := part.map fun c => if c = 'l' then 'L' else c
  if up.getLast? = some 'L' ∧ up.contains '#' = false then
    up.flatMap fun c => if c = 'L' then ['#', 'L'] else [c]
  else up

/-- Reads a single value, in the weekday field possibly the nth or the last of its month. -/
def readNumber (s : Slot) (f : Field) (part : List Char) : Except ParseError Field := do
  let part := spellLast part
  if part.contains '#' ∧ s.nth = false then .error .nthForbidden
  else if part.contains 'L' ∧ s.nth = false then .error .lastForbidden
  else
    let m ← markOf part
    let v ← byteOr .number (unmarked part)
    if s.holds v then markValues s f [v] m else .error .numberBounds

/-- Reads one part of a field. -/
def readPart (s : Slot) (f : Field) (part : List Char) : Except ParseError Field :=
  if part.contains '/' then readStep s f part
  else if part.contains '-' then readRange s f part
  else if part.contains 'w' then readNearest s f part
  else if part = ['l'] then .ok { f with lastDay := true }
  else readNumber s f part

/-- Reads a field; parts of nothing but blanks are skipped. -/
def readField (s : Slot) (field : List Char) : Except ParseError Field :=
  if field = ['*'] then .ok (Field.all s)
  else
    (((pieces (· == ',') field).map trimChars).filter fun p => !p.isEmpty).foldlM
      (readPart s) Field.none

/-- The names that stand for numbers, in the order in which they are replaced. -/
def names : List (String × String) :=
  [("-sun", "-7"), ("sun", "0"), ("mon", "1"), ("tue", "2"), ("wed", "3"), ("thu", "4"),
   ("fri", "5"), ("sat", "6"), ("jan", "1"), ("feb", "2"), ("mar", "3"), ("apr", "4"),
   ("may", "5"), ("jun", "6"), ("jul", "7"), ("aug", "8"), ("sep", "9"), ("oct", "10"),
   ("nov", "11"), ("dec", "12")]

/-- A word in its plain form: stars for question marks, small letters, numbers for names. -/
def plainWord (word : List Char) : List Char :=
  names.foldl (fun w p => replaceAll p.1.toList p.2.toList w)
    (word.map fun c => if c = '?' then '*' else c.toLower)

/-- Reads a pattern from its six words.  An at sign announces a nickname, which would take the
place of a whole pattern. -/
def Pattern.ofWords (words : List (List Char)) : Except ParseError Pattern :=
  if words.any fun w => w.contains '@' then .error .fieldCount
  else
    match words.map plainWord with
    | [s, m, h, d, n, w] => do
      let second ← readField .second s
      let minute ← readField .minute m
      let hour ← readField .hour h
      let day ← readField .day d
      let month ← readField .month n
      let weekday ← readField .weekday w
      .ok ⟨second, minute, hour, day, month, weekday.foldSunday⟩
    | _ => .error .fieldCount

end FleetUpdate.Cron
