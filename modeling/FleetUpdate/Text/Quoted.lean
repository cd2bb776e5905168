import FleetUpdate.Text.Blank
import FleetUpdate.Text.Extender
import FleetUpdate.Text.Other

/-!
# Quoted texts in diagnostics

A text is shown between double quotes such that what is shown can be told apart from everything
else: quotes and backslashes are escaped, and so is every character that leaves no mark of its own
on a page, be it a control, a blank other than the space, or one that only alters its neighbours.
-/

namespace FleetUpdate.Text

/-- The letters that are made to show nothing, the fillers of Hangul. -/
def fillers : List Char := ['\u115f', '\u1160', '\u3164', '\uffa0']

/-- The letters among the characters that extend the one before: the halfwidth sound marks of
Katakana, which take a place of their own on the line. -/
def soundMarks : List Char := ['\uff9e', '\uff9f']

/-- A character that is drawn onto the one before it. -/
def isDrawnOver (c : Char) : Bool := isExtender c && !soundMarks.contains c

/-- A character that is shown as it is. -/
def isShown (c : Char) : Bool :=
  c == ' ' || !(isBlank c || isOther c || isDrawnOver c || fillers.contains c)

/-- The characters that stand for one character between the quotes. -/
def quoteChar (c : Char) : List Char :=
  if c = '"' then ['\\', '"']
  else if c = '\\' then ['\\', '\\']
  else if c = '\t' then ['\\', 't']
  else if c = '\n' then ['\\', 'n']
  else if c = '\r' then ['\\', 'r']
  else if c = '\x00' then ['\\', '0']
  else if isShown c then [c]
  else ['\\', 'u', '\x7b'] ++ Nat.toDigits 16 c.toNat ++ ['\x7d']

/-- The text between double quotes. -/
def quoted (s : String) : String :=
  "\"" ++ String.ofList (s.toList.flatMap quoteChar) ++ "\""

end FleetUpdate.Text
