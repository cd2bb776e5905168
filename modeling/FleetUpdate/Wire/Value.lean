/-!
# Values on the wire

Records and events travel as JSON.  A value is a tree; a record keeps its fields in the order in
which they are written.  `Value.compact` is the one printer: no blanks, fields in their order, and
in texts only the double quote, the backslash and the controls are escaped.
-/

namespace FleetUpdate.Wire

/-- A JSON value.  Numbers are integers; a number written with a fraction or an exponent is kept as
its text, since no field takes one. -/
inductive Value where
  | null
  | bool (b : Bool)
  | int (n : Int)
  | fraction (text : String)
  | text (s : String)
  | list (vs : List Value)
  | record (fields : List (String × Value))
  deriving Inhabited

/-- The escape of a character in a text. -/
def escapeChar (c : Char) : List Char :=
  if c = '"' then ['\\', '"']
  else if c = '\\' then ['\\', '\\']
  else if c = '\x08' then ['\\', 'b']
  else if c = '\t' then ['\\', 't']
  else if c = '\n' then ['\\', 'n']
  else if c = '\x0c' then ['\\', 'f']
  else if c = '\r' then ['\\', 'r']
  else if c.toNat < 0x20 then
    ['\\', 'u', '0', '0', Nat.digitChar (c.toNat / 16), Nat.digitChar (c.toNat % 16)]
  else [c]

/-- A text between double quotes. -/
def quote (s : String) : String :=
  "\"" ++ String.ofList (s.toList.flatMap escapeChar) ++ "\""

namespace Value

mutual

/-- The text of a value. -/
def compact : Value → String
  | null => "null"
  | bool true => "true"
  | bool false => "false"
  | int n => toString n
  | fraction t => t
  | text s => quote s
  | list vs => "[" ++ String.intercalate "," (compactAll vs) ++ "]"
  | record fs => "\x7b" ++ String.intercalate "," (compactFields fs) ++ "\x7d"

/-- The texts of the elements of a list. -/
def compactAll : List Value → List String
  | [] => []
  | v :: vs => compact v :: compactAll vs

/-- The texts of the fields of a record. -/
def compactFields : List (String × Value) → List String
  | [] => []
  | (k, v) :: fs => (quote k ++ ":" ++ compact v) :: compactFields fs

end

/-- A value that may be missing; what is missing is null. -/
def ofOption {α : Type} (f : α → Value) : Option α → Value
  | none => null
  | some a => f a

/-- A list of values. -/
def ofList {α : Type} (f : α → Value) (as : List α) : Value := list (as.map f)

end Value

end FleetUpdate.Wire
