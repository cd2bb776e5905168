import FleetUpdate.Vocabulary.Basic
import FleetUpdate.Wire.Value

/-!
# Reading fields

Reading a record looks only at the fields that the record has.  A field that may be missing is
absent or null; any other field must be there with a value of its kind, and an integer must fit its
width.  A record may also be written as the list of all its fields in order.
-/

namespace FleetUpdate.Wire

/-- A reader of values of one kind. -/
abbrev Reader (α : Type) := Value → Option α

namespace Reader

def bool : Reader Bool
  | .bool b => some b
  | _ => none

def text : Reader String
  | .text s => some s
  | _ => none

/-- An integer of a signed width, given by the number of bits besides the sign. -/
def signed (bits : Nat) : Reader Int
  | .int n => if -(1 <<< bits : Nat) ≤ n ∧ n < (1 <<< bits : Nat) then some n else none
  | _ => none

/-- A signed integer of 64 bits. -/
def int64 : Reader Int := signed 63

/-- A signed integer of 32 bits. -/
def int32 : Reader Int := signed 31

/-- An unsigned integer of 64 bits. -/
def nat64 : Reader Nat
  | .int n => if 0 ≤ n ∧ n < (1 <<< 64 : Nat) then some n.toNat else none
  | _ => none

/-- A list of values of one kind. -/
def listOf {α : Type} (r : Reader α) : Reader (List α)
  | .list vs => vs.mapM r
  | _ => none

/-- A value that may be null. -/
def orNull {α : Type} (r : Reader α) : Reader (Option α)
  | .null => some none
  | v => (r v).map some

/-- A value of a closed vocabulary, by its exact name; a name may also be the only field of a
record that holds nothing. -/
def named {α : Type} (v : Vocabulary α) : Reader α
  | .text s => v.ofExactName? s
  | .record [(s, .null)] => v.ofExactName? s
  | _ => none

end Reader

/-- The fields of a record that has been found on the wire. -/
abbrev Fields := List (String × Value)

namespace Fields

/-- The fields of a value, given their names in order. -/
def ofValue (names : List String) : Value → Option Fields
  | .record fs => some fs
  | .list vs => if vs.length = names.length then some (names.zip vs) else none
  | _ => none

/-- A field that must be there. -/
def get {α : Type} (fs : Fields) (name : String) (r : Reader α) : Option α :=
  (fs.lookup name).bind r

/-- A field that may be missing. -/
def get? {α : Type} (fs : Fields) (name : String) (r : Reader α) : Option (Option α) :=
  match fs.lookup name with
  | none => some none
  | some v => Reader.orNull r v

end Fields

end FleetUpdate.Wire
