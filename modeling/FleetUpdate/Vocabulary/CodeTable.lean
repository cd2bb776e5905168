/-!
# Code tables

Every value of a closed vocabulary is stored as an integer code.  A code table is built once from
the listed values; building fails as soon as a value has the code of an earlier one, and names
both.  Decoding a code that no value has is an error, never a default.
-/

namespace FleetUpdate

/-- Why a code or a name does not stand for a value. -/
inductive VocabularyError where
  /-- Two listed values have one code; `first` stands earlier in the list. -/
  | duplicateCode (kind : String) (code : Int) (first second : String)
  | unknownCode (kind : String) (code : Int)
  | unknownName (kind : String) (name : String)
  deriving DecidableEq

namespace VocabularyError

/-- The text of the error. -/
def message : VocabularyError → String
  | duplicateCode kind code first second =>
    "duplicate " ++ kind ++ " code " ++ toString code ++ ": " ++ first ++ " and " ++ second
  | unknownCode kind code => "unknown " ++ kind ++ " code: " ++ toString code
  | unknownName kind name => "unknown " ++ kind ++ " name: " ++ name

end VocabularyError

/-- A table from codes to values, in the order in which the values were listed. -/
structure CodeTable (α : Type) where
  kind : String
  entries : List (Int × α)

namespace CodeTable

variable {α : Type}

/-- Extends `entries` by the values one after the other, up to the first repeated code. -/
def extend (kind : String) (describe : α → String) (codeOf : α → Int)
    (entries : List (Int × α)) : List α → Except VocabularyError (CodeTable α)
  | [] => .ok ⟨kind, entries⟩
  | v :: vs =>
    match entries.lookup (codeOf v) with
    | some u => .error (.duplicateCode kind (codeOf v) (describe u) (describe v))
    | none => extend kind describe codeOf (entries ++ [(codeOf v, v)]) vs

/-- The table of the listed values; `describe` gives the text of a value in an error. -/
def build (kind : String) (describe : α → String) (values : List α) (codeOf : α → Int) :
    Except VocabularyError (CodeTable α) :=
  extend kind describe codeOf [] values

/-- The value that has the code. -/
def decode (t : CodeTable α) (code : Int) : Except VocabularyError α :=
  match t.entries.lookup code with
  | some v => .ok v
  | none => .error (.unknownCode t.kind code)

/-- The number of values in the table. -/
def size (t : CodeTable α) : Nat := t.entries.length

/-- A table of no values. -/
def isEmpty (t : CodeTable α) : Bool := t.entries.isEmpty

end CodeTable

end FleetUpdate
