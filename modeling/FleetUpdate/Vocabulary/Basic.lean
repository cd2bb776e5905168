import FleetUpdate.Text.Blank
import FleetUpdate.Vocabulary.CodeTable

/-!
# Closed vocabularies

The states of actions and targets and the types of actions are closed vocabularies: a list of
values, each with a name and a code.  The name is what records, events and messages show.  A name
is read without regard to letter case, and a hyphen or a space in it counts as an underscore; a
record, in contrast, holds the exact name.
-/

namespace FleetUpdate

/-- A closed vocabulary: its values in their listed order, with the name and the code of each. -/
structure Vocabulary (α : Type) where
  kind : String
  values : List α
  name : α → String
  code : α → Int

/-- The form in which names are compared: no blanks around it, underscores for hyphens and spaces,
upper case for the letters `a` to `z`. -/
def normalizeName (s : String) : String :=
  String.ofList ((Text.trimChars s.toList).map fun c =>
    if c = '-' ∨ c = ' ' then '_' else c.toUpper)

namespace Vocabulary

variable {α : Type}

/-- The value with exactly this name. -/
def ofExactName? (v : Vocabulary α) (name : String) : Option α :=
  v.values.find? fun x => v.name x == name

/-- The value a person means by a name. -/
def ofName (v : Vocabulary α) (text : String) : Except VocabularyError α :=
  match v.ofExactName? (normalizeName text) with
  | some x => .ok x
  | none => .error (.unknownName v.kind text)

/-- The code table of the vocabulary. -/
def codeTable (v : Vocabulary α) : Except VocabularyError (CodeTable α) :=
  CodeTable.build v.kind v.name v.values v.code

/-- The value stored as a code. -/
def ofCode (v : Vocabulary α) (code : Int) : Except VocabularyError α := do
  (← v.codeTable).decode code

end Vocabulary

end FleetUpdate
