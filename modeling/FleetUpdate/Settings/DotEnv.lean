import FleetUpdate.Settings.Basic
import FleetUpdate.Settings.DotEnv.Statement
import FleetUpdate.Settings.DotEnv.Value

/-!
# Settings in a file

A file in the working directory may set variables that the environment does not set.  Each
statement binds one variable, possibly after the word `export`; empty statements and remarks say
nothing.  A value may refer to variables of the environment and to those that were bound before.
Reading ends at the first statement that is none of these, and what was read before it holds.
-/

namespace FleetUpdate.DotEnv

open Text

/-- What a statement says. -/
inductive Statement where
  | nothing
  | binding (key value : String)
  | malformed
  deriving DecidableEq

/-- A letter or an underscore, which may begin the name of a variable. -/
def beginsName (c : Char) : Bool := c.isAlpha || c == '_'

/-- A character in the name of a variable. -/
def inName (c : Char) : Bool := c.isAlphanum || c == '_' || c == '.'

/-- The name at the start of a text, and what follows it. -/
def name? : List Char → Option (List Char × List Char)
  | [] => none
  | c :: r =>
    if beginsName c then some ((c :: r).takeWhile inName, (c :: r).dropWhile inName) else none

/-- The text without the blanks before it. -/
def skipBlanks (cs : List Char) : List Char := cs.dropWhile isBlank

/-- The value of a variable; one that is not known is empty. -/
def valueIn (env : Environment) (name : List Char) : List Char :=
  ((env.text? (String.ofList name)).getD "").toList

/-- Reads the rest of a statement after the name of its variable. -/
def bindingOf (env : Environment) (key rest : List Char) : Statement :=
  match skipBlanks rest with
  | '=' :: r =>
    match skipBlanks r with
    | '#' :: _ => .binding (String.ofList key) ""
    | r =>
      match value? (valueIn env) r with
      | some v => .binding (String.ofList key) (String.ofList v)
      | none => .malformed
  | _ => .malformed

/-- Reads a statement; its value may refer to the variables of an environment. -/
def Statement.ofChars (env : Environment) (cs : List Char) : Statement :=
  match trimChars cs with
  | [] => .nothing
  | '#' :: _ => .nothing
  | cs =>
    match name? cs with
    | none => .malformed
    | some (key, rest) =>
      -- a variable may itself be called `export`
      if key = "export".toList ∧ (skipBlanks rest).head? ≠ some '=' then
        match name? (skipBlanks rest) with
        | none => .malformed
        | some (key, rest) => bindingOf env key rest
      else bindingOf env key rest

/-- Sets a variable that has no text yet. -/
def define (env : Environment) (key value : String) : Environment :=
  if (env.text? key).isSome then env else (key, .text value) :: env

/-- The environment after the statements up to the first malformed one. -/
def loadStatements (env : Environment) : List (List Char) → Environment
  | [] => env
  | s :: ss =>
    match Statement.ofChars env s with
    | .nothing => loadStatements env ss
    | .binding key value => loadStatements (define env key value) ss
    | .malformed => env

/-- The environment together with what a file sets. -/
def load (env : Environment) (file : String) : Environment :=
  loadStatements env (statements file.toList)

end FleetUpdate.DotEnv
