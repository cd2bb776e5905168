import FleetUpdate.Policy
import FleetUpdate.Text.Numeral

/-!
# Settings

The engine is configured by six environment variables.  A variable that is unset, blank or not text
leaves the default; blanks around a value do not count.  A value that is not of its kind is an error
that names the variable and quotes the value as it stands.  The address of the database is taken as
it stands, and the weight flag is off unless it is plainly on.
-/

namespace FleetUpdate

/-- Why the settings cannot be used. -/
inductive ConfigError where
  | missing (key : String)
  | invalid (key value : String)
  deriving DecidableEq

/-- The text of the error. -/
def ConfigError.message : ConfigError → String
  | missing key => "missing required env: " ++ key
  | invalid key value => "invalid value for " ++ key ++ ": " ++ value

/-- The value of an environment variable, which need not be text. -/
inductive EnvValue where
  | text (s : String)
  | undecodable
  deriving DecidableEq

/-- The variables that are set. -/
abbrev Environment := List (String × EnvValue)

/-- The text of a variable; one that is not text counts as unset. -/
def Environment.text? (env : Environment) (key : String) : Option String :=
  match env.lookup key with
  | some (.text s) => some s
  | _ => none

/-- The settings of the engine. -/
structure Settings where
  /-- Where the database is; without one the store is in memory. -/
  databaseUrl : Option String
  maxConnections : Nat
  policy : Policy
  deriving DecidableEq

namespace Settings

/-- The settings that hold when nothing is configured. -/
def standard : Settings := ⟨none, 8, .standard⟩

/-- The policy in force: a batch has at least one target. -/
def effectivePolicy (s : Settings) : Policy := { s.policy with maxEntries := s.policy.batchSize }

/-- The names of the variables. -/
def databaseUrlKey : String := "FOTA_DATABASE_URL"
def maxConnectionsKey : String := "FOTA_DB_MAX_CONNECTIONS"
def maxEntriesKey : String := "FOTA_MAX_ENTRIES_IN_STATEMENT"
def maxActionsKey : String := "FOTA_MAX_ACTIONS_PER_TARGET"
def supersedeKey : String := "FOTA_SUPERSEDE_MODE"
def weightRequiredKey : String := "FOTA_WEIGHT_REQUIRED"

/-- Reads a variable of some kind, given how to read its text without the blanks around it. -/
def readOr {α : Type} (env : Environment) (key : String) (dflt : α) (parse : String → Option α) :
    Except ConfigError α :=
  match env.text? key with
  | none => .ok dflt
  | some v =>
    if Text.allBlank v then .ok dflt
    else
      match parse (Text.trim v) with
      | some a => .ok a
      | none => .error (.invalid key v)

/-- The text of an unsigned number of the given number of bits. -/
def unsignedOf (bits : Nat) (s : String) : Option Nat := Text.unsigned? ((1 <<< bits) - 1) s.toList

/-- The address of the database, if there is one. -/
def readDatabaseUrl (env : Environment) : Option String :=
  (env.text? databaseUrlKey).filter fun s => s != ""

/-- The weight flag is on. -/
def readWeightRequired (env : Environment) : Bool :=
  match env.text? weightRequiredKey with
  | none => false
  | some v => ["1", "true", "on"].contains (String.ofList (v.toList.map Char.toLower))

/-- The size of a batch, which must not be zero. -/
def readMaxEntries (env : Environment) : Except ConfigError Nat := do
  let n ← readOr env maxEntriesKey Policy.standard.maxEntries (unsignedOf 64)
  if n = 0 then .error (.invalid maxEntriesKey "0") else .ok n

/-- Reads the settings; the first variable at fault, in the order of the fields, is reported. -/
def ofEnvironment (env : Environment) : Except ConfigError Settings := do
  let maxConnections ← readOr env maxConnectionsKey standard.maxConnections (unsignedOf 32)
  let maxEntries ← readMaxEntries env
  let maxActions ← readOr env maxActionsKey Policy.standard.maxActions (unsignedOf 64)
  let supersede ← readOr env supersedeKey Policy.standard.supersede SupersedeMode.ofText?
  .ok
    { databaseUrl := readDatabaseUrl env
      maxConnections := maxConnections
      policy := ⟨maxEntries, maxActions, supersede, readWeightRequired env⟩ }

end Settings

end FleetUpdate
