import FleetUpdate.Store.Error

/-!
# Errors of a database

A store that rests on a database passes its errors on.  Two of them have a meaning for callers: a
unique key that is taken already is a lost race, and a foreign key that leads nowhere is something
missing.  All others say that the store does not work.
-/

namespace FleetUpdate

/-- What a database, or the connection to it, reports. -/
inductive DatabaseError where
  | uniqueViolation (message : String)
  | foreignKeyViolation (message : String)
  /-- Any other error that the database itself reports. -/
  | refused (message : String)
  | rowNotFound
  | columnNotFound (name : String)
  | protocol (message : String)
  | poolTimedOut
  | poolClosed
  /-- The address of the database is no absolute address. -/
  | relativeAddress
  deriving DecidableEq

namespace DatabaseError

/-- The text of the error. -/
def message : DatabaseError → String
  | uniqueViolation m | foreignKeyViolation m | refused m =>
    "error returned from database: " ++ m
  | rowNotFound => "no rows returned by a query that expected to return at least one row"
  | columnNotFound n => "no column found for name: " ++ n
  | protocol m => "encountered unexpected or invalid data: " ++ m
  | poolTimedOut => "pool timed out while waiting for an open connection"
  | poolClosed => "attempted to acquire a connection on a closed pool"
  | relativeAddress => "error with configuration: relative URL without a base"

/-- The error as the store passes it on. -/
def toStorageError : DatabaseError → StorageError
  | uniqueViolation m => .reported .conflict m
  | foreignKeyViolation m => .reported .notFound m
  | e => .reported .backend e.message

end DatabaseError

end FleetUpdate
