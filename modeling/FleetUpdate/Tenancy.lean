/-!
# Tenants, users and audit data

Every call names the tenant whose data it works on and the user on whose behalf it runs.  Every
stored row remembers who created it and who changed it last, and when.
-/

namespace FleetUpdate

/-- An instant, in milliseconds since the start of 1970 in UTC; it may lie before. -/
abbrev Instant := Int

/-- The tenant and the user of a call. -/
structure Context where
  tenantId : String
  userId : String
  deriving DecidableEq

namespace Context

/-- The context of work that no user asked for, such as the reports of devices. -/
def system (tenantId : String) : Context := ⟨tenantId, "system"⟩

/-- The context that names nobody. -/
def empty : Context := ⟨"", ""⟩

end Context

/-- Who created a row and who changed it last, and when. -/
structure Audit where
  createdBy : String
  createdAt : Instant
  lastModifiedBy : String
  lastModifiedAt : Instant
  deriving DecidableEq

namespace Audit

/-- The audit data of a new row. -/
def created (user : String) (now : Instant) : Audit := ⟨user, now, user, now⟩

/-- Notes a change; the creation stays as it is. -/
def touch (a : Audit) (user : String) (now : Instant) : Audit :=
  { a with lastModifiedBy := user, lastModifiedAt := now }

end Audit

/-- The clock as rows and logs record it: a clock before 1970 counts as 1970. -/
def epochMillis (clock : Instant) : Instant := max 0 clock

end FleetUpdate
