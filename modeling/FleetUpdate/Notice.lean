import FleetUpdate.Event.Basic
import FleetUpdate.Policy

/-!
# Log notices

What a call writes to the log is a notice of something that happened, not a line of text.  Each
notice has a level, a message and fields; `Notice.record` is the one place that knows them.
-/

namespace FleetUpdate

open Wire (Value)

/-- Something that is worth a line in the log. -/
inductive Notice where
  | runtimeReady (backend : String) (p : Policy)
  | assignmentRequested (tenantId : String) (setId : Int) (t : ActionType) (targets : Nat)
  | setIncomplete (tenantId : String) (setId : Int)
  | targetFailed (tenantId controllerId : String) (setId : Int) (error : String)
  | batchCommitted (index size assigned : Nat)
  | assignmentCompleted (tenantId : String) (setId : Int) (assigned already failed : Nat)
  | changeConflict (tenantId controllerId error : String)
  | actionCanceled (tenantId controllerId : String) (actionId : Int) (s : ActionStatus)
      (actor : String)
  | actionForceQuit (tenantId controllerId : String) (actionId : Int) (actor : String)
  | actionForced (tenantId controllerId : String) (actionId : Int)
  | statusRecalculated (tenantId controllerId : String) (s : UpdateStatus)
  | targetRegistered (tenantId controllerId : String)
  | statusUpdated (tenantId controllerId : String) (actionId : Int)
      (reported status : ActionStatus) (active : Bool)
  | cancelFeedback (tenantId controllerId : String) (actionId : Int)
      (reported status : ActionStatus)
  | actionConfirmed (tenantId controllerId : String) (actionId : Int) (actor : String)
  | actionDenied (tenantId controllerId : String) (actionId : Int) (actor : String)
  | event (e : Event)

/-- How much attention a line of the log asks for. -/
inductive LogLevel where
  | debug
  | info
  | warn
  deriving DecidableEq

/-- The name of a level. -/
def LogLevel.name : LogLevel → String
  | debug => "DEBUG"
  | info => "INFO"
  | warn => "WARN"

/-- A line of the log. -/
structure LogRecord where
  level : LogLevel
  message : String
  fields : List (String × Value)

namespace Notice

/-- The fields that name a tenant and one of its targets. -/
def onTarget (tenantId controllerId : String) : List (String × Value) :=
  [("tenant_id", .text tenantId), ("controller_id", .text controllerId)]

/-- The fields that name an action of a target. -/
def onAction (tenantId controllerId : String) (actionId : Int) : List (String × Value) :=
  onTarget tenantId controllerId ++ [("action_id", .int actionId)]

/-- The fields that name a tenant and one of its distribution sets. -/
def onSet (tenantId : String) (setId : Int) : List (String × Value) :=
  [("tenant_id", .text tenantId), ("ds_id", .int setId)]

/-- The line that a notice makes. -/
def record : Notice → LogRecord
  | runtimeReady b p =>
    ⟨.info, "deployment_runtime_ready",
      [("backend", .text b), ("supersede_mode", .text p.supersede.name),
        ("max_entries_in_statement", .int p.maxEntries),
        ("max_actions_per_target", .int p.maxActions)]⟩
  | assignmentRequested t d a n =>
    ⟨.info, "assignment_requested",
      onSet t d ++ [("action_type", .text a.name), ("targets", .int n)]⟩
  | setIncomplete t d => ⟨.warn, "assignment_rejected_incomplete_distribution_set", onSet t d⟩
  | targetFailed t c d e =>
    ⟨.warn, "target_assignment_failed",
      onTarget t c ++ [("ds_id", .int d), ("error", .text e)]⟩
  | batchCommitted i n a =>
    ⟨.debug, "assignment_batch_committed",
      [("chunk", .int i), ("chunk_size", .int n), ("assigned", .int a)]⟩
  | assignmentCompleted t d a b f =>
    ⟨.info, "assignment_completed",
      onSet t d ++ [("assigned", .int a), ("already_assigned", .int b), ("failed", .int f)]⟩
  | changeConflict t c e => ⟨.warn, "target_change_conflict", onTarget t c ++ [("error", .text e)]⟩
  | actionCanceled t c a s u =>
    ⟨.info, "action_canceled",
      onAction t c a ++ [("status", .text s.name), ("actor", .text u)]⟩
  | actionForceQuit t c a u => ⟨.info, "action_force_quit", onAction t c a ++ [("actor", .text u)]⟩
  | actionForced t c a => ⟨.info, "action_forced", onAction t c a⟩
  | statusRecalculated t c s =>
    ⟨.info, "target_status_recalculated", onTarget t c ++ [("update_status", .text s.name)]⟩
  | targetRegistered t c => ⟨.info, "target_registered", onTarget t c⟩
  | statusUpdated t c a r s b =>
    ⟨.debug, "action_status_updated",
      onAction t c a ++
        [("reported", .text r.name), ("status", .text s.name), ("active", .bool b)]⟩
  | cancelFeedback t c a r s =>
    ⟨.info, "action_cancel_feedback",
      onAction t c a ++ [("reported", .text r.name), ("status", .text s.name)]⟩
  | actionConfirmed t c a u => ⟨.info, "action_confirmed", onAction t c a ++ [("actor", .text u)]⟩
  | actionDenied t c a u => ⟨.info, "action_denied", onAction t c a ++ [("actor", .text u)]⟩
  | event e =>
    ⟨.info, "deployment_event",
      [("event_type", .text e.typeName), ("action_id", .int e.actionId),
        ("controller_id", .text e.controllerId), ("payload", .text e.text)]⟩

end Notice

/-- The extent of one assignment in the log.  It carries an identifier made up anew for each. -/
structure AssignmentSpan where
  tenantId : String
  setId : Int
  deriving DecidableEq

end FleetUpdate
