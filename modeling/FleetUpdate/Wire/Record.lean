import FleetUpdate.Action
import FleetUpdate.DistributionSet
import FleetUpdate.Target
import FleetUpdate.Wire.Decode

/-!
# Records on the wire

Each stored record has one written form, with all its fields, and a reader that takes that form and
the looser ones of `Fields`.
-/

namespace FleetUpdate

open Wire

namespace Wire

/-- An optional integer. -/
def optInt (n : Option Int) : Value := .ofOption .int n

/-- An optional text. -/
def optText (s : Option String) : Value := .ofOption .text s

end Wire

namespace Audit

/-- The written form of audit data. -/
def toValue (a : Audit) : Value :=
  .record [("created_by", .text a.createdBy), ("created_at_ms", .int a.createdAt),
    ("last_modified_by", .text a.lastModifiedBy), ("last_modified_at_ms", .int a.lastModifiedAt)]

/-- Reads audit data. -/
def ofValue? (v : Value) : Option Audit := do
  let fs ← Fields.ofValue
    ["created_by", "created_at_ms", "last_modified_by", "last_modified_at_ms"] v
  some
    { createdBy := ← fs.get "created_by" .text
      createdAt := ← fs.get "created_at_ms" .int64
      lastModifiedBy := ← fs.get "last_modified_by" .text
      lastModifiedAt := ← fs.get "last_modified_at_ms" .int64 }

end Audit

namespace MaintenanceSpec

/-- The written form of a maintenance specification. -/
def toValue (s : MaintenanceSpec) : Value :=
  .record [("schedule", .text s.schedule), ("duration", .text s.duration),
    ("timezone", .text s.timezone)]

/-- Reads a maintenance specification. -/
def ofValue? (v : Value) : Option MaintenanceSpec := do
  let fs ← Fields.ofValue ["schedule", "duration", "timezone"] v
  some
    { schedule := ← fs.get "schedule" .text
      duration := ← fs.get "duration" .text
      timezone := ← fs.get "timezone" .text }

end MaintenanceSpec

namespace Target

/-- The written form of a target. -/
def toValue (t : Target) : Value :=
  .record [("tenant_id", .text t.tenantId), ("controller_id", .text t.controllerId),
    ("name", .text t.name), ("description", optText t.description),
    ("assigned_ds_id", optInt t.assigned), ("installed_ds_id", optInt t.installed),
    ("install_date_ms", optInt t.installedAt), ("update_status", .text t.updateStatus.name),
    ("last_target_query_ms", optInt t.lastContact), ("revision", .int t.revision),
    ("audit", t.audit.toValue)]

/-- Reads a target. -/
def ofValue? (v : Value) : Option Target := do
  let fs ← Fields.ofValue
    ["tenant_id", "controller_id", "name", "description", "assigned_ds_id", "installed_ds_id",
     "install_date_ms", "update_status", "last_target_query_ms", "revision", "audit"] v
  some
    { tenantId := ← fs.get "tenant_id" .text
      controllerId := ← fs.get "controller_id" .text
      name := ← fs.get "name" .text
      description := ← fs.get? "description" .text
      assigned := ← fs.get? "assigned_ds_id" .int64
      installed := ← fs.get? "installed_ds_id" .int64
      installedAt := ← fs.get? "install_date_ms" .int64
      updateStatus := ← fs.get "update_status" (.named UpdateStatus.vocabulary)
      lastContact := ← fs.get? "last_target_query_ms" .int64
      revision := ← fs.get "revision" .int64
      audit := ← fs.get "audit" Audit.ofValue? }

end Target

namespace DistributionSet

/-- The written form of a distribution set. -/
def toValue (d : DistributionSet) : Value :=
  .record [("tenant_id", .text d.tenantId), ("ds_id", .int d.id), ("name", .text d.name),
    ("version", .text d.version), ("type_key", .text d.typeKey),
    ("required_module_types", .ofList .text d.requiredModules),
    ("module_types", .ofList .text d.modules), ("complete", .bool d.complete),
    ("deleted", .bool d.deleted), ("revision", .int d.revision), ("audit", d.audit.toValue)]

/-- Reads a distribution set. -/
def ofValue? (v : Value) : Option DistributionSet := do
  let fs ← Fields.ofValue
    ["tenant_id", "ds_id", "name", "version", "type_key", "required_module_types", "module_types",
     "complete", "deleted", "revision", "audit"] v
  some
    { tenantId := ← fs.get "tenant_id" .text
      id := ← fs.get "ds_id" .int64
      name := ← fs.get "name" .text
      version := ← fs.get "version" .text
      typeKey := ← fs.get "type_key" .text
      requiredModules := ← fs.get "required_module_types" (.listOf .text)
      modules := ← fs.get "module_types" (.listOf .text)
      complete := ← fs.get "complete" .bool
      deleted := ← fs.get "deleted" .bool
      revision := ← fs.get "revision" .int64
      audit := ← fs.get "audit" Audit.ofValue? }

end DistributionSet

namespace Action

/-- The written form of an action. -/
def toValue (a : Action) : Value :=
  .record [("tenant_id", .text a.tenantId), ("action_id", .int a.id),
    ("controller_id", .text a.controllerId), ("ds_id", .int a.setId), ("active", .bool a.active),
    ("status", .text a.status.name), ("action_type", .text a.actionType.name),
    ("forced_time_ms", optInt a.forcedTime), ("weight", optInt a.weight),
    ("maintenance", .ofOption MaintenanceSpec.toValue a.maintenance),
    ("last_status_code", optInt a.lastCode), ("rollout_id", optInt a.rolloutId),
    ("rollout_group_id", optInt a.rolloutGroupId), ("initiated_by", .text a.initiatedBy),
    ("revision", .int a.revision), ("audit", a.audit.toValue)]

/-- Reads an action. -/
def ofValue? (v : Value) : Option Action := do
  let fs ← Fields.ofValue
    ["tenant_id", "action_id", "controller_id", "ds_id", "active", "status", "action_type",
     "forced_time_ms", "weight", "maintenance", "last_status_code", "rollout_id",
     "rollout_group_id", "initiated_by", "revision", "audit"] v
  some
    { tenantId := ← fs.get "tenant_id" .text
      id := ← fs.get "action_id" .int64
      controllerId := ← fs.get "controller_id" .text
      setId := ← fs.get "ds_id" .int64
      active := ← fs.get "active" .bool
      status := ← fs.get "status" (.named ActionStatus.vocabulary)
      actionType := ← fs.get "action_type" (.named ActionType.vocabulary)
      forcedTime := ← fs.get? "forced_time_ms" .int64
      weight := ← fs.get? "weight" .int32
      maintenance := ← fs.get? "maintenance" MaintenanceSpec.ofValue?
      lastCode := ← fs.get? "last_status_code" .int32
      rolloutId := ← fs.get? "rollout_id" .int64
      rolloutGroupId := ← fs.get? "rollout_group_id" .int64
      initiatedBy := ← fs.get "initiated_by" .text
      revision := ← fs.get "revision" .int64
      audit := ← fs.get "audit" Audit.ofValue? }

end Action

namespace StatusEntry

/-- The written form of a log entry. -/
def toValue (e : StatusEntry) : Value :=
  .record [("tenant_id", .text e.tenantId), ("status_id", .int e.id),
    ("action_id", .int e.actionId), ("status", .text e.status.name), ("ts_ms", .int e.time),
    ("messages", .ofList .text e.messages), ("code", optInt e.code)]

/-- Reads a log entry. -/
def ofValue? (v : Value) : Option StatusEntry := do
  let fs ← Fields.ofValue
    ["tenant_id", "status_id", "action_id", "status", "ts_ms", "messages", "code"] v
  some
    { tenantId := ← fs.get "tenant_id" .text
      id := ← fs.get "status_id" .int64
      actionId := ← fs.get "action_id" .int64
      status := ← fs.get "status" (.named ActionStatus.vocabulary)
      time := ← fs.get "ts_ms" .int64
      messages := ← fs.get "messages" (.listOf .text)
      code := ← fs.get? "code" .int32 }

end StatusEntry

namespace ActionSummary

/-- The written form of an action in a list. -/
def toValue (s : ActionSummary) : Value :=
  .record [("action", s.action.toValue), ("ds_name", .text s.setName),
    ("ds_version", .text s.setVersion), ("status_count", .int s.logLength)]

/-- Reads an action in a list. -/
def ofValue? (v : Value) : Option ActionSummary := do
  let fs ← Fields.ofValue ["action", "ds_name", "ds_version", "status_count"] v
  some
    { action := ← fs.get "action" Action.ofValue?
      setName := ← fs.get "ds_name" .text
      setVersion := ← fs.get "ds_version" .text
      logLength := ← fs.get "status_count" .int64 }

end ActionSummary

end FleetUpdate
