import FleetUpdate.Proofs.Store.Rows

/-!
# What a committed change writes

`Store.Accepts` says which changes the store accepts, and `Store.written` what it holds afterwards:
the target with its new state, the rows of the updated actions rewritten in place, the new actions
and log entries at the end of their tables, under the next ids.

Rewriting a row keeps its id, its owner and its distribution set.  What a change does to an action
is decided by the update that names it (`TargetChange.writeAction_of_mem`), and each rewriting
raises the revision (`TargetChange.revision_lt_writeAction`).
-/

namespace FleetUpdate

/-! ## The rows that a change writes -/

/-- The row of an action after an update; an update is about one action only. -/
def ActionUpdate.writeTo (u : ActionUpdate) (ctx : Context) (now : Instant) (a : Action) : Action :=
  if a.id = u.actionId then
    { a with
      status := u.status
      active := u.active
      actionType := u.actionType
      lastCode := u.lastCode
      revision := a.revision + 1
      audit := a.audit.touch ctx.userId now }
  else a

/-- The row of a new action under the id that it gets. -/
def NewAction.row (n : NewAction) (ctx : Context) (now : Instant) (controllerId : String)
    (id : Int) : Action :=
  { tenantId := ctx.tenantId
    id := id
    controllerId := controllerId
    setId := n.setId
    active := true
    status := n.status
    actionType := n.actionType
    forcedTime := n.forcedTime
    weight := n.weight
    maintenance := n.maintenance
    lastCode := none
    rolloutId := n.rolloutId
    rolloutGroupId := n.rolloutGroupId
    initiatedBy := n.initiatedBy
    revision := 1
    audit := Audit.created ctx.userId now }

/-- The id of the action that a log entry belongs to, when `last` was the last id issued before. -/
def ActionRef.resolve (last : Int) : ActionRef → Int
  | .existing a => a
  | .created i => last + 1 + i

/-- The row of a log entry under the id that it gets. -/
def NewStatusEntry.row (e : NewStatusEntry) (ctx : Context) (lastAction id : Int) : StatusEntry :=
  { tenantId := ctx.tenantId
    id := id
    actionId := e.action.resolve lastAction
    status := e.status
    time := e.time
    messages := e.messages
    code := e.code }

namespace TargetChange

/-- The row of a target after a change. -/
def writeTarget (c : TargetChange) (ctx : Context) (now : Instant) (t : Target) : Target :=
  if t.key = (ctx.tenantId, c.controllerId) then
    { t.withState (c.targetState.getD t.state) with
      revision := t.revision + 1
      audit := t.audit.touch ctx.userId now }
  else t

/-- The row of an action after a change: all updates of the change in turn. -/
def writeAction (c : TargetChange) (ctx : Context) (now : Instant) (a : Action) : Action :=
  c.actionUpdates.foldl (fun a u => u.writeTo ctx now a) a

end TargetChange

namespace Store

/-- The actions that a change creates. -/
def createdBy (s : Store) (ctx : Context) (now : Instant) (c : TargetChange) : List Action :=
  c.newActions.mapIdx fun i n => n.row ctx now c.controllerId (s.lastActionId + 1 + i)

/-- The log entries that a change appends. -/
def entriesBy (s : Store) (ctx : Context) (c : TargetChange) : List StatusEntry :=
  c.entries.mapIdx fun i e => e.row ctx s.lastActionId (s.lastEntryId + 1 + i)

/-- The store after a change. -/
def written (s : Store) (ctx : Context) (now : Instant) (c : TargetChange) : Store :=
  { s with
    targets := s.targets.map (c.writeTarget ctx now)
    actions := s.actions.map (c.writeAction ctx now) ++ s.createdBy ctx now c
    log := s.log ++ s.entriesBy ctx c
    lastActionId := s.lastActionId + c.newActions.length
    lastEntryId := s.lastEntryId + c.entries.length }

end Store

/-! ## Rewriting a row keeps what identifies it -/

section Keep

variable (ctx : Context) (now : Instant)

@[simp] theorem ActionUpdate.writeTo_id (u : ActionUpdate) (a : Action) :
    (u.writeTo ctx now a).id = a.id := by
  unfold writeTo
  split <;> rfl

@[simp] theorem ActionUpdate.writeTo_owner (u : ActionUpdate) (a : Action) :
    (u.writeTo ctx now a).owner = a.owner := by
  unfold writeTo
  split <;> rfl

@[simp] theorem ActionUpdate.writeTo_setId (u : ActionUpdate) (a : Action) :
    (u.writeTo ctx now a).setId = a.setId := by
  unfold writeTo
  split <;> rfl

variable {ctx now} in
theorem ActionUpdate.writeTo_active {u : ActionUpdate} {a : Action} (h : u.actionId = a.id) :
    (u.writeTo ctx now a).active = u.active := by
  rw [writeTo, if_pos h.symm]

@[simp] theorem TargetChange.writeTarget_key (c : TargetChange) (t : Target) :
    (c.writeTarget ctx now t).key = t.key := by
  unfold writeTarget
  split <;> rfl

variable {ctx now}

theorem TargetChange.state_writeTarget {c : TargetChange} {t : Target}
    (h : t.key = (ctx.tenantId, c.controllerId)) :
    (c.writeTarget ctx now t).state = c.targetState.getD t.state := by
  rw [writeTarget, if_pos h]
  exact Target.state_withState t _

/-- What no single update changes, all updates of a change together do not change. -/
theorem TargetChange.writeAction_induction {c : TargetChange} {P : Action → Prop} {a : Action}
    (ha : P a) (hu : ∀ u ∈ c.actionUpdates, ∀ b, P b → P (u.writeTo ctx now b)) :
    P (c.writeAction ctx now a) := by
  unfold writeAction
  generalize c.actionUpdates = us at hu
  induction us generalizing a with
  | nil => exact ha
  | cons u us ih =>
    exact ih (hu u (by simp) a ha) fun v hv => hu v (List.mem_cons_of_mem u hv)

@[simp] theorem TargetChange.writeAction_id (c : TargetChange) (a : Action) :
    (c.writeAction ctx now a).id = a.id :=
  writeAction_induction (P := fun b => b.id = a.id) rfl fun u _ b hb => by simpa using hb

@[simp] theorem TargetChange.writeAction_owner (c : TargetChange) (a : Action) :
    (c.writeAction ctx now a).owner = a.owner :=
  writeAction_induction (P := fun b => b.owner = a.owner) rfl fun u _ b hb => by simpa using hb

@[simp] theorem TargetChange.writeAction_setId (c : TargetChange) (a : Action) :
    (c.writeAction ctx now a).setId = a.setId :=
  writeAction_induction (P := fun b => b.setId = a.setId) rfl fun u _ b hb => by simpa using hb

/-- An action that no update names stays as it is. -/
theorem TargetChange.writeAction_of_forall_ne {c : TargetChange} {a : Action}
    (h : ∀ u ∈ c.actionUpdates, u.actionId ≠ a.id) : c.writeAction ctx now a = a := by
  refine writeAction_induction (P := fun b => b = a) rfl ?_
  rintro u hu b rfl
  exact if_neg fun hb => h u hu hb.symm

/-- Where no action is updated twice, an update alone decides about the action it names. -/
theorem TargetChange.writeAction_of_mem {c : TargetChange}
    (hnodup : (c.actionUpdates.map ActionUpdate.actionId).Nodup) {u : ActionUpdate}
    (hu : u ∈ c.actionUpdates) {a : Action} (hid : u.actionId = a.id) :
    c.writeAction ctx now a = u.writeTo ctx now a := by
  unfold writeAction
  generalize c.actionUpdates = us at hnodup hu
  induction us with
  | nil => cases hu
  | cons v us ih =>
    rw [List.map_cons, List.nodup_cons] at hnodup
    rw [List.foldl_cons]
    rcases List.mem_cons.mp hu with rfl | hu
    · -- those after it name other actions
      refine writeAction_of_forall_ne (c := ⟨"", 0, none, [], us, []⟩) fun w hw hwid => ?_
      apply hnodup.1
      rw [List.mem_map]
      exact ⟨w, hw, by rw [hwid, ActionUpdate.writeTo_id, hid]⟩
    · have hne : a.id ≠ v.actionId := by
        intro h
        apply hnodup.1
        rw [← h, ← hid]
        exact List.mem_map_of_mem hu
      rw [ActionUpdate.writeTo, if_neg hne]
      exact ih hnodup.2 hu

/-- An action that some update names gets a greater revision. -/
theorem TargetChange.revision_lt_writeAction {c : TargetChange} {a : Action}
    (h : ∃ u ∈ c.actionUpdates, u.actionId = a.id) :
    a.revision < (c.writeAction ctx now a).revision := by
  have step (u : ActionUpdate) (b : Action) : b.revision ≤ (u.writeTo ctx now b).revision := by
    unfold ActionUpdate.writeTo
    split
    · exact Int.le_add_of_nonneg_right (by decide)
    · exact Int.le_refl _
  obtain ⟨u, hu, hid⟩ := h
  unfold writeAction
  obtain ⟨us, vs, hsplit⟩ := List.append_of_mem hu
  rw [hsplit, List.foldl_append, List.foldl_cons]
  -- the update itself raises the revision, and those before and after do not lower it
  have mono (ws : List ActionUpdate) (b : Action) :
      b.revision ≤ (ws.foldl (fun a u => u.writeTo ctx now a) b).revision := by
    induction ws generalizing b with
    | nil => exact Int.le_refl _
    | cons w ws ih => exact Int.le_trans (step w b) (ih _)
  have same (ws : List ActionUpdate) (b : Action) :
      (ws.foldl (fun a u => u.writeTo ctx now a) b).id = b.id := by
    induction ws generalizing b with
    | nil => rfl
    | cons w ws ih => exact (ih _).trans (by simp)
  set b := us.foldl (fun a u => u.writeTo ctx now a) a with hb
  have hraise : (u.writeTo ctx now b).revision = b.revision + 1 := by
    rw [ActionUpdate.writeTo, if_pos (by rw [hb, same, hid])]
  have h₁ : a.revision ≤ b.revision := mono us a
  have h₂ := mono vs (u.writeTo ctx now b)
  omega

end Keep

end FleetUpdate
