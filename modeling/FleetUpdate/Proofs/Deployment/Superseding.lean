import FleetUpdate.Proofs.Deployment.Driving
import FleetUpdate.Proofs.Deployment.EachTarget
import FleetUpdate.Proofs.Deployment.Ended
import FleetUpdate.Proofs.Deployment.Unchanged
import FleetUpdate.Proofs.Lifecycle.Logged

/-!
# What a new assignment supersedes

An assignment leaves a target with one action that counts: the new one.  Whatever else was active is
canceled right away or is being canceled, which of the two the mode and the status of the action
decide (`Action.Superseded`), and only an action that is being canceled already is passed over while
the mode waits for the device.  The rows, the log and the published events tell the same: what has
changed is logged once and announced, and what is passed over, like what had ended before, is left
as it is (`assignment_supersedes`).
-/

namespace FleetUpdate

open Store

/-- An active action before and after it was superseded, with its log before and after, and the
events that were published in between. -/
structure Action.Superseded (mode : SupersedeMode) (a a' : Action) (log log' : List StatusEntry)
    (es : List Event) : Prop where
  revision : a'.revision ≠ a.revision
  /-- In the graceful mode, only what the device has not fetched is canceled without asking it. -/
  fate : if mode = .immediate ∨ a.status.isUndispatched = true
    then a'.active = false ∧ a'.status = .canceled
    else a'.active = true ∧ a'.status = .canceling
  logged : ∃ e, log' = log ++ [e] ∧ e.status = a'.status
  announced : es.filter (fun e => e.actionId == a.id) =
    [.actionUpdated a'.toEvent, .cancelTargetAssignment a'.toAssignmentEvent]

/-- What an assignment has left of a target that it lists as assigned, and published about it. -/
structure Store.Superseding (s : Store) (ctx : Context) (mode : SupersedeMode)
    (r : AssignmentRequest) (c : String) (s' : Store) (es : List Event) : Prop where
  /-- The target waits for the distribution set; what is installed is as it was. -/
  target : ∃ t t', s.target? ctx.tenantId c = some t ∧ s'.target? ctx.tenantId c = some t' ∧
    t'.assigned = some r.setId ∧ t'.updateStatus = .pending ∧ t'.installed = t.installed ∧
    t'.installedAt = t.installedAt ∧ t'.revision = t.revision + 1
  /-- One action is new, and any other that is active is being canceled. -/
  created : ∃ a, s.actionById? a.id = none ∧ a.setId = r.setId ∧
    a.status = initialStatus r.confirmationRequired ∧
    (∃ e, s'.logOf a.id = [e] ∧ e.status = a.status) ∧
    (s'.activeOf ctx.tenantId c).filter (fun b => b.status ≠ .canceling) = [a]
  superseded : ∀ a ∈ s.activeOf ctx.tenantId c, ¬(mode = .graceful ∧ a.status = .canceling) →
    ∃ a', s'.actionById? a.id = some a' ∧
      a.Superseded mode a' (s.logOf a.id) (s'.logOf a.id) es
  leftAlone : ∀ a ∈ s.actionsOf ctx.tenantId c,
    a.active = false ∨ mode = .graceful ∧ a.status = .canceling →
      s'.actionById? a.id = some a ∧ s'.logOf a.id = s.logOf a.id ∧
        es.filter (fun e => e.actionId == a.id) = []

/-- The mode spares an action unless it cancels it without asking the device. -/
theorem SupersedeMode.spares_eq_false_iff {mode : SupersedeMode} {a : Action} :
    mode.spares a = false ↔ mode = .immediate ∨ a.status.isUndispatched = true := by
  unfold spares
  cases mode <;> simp

variable {s s' : Store} {ctx : Context} {p : Policy} {r : AssignmentRequest} {now : Instant}
  {c : String} {change : TargetChange} {tr : Transition} {v : TargetView} {t : Target} {a : Action}
  {es : List Event}

/-! ## The commit for a target -/

namespace Store.PlannedCommit

/-- The change of an assignment is planned by it. -/
theorem exists_planAssignment (h : s.PlannedCommit ctx now (.assign p r) change tr v t) :
    ∃ time, tr = .assign (r.newAction ctx) p.supersede time ∧
      change = (planAssignment v (r.newAction ctx) p.supersede time).change := by
  obtain ⟨events, hp⟩ := h.plan
  cases h.plans with
  | assign => exact ⟨_, rfl, (congrArg Plan.change (Option.some.inj hp)).symm⟩

/-- The row of the target after the commit of an assignment. -/
theorem exists_row_of_assign (h : s.PlannedCommit ctx now (.assign p r) change tr v t) :
    ∃ t', (s.written ctx now change).target? ctx.tenantId change.controllerId = some t' ∧
      t'.assigned = some r.setId ∧ t'.updateStatus = .pending ∧ t'.installed = t.installed ∧
      t'.installedAt = t.installedAt ∧ t'.revision = t.revision + 1 := by
  obtain ⟨time, -, hchange⟩ := h.exists_planAssignment
  have hstate := h.state
  have hplan : change.targetState =
      some { v.target.state with assigned := some r.setId, updateStatus := .pending } := by
    rw [hchange]
    rfl
  rw [hplan, Option.getD_some] at hstate
  refine ⟨_, h.row, congrArg TargetState.assigned hstate, congrArg TargetState.updateStatus hstate,
    (congrArg TargetState.installed hstate).trans h.rests.installed.symm,
    (congrArg TargetState.installedAt hstate).trans h.rests.installedAt.symm, ?_⟩
  rw [TargetChange.writeTarget, if_pos (key_of_target? h.stored)]

/-- What the commit of an assignment does to an active action that it does not pass over. -/
theorem superseded (hs : s.Consistent) (h : s.PlannedCommit ctx now (.assign p r) change tr v t)
    (ha : a ∈ s.activeOf ctx.tenantId change.controllerId)
    (hover : p.supersede.passesOver a = false) :
    let a' := change.writeAction ctx now a
    a'.revision ≠ a.revision ∧ a'.active = p.supersede.spares a ∧
      a'.status = (if p.supersede.spares a then .canceling else .canceled) ∧
      ∃ e, (s.written ctx now change).logOf a.id = s.logOf a.id ++ [e] ∧ e.status = a'.status := by
  obtain ⟨events, hp⟩ := h.plan
  have hids := h.nodup hs
  have hmem : a ∈ s.actions := (mem_actionsOf.mp (mem_activeOf.mp ha).1).1
  obtain ⟨time, rfl, hchange⟩ := h.exists_planAssignment
  obtain ⟨u, hu, hid, hactive, hstatus⟩ :=
    exists_mem_updates_planAssignment (r.newAction ctx) time (h.active ▸ ha) hover
  rw [← hchange] at hu
  have hwrite : change.writeAction ctx now a = u.writeTo ctx now a :=
    TargetChange.writeAction_of_mem (Transition.nodup_updates hp hids) hu hid
  have hbecomes : (change.writeAction ctx now a).status = u.status := by
    rw [hwrite, ActionUpdate.writeTo, if_pos hid.symm]
  have hlt : a.revision < (change.writeAction ctx now a).revision :=
    TargetChange.revision_lt_writeAction ⟨u, hu, hid⟩
  refine ⟨Int.ne_of_gt hlt, ?_, hbecomes.trans hstatus, ?_⟩
  · rw [hwrite, ActionUpdate.writeTo_active hid, hactive]
  · -- the one entry of the plan for this action is appended to its log
    obtain ⟨added, hlog, hadded⟩ := exists_logOf_written_eq hs ctx now change hmem
    have hentries := Transition.statuses_of_updates hp hids hu
    rw [hid, ← hadded] at hentries
    obtain ⟨e, rfl, he⟩ := List.map_eq_singleton_iff.mp hentries
    exact ⟨e, hlog, he.trans hbecomes.symm⟩

/-- The commit of an assignment leaves alone what has ended, and what it passes over. -/
theorem leaves_alone (hs : s.Consistent) (h : s.PlannedCommit ctx now (.assign p r) change tr v t)
    (ha : a ∈ s.actionsOf ctx.tenantId change.controllerId)
    (hleft : a.active = false ∨ p.supersede.passesOver a = true) :
    change.writeAction ctx now a = a ∧ (s.written ctx now change).logOf a.id = s.logOf a.id := by
  obtain ⟨events, hp⟩ := h.plan
  have hmem := (mem_actionsOf.mp ha).1
  have hne : ∀ u ∈ change.actionUpdates, u.actionId ≠ a.id := by
    intro u hu hid
    obtain ⟨b, hb, hbid⟩ := h.updates u hu
    obtain ⟨hb, hactive⟩ := mem_activeOf.mp hb
    obtain rfl : b = a := hs.actions.eq_of_id_eq (mem_actionsOf.mp hb).1 hmem (hbid.trans hid)
    rcases hleft with hended | hover
    · rw [hended] at hactive
      cases hactive
    · obtain ⟨time, rfl, hchange⟩ := h.exists_planAssignment
      have hview : b ∈ v.active := h.active ▸ mem_activeOf.mpr ⟨hb, hactive⟩
      rw [hchange] at hu
      exact forall_updates_planAssignment_ne (h.nodup hs) hview hover u hu hid
  refine ⟨TargetChange.writeAction_of_forall_ne hne, logOf_written_of_forall_ne hs hmem ?_⟩
  intro e he haction
  rcases tr.plan?_entries hp e he with ⟨i, hi, -⟩ | ⟨u, hu, hexisting⟩
  · rw [hi] at haction
    cases haction
  · exact hne u hu (ActionRef.existing.inj (hexisting.symm.trans haction))

/-- After the commit of an assignment every active action is being canceled, but for the new one. -/
theorem exists_created (hs : s.Consistent)
    (h : s.PlannedCommit ctx now (.assign p r) change tr v t) :
    ∃ n, s.createdBy ctx now change = [n] ∧ n.setId = r.setId ∧
      n.status = initialStatus r.confirmationRequired ∧ (s.written ctx now change).Newborn n ∧
      ((s.written ctx now change).activeOf ctx.tenantId change.controllerId).filter
        (fun b => b.status ≠ .canceling) = [n] := by
  obtain ⟨time, -, hchange⟩ := h.exists_planAssignment
  have hcreated : s.createdBy ctx now change =
      [(r.newAction ctx).row ctx now change.controllerId (s.lastActionId + 1)] := by
    rw [createdBy, hchange]
    simp [planAssignment]
  have hborn : ∀ n ∈ s.createdBy ctx now change, (s.written ctx now change).Newborn n := by
    refine newborn_of_assign hs (fun u hu => ?_) (isUndispatched_initialStatus _) hchange
    obtain ⟨a, ha, hid⟩ := h.updates u hu
    exact hid ▸ hs.actions.le_last a (mem_actionsOf.mp (mem_activeOf.mp ha).1).1
  -- what was active before and still is, is being canceled
  have hold : (((v.active.map (change.writeAction ctx now)).filter fun a => a.active).filter
      fun b => b.status ≠ .canceling) = [] := by
    rw [List.filter_eq_nil_iff]
    intro b hb
    obtain ⟨hb, hbactive⟩ := List.mem_filter.mp hb
    obtain ⟨a, ha, rfl⟩ := List.mem_map.mp hb
    rw [h.active] at ha
    suffices hstatus : (change.writeAction ctx now a).status = .canceling by simp [hstatus]
    cases hover : p.supersede.passesOver a with
    | true =>
      rw [(h.leaves_alone hs (mem_activeOf.mp ha).1 (.inr hover)).1]
      exact (of_decide_eq_true hover).2
    | false =>
      obtain ⟨-, hactive, hstatus, -⟩ := h.superseded hs ha hover
      rw [hstatus, if_pos (hactive.symm.trans hbactive)]
  have hnew : initialStatus r.confirmationRequired ≠ .canceling := by
    cases r.confirmationRequired <;> decide
  refine ⟨_, hcreated, rfl, rfl, hborn _ (hcreated ▸ List.mem_singleton_self _), ?_⟩
  rw [h.activeAfter, List.filter_append, hold, List.nil_append, hcreated]
  exact List.filter_cons_of_pos (decide_eq_true hnew)

end Store.PlannedCommit

/-! ## The assignment -/

/-- Where a later store holds of a target what a commit has written, an action of the target is
stored as it was written, with the log that was written. -/
theorem Store.SameAt.stored_of_written (hs' : s'.Consistent)
    (h : SameAt ctx.tenantId change.controllerId (s.written ctx now change) s')
    (ha : a ∈ s.actionsOf ctx.tenantId change.controllerId) :
    s'.actionById? a.id = some (change.writeAction ctx now a) ∧
      s'.logOf a.id = (s.written ctx now change).logOf a.id := by
  have hid : (change.writeAction ctx now a).id = a.id := TargetChange.writeAction_id change a
  have hwritten : change.writeAction ctx now a ∈
      (s.written ctx now change).actionsOf ctx.tenantId change.controllerId := by
    rw [actionsOf_written]
    exact List.mem_append_left _ (List.mem_map_of_mem ha)
  have hlogged := (historyOf_eq_iff.mp h.history).2 _ hwritten
  rw [← h.actionsOf_eq] at hwritten
  rw [hid] at hlogged
  exact ⟨(actionById?_eq_some_iff hs').mpr ⟨(mem_actionsOf.mp hwritten).1, hid⟩, hlogged⟩

namespace Assigned

theorem exists_target (h : Assigned s ctx p r c s') :
    ∃ t t', s.target? ctx.tenantId c = some t ∧ s'.target? ctx.tenantId c = some t' ∧
      t'.assigned = some r.setId ∧ t'.updateStatus = .pending ∧ t'.installed = t.installed ∧
      t'.installedAt = t.installedAt ∧ t'.revision = t.revision + 1 := by
  obtain ⟨change, s₁, now, hs₁, hbefore, rfl, hplanned, hafter⟩ := h.change
  obtain ⟨tr, v, t, hcommit⟩ := hplanned.commit hs₁ now
  obtain ⟨t', hrow, hfields⟩ := hcommit.exists_row_of_assign
  exact ⟨t, t', hbefore.target.symm.trans hcommit.stored, hafter.target.trans hrow, hfields⟩

/-- A target that got its change has one more action, the only one that is active and not being
canceled. -/
theorem exists_created (h : Assigned s ctx p r c s') :
    ∃ n ∈ s'.actionsOf ctx.tenantId c, (∀ b ∈ s.actionsOf ctx.tenantId c, b.id ≠ n.id) ∧
      n.setId = r.setId ∧ n.status = initialStatus r.confirmationRequired ∧
      (∃ e, s'.logOf n.id = [e] ∧ e.status = n.status) ∧
      (s'.activeOf ctx.tenantId c).filter (fun b => b.status ≠ .canceling) = [n] := by
  obtain ⟨change, s₁, now, hs₁, hbefore, rfl, hplanned, hafter⟩ := h.change
  obtain ⟨tr, v, t, hcommit⟩ := hplanned.commit hs₁ now
  obtain ⟨n, hcreated, hset, hstatus, hborn, hactive⟩ := hcommit.exists_created hs₁
  have hn : n ∈ s₁.createdBy ctx now change := hcreated ▸ List.mem_singleton_self n
  have hmem : n ∈ (s₁.written ctx now change).actionsOf ctx.tenantId change.controllerId := by
    rw [actionsOf_written]
    exact List.mem_append_right _ hn
  obtain ⟨e, hlogged, he⟩ := hborn.log
  have hlog := (historyOf_eq_iff.mp hafter.history).2 n hmem
  refine ⟨n, hafter.actionsOf_eq ▸ hmem, fun b hb hid => ?_, hset, hstatus,
    ⟨e, hlog.trans hlogged, he⟩, ?_⟩
  · -- the other actions of the target were there before the commit
    have hlt := createdBy_id hn
    have hle := hs₁.actions.le_last b (mem_actionsOf.mp (hbefore.actionsOf_eq ▸ hb)).1
    omega
  · rw [hafter.activeOf_eq]
    exact hactive

/-- What becomes of an active action that the mode does not pass over. -/
theorem superseded (h : Assigned s ctx p r c s') (hs' : s'.Consistent)
    (ha : a ∈ s.activeOf ctx.tenantId c) (hover : p.supersede.passesOver a = false) :
    ∃ a', s'.actionById? a.id = some a' ∧ a'.revision ≠ a.revision ∧
      a'.active = p.supersede.spares a ∧
      a'.status = (if p.supersede.spares a then .canceling else .canceled) ∧
      ∃ e, s'.logOf a.id = s.logOf a.id ++ [e] ∧ e.status = a'.status := by
  obtain ⟨change, s₁, now, hs₁, hbefore, rfl, hplanned, hafter⟩ := h.change
  obtain ⟨tr, v, t, hcommit⟩ := hplanned.commit hs₁ now
  have hmem := (mem_activeOf.mp ha).1
  obtain ⟨hnow, hlater⟩ := hafter.stored_of_written hs' (hbefore.actionsOf_eq ▸ hmem)
  obtain ⟨hrevision, hactive, hstatus, e, hlogged, he⟩ :=
    hcommit.superseded hs₁ (hbefore.activeOf_eq ▸ ha) hover
  refine ⟨_, hnow, hrevision, hactive, hstatus, e, ?_, he⟩
  rw [hlater, hlogged, (historyOf_eq_iff.mp hbefore.history).2 a hmem]

/-- What had ended before, and what the mode passes over, is as it was. -/
theorem leaves_alone (h : Assigned s ctx p r c s') (hs' : s'.Consistent)
    (ha : a ∈ s.actionsOf ctx.tenantId c)
    (hleft : a.active = false ∨ p.supersede.passesOver a = true) :
    s'.actionById? a.id = some a ∧ s'.logOf a.id = s.logOf a.id := by
  obtain ⟨change, s₁, now, hs₁, hbefore, rfl, hplanned, hafter⟩ := h.change
  obtain ⟨tr, v, t, hcommit⟩ := hplanned.commit hs₁ now
  have ha₁ := hbefore.actionsOf_eq ▸ ha
  obtain ⟨hnow, hlater⟩ := hafter.stored_of_written hs' ha₁
  obtain ⟨hsame, hlogged⟩ := hcommit.leaves_alone hs₁ ha₁ hleft
  rw [hsame] at hnow
  refine ⟨hnow, ?_⟩
  rw [hlater, hlogged, (historyOf_eq_iff.mp hbefore.history).2 a ha]

end Assigned

/-- For every store that can be reached and both modes, let an assignment that nobody interrupts
succeed and list a target as assigned.  Then the target waits for the distribution set, one revision
further, and what it has installed is as before.  The new action is its only active action that is
not being canceled.  Each action that was active before is canceled, or is being canceled, if the
mode waits for the device and the device had fetched it; it has got just one log entry, for its new
status.  Actions that were being canceled while the mode waits for the device, and those that had
ended before, are as they were, with their logs, and nothing has been published about them. -/
theorem assignment_supersedes (hs : s.Reachable) {times : Instant → Prop}
    {result : AssignmentResult} (hends : (assignSet p ctx r).Ends times s (.ok result) s' es)
    (hc : c ∈ result.assignedTargets) : s.Superseding ctx p.supersede r c s' es := by
  have hcs := hs.consistent
  obtain ⟨hnodup, -, hcourse⟩ := (leaves_assign hcs p r).of_ends hends
  have hcs' := hcourse.consistent hcs
  have hannounces := hcourse.announces hcs hnodup
  have hassigned : Assigned s ctx p r c s' := ⟨hcourse.planned_at hcs hnodup hc⟩
  have hstored : ∀ a ∈ s.actionsOf ctx.tenantId c, s.actionById? a.id = some a :=
    fun a ha => (actionById?_eq_some_iff hcs).mpr ⟨(mem_actionsOf.mp ha).1, rfl⟩
  refine ⟨hassigned.exists_target, ?created, ?superseded, ?leftAlone⟩
  case created =>
    obtain ⟨n, hn, hnew, hfields⟩ := hassigned.exists_created
    refine ⟨n, ?_, hfields⟩
    obtain ⟨-, ops, -, -, rfl⟩ := hends.exists_makes
    exact (Grows.afterAll hcs ops).actionById?_eq_none hcs hn hnew
  case superseded =>
    intro a ha hover
    obtain ⟨a', hnow, hrevision, hactive, hstatus, hlogged⟩ :=
      hassigned.superseded hcs' ha (decide_eq_false hover)
    refine ⟨a', hnow, hrevision, ?_, hlogged, ?_⟩
    · rw [hactive, hstatus]
      split
      · rename_i hends
        rw [SupersedeMode.spares_eq_false_iff.mpr hends]
        exact ⟨rfl, rfl⟩
      · rename_i hends
        rw [(Bool.not_eq_false _).mp (mt SupersedeMode.spares_eq_false_iff.mp hends)]
        exact ⟨rfl, rfl⟩
    · rw [hannounces.story, hstored a (mem_activeOf.mp ha).1, hnow, Call.story, if_neg hrevision]
      rfl
  case leftAlone =>
    intro a ha hleft
    obtain ⟨hnow, hlogged⟩ := hassigned.leaves_alone hcs' ha (hleft.imp_right decide_eq_true)
    refine ⟨hnow, hlogged, ?_⟩
    rw [hannounces.story, hstored a ha, hnow, Call.story_self]

/-- The device has started with the first distribution set and is asked to stop, and the second one
waits for it. -/
def Store.sampleWaiting : Store :=
  sample.afterTasks
    [.call sampleContext (.assign .patient (.forced 1 ["device"])) 2,
      .call sampleContext (.act 1 (.report ⟨.running, [], none, some 3⟩)) 3,
      .call sampleContext (.assign .patient (.forced 2 ["device"])) 4]

theorem sampleWaiting_reassigned :
    (fun o : Program.Outcome Store AssignmentResult =>
        (o.result, (o.state.actionsOf "acme" "device").map fun a => (a.id, a.active, a.status)))
      ((assignSet .patient sampleContext (.forced 1 ["device"])).runOn 5 Store.sampleWaiting) =
    (.ok ⟨1, 0, [3], ["device"], [], [], 1⟩,
      [(1, true, .canceling), (2, false, .canceled), (3, true, .scheduled)]) := by
  -- the assignment is run once, and what it leaves is looked at twice
  cbv

/-- When the first distribution set is assigned again, the device is still asked to stop with it,
and the second one, which it has not fetched, is canceled. -/
theorem sampleWaiting_supersedes :
    ∃ s' es,
      (assignSet .patient sampleContext (.forced 1 ["device"])).Runs 5 Store.sampleWaiting
        (.ok ⟨1, 0, [3], ["device"], [], [], 1⟩) s' es ∧
      Store.sampleWaiting.Superseding sampleContext .graceful (.forced 1 ["device"]) "device" s'
        es ∧
      (s'.actionsOf "acme" "device").map (fun a => (a.id, a.active, a.status)) =
        [(1, true, .canceling), (2, false, .canceled), (3, true, .scheduled)] := by
  obtain ⟨hresult, hactions⟩ := Prod.mk.inj sampleWaiting_reassigned
  have hends := Program.ends_runOn (· = 5) rfl
    (assignSet .patient sampleContext (.forced 1 ["device"])) Store.sampleWaiting
  rw [hresult] at hends
  have hsupersedes := assignment_supersedes (sample_reachable.afterTasks _) hends
    (List.mem_singleton_self "device")
  exact ⟨_, _, ⟨hresult, rfl, rfl⟩, hsupersedes, hactions⟩

end FleetUpdate
