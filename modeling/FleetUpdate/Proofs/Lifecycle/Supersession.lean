import FleetUpdate.Proofs.Lifecycle.Transition

/-!
# What an assignment leaves active

The commit of an assignment ends every active action of its target in the immediate mode.  In the
graceful mode it ends those that have not been dispatched, and only asks the others to stop.
-/

namespace FleetUpdate

/-- An assignment leaves the action active: the device has fetched it, and the mode waits for the
device. -/
def SupersedeMode.spares (mode : SupersedeMode) (a : Action) : Bool :=
  decide (mode = .graceful) && !a.status.isUndispatched

theorem SupersedeMode.spares_immediate (a : Action) : immediate.spares a = false := rfl

/-- A superseded action stays active if the mode spares it. -/
theorem active_of_supersession {mode : SupersedeMode} {a : Action} {status : ActionStatus}
    {active : Bool} {remark : String}
    (h : supersession mode a.status = some (status, active, remark)) : active = mode.spares a := by
  unfold supersession at h
  unfold SupersedeMode.spares
  split at h
  · rename_i hends
    obtain ⟨-, h⟩ := Prod.mk.inj (Option.some.inj h)
    obtain ⟨rfl, -⟩ := Prod.mk.inj h
    rcases hends with rfl | hundispatched
    · rfl
    · rw [hundispatched, Bool.not_true, Bool.and_false]
  · rename_i hends
    split at h
    · obtain ⟨-, h⟩ := Prod.mk.inj (Option.some.inj h)
      obtain ⟨rfl, -⟩ := Prod.mk.inj h
      cases mode with
      | immediate => exact absurd (.inl rfl) hends
      | graceful => simpa using hends
    · cases h

/-- A superseded action that stays active is asked to stop, any other is canceled. -/
theorem status_of_supersession {mode : SupersedeMode} {a : Action} {status : ActionStatus}
    {active : Bool} {remark : String}
    (h : supersession mode a.status = some (status, active, remark)) :
    status = if active then .canceling else .canceled := by
  unfold supersession at h
  split at h
  · obtain ⟨rfl, hrest⟩ := Prod.mk.inj (Option.some.inj h)
    obtain ⟨rfl, -⟩ := Prod.mk.inj hrest
    rfl
  · split at h
    · obtain ⟨rfl, hrest⟩ := Prod.mk.inj (Option.some.inj h)
      obtain ⟨rfl, -⟩ := Prod.mk.inj hrest
      rfl
    · cases h

/-- An action that an assignment passes over is one that the mode spares. -/
theorem spares_of_supersession {mode : SupersedeMode} {a : Action}
    (h : supersession mode a.status = none) : mode.spares a = true := by
  unfold supersession at h
  unfold SupersedeMode.spares
  split at h
  · cases h
  · rename_i hends
    cases mode with
    | immediate => exact absurd (.inl rfl) hends
    | graceful => simpa using hends

/-- An assignment passes over an action: it has been asked to stop before, and the mode waits for
the device. -/
def SupersedeMode.passesOver (mode : SupersedeMode) (a : Action) : Bool :=
  decide (mode = .graceful ∧ a.status = .canceling)

theorem supersession_eq_none_iff {mode : SupersedeMode} {a : Action} :
    supersession mode a.status = none ↔ mode.passesOver a = true := by
  unfold supersession SupersedeMode.passesOver
  cases mode <;> cases a.status <;> simp [ActionStatus.isUndispatched]

variable {v : TargetView} {n : NewAction} {mode : SupersedeMode} {ctx : Context} {now time : Instant}
  {a : Action}

/-- An active action that an assignment does not pass over is updated. -/
theorem exists_mem_updates_planAssignment (n : NewAction) (time : Instant) (ha : a ∈ v.active)
    (h : mode.passesOver a = false) :
    ∃ u ∈ (planAssignment v n mode time).change.actionUpdates, u.actionId = a.id ∧
      u.active = mode.spares a ∧
      u.status = if mode.spares a then .canceling else .canceled := by
  cases hs : supersession mode a.status with
  | none =>
    rw [supersession_eq_none_iff.mp hs] at h
    cases h
  | some become =>
    obtain ⟨status, active, remark⟩ := become
    have hspares := active_of_supersession hs
    refine ⟨a.moveTo status active, ?_, rfl, hspares, ?_⟩
    · exact List.mem_map.mpr
        ⟨(a, status, active, remark), TargetView.mem_superseded.mpr ⟨ha, hs⟩, rfl⟩
    · rw [← hspares]
      exact status_of_supersession hs

/-- No update of an assignment is about an action that it passes over. -/
theorem forall_updates_planAssignment_ne (hids : (v.active.map Action.id).Nodup) (ha : a ∈ v.active)
    (h : mode.passesOver a = true) :
    ∀ u ∈ (planAssignment v n mode time).change.actionUpdates, u.actionId ≠ a.id := by
  intro u hu hid
  -- an update with the id of this action would be one of this action
  obtain ⟨b, hb, status, active, remark, hbs, rfl⟩ := mem_updates_planAssignment hu
  obtain rfl : b = a := List.inj_on_of_nodup_map hids hb ha hid
  rw [supersession_eq_none_iff.mpr h] at hbs
  cases hbs

/-- The actions that stay active under an assignment are those that the mode spares. -/
theorem active_writeAction_planAssignment (hids : (v.active.map Action.id).Nodup)
    (ha : a ∈ v.active) (hactive : a.active = true) :
    ((planAssignment v n mode time).change.writeAction ctx now a).active = mode.spares a := by
  cases hover : mode.passesOver a with
  | true =>
    rw [TargetChange.writeAction_of_forall_ne (forall_updates_planAssignment_ne hids ha hover),
      hactive, spares_of_supersession (supersession_eq_none_iff.mpr hover)]
  | false =>
    obtain ⟨u, hu, hid, hspares, -⟩ := exists_mem_updates_planAssignment n time ha hover
    rw [TargetChange.writeAction_of_mem (nodup_updates_planAssignment hids) hu hid,
      ActionUpdate.writeTo_active hid, hspares]

/-- Nothing stays active under an assignment in the immediate mode. -/
theorem filter_active_of_immediate (hids : (v.active.map Action.id).Nodup)
    (hactive : ∀ a ∈ v.active, a.active = true) :
    (v.active.map ((planAssignment v n .immediate time).change.writeAction ctx now)).filter
      (fun a => a.active) = [] := by
  rw [List.filter_eq_nil_iff]
  intro b hb
  obtain ⟨a, ha, rfl⟩ := List.mem_map.mp hb
  rw [active_writeAction_planAssignment hids ha (hactive a ha), SupersedeMode.spares_immediate]
  exact Bool.false_ne_true

/-- The distribution sets of the actions that stay active. -/
theorem setIds_of_spared (hids : (v.active.map Action.id).Nodup)
    (hactive : ∀ a ∈ v.active, a.active = true) :
    ((v.active.map ((planAssignment v n mode time).change.writeAction ctx now)).filter
      (fun a => a.active)).map Action.setId = (v.active.filter mode.spares).map Action.setId := by
  have hsets : Action.setId ∘ (planAssignment v n mode time).change.writeAction ctx now =
      Action.setId := by
    funext a
    exact TargetChange.writeAction_setId _ a
  have hspared : v.active.filter ((fun a => a.active) ∘
      (planAssignment v n mode time).change.writeAction ctx now) = v.active.filter mode.spares :=
    List.filter_congr fun a ha => active_writeAction_planAssignment hids ha (hactive a ha)
  rw [List.filter_map, List.map_map, hsets, hspared]

end FleetUpdate
