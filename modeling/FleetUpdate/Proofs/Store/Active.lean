import FleetUpdate.Proofs.Store.Frame

/-!
# Active actions after a commit

A change that updates active actions only leaves those that have ended alone, so the active actions
of its target after the commit are the ones it keeps active and the ones it creates.
-/

namespace FleetUpdate

namespace Store

variable {s : Store} {ctx : Context} {now : Instant} {change : TargetChange}

/-- Mapping a list and then picking is the same if what was not picked before is not picked
afterwards. -/
theorem filter_map_filter {α : Type} {p : α → Bool} {f : α → α} {l : List α}
    (h : ∀ a ∈ l, p a = false → p (f a) = false) :
    (l.map f).filter p = ((l.filter p).map f).filter p := by
  rw [List.filter_map, List.filter_map, List.filter_filter]
  congr 1
  apply List.filter_congr
  intro a ha
  cases hp : p a with
  | true => simp
  | false => simpa using h a ha hp

/-- The actions that a change creates are active. -/
theorem active_of_mem_createdBy {a : Action} (ha : a ∈ s.createdBy ctx now change) :
    a.active = true := by
  obtain ⟨i, hi, rfl⟩ := List.mem_mapIdx.mp ha
  rfl

/-- A change that updates active actions only leaves those that have ended as they are. -/
theorem writeAction_of_ended (hs : s.Consistent)
    (hupdates : ∀ u ∈ change.actionUpdates,
      ∃ a ∈ s.activeOf ctx.tenantId change.controllerId, a.id = u.actionId)
    {a : Action} (ha : a ∈ s.actionsOf ctx.tenantId change.controllerId)
    (hended : a.active = false) : change.writeAction ctx now a = a := by
  refine TargetChange.writeAction_of_forall_ne fun u hu hid => ?_
  -- an update of an action that has ended would be one of an active action with its id
  obtain ⟨b, hb, hbid⟩ := hupdates u hu
  obtain ⟨hb, hactive⟩ := mem_activeOf.mp hb
  have hba : b = a := hs.actions.eq_of_id_eq (mem_actionsOf.mp hb).1 (mem_actionsOf.mp ha).1
    (hbid.trans hid)
  rw [hba, hended] at hactive
  cases hactive

/-- The active actions of a target after a change of it that updates active actions only. -/
theorem activeOf_written (hs : s.Consistent)
    (hupdates : ∀ u ∈ change.actionUpdates,
      ∃ a ∈ s.activeOf ctx.tenantId change.controllerId, a.id = u.actionId) :
    (s.written ctx now change).activeOf ctx.tenantId change.controllerId =
      ((s.activeOf ctx.tenantId change.controllerId).map (change.writeAction ctx now)).filter
        (fun a => a.active) ++ s.createdBy ctx now change := by
  rw [activeOf, actionsOf_written, List.filter_append]
  congr 1
  · apply filter_map_filter
    intro a ha hended
    rw [writeAction_of_ended hs hupdates ha hended, hended]
  · exact List.filter_eq_self.mpr fun a ha => active_of_mem_createdBy ha

end Store

end FleetUpdate
