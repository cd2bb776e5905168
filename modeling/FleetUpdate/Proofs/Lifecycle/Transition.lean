import FleetUpdate.Lifecycle.Assign
import FleetUpdate.Lifecycle.Report
import FleetUpdate.Proofs.Store.Written

/-!
# Transitions and their plans

Whatever a call plans for a target is one of nine transitions: an assignment, one of the seven that
are about a single action, or a recalculation of the update state.  `Transition.plan?` is the plan
that is made from a view of the target, if the transition is allowed.  What a plan does to actions
that exist is said in the module after this one.
-/

namespace FleetUpdate

/-- What can be planned for a target. -/
inductive Transition where
  | assign (n : NewAction) (mode : SupersedeMode) (now : Instant)
  | cancel (a : Action) (now : Instant)
  | forceQuit (a : Action) (now : Instant)
  | force (a : Action)
  | report (a : Action) (r : StatusReport) (log : List StatusEntry)
  | reportCancel (a : Action) (r : StatusReport) (log : List StatusEntry)
  | confirm (a : Action) (messages : List String) (now : Instant)
  | deny (a : Action) (messages : List String) (now : Instant)
  | recalculate (ended : Option Action)

namespace Transition

/-- The action that a transition is about, unless it is about the target as a whole. -/
def subject? : Transition → Option Action
  | assign .. | recalculate _ => none
  | cancel a _ | forceQuit a _ | force a | report a _ _ | reportCancel a _ _ | confirm a _ _
  | deny a _ _ => some a

/-- The plan to store another update state; none is needed for the state that is stored. -/
def planRecalculation (v : TargetView) (ended : Option Action) : Option Plan :=
  let status := deriveUpdateStatus (!v.active.isEmpty) ended v.target.assigned v.target.installed
    v.target.lastContact.isSome
  if status = v.target.updateStatus then none
  else
    some ⟨{ TargetChange.ofTarget v.target with
      targetState := some { v.target.state with updateStatus := status } }, []⟩

/-- The plan of a transition, made from a view of the target. -/
def plan? (v : TargetView) : Transition → Option Plan
  | assign n mode now => some (planAssignment v n mode now)
  | cancel a now => (planCancel v a now).toOption
  | forceQuit a now => (planForceQuit v a now).toOption
  | force a => planForce v a
  | report a r log => (planStatusUpdate v a r log).toOption
  | reportCancel a r log => (planCancelFeedback v a r log).toOption
  | confirm a messages now => (planConfirm v a messages now).toOption
  | deny a messages now => (planDeny v a messages now).toOption
  | recalculate ended => planRecalculation v ended

end Transition

/-! ## Views -/

section View

variable {t : Target} {actions : List Action}

@[simp] theorem TargetView.target_ofActions : (TargetView.ofActions t actions).target = t := rfl

@[simp] theorem TargetView.mem_active_ofActions {a : Action} :
    a ∈ (TargetView.ofActions t actions).active ↔ a ∈ actions ∧ a.active = true := by
  simp [ofActions]

/-- Active actions in ascending order are viewed as they are. -/
theorem TargetView.active_ofActions (hactive : ∀ a ∈ actions, a.active = true)
    (hasc : actions.Pairwise fun a b => a.id < b.id) :
    (TargetView.ofActions t actions).active = actions := by
  have hfilter : (actions.filter fun a => a.active) = actions :=
    List.filter_eq_self.mpr hactive
  show ((actions.filter fun a => a.active).mergeSort _) = actions
  rw [hfilter]
  apply List.mergeSort_of_pairwise
  exact hasc.imp fun h => decide_eq_true (Int.le_of_lt h)

end View

/-- A target without active actions is not pending. -/
theorem deriveUpdateStatus_ne_pending {ended : Option Action} {assigned installed : Option Int}
    {contacted : Bool} : deriveUpdateStatus false ended assigned installed contacted ≠ .pending := by
  unfold deriveUpdateStatus
  rw [if_neg Bool.false_ne_true]
  intro h
  split at h
  · cases h
  · split at h
    · cases h
    · split at h
      · cases h
      · split at h <;> cases h

theorem toOption_eq_some {ε α : Type} {x : Except ε α} {y : α} (h : x.toOption = some y) :
    x = .ok y := by
  cases x with
  | error e => cases h
  | ok z => rw [Option.some.inj h]

variable {v : TargetView} {a : Action} {p : Plan}

/-- When the only active action has succeeded and the target was driven to its set, the target is in
its desired state. -/
theorem TargetView.stateAfter_finished {time : Instant} (h : v.others a.id = [])
    (hassigned : v.target.assigned = some a.setId) :
    v.stateAfter a .finished (.finished time) =
      ⟨some a.setId, some a.setId, some time, .inSync⟩ := by
  unfold stateAfter Target.stateAfter deriveUpdateStatus
  rw [h]
  simp [Target.state, hassigned, Action.isDownloadDone]

/-- When the only active action ends, the target is not pending any more. -/
theorem TargetView.updateStatus_stateAfter_ne_pending {status : ActionStatus}
    {termination : Termination} (h : v.others a.id = []) :
    (v.stateAfter a status termination).updateStatus ≠ .pending := by
  unfold stateAfter Target.stateAfter
  rw [h]
  exact deriveUpdateStatus_ne_pending

/-! ## Assignments -/

theorem TargetView.mem_superseded {mode : SupersedeMode} {x : Action × ActionStatus × Bool × String} :
    x ∈ v.superseded mode ↔ x.1 ∈ v.active ∧ supersession mode x.1.status = some x.2 := by
  obtain ⟨a, become⟩ := x
  rw [superseded, List.mem_filterMap]
  constructor
  · rintro ⟨b, hb, hmap⟩
    obtain ⟨s, hs, heq⟩ := Option.map_eq_some_iff.mp hmap
    obtain ⟨rfl, rfl⟩ := Prod.mk.inj heq
    exact ⟨hb, hs⟩
  · rintro ⟨ha, hs⟩
    exact ⟨a, ha, by rw [hs, Option.map_some]⟩

/-- Every update of an assignment is about an active action at the revision it was read at, and
moves it as it is superseded. -/
theorem mem_updates_planAssignment {n : NewAction} {mode : SupersedeMode} {now : Instant}
    {u : ActionUpdate} (hu : u ∈ (planAssignment v n mode now).change.actionUpdates) :
    ∃ a ∈ v.active, ∃ status active remark,
      supersession mode a.status = some (status, active, remark) ∧ u = a.moveTo status active := by
  obtain ⟨⟨a, status, active, remark⟩, hx, rfl⟩ := List.mem_map.mp hu
  obtain ⟨ha, hs⟩ := TargetView.mem_superseded.mp hx
  exact ⟨a, ha, status, active, remark, hs, rfl⟩

/-- An assignment updates no action twice, as long as no two active actions have one id. -/
theorem nodup_updates_planAssignment {n : NewAction} {mode : SupersedeMode} {now : Instant}
    (h : (v.active.map Action.id).Nodup) :
    ((planAssignment v n mode now).change.actionUpdates.map ActionUpdate.actionId).Nodup := by
  have hids : (planAssignment v n mode now).change.actionUpdates.map ActionUpdate.actionId =
      (v.superseded mode).map fun x => x.1.id := by
    show ((v.superseded mode).map _).map _ = _
    rw [List.map_map]
    rfl
  rw [hids]
  unfold TargetView.superseded
  generalize v.active = as at h
  induction as with
  | nil => exact .nil
  | cons a as ih =>
    rw [List.map_cons, List.nodup_cons] at h
    cases hs : supersession mode a.status with
    | none =>
      rw [List.filterMap_cons_none (by rw [hs, Option.map_none])]
      exact ih h.2
    | some become =>
      rw [List.filterMap_cons_some (by rw [hs, Option.map_some]), List.map_cons, List.nodup_cons]
      refine ⟨?_, ih h.2⟩
      intro hmem
      obtain ⟨x, hx, hid⟩ := List.mem_map.mp hmem
      obtain ⟨b, hb, hmap⟩ := List.mem_filterMap.mp hx
      obtain ⟨become', -, rfl⟩ := Option.map_eq_some_iff.mp hmap
      apply h.1
      rw [List.mem_map]
      exact ⟨b, hb, hid⟩

/-! ## Recalculations -/

/-- A recalculation changes the update state of the target and nothing else. -/
theorem Transition.planRecalculation_eq_some {ended : Option Action}
    (h : planRecalculation v ended = some p) :
    p.change = { TargetChange.ofTarget v.target with
      targetState := some { v.target.state with
        updateStatus := deriveUpdateStatus (!v.active.isEmpty) ended v.target.assigned
          v.target.installed v.target.lastContact.isSome } } := by
  unfold planRecalculation at h
  dsimp only at h
  split at h
  · cases h
  · rw [← Option.some.inj h]

end FleetUpdate
