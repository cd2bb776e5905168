import FleetUpdate.Proofs.Store.Commit

/-!
# Counting what changes do to actions

Between two stores the actions are counted that have turned from one state to another
(`Store.turned`).  A change turns the actions that it updates, so of the commit of a change that
updates no action twice, these can be counted by its updates (`length_turned_written`).
-/

namespace FleetUpdate

/-- The action was active, and has been canceled for good. -/
def Action.endsCanceled (a a' : Action) : Bool :=
  a.active && !a'.active && decide (a'.status = .canceled)

/-- The action has been asked to stop. -/
def Action.getsRecalled (a a' : Action) : Bool :=
  decide (a.status ≠ .canceling) && decide (a'.status = .canceling)

theorem Action.endsCanceled_self (a : Action) : a.endsCanceled a = false := by
  unfold endsCanceled
  cases a.active <;> rfl

theorem Action.getsRecalled_self (a : Action) : a.getsRecalled a = false := by
  unfold getsRecalled
  by_cases h : a.status = .canceling <;> simp [h]

namespace Store

/-- The actions of a store that a later one holds changed in a certain way. -/
def turned (turns : Action → Action → Bool) (s s' : Store) : List Action :=
  s.actions.filter fun a => (s'.actionById? a.id).any (turns a)

variable {s s' : Store} {ctx : Context} {now : Instant} {c : TargetChange}
  {turns : Action → Action → Bool}

/-- Where actions stay as they are, or go, none has turned. -/
theorem turned_of_subset (hs : s.Consistent) (hturns : ∀ a, turns a a = false)
    (h : s'.actions ⊆ s.actions) : turned turns s s' = [] := by
  rw [turned, List.filter_eq_nil_iff]
  intro a ha
  cases hfound : s'.actionById? a.id with
  | none => exact Bool.false_ne_true
  | some b =>
    have hid : b.id = a.id := by simpa using List.find?_some hfound
    obtain rfl := hs.actions.eq_of_id_eq (h (List.mem_of_find?_eq_some hfound)) ha hid
    rw [Option.any_some, hturns]
    exact Bool.false_ne_true

/-- The actions that a change turns are as many as the updates that turn one. -/
theorem length_turned_written (hs : s.Consistent) (hacc : s.Accepts ctx c)
    (hnodup : (c.actionUpdates.map ActionUpdate.actionId).Nodup) (hturns : ∀ a, turns a a = false) :
    (turned turns s (s.written ctx now c)).length =
      (c.actionUpdates.filter fun u => (s.actionById? u.actionId).any fun a =>
        turns a (u.writeTo ctx now a)).length := by
  have hs' := hs.written hacc now
  have hwritten {a : Action} (ha : a ∈ s.actions) :
      (s.written ctx now c).actionById? a.id = some (c.writeAction ctx now a) :=
    (actionById?_eq_some_iff hs').mpr
      ⟨List.mem_append_left _ (List.mem_map_of_mem ha), TargetChange.writeAction_id c a⟩
  -- both lists name the same actions, each of them once
  suffices hperm : ((turned turns s (s.written ctx now c)).map Action.id).Perm
      ((c.actionUpdates.filter fun u => (s.actionById? u.actionId).any fun a =>
        turns a (u.writeTo ctx now a)).map ActionUpdate.actionId) by
    simpa using hperm.length_eq
  refine (List.perm_ext_iff_of_nodup ?_ ?_).mpr fun i => ?_
  · exact hs.actions.nodup.sublist (List.filter_sublist.map _)
  · exact hnodup.sublist (List.filter_sublist.map _)
  · simp only [turned, List.mem_map, List.mem_filter]
    constructor
    · rintro ⟨a, ⟨ha, hturned⟩, rfl⟩
      rw [hwritten ha, Option.any_some] at hturned
      by_cases hu : ∃ u ∈ c.actionUpdates, u.actionId = a.id
      · obtain ⟨u, hu, hid⟩ := hu
        rw [TargetChange.writeAction_of_mem hnodup hu hid] at hturned
        have hfound : s.actionById? u.actionId = some a :=
          (actionById?_eq_some_iff hs).mpr ⟨ha, hid.symm⟩
        exact ⟨u, ⟨hu, by rw [hfound, Option.any_some, hturned]⟩, hid⟩
      · rw [TargetChange.writeAction_of_forall_ne fun u hmem hid => hu ⟨u, hmem, hid⟩, hturns]
          at hturned
        cases hturned
    · rintro ⟨u, ⟨hu, hturned⟩, rfl⟩
      obtain ⟨a, hfound, hturned⟩ := (Option.any_eq_true _ _).mp hturned
      obtain ⟨ha, hid⟩ := (actionById?_eq_some_iff hs).mp hfound
      refine ⟨a, ⟨ha, ?_⟩, hid⟩
      rw [hwritten ha, Option.any_some, TargetChange.writeAction_of_mem hnodup hu hid.symm]
      exact hturned

/-- The only action that a change updates has turned or not. -/
theorem length_turned_of_update (hs : s.Consistent) (hacc : s.Accepts ctx c) {w : ActionUpdate}
    (hupdates : c.actionUpdates = [w]) {a : Action} (ha : a ∈ s.actions) (hid : w.actionId = a.id)
    (hturns : ∀ a, turns a a = false) : (turned turns s (s.written ctx now c)).length =
      if turns a (w.writeTo ctx now a) then 1 else 0 := by
  have hnodup : (c.actionUpdates.map ActionUpdate.actionId).Nodup := by
    rw [hupdates]
    exact List.nodup_singleton _
  have hfound : s.actionById? w.actionId = some a :=
    (actionById?_eq_some_iff hs).mpr ⟨ha, hid.symm⟩
  rw [length_turned_written hs hacc hnodup hturns, hupdates, List.filter_singleton, hfound,
    Option.any_some]
  cases turns a (w.writeTo ctx now a) <;> rfl

end Store

end FleetUpdate
