import FleetUpdate.Proofs.Store.Run

/-!
# Ids are used once

The store counts ids up and never down, also when it deletes rows.  So an action of a later store
whose id had been issued before is the action that had this id before, and a target that is
registered anew has none of the actions it had (`Grows.forget`).
-/

namespace FleetUpdate

namespace Store

/-- A later store has issued at least as many ids, and every action with an id that had been issued
before was there before. -/
structure Grows (s s' : Store) : Prop where
  last_le : s.lastActionId ≤ s'.lastActionId
  old : ∀ a' ∈ s'.actions, a'.id ≤ s.lastActionId →
    ∃ a ∈ s.actions, a.id = a'.id ∧ a.owner = a'.owner ∧ a.setId = a'.setId

variable {s s' s'' : Store} {ctx : Context} {now : Instant}

namespace Grows

/-- A store with some of the actions, and with no more ids issued. -/
theorem of_subset (ha : ∀ a ∈ s'.actions, a ∈ s.actions) (hl : s'.lastActionId = s.lastActionId) :
    s.Grows s' :=
  ⟨Int.le_of_eq hl.symm, fun a' ha' _ => ⟨a', ha a' ha', rfl, rfl, rfl⟩⟩

theorem refl (s : Store) : s.Grows s := of_subset (fun _ ha => ha) rfl

theorem trans (h : s.Grows s') (h' : s'.Grows s'') : s.Grows s'' := by
  refine ⟨Int.le_trans h.last_le h'.last_le, ?_⟩
  intro a'' ha'' hle
  obtain ⟨a', ha', hid', howner', hset'⟩ := h'.old a'' ha'' (Int.le_trans hle h.last_le)
  obtain ⟨a, ha, hid, howner, hset⟩ := h.old a' ha' (hid' ▸ hle)
  exact ⟨a, ha, hid.trans hid', howner.trans howner', hset.trans hset'⟩

theorem changeTarget {c : String} {f : Target → Target} : s.Grows (s.changeTarget ctx c f).2 := by
  unfold Store.changeTarget
  split
  · exact .refl s
  · exact of_subset (fun _ ha => ha) rfl

theorem deleteTarget {c : String} : s.Grows (s.deleteTarget ctx c).2 := by
  unfold Store.deleteTarget
  split
  · exact .refl s
  · exact of_subset (fun a ha => (List.mem_filter.mp ha).1) rfl

/-- A change rewrites actions in place, and the ones it creates get new ids. -/
theorem written (change : TargetChange) : s.Grows (s.written ctx now change) := by
  refine ⟨Int.le_add_of_nonneg_right (Int.natCast_nonneg _), ?_⟩
  intro a' ha' hle
  rcases List.mem_append.mp ha' with ha' | ha'
  · obtain ⟨a, ha, rfl⟩ := List.mem_map.mp ha'
    exact ⟨a, ha, by simp, by simp, by simp⟩
  · have hlt : s.lastActionId < a'.id := createdBy_id ha'
    omega

theorem commit (hs : s.Consistent) (change : TargetChange) :
    s.Grows (s.commit ctx now change).2 := by
  rcases commit_cases hs ctx now change with ⟨k, -, hcommit, -⟩ | ⟨e, -, hcommit⟩
  · rw [hcommit]
    exact written change
  · rw [hcommit]
    exact .refl s

theorem tracks : Tracks Grows := ⟨refl, trans, fun hs _ _ c => commit hs c⟩

/-- A store grows with every request. -/
theorem after (hs : s.Consistent) (o : Op) : s.Grows (s.after o) := by
  obtain ⟨ctx, now, r⟩ := o
  have heffect := s.perform_effect ctx now r
  show s.Grows (s.perform ctx now r).2
  generalize (s.perform ctx now r).2 = s' at heffect ⊢
  cases heffect with
  | none => exact .refl s
  | @register n t _ h =>
    obtain ⟨-, -, -, rfl⟩ := createTarget_eq_ok_iff.mp h
    exact of_subset (fun _ ha => ha) rfl
  | describe c d => exact changeTarget
  | contact c time => exact changeTarget
  | delete c => exact deleteTarget
  | sets sets last => exact of_subset (fun _ ha => ha) rfl
  | commit cs => exact tracks.commitAll hs cs

theorem afterAll (hs : s.Consistent) (ops : List Op) : s.Grows (s.afterAll ops) :=
  tracks.afterAll hs fun o _ _ hs => after hs o

/-- Once a target has not been stored, none of the actions it had before is ever stored again. -/
theorem forget {x c : String} (hs : s.Consistent) (h : s.Grows s') (hs' : s'.Consistent)
    (hgone : s'.target? x c = none) (h' : s'.Grows s'') {a : Action} (ha : a ∈ s.actionsOf x c) :
    ∀ a'' ∈ s''.actionsOf x c, a''.id ≠ a.id := by
  intro a'' ha'' hid
  obtain ⟨hmem, -⟩ := mem_actionsOf.mp ha
  obtain ⟨hmem'', howner''⟩ := mem_actionsOf.mp ha''
  have hle : a''.id ≤ s'.lastActionId := by
    rw [hid]
    exact Int.le_trans (hs.actions.le_last a hmem) h.last_le
  obtain ⟨a', ha', -, howner', -⟩ := h'.old a'' hmem'' hle
  have hold : a' ∈ s'.actionsOf x c := mem_actionsOf.mpr ⟨ha', howner'.trans howner''⟩
  rw [actionsOf_eq_nil hs' hgone] at hold
  cases hold

/-- The id of an action that its target has not had before had not been issued at all. -/
theorem actionById?_eq_none {x c : String} (hs : s.Consistent) (h : s.Grows s') {a' : Action}
    (ha' : a' ∈ s'.actionsOf x c) (hnew : ∀ a ∈ s.actionsOf x c, a.id ≠ a'.id) :
    s.actionById? a'.id = none := by
  rw [Option.eq_none_iff_forall_ne_some]
  intro b hb
  obtain ⟨hmem, hid⟩ := (actionById?_eq_some_iff hs).mp hb
  obtain ⟨hmem', howner'⟩ := mem_actionsOf.mp ha'
  obtain ⟨a, ha, haid, howner, -⟩ := h.old a' hmem' (hid ▸ hs.actions.le_last b hmem)
  exact hnew a (mem_actionsOf.mpr ⟨ha, howner.trans howner'⟩) haid

end Grows

end Store

end FleetUpdate
