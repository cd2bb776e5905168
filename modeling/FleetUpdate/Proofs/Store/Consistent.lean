import FleetUpdate.Proofs.Store.Effect
import FleetUpdate.Proofs.Store.Rows

/-!
# Consistent stores

In a store that only its own requests have written, no two rows of a table have the same key, ids
were issued one after the other, and every reference is met: an action belongs to a stored target
and brings a stored distribution set, and a log entry belongs to a stored action.

Here are the lookups of a consistent store, and that registering, describing and deleting targets
and all writes to distribution sets keep it consistent; commits follow in their own module.
-/

namespace FleetUpdate

namespace Store

/-- The keys, ids and references of a store are in order. -/
structure Consistent (s : Store) : Prop where
  targets : (s.targets.map Target.key).Nodup
  sets : Issued DistributionSet.id s.lastSetId s.sets
  actions : Issued Action.id s.lastActionId s.actions
  log : Issued StatusEntry.id s.lastEntryId s.log
  /-- Every action belongs to a stored target. -/
  owner : ∀ a ∈ s.actions, ∃ t ∈ s.targets, t.key = a.owner
  /-- Every action brings a stored distribution set of its tenant. -/
  set : ∀ a ∈ s.actions, ∃ d ∈ s.sets, d.id = a.setId ∧ d.tenantId = a.tenantId
  /-- Every log entry belongs to a stored action of its tenant. -/
  entry : ∀ e ∈ s.log, ∃ a ∈ s.actions, a.id = e.actionId ∧ a.tenantId = e.tenantId

theorem Consistent.empty : Consistent .empty where
  targets := .nil
  sets := .nil
  actions := .nil
  log := .nil
  owner := by simp [Store.empty]
  set := by simp [Store.empty]
  entry := by simp [Store.empty]

variable {s : Store} {x c : String}

/-! ## Lookups -/

theorem target?_eq_some_iff (hs : s.Consistent) {t : Target} :
    s.target? x c = some t ↔ t ∈ s.targets ∧ t.key = (x, c) :=
  find?_key_eq_some_iff hs.targets

theorem target?_eq_none_iff : s.target? x c = none ↔ ∀ t ∈ s.targets, t.key ≠ (x, c) :=
  find?_key_eq_none_iff

/-- An action is stored under one target only. -/
theorem actionById?_eq_some_iff (hs : s.Consistent) {i : Int} {a : Action} :
    s.actionById? i = some a ↔ a ∈ s.actions ∧ a.id = i :=
  find?_key_eq_some_iff hs.actions.nodup

theorem action?_eq_some_iff (hs : s.Consistent) {i : Int} {a : Action} :
    s.action? x i = some a ↔ a ∈ s.actions ∧ a.id = i ∧ a.tenantId = x := by
  simp [action?, Option.filter_eq_some_iff, actionById?_eq_some_iff hs, and_assoc]

theorem set?_eq_some_iff (hs : s.Consistent) {i : Int} {d : DistributionSet} :
    s.set? x i = some d ↔ d ∈ s.sets ∧ d.id = i ∧ d.tenantId = x := by
  have hfind : s.setById? i = some d ↔ d ∈ s.sets ∧ d.id = i :=
    find?_key_eq_some_iff hs.sets.nodup
  simp [set?, Option.filter_eq_some_iff, hfind, and_assoc]

/-- A target that is not stored has no actions. -/
theorem actionsOf_eq_nil (hs : s.Consistent) (h : s.target? x c = none) :
    s.actionsOf x c = [] := by
  rw [List.eq_nil_iff_forall_not_mem]
  intro a ha
  obtain ⟨ha, hk⟩ := mem_actionsOf.mp ha
  obtain ⟨t, ht, htk⟩ := hs.owner a ha
  exact target?_eq_none_iff.mp h t ht (htk.trans hk)

/-- The actions of a target stand in ascending order of their ids. -/
theorem actionsOf_ascending (hs : s.Consistent) :
    (s.actionsOf x c).Pairwise fun a b => a.id < b.id :=
  hs.actions.ascending.filter _

/-! ## Requests about targets -/

/-- A change of one row that keeps its key keeps the store consistent. -/
theorem Consistent.putTarget (hs : s.Consistent) (t : Target) : (s.putTarget t).Consistent where
  targets := by
    have hmap : (s.putTarget t).targets.map Target.key = s.targets.map Target.key := by
      simp only [Store.putTarget, List.map_map]
      apply List.map_congr_left
      intro u _
      by_cases h : u.key = t.key <;> simp [h]
    rw [hmap]
    exact hs.targets
  sets := hs.sets
  actions := hs.actions
  log := hs.log
  owner := by
    intro a ha
    obtain ⟨u, hu, hk⟩ := hs.owner a ha
    refine ⟨_, List.mem_map_of_mem hu, ?_⟩
    rw [← hk]
    by_cases h : u.key = t.key <;> simp [h]
  set := hs.set
  entry := hs.entry

theorem Consistent.changeTarget (hs : s.Consistent) (ctx : Context) (f : Target → Target) :
    (s.changeTarget ctx c f).2.Consistent := by
  unfold Store.changeTarget
  split
  · exact hs
  · exact hs.putTarget _

theorem Consistent.createTarget (hs : s.Consistent) {ctx : Context} {now : Instant}
    {n : NewTarget} {t : Target} {s' : Store} (h : s.createTarget ctx now n = .ok (t, s')) :
    s'.Consistent := by
  obtain ⟨-, hfree, -, rfl⟩ := createTarget_eq_ok_iff.mp h
  refine ⟨?_, hs.sets, hs.actions, hs.log, ?_, hs.set, hs.entry⟩
  · rw [List.map_append, List.nodup_append]
    refine ⟨hs.targets, by simp, ?_⟩
    intro k hk k' hk'
    obtain ⟨u, hu, rfl⟩ := List.mem_map.mp hk
    simp only [List.map_cons, List.map_nil, List.mem_singleton] at hk'
    exact hk' ▸ target?_eq_none_iff.mp hfree u hu
  · intro a ha
    obtain ⟨u, hu, hk⟩ := hs.owner a ha
    exact ⟨u, List.mem_append_left _ hu, hk⟩

/-- Deleting a target takes its actions and their logs along, so nothing refers to it any more. -/
theorem Consistent.deleteTarget (hs : s.Consistent) (ctx : Context) :
    (s.deleteTarget ctx c).2.Consistent := by
  unfold Store.deleteTarget
  split
  · exact hs
  · refine ⟨?_, hs.sets, hs.actions.filter _, hs.log.filter _, ?_, ?_, ?_⟩
    · exact (List.Sublist.map _ List.filter_sublist).nodup hs.targets
    · intro a ha
      obtain ⟨ha, hk⟩ := List.mem_filter.mp ha
      obtain ⟨t, ht, htk⟩ := hs.owner a ha
      refine ⟨t, List.mem_filter.mpr ⟨ht, ?_⟩, htk⟩
      rw [bne_iff_ne, htk]
      intro hown
      obtain ⟨hx, hc⟩ := Prod.mk.inj hown
      simp [hx, hc] at hk
    · intro a ha
      exact hs.set a (List.mem_filter.mp ha).1
    · intro e he
      obtain ⟨he, hk⟩ := List.mem_filter.mp he
      obtain ⟨a, ha, hid, hx⟩ := hs.entry e he
      refine ⟨a, List.mem_filter.mpr ⟨ha, ?_⟩, hid, hx⟩
      -- an entry of an action of the target would have been deleted
      rw [Bool.not_eq_true']
      by_contra hown
      rw [Bool.not_eq_false] at hown
      have hgone : a ∈ s.actionsOf ctx.tenantId c := List.mem_filter.mpr ⟨ha, hown⟩
      simp only [Bool.not_eq_true', List.any_eq_false, beq_iff_eq] at hk
      exact hk a hgone hid

/-! ## Requests about distribution sets -/

/-- A change of the row of a distribution set that keeps its id and its tenant keeps the store
consistent. -/
theorem Consistent.putSet (hs : s.Consistent) {d : DistributionSet}
    (hd : ∀ u ∈ s.sets, u.id = d.id → u.tenantId = d.tenantId) : (s.putSet d).Consistent where
  targets := hs.targets
  sets := hs.sets.map fun u => by by_cases h : u.id = d.id <;> simp [h]
  actions := hs.actions
  log := hs.log
  owner := hs.owner
  set := by
    intro a ha
    obtain ⟨u, hu, hid, hx⟩ := hs.set a ha
    refine ⟨_, List.mem_map_of_mem hu, ?_⟩
    by_cases h : u.id = d.id
    · rw [if_pos h]
      exact ⟨h.symm.trans hid, (hd u hu h).symm.trans hx⟩
    · rw [if_neg h]
      exact ⟨hid, hx⟩
  entry := hs.entry

theorem Consistent.createSet (hs : s.Consistent) {ctx : Context} {now : Instant}
    {n : NewDistributionSet} {d : DistributionSet} {s' : Store}
    (h : s.createSet ctx now n = .ok (d, s')) : s'.Consistent := by
  unfold Store.createSet at h
  split at h
  · cases h
  · obtain ⟨rfl, rfl⟩ := Prod.mk.inj (Except.ok.inj h)
    refine ⟨hs.targets, ?_, hs.actions, hs.log, hs.owner, ?_, hs.entry⟩
    · exact hs.sets.push rfl
    · intro a ha
      obtain ⟨u, hu, hid⟩ := hs.set a ha
      exact ⟨u, List.mem_append_left _ hu, hid⟩

theorem Consistent.setModules (hs : s.Consistent) {ctx : Context} {now : Instant} {i : Int}
    {modules : List String} {r : Option DistributionSet} {s' : Store}
    (h : s.setModules ctx now i modules = .ok (r, s')) : s'.Consistent := by
  unfold Store.setModules at h
  split at h
  · obtain ⟨_, rfl⟩ := Prod.mk.inj (Except.ok.inj h)
    exact hs
  · rename_i d hd
    split at h
    · cases h
    · obtain ⟨_, rfl⟩ := Prod.mk.inj (Except.ok.inj h)
      obtain ⟨hmem, _, _⟩ := (set?_eq_some_iff hs).mp hd
      refine hs.putSet fun u hu hid => ?_
      rw [hs.sets.eq_of_id_eq hu hmem hid]

/-- A set that some action brings is only marked, so no action loses its set. -/
theorem Consistent.deleteSet (hs : s.Consistent) (ctx : Context) (now : Instant) (i : Int) :
    (s.deleteSet ctx now i).2.Consistent := by
  unfold Store.deleteSet
  split
  · exact hs
  · rename_i d hd
    obtain ⟨hmem, hid, _⟩ := (set?_eq_some_iff hs).mp hd
    split
    · refine hs.putSet fun u hu hui => ?_
      rw [hs.sets.eq_of_id_eq hu hmem hui]
    · rename_i hfree
      refine ⟨hs.targets, hs.sets.filter _, hs.actions, hs.log, hs.owner, ?_, hs.entry⟩
      intro a ha
      obtain ⟨u, hu, hui, hx⟩ := hs.set a ha
      refine ⟨u, List.mem_filter.mpr ⟨hu, ?_⟩, hui, hx⟩
      rw [bne_iff_ne]
      intro hgone
      exact hfree (List.any_eq_true.mpr ⟨a, ha, by simp [← hui, hgone]⟩)

end Store

end FleetUpdate
