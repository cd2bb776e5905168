import FleetUpdate.Proofs.Store.Integrity
import Mathlib.Data.List.Infix

/-!
# What a distribution set contains

Whether a distribution set is complete is stored beside its modules, and name and version are not
the key of the table; that both stay in order is an invariant of all requests (`Catalogued`).  Over
time a stored set keeps its name, its version and what it requires, a set that is marked as deleted
stays marked and keeps its modules as well (`Continues`), and a set that some action brings keeps
everything that says what is installed (`content`) and is not removed.  When its last action goes
with the target the protection ends, and a request may delete the set for good; its id is then never
given out again, so two rows of one id are rows of one set.
-/

namespace FleetUpdate

namespace DistributionSet

/-- What tells the distribution sets of all tenants apart. -/
def label (d : DistributionSet) : String × String × String := (d.tenantId, d.name, d.version)

/-- What an action that brings the set installs. -/
def content (d : DistributionSet) : String × String × List String × List String × Bool :=
  (d.name, d.version, d.requiredModules, d.modules, d.complete)

/-- What a row of a set says, as long as the set is stored, about all its later rows. -/
structure Continues (d d' : DistributionSet) : Prop where
  id : d'.id = d.id
  label : d'.label = d.label
  required : d'.requiredModules = d.requiredModules
  /-- A set that is marked as deleted stays marked. -/
  deleted : d.deleted = true → d'.deleted = true
  /-- It keeps its modules too. -/
  modules : d.deleted = true → d'.modules = d.modules

variable {d d' d'' : DistributionSet} {ctx : Context} {now : Instant}

namespace Continues

theorem refl (d : DistributionSet) : d.Continues d := ⟨rfl, rfl, rfl, fun hd => hd, fun _ => rfl⟩

theorem trans (h : d.Continues d') (h' : d'.Continues d'') : d.Continues d'' :=
  ⟨h'.id.trans h.id, h'.label.trans h.label, h'.required.trans h.required,
    fun hd => h'.deleted (h.deleted hd),
    fun hd => (h'.modules (h.deleted hd)).trans (h.modules hd)⟩

/-- Only a set that is not marked gets new modules. -/
theorem refilled (hkept : d.deleted = false) (modules : List String) :
    d.Continues (d.refilled ctx now modules) :=
  ⟨rfl, rfl, rfl, fun hd => absurd hd (by simp [hkept]), fun hd => absurd hd (by simp [hkept])⟩

theorem marked (d : DistributionSet) : d.Continues (d.marked ctx now) :=
  ⟨rfl, rfl, rfl, fun _ => rfl, fun _ => rfl⟩

end Continues

end DistributionSet

namespace Store

variable {s s' s'' : Store} {i : Int} {d d' : DistributionSet}

/-! ## In every store -/

/-- Completeness is what the modules say, and no two distribution sets of a tenant, marked ones
included, have name and version in common. -/
structure Catalogued (s : Store) : Prop where
  complete : ∀ d ∈ s.sets, d.complete = isComplete d.requiredModules d.modules
  distinct : (s.sets.map DistributionSet.label).Nodup

theorem mem_putSet (h : d' ∈ (s.putSet d).sets) : d' = d ∨ d' ∈ s.sets := by
  obtain ⟨u, hu, rfl⟩ := List.mem_map.mp h
  by_cases hid : u.id = d.id
  · exact .inl (if_pos hid)
  · exact .inr (by rwa [if_neg hid])

/-- A row that is rewritten under its label leaves the labels as they are. -/
theorem labels_putSet (hs : s.Consistent) (hmem : d ∈ s.sets) (hid : d'.id = d.id)
    (hlabel : d'.label = d.label) :
    (s.putSet d').sets.map DistributionSet.label = s.sets.map DistributionSet.label := by
  show (s.sets.map fun u => if u.id = d'.id then d' else u).map DistributionSet.label = _
  rw [List.map_map]
  apply List.map_congr_left
  intro u hu
  by_cases h : u.id = d'.id
  · obtain rfl : u = d := hs.sets.eq_of_id_eq hu hmem (h.trans hid)
    simp [h, hlabel]
  · simp [h]

namespace Catalogued

theorem empty : Store.empty.Catalogued := ⟨by simp [Store.empty], .nil⟩

theorem putSet (h : s.Catalogued) (hs : s.Consistent) (hmem : d ∈ s.sets) (hid : d'.id = d.id)
    (hlabel : d'.label = d.label)
    (hcomplete : d'.complete = isComplete d'.requiredModules d'.modules) :
    (s.putSet d').Catalogued := by
  refine ⟨fun u hu => ?_, ?_⟩
  · rcases mem_putSet hu with rfl | hu
    · exact hcomplete
    · exact h.complete u hu
  · rw [labels_putSet hs hmem hid hlabel]
    exact h.distinct

/-- Every request keeps the sets in order. -/
theorem after (h : s.Catalogued) (hs : s.Consistent) (o : Op) : (s.after o).Catalogued := by
  obtain ⟨ctx, now, r⟩ := o
  have heffect := perform_sets hs ctx now r
  show (s.perform ctx now r).2.Catalogued
  generalize (s.perform ctx now r).2 = s' at heffect ⊢
  cases heffect with
  | keep sets last =>
    obtain ⟨hcomplete, hdistinct⟩ := h
    exact ⟨sets ▸ hcomplete, sets ▸ hdistinct⟩
  | create n free =>
    refine ⟨fun d hd => ?_, ?_⟩
    · rcases List.mem_append.mp hd with hd | hd
      · exact h.complete d hd
      · rw [List.mem_singleton.mp hd]
        rfl
    · show ((s.sets ++ [_]).map DistributionSet.label).Nodup
      rw [List.map_append, List.nodup_append]
      refine ⟨h.distinct, List.nodup_singleton _, ?_⟩
      -- a stored label is not the new one, for the store would have refused it
      rintro _ hold _ hnew rfl
      obtain ⟨d, hd, hlabel⟩ := List.mem_map.mp hold
      have hsame := hlabel.trans (List.mem_singleton.mp hnew)
      obtain ⟨htenant, hname, hversion⟩ : d.tenantId = ctx.tenantId ∧ d.name = n.name ∧
          d.version = n.version := by
        simpa [DistributionSet.label, NewDistributionSet.row] using hsame
      exact free d hd htenant hname hversion
  | refill modules found _ _ =>
    exact h.putSet hs ((set?_eq_some_iff hs).mp found).1 rfl rfl rfl
  | @mark i d found _ =>
    have hmem : d ∈ s.sets := ((set?_eq_some_iff hs).mp found).1
    exact h.putSet hs hmem rfl rfl (h.complete d hmem)
  | drop found _ =>
    exact ⟨fun d hd => h.complete d (List.mem_filter.mp hd).1,
      h.distinct.sublist (List.filter_sublist.map _)⟩

end Catalogued

theorem Reachable.catalogued (hs : s.Reachable) : s.Catalogued := by
  obtain ⟨ops, rfl⟩ := hs
  have hboth : (Store.empty.afterAll ops).Consistent ∧ (Store.empty.afterAll ops).Catalogued :=
    afterAll_induction (P := fun s => s.Consistent ∧ s.Catalogued) ⟨.empty, .empty⟩
      fun o _ _ h => ⟨h.1.after o, h.2.after h.1 o⟩
  exact hboth.2

/-! ## Over time -/

/-- In a later store no fewer ids have been given out, and the row of a set that is older than that
continues one that was stored. -/
structure KeepsSets (s s' : Store) : Prop where
  last_le : s.lastSetId ≤ s'.lastSetId
  old : ∀ d' ∈ s'.sets, d'.id ≤ s.lastSetId → ∃ d ∈ s.sets, d.Continues d'

namespace KeepsSets

theorem refl (s : Store) : s.KeepsSets s := ⟨Int.le_refl _, fun d hd _ => ⟨d, hd, .refl d⟩⟩

theorem trans (h : s.KeepsSets s') (h' : s'.KeepsSets s'') : s.KeepsSets s'' := by
  refine ⟨Int.le_trans h.last_le h'.last_le, fun d'' hd'' hle => ?_⟩
  obtain ⟨d', hd', hcont'⟩ := h'.old d'' hd'' (Int.le_trans hle h.last_le)
  obtain ⟨d, hd, hcont⟩ := h.old d' hd' (hcont'.id ▸ hle)
  exact ⟨d, hd, hcont.trans hcont'⟩

theorem putSet (hmem : d ∈ s.sets) (hcont : d.Continues d') : s.KeepsSets (s.putSet d') := by
  refine ⟨Int.le_refl _, fun u hu _ => ?_⟩
  rcases mem_putSet hu with rfl | hu
  · exact ⟨d, hmem, hcont⟩
  · exact ⟨u, hu, .refl u⟩

theorem after (hs : s.Consistent) (o : Op) : s.KeepsSets (s.after o) := by
  obtain ⟨ctx, now, r⟩ := o
  have hids : KeepsIds .sets s (s.after ⟨ctx, now, r⟩) := .after hs _
  have heffect := perform_sets hs ctx now r
  refine ⟨hids.last_le, ?_⟩
  show ∀ d' ∈ (s.perform ctx now r).2.sets, d'.id ≤ s.lastSetId → ∃ d ∈ s.sets, d.Continues d'
  generalize (s.perform ctx now r).2 = s' at heffect ⊢
  cases heffect with
  | keep sets _ => exact fun d hd _ => ⟨d, sets ▸ hd, .refl d⟩
  | create n _ =>
    intro d hd hle
    rcases List.mem_append.mp hd with hd | hd
    · exact ⟨d, hd, .refl d⟩
    · obtain rfl := List.mem_singleton.mp hd
      change s.lastSetId + 1 ≤ s.lastSetId at hle
      omega
  | refill modules found kept _ =>
    exact (putSet ((set?_eq_some_iff hs).mp found).1 (.refilled kept modules)).old
  | mark found _ => exact (putSet ((set?_eq_some_iff hs).mp found).1 (.marked _)).old
  | drop found _ => exact fun d hd _ => ⟨d, (List.mem_filter.mp hd).1, .refl d⟩

theorem afterAll (hs : s.Consistent) (ops : List Op) : s.KeepsSets (s.afterAll ops) := by
  induction ops generalizing s with
  | nil => exact .refl s
  | cons o ops ih => exact (after hs o).trans (ih (hs.after o))

/-- A row that is found later under the id of a stored set continues it. -/
theorem continues (h : s.KeepsSets s') (hs : s.Consistent) (hs' : s'.Consistent)
    (hd : s.setById? i = some d) (hd' : s'.setById? i = some d') : d.Continues d' := by
  obtain ⟨hmem, hid⟩ := (setById?_eq_some_iff hs).mp hd
  obtain ⟨hmem', hid'⟩ := (setById?_eq_some_iff hs').mp hd'
  have hsame : d'.id = d.id := hid'.trans hid.symm
  obtain ⟨u, hu, hcont⟩ := h.old d' hmem' (hsame ▸ hs.sets.le_last d hmem)
  obtain rfl : u = d := hs.sets.eq_of_id_eq hu hmem (hcont.id.symm.trans hsame)
  exact hcont

end KeepsSets

/-! ## While some action brings the set -/

/-- A set that some action brings is stored. -/
theorem exists_setById?_of_isReferenced (hs : s.Consistent) (h : s.isReferenced i = true) :
    ∃ d, s.setById? i = some d := by
  obtain ⟨a, ha, hset⟩ := List.any_eq_true.mp h
  obtain ⟨d, hd, hid, -⟩ := hs.set a ha
  exact ⟨d, (setById?_eq_some_iff hs).mpr ⟨hd, hid.trans (beq_iff_eq.mp hset)⟩⟩

/-- The next request leaves such a set stored with its content. -/
theorem content_after (hs : s.Consistent) (o : Op) (h : s.isReferenced i = true)
    (hd : s.setById? i = some d) :
    ∃ d', (s.after o).setById? i = some d' ∧ d'.content = d.content := by
  obtain ⟨hmem, hid⟩ := (setById?_eq_some_iff hs).mp hd
  have hfound : s.set? d.tenantId i = some d := (set?_eq_some_iff hs).mpr ⟨hmem, hid, rfl⟩
  have hstored {d' : DistributionSet} (h' : (s.after o).set? d.tenantId i = some d') :
      (s.after o).setById? i = some d' := by
    obtain ⟨hmem', hid', -⟩ := (set?_eq_some_iff (hs.after o)).mp h'
    exact (setById?_eq_some_iff (hs.after o)).mpr ⟨hmem', hid'⟩
  rcases set?_perform hs o.ctx o.now o.request hfound with hsame | ⟨-, -, hfree | hmarked⟩
  · exact ⟨d, hstored hsame, rfl⟩
  · rw [hfree] at h
    cases h
  · exact ⟨_, hstored hmarked, rfl⟩

/-- The request that makes some action bring a set for the first time finds the set as it leaves
it. -/
theorem setById?_of_first (hs : s.Consistent) (o : Op) (hfree : s.isReferenced i = false)
    (h : (s.after o).isReferenced i = true) : (s.after o).setById? i = s.setById? i := by
  obtain ⟨ctx, now, r⟩ := o
  have heffect := perform_sets hs ctx now r
  change (s.perform ctx now r).2.isReferenced i = true at h
  show (s.perform ctx now r).2.setById? i = s.setById? i
  generalize (s.perform ctx now r).2 = s' at heffect h ⊢
  cases heffect with
  | keep sets _ => rw [setById?, sets, setById?]
  -- the requests that write sets leave all actions as they are
  | create _ _ | refill _ _ _ _ | mark _ _ | drop _ _ => exact absurd (hfree.symm.trans h) (by simp)

/-- As long as some action brings it, it stays so. -/
theorem content_afterAll (hs : s.Consistent) (ops : List Op)
    (h : ∀ earlier, earlier <+: ops → (s.afterAll earlier).isReferenced i = true)
    (hd : s.setById? i = some d) :
    ∃ d', (s.afterAll ops).setById? i = some d' ∧ d'.content = d.content := by
  induction ops generalizing s d with
  | nil => exact ⟨d, hd, rfl⟩
  | cons o ops ih =>
    obtain ⟨d₁, hd₁, hcontent⟩ := content_after hs o (h [] List.nil_prefix) hd
    obtain ⟨d', hd', hcontent'⟩ := ih (hs.after o)
      (fun earlier hprefix => h (o :: earlier) (List.cons_prefix_cons.mpr ⟨rfl, hprefix⟩)) hd₁
    exact ⟨d', hd', hcontent'.trans hcontent⟩

/-- The request that makes some action bring a set finds the set stored, and leaves it with its
content. -/
theorem content_of_isReferenced_after (hs : s.Consistent) (o : Op)
    (h : (s.after o).isReferenced i = true) :
    ∃ d d', s.setById? i = some d ∧ (s.after o).setById? i = some d' ∧ d'.content = d.content := by
  cases hbefore : s.isReferenced i with
  | true =>
    obtain ⟨d, hd⟩ := exists_setById?_of_isReferenced hs hbefore
    obtain ⟨d', hd', hcontent⟩ := content_after hs o hbefore hd
    exact ⟨d, d', hd, hd', hcontent⟩
  | false =>
    obtain ⟨d, hd⟩ := exists_setById?_of_isReferenced (hs.after o) h
    exact ⟨d, d, (setById?_of_first hs o hbefore h).symm.trans hd, hd, rfl⟩

/-- In every reachable store completeness is what the modules say, and name and version tell the
distribution sets of a tenant apart.  Whatever is asked later, a set keeps its name, its version and
what it requires, and once it is marked as deleted its mark and its modules; and from the request on
that makes some action bring it, as long as any action does, it is stored with the content that this
request found. -/
theorem Reachable.sets_integrity (hs : s.Reachable) (o : Op) (later : List Op) :
    s.Catalogued ∧
    (∀ i d d', s.setById? i = some d → (s.afterAll (o :: later)).setById? i = some d' →
      d.Continues d') ∧
    ∀ i, (∀ earlier, earlier <+: later →
        ((s.after o).afterAll earlier).isReferenced i = true) →
      ∃ d d', s.setById? i = some d ∧ (s.afterAll (o :: later)).setById? i = some d' ∧
        d'.content = d.content := by
  have hcs := hs.consistent
  have hkeeps : s.KeepsSets (s.afterAll (o :: later)) := .afterAll hcs _
  refine ⟨hs.catalogued, fun i d d' => hkeeps.continues hcs (hcs.afterAll _), fun i h => ?_⟩
  obtain ⟨d, d₁, hd, hd₁, hcontent⟩ := content_of_isReferenced_after hcs o (h [] List.nil_prefix)
  obtain ⟨d', hd', hcontent'⟩ := content_afterAll (hcs.after o) later h hd₁
  exact ⟨d, d', hd, hd', hcontent'.trans hcontent⟩

/-- While the first distribution set is assigned to the device, the operator deletes it and tries to
give it a module. -/
def sampleEdits : List Op :=
  [⟨sampleContext, 3, .deleteSet 1⟩, ⟨sampleContext, 4, .setModules 1 ["kernel"]⟩]

/-- The set is only marked, and it keeps its content.  Once the device has been deleted, the same
request removes it. -/
theorem sampleEdits_content :
    (∃ d', (sample.afterAll (⟨sampleContext, 2, .applyChanges [sampleAssignment 1]⟩ ::
        sampleEdits)).setById? 1 = some d' ∧
      d'.deleted = true ∧ d'.content = ("app", "1", [], [], true)) ∧
    (sampleInUse.afterAll (sampleEdits ++ [⟨sampleContext, 5, .deleteTarget "device"⟩,
      ⟨sampleContext, 6, .deleteSet 1⟩])).setById? 1 = none := by
  obtain ⟨-, -, hheld⟩ := sample_reachable.sets_integrity
    ⟨sampleContext, 2, .applyChanges [sampleAssignment 1]⟩ sampleEdits
  have hused : ∀ earlier ∈ sampleEdits.inits,
      (sampleInUse.afterAll earlier).isReferenced 1 = true := by decide +kernel
  obtain ⟨d, d', hd, hd', hcontent⟩ :=
    hheld 1 fun earlier hprefix => hused earlier ((List.mem_inits _ _).mpr hprefix)
  have hmarked : ((sample.afterAll (⟨sampleContext, 2, .applyChanges [sampleAssignment 1]⟩ ::
      sampleEdits)).setById? 1).map DistributionSet.deleted = some true := by decide +kernel
  have hfirst : (sample.setById? 1).map DistributionSet.content =
      some ("app", "1", [], [], true) := by decide +kernel
  rw [hd', Option.map_some, Option.some_inj] at hmarked
  rw [hd, Option.map_some, Option.some_inj] at hfirst
  exact ⟨⟨d', hd', hmarked, hcontent.trans hfirst⟩, by decide +kernel⟩

end Store

end FleetUpdate
