import FleetUpdate.Proofs.Store.Commit

/-!
# What requests do to distribution sets

Three requests write distribution sets, and only under the tenant that asks: one creates a set under
the next id, one gives new modules to a set that no action brings, and one deletes a set, which only
marks it while some action brings it.  `perform_sets` says that nothing else happens to them; a
commit, in particular, leaves them alone.
-/

namespace FleetUpdate

/-- The row of a distribution set under the id that it gets. -/
def NewDistributionSet.row (n : NewDistributionSet) (ctx : Context) (now : Instant) (id : Int) :
    DistributionSet :=
  { tenantId := ctx.tenantId
    id := id
    name := n.name
    version := n.version
    typeKey := n.typeKey
    requiredModules := n.requiredModules
    modules := n.modules
    complete := isComplete n.requiredModules n.modules
    deleted := false
    revision := 1
    audit := Audit.created ctx.userId now }

/-- The request gives a distribution set new modules or deletes it. -/
def Request.EditsSet (i : Int) : Request → Prop
  | setModules j _ | deleteSet j => j = i
  | _ => False

namespace DistributionSet

/-- The row of a distribution set after its modules were replaced. -/
def refilled (d : DistributionSet) (ctx : Context) (now : Instant) (modules : List String) :
    DistributionSet :=
  { d with
    modules := modules
    complete := isComplete d.requiredModules modules
    revision := d.revision + 1
    audit := d.audit.touch ctx.userId now }

/-- The row of a distribution set after it was marked as deleted. -/
def marked (d : DistributionSet) (ctx : Context) (now : Instant) : DistributionSet :=
  { d with
    deleted := true
    revision := d.revision + 1
    audit := d.audit.touch ctx.userId now }

end DistributionSet

namespace Store

/-- What becomes of the distribution sets by a request. -/
inductive SetsEffect (s : Store) (ctx : Context) (now : Instant) : Request → Store → Prop where
  /-- The request does not write them, or it is refused. -/
  | keep {r : Request} {s' : Store} (sets : s'.sets = s.sets) (last : s'.lastSetId = s.lastSetId) :
      SetsEffect s ctx now r s'
  | create (n : NewDistributionSet)
      (free : ∀ d ∈ s.sets, d.tenantId = ctx.tenantId → d.name = n.name → d.version ≠ n.version) :
      SetsEffect s ctx now (.createSet n)
        { s with
          sets := s.sets ++ [n.row ctx now (s.lastSetId + 1)]
          lastSetId := s.lastSetId + 1 }
  | refill {i : Int} (modules : List String) {d : DistributionSet}
      (found : s.set? ctx.tenantId i = some d) (kept : d.deleted = false)
      (free : s.isReferenced i = false) :
      SetsEffect s ctx now (.setModules i modules) (s.putSet (d.refilled ctx now modules))
  | mark {i : Int} {d : DistributionSet} (found : s.set? ctx.tenantId i = some d)
      (used : s.isReferenced i = true) :
      SetsEffect s ctx now (.deleteSet i) (s.putSet (d.marked ctx now))
  | drop {i : Int} {d : DistributionSet} (found : s.set? ctx.tenantId i = some d)
      (free : s.isReferenced i = false) :
      SetsEffect s ctx now (.deleteSet i) { s with sets := s.sets.filter fun u => u.id != i }

variable {s s' : Store} {ctx : Context} {now : Instant}

/-! ## Requests about targets leave the sets alone -/

theorem sets_changeTarget (s : Store) (ctx : Context) (c : String) (f : Target → Target) :
    (s.changeTarget ctx c f).2.sets = s.sets ∧
      (s.changeTarget ctx c f).2.lastSetId = s.lastSetId := by
  unfold changeTarget
  split <;> exact ⟨rfl, rfl⟩

theorem sets_deleteTarget (s : Store) (ctx : Context) (c : String) :
    (s.deleteTarget ctx c).2.sets = s.sets ∧
      (s.deleteTarget ctx c).2.lastSetId = s.lastSetId := by
  unfold deleteTarget
  split <;> exact ⟨rfl, rfl⟩

theorem sets_commit (hs : s.Consistent) (ctx : Context) (now : Instant) (c : TargetChange) :
    (s.commit ctx now c).2.sets = s.sets ∧ (s.commit ctx now c).2.lastSetId = s.lastSetId := by
  rcases commit_cases hs ctx now c with ⟨k, -, hcommit, -⟩ | ⟨e, -, hcommit⟩ <;>
    exact hcommit ▸ ⟨rfl, rfl⟩

theorem sets_commitAll (hs : s.Consistent) (ctx : Context) (now : Instant)
    (cs : List TargetChange) :
    (s.commitAll ctx now cs).2.sets = s.sets ∧
      (s.commitAll ctx now cs).2.lastSetId = s.lastSetId := by
  induction cs generalizing s with
  | nil => exact ⟨rfl, rfl⟩
  | cons c cs ih =>
    obtain ⟨hsets, hlast⟩ := sets_commit hs ctx now c
    obtain ⟨hsets', hlast'⟩ := ih (hs.commit ctx now c)
    exact ⟨hsets'.trans hsets, hlast'.trans hlast⟩

/-! ## Requests about sets -/

theorem createSet_effect (s : Store) (ctx : Context) (now : Instant) (n : NewDistributionSet) :
    s.SetsEffect ctx now (.createSet n) (s.settle (s.createSet ctx now n)).2 := by
  unfold createSet
  split
  · exact .keep rfl rfl
  · rename_i hfree
    refine .create n fun d hd hx hname hversion => hfree ?_
    rw [List.any_eq_true]
    exact ⟨d, hd, by simp [hx, hname, hversion]⟩

theorem setModules_effect (s : Store) (ctx : Context) (now : Instant) (i : Int)
    (modules : List String) :
    s.SetsEffect ctx now (.setModules i modules) (s.settle (s.setModules ctx now i modules)).2 := by
  unfold setModules
  split
  · exact .keep rfl rfl
  · rename_i d hd
    split
    · exact .keep rfl rfl
    · rename_i hinUse
      obtain ⟨hkept, hfree⟩ : d.deleted = false ∧ s.isReferenced i = false := by simpa using hinUse
      exact .refill modules hd hkept hfree

theorem deleteSet_effect (s : Store) (ctx : Context) (now : Instant) (i : Int) :
    s.SetsEffect ctx now (.deleteSet i) (s.deleteSet ctx now i).2 := by
  unfold deleteSet
  split
  · exact .keep rfl rfl
  · rename_i d hd
    split
    · rename_i hused
      exact .mark hd hused
    · rename_i hfree
      exact .drop hd (by simpa using hfree)

/-- These are all the things that happen to distribution sets. -/
theorem perform_sets (hs : s.Consistent) (ctx : Context) (now : Instant) (r : Request) :
    s.SetsEffect ctx now r (s.perform ctx now r).2 := by
  unfold perform
  split
  · exact .keep rfl rfl
  · cases r with
    | createTarget n =>
      show s.SetsEffect ctx now _ (s.settle (s.createTarget ctx now n)).2
      cases h : s.createTarget ctx now n with
      | error e => exact .keep rfl rfl
      | ok r =>
        obtain ⟨t, s'⟩ := r
        obtain ⟨-, -, -, rfl⟩ := createTarget_eq_ok_iff.mp h
        exact .keep rfl rfl
    | updateTarget c d => exact (sets_changeTarget s ctx c _).elim .keep
    | markContacted c time => exact (sets_changeTarget s ctx c _).elim .keep
    | deleteTarget c => exact (sets_deleteTarget s ctx c).elim .keep
    | createSet n => exact createSet_effect s ctx now n
    | setModules i modules => exact setModules_effect s ctx now i modules
    | deleteSet i => exact deleteSet_effect s ctx now i
    | applyChanges cs => exact (sets_commitAll hs ctx now cs).elim .keep
    | findTarget _ | findTargets _ | findSet _ | findSets _ | findAction _ | findActions _
    | findActive _ | findActiveOfAll _ | countActions _ | findSummaries _ | findLog _
    | findLastEnded _ => exact .keep rfl rfl

/-! ## What becomes of one set -/

/-- A set that is stored stays as it is, unless its tenant asks for new modules or deletes it.  Where
an action brings the set, it can at most be marked as deleted. -/
theorem set?_perform (hs : s.Consistent) (ctx : Context) (now : Instant) (r : Request) {x : String}
    {i : Int} {d : DistributionSet} (hd : s.set? x i = some d) :
    (s.perform ctx now r).2.set? x i = some d ∨ ctx.tenantId = x ∧ r.EditsSet i ∧
      (s.isReferenced i = false ∨ (s.perform ctx now r).2.set? x i = some (d.marked ctx now)) := by
  have hs' := hs.perform ctx now r
  have heffect := perform_sets hs ctx now r
  obtain ⟨hmem, hid, hx⟩ := (set?_eq_some_iff hs).mp hd
  -- whatever row of this id was found under the tenant that asks, it is this one
  have hsame {j : Int} {u : DistributionSet} (hu : s.set? ctx.tenantId j = some u) (hj : j = i) :
      u = d ∧ ctx.tenantId = x := by
    obtain ⟨humem, huid, hux⟩ := (set?_eq_some_iff hs).mp hu
    obtain rfl : u = d := hs.sets.eq_of_id_eq humem hmem (by rw [huid, hj, hid])
    exact ⟨rfl, hux.symm.trans hx⟩
  have hother {j : Int} {u u' : DistributionSet} (hu : s.set? ctx.tenantId j = some u)
      (hrow : u'.id = u.id) (hj : j ≠ i) : d ∈ (s.putSet u').sets := by
    have huid := ((set?_eq_some_iff hs).mp hu).2.1
    exact List.mem_map.mpr ⟨d, hmem, if_neg fun h => hj (by rw [← huid, ← hrow, ← h, hid])⟩
  rw [set?_eq_some_iff hs', set?_eq_some_iff hs']
  generalize (s.perform ctx now r).2 = s' at heffect ⊢
  cases heffect with
  | keep sets _ => exact .inl ⟨sets ▸ hmem, hid, hx⟩
  | create n _ => exact .inl ⟨List.mem_append_left _ hmem, hid, hx⟩
  | @refill j modules u found _ free =>
    by_cases hj : j = i
    · obtain ⟨-, htenant⟩ := hsame found hj
      exact .inr ⟨htenant, hj, .inl (hj ▸ free)⟩
    · exact .inl ⟨hother found rfl hj, hid, hx⟩
  | @mark j u found _ =>
    by_cases hj : j = i
    · obtain ⟨rfl, htenant⟩ := hsame found hj
      exact .inr ⟨htenant, hj, .inr ⟨List.mem_map.mpr ⟨u, hmem, if_pos rfl⟩, hid, hx⟩⟩
    · exact .inl ⟨hother found rfl hj, hid, hx⟩
  | @drop j u found free =>
    by_cases hj : j = i
    · obtain ⟨-, htenant⟩ := hsame found hj
      exact .inr ⟨htenant, hj, .inl (hj ▸ free)⟩
    · refine .inl ⟨List.mem_filter.mpr ⟨hmem, ?_⟩, hid, hx⟩
      rw [hid]
      exact bne_iff_ne.mpr (Ne.symm hj)

end Store

end FleetUpdate
