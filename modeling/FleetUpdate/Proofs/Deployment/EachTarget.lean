import FleetUpdate.Proofs.Deployment.Course
import FleetUpdate.Proofs.Deployment.Sequential
import FleetUpdate.Proofs.Lifecycle.Supersession

/-!
# What becomes of each target of an assignment

Targets do not concern each other.  The targets that an assignment lists as assigned are those that
it has changed, each by what was planned for it as it stood in the beginning
(`Assigning.Steps.course`); any other target is left as it is.  Those that are listed as failed have
stood in a way from the beginning that makes an assignment leave them out (`Store.LeavesOut`).
-/

namespace FleetUpdate

open Store

variable {s s' : Store} {ctx : Context} {p : Policy} {r : AssignmentRequest} {now : Instant}
  {c x : String}

/-! ## The targets that are left out -/

/-- Why an assignment leaves a target out: no such target is there, or it has as many actions as it
may have. -/
inductive Store.LeavesOut (s : Store) (ctx : Context) (p : Policy) (c : String) :
    AssignmentFailure → Prop where
  | unregistered (h : s.target? ctx.tenantId c = none) : LeavesOut s ctx p c .notFound
  | full (limited : 0 < p.maxActions)
      (h : p.maxActions ≤ (s.actionsOf ctx.tenantId c).length) : LeavesOut s ctx p c .quotaExceeded

theorem Store.LeavesOut.of_decision {f : AssignmentFailure}
    (h : s.decision ctx p r now c = .left f) : s.LeavesOut ctx p c f := by
  unfold Store.decision at h
  split at h
  · rename_i hnone
    cases h
    exact .unregistered hnone
  · split at h
    · cases h
    · split at h
      · rename_i hfull
        cases h
        exact .full hfull.1 (Nat.le_of_lt_succ hfull.2)
      · cases h

/-- Stores that agree on a target leave it out for the same reasons. -/
theorem Store.LeavesOut.of_same {f : AssignmentFailure} (h : s'.LeavesOut ctx p c f)
    (hsame : SameAt ctx.tenantId c s s') : s.LeavesOut ctx p c f := by
  cases h with
  | unregistered hnone => exact .unregistered (hsame.target ▸ hnone)
  | full limited hfull => exact .full limited (hsame.actionsOf_eq ▸ hfull)

/-! ## The targets that are changed -/

/-- A decision to change a target is planned from the store as it is. -/
theorem freshCommit_of_decision {planned : Instant} (hs : s.Consistent)
    (hset : (s.set? ctx.tenantId r.setId).isSome) {plan : Plan}
    (h : s.decision ctx p r planned c = .change plan) {k : Committed}
    (hreceipt : s.Receipt ctx now plan.change k) :
    s.FreshCommit ctx (.assign p r) now plan k := by
  have hacc := accepts_of_decision hs hset h
  obtain ⟨t, ht, -, rfl⟩ := decision_eq_change h
  refine ⟨⟨.assign (r.newAction ctx) p.supersede planned, _, .assign, rfl, current_ofActions hs ht,
    ?_⟩, hacc, hreceipt⟩
  intro a ha
  cases ha

/-- Different targets that are assigned one by one: those that are added to the list of assigned
targets are changed, and those that are added to the list of failed ones are others, which the store
leaves out. -/
theorem Assigning.Steps.course_append {dates : Instant → Prop} {acc : AssignmentResult}
    {ids : List String} {st : Assigning} (h : Steps dates ctx p r acc s ids st) (hs : s.Consistent)
    (hset : (s.set? ctx.tenantId r.setId).isSome) (hids : ids.Nodup) :
    ∃ new, st.result.assignedTargets = acc.assignedTargets ++ new ∧ new.Sublist ids ∧
      (∀ f ∈ st.result.failed, f ∈ acc.failed ∨
        f.1 ∈ ids ∧ f.1 ∉ new ∧ s.LeavesOut ctx p f.1 f.2) ∧
      Course ctx (.assign p r) new s st.store st.events := by
  induction h with
  | nil => exact ⟨[], by simp, .slnil, fun f hf => .inl hf, .nil⟩
  | @cons acc s planned now c ids st st' _ _ one rest ih =>
    obtain ⟨hnot, hids⟩ := List.nodup_cons.mp hids
    subst one
    cases hd : s.decision ctx p r planned c with
    | left f =>
      rw [target_of_left hd] at ih ⊢
      obtain ⟨new, hnew, hsub, hfailed, hcourse⟩ := ih hs hset hids
      refine ⟨new, hnew, hsub.cons c, fun g hg => ?_, hcourse⟩
      rcases hfailed g hg with hg | ⟨hmem, hout⟩
      · rcases List.mem_append.mp hg with hg | hg
        · exact .inl hg
        · rw [List.mem_singleton.mp hg]
          exact .inr ⟨List.mem_cons_self, fun hmem => hnot (hsub.subset hmem), .of_decision hd⟩
      · exact .inr ⟨List.mem_cons_of_mem c hmem, hout⟩
    | already =>
      rw [target_of_already hd] at ih ⊢
      obtain ⟨new, hnew, hsub, hfailed, hcourse⟩ := ih hs hset hids
      refine ⟨new, hnew, hsub.cons c, fun g hg => ?_, hcourse⟩
      exact (hfailed g hg).imp_right fun hg => ⟨List.mem_cons_of_mem c hg.1, hg.2⟩
    | change plan =>
      obtain ⟨k, -, hreceipt, htarget⟩ := target_of_change acc [] hs hset hd now
      have hkey := controllerId_of_decision hd
      have hfirst := freshCommit_of_decision hs hset hd hreceipt
      rw [htarget] at ih ⊢
      obtain ⟨new, hnew, hsub, hfailed, hcourse⟩ := ih (hs.written hfirst.accepts now) hset hids
      refine ⟨c :: new, ?_, hsub.cons_cons c, fun g hg => ?_, ?_⟩
      · rw [hnew]
        simp [AssignmentResult.assign]
      · refine (hfailed g hg).imp_right ?_
        rintro ⟨hmem, hno, hout⟩
        have hne : c ≠ g.1 := fun heq => hnot (heq ▸ hmem)
        refine ⟨List.mem_cons_of_mem c hmem, ?_, hout.of_same ?_⟩
        · exact fun hnew => (List.mem_cons.mp hnew).elim hne.symm hno
        · exact .written hs hfirst.accepts fun h => hne (hkey.symm.trans (Prod.mk.inj h).2)
      · rw [← hkey]
        exact .cons hfirst hcourse

/-- Of different targets that are assigned one by one, those that are listed as assigned are
changed; those that are listed as failed are others, which the store leaves out. -/
theorem Assigning.Steps.course {dates : Instant → Prop} {n : Nat} {ids : List String}
    {st : Assigning} (h : Steps dates ctx p r (.start n) s ids st) (hs : s.Consistent)
    (hset : (s.set? ctx.tenantId r.setId).isSome) (hids : ids.Nodup) :
    st.result.assignedTargets.Nodup ∧
      (∀ f ∈ st.result.failed,
        f.1 ∈ ids ∧ f.1 ∉ st.result.assignedTargets ∧ s.LeavesOut ctx p f.1 f.2) ∧
      Course ctx (.assign p r) st.result.assignedTargets s st.store st.events := by
  obtain ⟨new, hnew, hsub, hfailed, hcourse⟩ := h.course_append hs hset hids
  rw [show st.result.assignedTargets = new from hnew]
  refine ⟨hids.sublist hsub, fun f hf => ?_, hcourse⟩
  exact (hfailed f hf).resolve_left fun hstart => by cases hstart

/-! ## The clock stands still -/

theorem Store.course_assigning (hs : s.Consistent) (hset : (s.set? ctx.tenantId r.setId).isSome)
    (p : Policy) (now : Instant) :
    (s.assigning ctx p r now).result.assignedTargets.Nodup ∧
      Course ctx (.assign p r) (s.assigning ctx p r now).result.assignedTargets s
        (s.assigning ctx p r now).store (s.assigning ctx p r now).events := by
  have hnow : (· = now) now := rfl
  obtain ⟨hnodup, -, hcourse⟩ :=
    (Assigning.Steps.of_foldl hnow hnow _ _ s).course hs hset (nodup_eraseDups _)
  exact ⟨hnodup, hcourse⟩

/-- A target got its change: it was planned for the target as it has stood before, and what a later
store holds of the target is what this change left. -/
structure Assigned (s : Store) (ctx : Context) (p : Policy) (r : AssignmentRequest) (c : String)
    (s' : Store) : Prop where
  change : ∃ change s₁ now, s₁.Consistent ∧ SameAt ctx.tenantId c s s₁ ∧ change.controllerId = c ∧
    s₁.Planned ctx (.assign p r) change ∧ SameAt ctx.tenantId c (s₁.written ctx now change) s'

/-- What becomes of each target of an assignment that runs alone. -/
theorem assigning_at (hs : s.Consistent) (hset : (s.set? ctx.tenantId r.setId).isSome)
    (p : Policy) (now : Instant) (c : String) :
    (c ∈ (s.assigning ctx p r now).result.assignedTargets ∧
      Assigned s ctx p r c (s.assigning ctx p r now).store) ∨
    (c ∉ (s.assigning ctx p r now).result.assignedTargets ∧
      SameAt ctx.tenantId c s (s.assigning ctx p r now).store) := by
  obtain ⟨hnodup, hcourse⟩ := course_assigning hs hset p now
  by_cases hc : c ∈ (s.assigning ctx p r now).result.assignedTargets
  · exact .inl ⟨hc, ⟨hcourse.planned_at hs hnodup hc⟩⟩
  · exact .inr ⟨hc, hcourse.sameAt_of_not_mem hs hc⟩

/-- An assignment leaves the targets of other tenants alone. -/
theorem sameAt_assigning (hs : s.Consistent) (hset : (s.set? ctx.tenantId r.setId).isSome)
    (h : ctx.tenantId ≠ x) : SameAt x c s (s.assigning ctx p r now).store := by
  apply (course_assigning hs hset p now).2.sameAt hs
  intro d _ heq
  exact h (Prod.mk.inj heq).1

/-! ## Assigned targets -/

variable {change : TargetChange}

/-- The commit of an assignment drives the target to the distribution set. -/
theorem Store.Planned.driven (hs : s.Consistent) (h : s.Planned ctx (.assign p r) change) :
    ∃ t, (s.written ctx now change).target? ctx.tenantId change.controllerId = some t ∧
      t.assigned = some r.setId := by
  obtain ⟨tr, v, t, hcommit⟩ := h.commit hs now
  obtain ⟨events, hp⟩ := hcommit.plan
  have hstate := hcommit.state
  have hplans := hcommit.plans
  cases hplans with
  | assign =>
    have hchange : (planAssignment v _ p.supersede _).change = change :=
      congrArg Plan.change (Option.some.inj hp)
    refine ⟨_, hcommit.row, ?_⟩
    rw [← hchange] at hstate ⊢
    exact congrArg TargetState.assigned hstate

/-- After the commit of an assignment the active actions of the target are those that were spared,
and one for the distribution set. -/
theorem Store.Planned.setIds (hs : s.Consistent) (h : s.Planned ctx (.assign p r) change) :
    ((s.written ctx now change).activeOf ctx.tenantId change.controllerId).map Action.setId =
      ((s.activeOf ctx.tenantId change.controllerId).filter p.supersede.spares).map Action.setId ++
        [r.setId] := by
  obtain ⟨tr, v, t, hcommit⟩ := h.commit hs now
  obtain ⟨events, hp⟩ := hcommit.plan
  have hafter := hcommit.activeAfter
  have hview := hcommit.active
  have hplans := hcommit.plans
  cases hplans with
  | assign =>
    have hchange : (planAssignment v _ p.supersede _).change = change :=
      congrArg Plan.change (Option.some.inj hp)
    have hnew : (s.createdBy ctx now change).map Action.setId = [r.setId] := by
      rw [createdBy, ← hchange]
      rfl
    rw [hafter, List.map_append, hnew, ← hview, ← hchange,
      setIds_of_spared (hcommit.nodup hs) hcommit.all_active]

/-- A target that got its change is driven to the distribution set. -/
theorem Assigned.driven (h : Assigned s ctx p r c s') :
    ∃ t, s'.target? ctx.tenantId c = some t ∧ t.assigned = some r.setId := by
  obtain ⟨change, s₁, now, hs₁, -, rfl, hplanned, hafter⟩ := h.change
  rw [hafter.target]
  exact hplanned.driven hs₁

/-- The active actions of a target that got its change are those that were spared, and one for the
distribution set. -/
theorem Assigned.setIds (h : Assigned s ctx p r c s') :
    (s'.activeOf ctx.tenantId c).map Action.setId =
      ((s.activeOf ctx.tenantId c).filter p.supersede.spares).map Action.setId ++ [r.setId] := by
  obtain ⟨change, s₁, now, hs₁, hbefore, rfl, hplanned, hafter⟩ := h.change
  rw [hafter.activeOf_eq, ← hbefore.activeOf_eq]
  exact hplanned.setIds hs₁

end FleetUpdate
