import FleetUpdate.Proofs.Lifecycle.Turn
import FleetUpdate.Proofs.Store.Growth

/-!
# Plans that outlive their target

A plan may still be on its way to the store when its target is deleted, and the target may be
registered anew by then.  A plan that updates an action is refused from then on, because ids are
used once.  A plan that updates none is protected by the revision of the target alone, and
revisions start from 1 again with every registration: such a plan is committed to the new target
whenever that happens to stand at the revision that the old one had
(`plan_of_deleted_target_committed_iff`).
-/

namespace FleetUpdate

namespace Store

variable {s : Store} {x c : String}

/-- A plan that was made for a target is accepted for it after the target has been deleted exactly
if it updates no action, the target is registered again at the revision at which it was read, and the
distribution set of the plan is still there. -/
theorem accepts_plan_of_deleted_target_iff (hs : s.Consistent) {t : Target}
    (ht : s.target? x c = some t) {tr : Transition}
    (hsubject : ∀ a, tr.subject? = some a → a ∈ s.activeOf x c) {p : Plan}
    (hp : tr.plan? (.ofActions t (s.activeOf x c)) = some p) {gone s' : Store}
    (hlater : s.Grows gone) (hgone : gone.Consistent) (hnone : gone.target? x c = none)
    (hlast : gone.Grows s') {ctx : Context} (hx : ctx.tenantId = x) :
    s'.Accepts ctx p.change ↔ p.change.actionUpdates = [] ∧
      (∃ t', s'.target? x c = some t' ∧ t'.revision = t.revision) ∧
      ∀ n ∈ p.change.newActions, (s'.set? x n.setId).isSome := by
  obtain ⟨hcontroller, hrevision⟩ := tr.plan?_target hp
  obtain ⟨hupdates, hentries⟩ := tr.plan?_refers hp fun a ha =>
    TargetView.mem_active_ofActions.mpr ⟨hsubject a ha, (mem_activeOf.mp (hsubject a ha)).2⟩
  have hkey : p.change.controllerId = c := by
    rw [hcontroller, TargetView.target_ofActions]
    exact (Prod.mk.inj (key_of_target? ht)).2
  constructor
  · intro h
    refine ⟨?_, ?_, ?_⟩
    · -- an action that the plan updates is no longer stored
      rw [List.eq_nil_iff_forall_not_mem]
      intro u hu
      obtain ⟨a, ha, hid, -⟩ := h.updates u hu
      rw [hx, hkey] at ha
      obtain ⟨b, hb, hbid, -⟩ := hupdates u hu
      obtain ⟨hb, -⟩ := TargetView.mem_active_ofActions.mp hb
      exact Grows.forget hs hlater hgone hnone hlast (mem_activeOf.mp hb).1 a ha
        (hid.trans hbid.symm)
    · have htarget := h.target
      rwa [hx, hkey, hrevision] at htarget
    · have hsets := h.sets
      rwa [hx] at hsets
  · rintro ⟨hnil, htarget, hsets⟩
    refine ⟨?_, ?_, ?_, ?_⟩
    · rwa [hx, hkey, hrevision]
    · rwa [hx]
    · rw [hnil]
      simp
    · intro e he
      rcases hentries e he with ⟨i, hi, hlt⟩ | ⟨u, hu, -⟩
      · rw [hi]
        exact hlt
      · rw [hnil] at hu
        cases hu

/-- Whatever was planned for a target from what the store held of it, and is applied after the
target has been deleted, is committed if the plan updates no action, the target is registered again
and stands at the revision at which it was read, and the distribution set of the plan is still
there.  In every other case it is refused, as a conflict or for what is missing, and the store stays
as it is. -/
theorem plan_of_deleted_target_committed_iff (hs : s.Reachable) {t : Target}
    (ht : s.target? x c = some t) {tr : Transition}
    (hsubject : ∀ a, tr.subject? = some a → a ∈ s.activeOf x c) {p : Plan}
    (hp : tr.plan? (.ofActions t (s.activeOf x c)) = some p)
    {before later : List Op} (hgone : (s.afterAll before).target? x c = none)
    {q : Applied} (hq : q ∈ (s.afterAll before).applied later) (hx : q.ctx.tenantId = x)
    (hchange : q.change = p.change) :
    (q.outcome.isOk = true ↔ p.change.actionUpdates = [] ∧
      (∃ t', q.before.target? x c = some t' ∧ t'.revision = t.revision) ∧
      ∀ n ∈ p.change.newActions, (q.before.set? x n.setId).isSome) ∧
    (q.outcome.isOk = false → (∃ e, q.outcome = .error e ∧
      (e.kind = .conflict ∨ e.kind = .notFound)) ∧ q.after = q.before) := by
  have hconsistent := hs.consistent
  obtain ⟨hfollows, -⟩ := Grows.tracks.applied (hconsistent.afterAll before)
    fun o _ _ hs => Grows.after hs o
  have hfollow := hfollows q hq
  obtain ⟨now, hcommit⟩ := hfollow.commit
  have haccepts := accepts_plan_of_deleted_target_iff hconsistent ht hsubject hp
    (Grows.afterAll hconsistent before) (hconsistent.afterAll before) hgone hfollow.reached hx
  rw [← haccepts, ← hchange]
  rcases commit_cases hfollow.consistent q.ctx now q.change with
    ⟨k, hacc, hk, -⟩ | ⟨e, hcheck, he⟩
  · have hout : q.outcome = .ok k := (Prod.mk.inj (hcommit.symm.trans hk)).1
    rw [hout]
    exact ⟨⟨fun _ => hacc, fun _ => rfl⟩, fun h => by cases h⟩
  · obtain ⟨hout, hafter⟩ := Prod.mk.inj (hcommit.symm.trans he)
    rw [hout, hafter]
    refine ⟨⟨fun h => (by cases h), fun h => ?_⟩, fun _ => ⟨⟨e, rfl, ?_⟩, rfl⟩⟩
    · rw [(checkChange_eq_ok_iff hfollow.consistent).mpr h] at hcheck
      cases hcheck
    · apply kind_of_checkChange_error hcheck
      rw [hchange]
      exact tr.plan?_created hp

/-! ## An assignment that reaches another device -/

/-- The assignment of the first distribution set to the device of the small store. -/
def sampleTransition : Transition :=
  .assign ⟨1, .scheduled, .forced, none, none, none, none, none, "operator"⟩ .immediate 1

/-- The device is deleted, -/
def deletion : List Op := [⟨sampleContext, 2, .deleteTarget "device"⟩]

/-- another one is registered under its id, and what was planned for the first one is applied. -/
def reuse : List Op :=
  [⟨sampleContext, 3, .createTarget (.ofId "device")⟩,
    ⟨sampleContext, 4, .applyChanges [sampleAssignment 1]⟩]

/-- A plan that was made for a device is committed to another one that got its id. -/
theorem stale_assignment_committed :
    sampleTransition.plan? (.ofActions sampleTarget (sample.activeOf "acme" "device")) =
      some ⟨sampleAssignment 1, [.assigned 0]⟩ ∧
    (sample.afterAll deletion).target? "acme" "device" = none ∧
    ((sample.afterAll deletion).applied reuse).map (fun q => (q.change, q.outcome.isOk)) =
      [(sampleAssignment 1, true)] ∧
    (((sample.afterAll deletion).afterAll reuse).target? "acme" "device").bind Target.assigned =
      some 1 := by
  refine ⟨?_, ?_, ?_, ?_⟩
  · decide +kernel
  · decide +kernel
  · decide +kernel
  · decide +kernel

/-- What the plan for the deleted device meets. -/
def staleApplied : Applied :=
  let s := (sample.afterAll deletion).after ⟨sampleContext, 3, .createTarget (.ofId "device")⟩
  let r := s.commit sampleContext 4 (sampleAssignment 1)
  ⟨sampleContext, sampleAssignment 1, s, r.1, r.2⟩

theorem stale_assignment_committed_iff :
    (staleApplied.outcome.isOk = true ↔ (sampleAssignment 1).actionUpdates = [] ∧
      (∃ t', staleApplied.before.target? "acme" "device" = some t' ∧
        t'.revision = sampleTarget.revision) ∧
      ∀ n ∈ (sampleAssignment 1).newActions, (staleApplied.before.set? "acme" n.setId).isSome) ∧
    (staleApplied.outcome.isOk = false → (∃ e, staleApplied.outcome = .error e ∧
      (e.kind = .conflict ∨ e.kind = .notFound)) ∧ staleApplied.after = staleApplied.before) :=
  plan_of_deleted_target_committed_iff sample_reachable sample_target?
    (show ∀ a, sampleTransition.subject? = some a → _ from fun a ha => by cases ha)
    (show sampleTransition.plan? _ = some ⟨sampleAssignment 1, [.assigned 0]⟩ by decide +kernel)
    (show (sample.afterAll deletion).target? _ _ = none by decide +kernel)
    (show staleApplied ∈ (sample.afterAll deletion).applied reuse from .head _) rfl rfl

end Store

end FleetUpdate
