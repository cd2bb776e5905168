import FleetUpdate.Proofs.Lifecycle.Turn
import FleetUpdate.Proofs.Store.Commit

/-!
# Plans from the present

A plan that is made from what the store holds of a target right now is accepted, as long as the
distribution sets of its new actions are stored.
-/

namespace FleetUpdate

namespace Store

variable {s : Store} {ctx : Context} {c : String}

/-- The active actions of a target, as they are viewed. -/
theorem active_ofActions_activeOf (hs : s.Consistent) (t : Target) (x : String) :
    (TargetView.ofActions t (s.activeOf x c)).active = s.activeOf x c := by
  apply TargetView.active_ofActions
  · intro a ha
    exact (mem_activeOf.mp ha).2
  · exact (actionsOf_ascending hs).filter _

theorem accepts_fresh_plan (hs : s.Consistent) {t : Target}
    (ht : s.target? ctx.tenantId c = some t) {tr : Transition}
    (hsubject : ∀ a, tr.subject? = some a → a ∈ s.activeOf ctx.tenantId c) {p : Plan}
    (hp : tr.plan? (.ofActions t (s.activeOf ctx.tenantId c)) = some p)
    (hsets : ∀ n ∈ p.change.newActions, (s.set? ctx.tenantId n.setId).isSome) :
    s.Accepts ctx p.change := by
  have hview := active_ofActions_activeOf hs t (c := c) ctx.tenantId
  obtain ⟨hcontroller, hrevision⟩ := tr.plan?_target hp
  obtain ⟨hupdates, hentries⟩ := tr.plan?_refers hp fun a ha => by
    rw [hview]
    exact hsubject a ha
  have hkey : p.change.controllerId = c := by
    rw [hcontroller, TargetView.target_ofActions]
    exact (Prod.mk.inj (key_of_target? ht)).2
  have hstored : ∀ u ∈ p.change.actionUpdates, ∃ a ∈ s.actionsOf ctx.tenantId c,
      a.id = u.actionId ∧ a.revision = u.expectedRevision := by
    intro u hu
    obtain ⟨a, ha, hid, hrev⟩ := hupdates u hu
    rw [hview] at ha
    exact ⟨a, (mem_activeOf.mp ha).1, hid, hrev⟩
  refine ⟨⟨t, ?_, ?_⟩, hsets, ?_, ?_⟩
  · rw [hkey]
    exact ht
  · rw [hrevision, TargetView.target_ofActions]
  · rw [hkey]
    exact hstored
  · intro e he
    rcases hentries e he with ⟨i, hi, hlt⟩ | ⟨u, hu, hi⟩
    · rw [hi]
      exact hlt
    · rw [hi, hkey]
      obtain ⟨a, ha, hid, -⟩ := hstored u hu
      exact ⟨a, ha, hid⟩

end Store

end FleetUpdate
