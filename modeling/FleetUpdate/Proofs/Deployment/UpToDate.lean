import FleetUpdate.Proofs.Deployment.Batch
import FleetUpdate.Proofs.Deployment.Calls
import FleetUpdate.Proofs.Lifecycle.FreshPlan
import FleetUpdate.Proofs.Store.Active
import FleetUpdate.Proofs.Store.Revision

/-!
# Accepted plans are up to date

A call reads an action, its target and the active actions of the target one after the other, plans,
and commits; others may do anything in between, only that no target is deleted.  If the store then
accepts the change, the three readings still fit the store that accepts it: the revision of the
target vouches for its state and for all its actions, and the revision of the action for the action
(`current_of_accepts`, `mem_actionsOf_of_accepts`).
-/

namespace FleetUpdate

namespace Store

/-- A later store, when no target has been deleted in between. -/
structure Advances (s s' : Store) : Prop where
  consistent : s'.Consistent
  target : ∀ x c, AdvancesAt x c s s'

variable {s s' s'' : Store} {x : String} {ctx : Context}

theorem Advances.refl (hs : s.Consistent) : s.Advances s := ⟨hs, fun _ _ => .refl s⟩

theorem Advances.trans (h : s.Advances s') (h' : s'.Advances s'') : s.Advances s'' :=
  ⟨h'.consistent, fun x c => (h.target x c).trans (h'.target x c)⟩

theorem Advances.after (hs : s.Consistent) {o : Op} (ho : ∀ c, o.request ≠ .deleteTarget c) :
    s.Advances (s.after o) :=
  ⟨hs.after o, fun _ c => .after hs fun h => ho c h.2⟩

/-- A view shows a target as the store holds it, but for its description and a first contact. -/
structure Current (s : Store) (x : String) (v : TargetView) : Prop where
  target : ∃ t, s.target? x v.target.controllerId = some t ∧ v.target.Rests t
  active : v.active = s.activeOf x v.target.controllerId

/-- What the store holds of a target is a view of it. -/
theorem current_ofActions (hs : s.Consistent) {c : String} {t : Target}
    (ht : s.target? x c = some t) : s.Current x (.ofActions t (s.activeOf x c)) := by
  have hc : t.controllerId = c := (Prod.mk.inj (key_of_target? ht)).2
  refine ⟨⟨t, ?_, .refl t⟩, ?_⟩
  · rw [TargetView.target_ofActions, hc]
    exact ht
  · rw [TargetView.target_ofActions, hc]
    exact active_ofActions_activeOf hs t x

/-- A change that a call plans for a target as the store holds it. -/
def Planned (s : Store) (ctx : Context) (call : Call) (change : TargetChange) : Prop :=
  ∃ tr v p, call.Plans ctx tr ∧ tr.plan? v = some p ∧ p.change = change ∧
    s.Current ctx.tenantId v ∧ ∀ a, tr.subject? = some a → a ∈ v.active

/-- A request that a call may make: it deletes nothing, and whatever change is accepted, be it right
away or later, is one that a transition of the call plans then.  Only assignments ask for several
changes together. -/
def Issues (call : Call) (ctx : Context) (r : Request) (s : Store) : Prop :=
  match r with
  | .applyChanges cs => (call.IsAssignment ∨ cs.length = 1) ∧
      ∀ change ∈ cs, ∀ s', s.Advances s' → s'.Accepts ctx change → s'.Planned ctx call change
  | .deleteTarget _ => False
  | _ => True

/-- A planned change with the transition and the view it comes from, the target that it meets, and
what its commit leaves of the target and of its active actions. -/
structure PlannedCommit (s : Store) (ctx : Context) (now : Instant) (call : Call)
    (change : TargetChange) (tr : Transition) (v : TargetView) (t : Target) : Prop where
  plans : call.Plans ctx tr
  plan : ∃ events, tr.plan? v = some ⟨change, events⟩
  subject : ∀ a, tr.subject? = some a → a ∈ v.active
  stored : s.target? ctx.tenantId change.controllerId = some t
  rests : v.target.Rests t
  active : v.active = s.activeOf ctx.tenantId change.controllerId
  row : (s.written ctx now change).target? ctx.tenantId change.controllerId =
    some (change.writeTarget ctx now t)
  state : (change.writeTarget ctx now t).state = change.targetState.getD t.state
  activeAfter : (s.written ctx now change).activeOf ctx.tenantId change.controllerId =
    (v.active.map (change.writeAction ctx now)).filter (fun a => a.active) ++
      s.createdBy ctx now change

/-- No action is seen twice. -/
theorem PlannedCommit.nodup {now : Instant} {call : Call} {change : TargetChange} {tr : Transition}
    {v : TargetView} {t : Target} (hs : s.Consistent)
    (h : s.PlannedCommit ctx now call change tr v t) : (v.active.map Action.id).Nodup := by
  rw [h.active]
  exact ((hs.actions.filter _).filter _).nodup

theorem PlannedCommit.all_active {now : Instant} {call : Call} {change : TargetChange}
    {tr : Transition} {v : TargetView} {t : Target}
    (h : s.PlannedCommit ctx now call change tr v t) : ∀ a ∈ v.active, a.active = true := by
  rw [h.active]
  intro a ha
  exact (mem_activeOf.mp ha).2

/-- The change updates active actions only. -/
theorem PlannedCommit.updates {now : Instant} {call : Call} {change : TargetChange}
    {tr : Transition} {v : TargetView} {t : Target}
    (h : s.PlannedCommit ctx now call change tr v t) : ∀ u ∈ change.actionUpdates,
      ∃ a ∈ s.activeOf ctx.tenantId change.controllerId, a.id = u.actionId := by
  obtain ⟨events, hp⟩ := h.plan
  intro u hu
  obtain ⟨a, ha, hid, -⟩ := (tr.plan?_refers hp h.subject).1 u hu
  exact ⟨a, h.active ▸ ha, hid⟩

/-- What a transition plans for a target as the store holds it, commits as planned. -/
theorem Current.commit (hs : s.Consistent) (now : Instant) {call : Call} {tr : Transition}
    {v : TargetView} {p : Plan} (hplans : call.Plans ctx tr) (hp : tr.plan? v = some p)
    (hcurrent : s.Current ctx.tenantId v) (hsubject : ∀ a, tr.subject? = some a → a ∈ v.active) :
    ∃ t, s.PlannedCommit ctx now call p.change tr v t := by
  obtain ⟨hcontroller, -⟩ := tr.plan?_target hp
  obtain ⟨hupdates, -⟩ := tr.plan?_refers hp hsubject
  obtain ⟨t, ht, hrests⟩ := hcurrent.target
  have hview := hcurrent.active
  rw [← hcontroller] at ht hview
  refine ⟨t, hplans, ⟨p.events, hp⟩, hsubject, ht, hrests, hview, ?_, ?_, ?_⟩
  · rw [target?_written, ht, Option.map_some]
  · exact TargetChange.state_writeTarget (key_of_target? ht)
  · rw [hview]
    refine activeOf_written hs fun u hu => ?_
    obtain ⟨a, ha, hid, -⟩ := hupdates u hu
    exact ⟨a, hview ▸ ha, hid⟩

theorem Planned.commit (hs : s.Consistent) (now : Instant) {call : Call} {change : TargetChange}
    (h : s.Planned ctx call change) : ∃ tr v t, s.PlannedCommit ctx now call change tr v t := by
  obtain ⟨tr, v, p, hplans, hp, rfl, hcurrent, hsubject⟩ := h
  exact ⟨tr, v, hcurrent.commit hs now hplans hp hsubject⟩

/-! ## What the revisions vouch for -/

/-- If a plan is accepted, the target and its active actions still are as they were read. -/
theorem current_of_accepts {t : Target} {c : String} (ht : s.target? ctx.tenantId c = some t)
    (h : s.Advances s') (h' : s'.Advances s'') {tr : Transition} {p : Plan}
    (hp : tr.plan? (.ofActions t (s'.activeOf ctx.tenantId c)) = some p)
    (hacc : s''.Accepts ctx p.change) :
    s''.Current ctx.tenantId (.ofActions t (s'.activeOf ctx.tenantId c)) := by
  have hc : t.controllerId = c := (Prod.mk.inj (key_of_target? ht)).2
  obtain ⟨hcontroller, hrevision⟩ := tr.plan?_target hp
  obtain ⟨t'', ht'', hrev''⟩ := hacc.target
  rw [hcontroller, TargetView.target_ofActions, hc] at ht''
  rw [hrevision, TargetView.target_ofActions] at hrev''
  -- the revision has not moved between the first reading and the commit, so not before the second
  obtain ⟨t', ht', hle, hrest⟩ := (h.target ctx.tenantId c).target t ht
  obtain ⟨u, hu, hle', hrest'⟩ := (h'.target ctx.tenantId c).target t' ht'
  obtain rfl : u = t'' := Option.some.inj (hu.symm.trans ht'')
  obtain ⟨hrests, -⟩ := hrest (by omega)
  obtain ⟨hrests', hhistory⟩ := hrest' (by omega)
  have hactions : s''.activeOf ctx.tenantId c = s'.activeOf ctx.tenantId c := by
    rw [activeOf, (historyOf_eq_iff.mp hhistory).1, activeOf]
  refine ⟨⟨u, ?_, hrests.trans hrests'⟩, ?_⟩
  · rw [TargetView.target_ofActions, hc]
    exact ht''
  · rw [TargetView.target_ofActions, hc, hactions]
    exact active_ofActions_activeOf h.consistent t ctx.tenantId

/-- If a plan about an action is accepted, the action still is as it was read. -/
theorem mem_actionsOf_of_accepts {a : Action} (ha : a ∈ s.actionsOf ctx.tenantId a.controllerId)
    (h : s.Advances s') {v : TargetView} {p : Plan} {u : ActionUpdate} (hmoves : p.Moves v a u)
    (hv : v.target.controllerId = a.controllerId) (hacc : s'.Accepts ctx p.change) :
    a ∈ s'.actionsOf ctx.tenantId a.controllerId := by
  obtain ⟨hid, hrev⟩ := hmoves.action
  obtain ⟨b, hb, hbid, hbrev⟩ := hacc.updates u (by rw [hmoves.updates]; exact .head _)
  rw [hmoves.controller, hv] at hb
  obtain ⟨a', ha', hid', -, hsame⟩ := (h.target ctx.tenantId a.controllerId).action a ha
  have hab : a' = b := h.consistent.actions.eq_of_id_eq (mem_actionsOf.mp ha').1
    (mem_actionsOf.mp hb).1 (hid'.trans (hid.symm.trans hbid.symm))
  have hstill : a' = a := hsame (by rw [hab, hbrev, hrev])
  exact hstill ▸ ha'

end Store

end FleetUpdate
