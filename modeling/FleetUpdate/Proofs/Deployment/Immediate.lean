import FleetUpdate.Proofs.Deployment.World
import FleetUpdate.Proofs.Lifecycle.Supersession
import FleetUpdate.Proofs.Store.Active

/-!
# One active action in the immediate mode

Where every assignment cancels what it supersedes at once, a target never has more than one active
action, in whatever order the steps of calls follow each other.  The target is driven to the set of
that action and is pending, and it is not pending when there is none (`Store.Settled`).  So a report
of success leaves the target in its desired state.
-/

namespace FleetUpdate

/-- The call is no assignment, or one in the immediate mode. -/
def Call.IsImmediate : Call → Prop
  | assign p _ => p.supersede = .immediate
  | _ => True

namespace Store

/-- A target has at most one active action; it is driven to the set of this action and pending, and
without one it is not pending. -/
structure Settled (s : Store) (x c : String) : Prop where
  single : (s.activeOf x c).length ≤ 1
  driven : ∀ t a, s.target? x c = some t → a ∈ s.activeOf x c →
    t.assigned = some a.setId ∧ t.updateStatus = .pending
  idle : ∀ t, s.target? x c = some t → s.activeOf x c = [] → t.updateStatus ≠ .pending

variable {s s' : Store} {x c : String} {ctx : Context} {now : Instant} {call : Call}
  {change : TargetChange}

theorem Settled.of_same (h : s.Settled x c) (hsame : SameAt x c s s') : s'.Settled x c := by
  refine ⟨?_, ?_, ?_⟩
  · rw [hsame.activeOf_eq]
    exact h.single
  · rw [hsame.activeOf_eq, hsame.target]
    exact h.driven
  · rw [hsame.activeOf_eq, hsame.target]
    exact h.idle

/-- With a single active action, the one that is there is the only one. -/
theorem Settled.activeOf_eq (h : s.Settled x c) {a : Action} (ha : a ∈ s.activeOf x c) :
    s.activeOf x c = [a] := by
  have hsingle := h.single
  generalize s.activeOf x c = as at ha hsingle
  rcases as with _ | ⟨b, _ | ⟨b', rest⟩⟩
  · cases ha
  · rw [List.mem_singleton.mp ha]
  · simp at hsingle

/-! ## Requests without commits -/

/-- A change of the row of a target that lets its life cycle rest. -/
theorem Settled.changeTarget (h : s.Settled x c) {d : String} {f : Target → Target}
    (hkey : ∀ t, (f t).key = t.key) (hrest : ∀ t : Target, t.Rests (f t)) :
    (s.changeTarget ctx d f).2.Settled x c := by
  by_cases hd : (ctx.tenantId, d) = (x, c)
  · obtain ⟨rfl, rfl⟩ := Prod.mk.inj hd
    unfold Store.changeTarget
    split
    · exact h
    · rename_i u hu
      have hfound : (s.putTarget (f u)).target? ctx.tenantId d = some (f u) := by
        rw [target?_putTarget, hu, Option.map_some, if_pos (hkey u).symm]
      refine ⟨h.single, ?_, ?_⟩
      · intro t a ht ha
        obtain rfl : f u = t := Option.some.inj (hfound.symm.trans ht)
        obtain ⟨hassigned, hpending⟩ := h.driven u a hu ha
        refine ⟨(hrest u).assigned.trans hassigned, ?_⟩
        rcases (hrest u).status with hst | ⟨hst, -⟩
        · exact hst.trans hpending
        · rw [hpending] at hst
          cases hst
      · intro t ht hnil
        obtain rfl : f u = t := Option.some.inj (hfound.symm.trans ht)
        rcases (hrest u).status with hst | ⟨-, hst⟩
        · rw [hst]
          exact h.idle u hu hnil
        · rw [hst]
          intro hpending
          cases hpending
  · exact h.of_same (.changeTarget hd hkey)

theorem Settled.createTarget (hs : s.Consistent) (h : s.Settled x c) {n : NewTarget} {t : Target}
    (hok : s.createTarget ctx now n = .ok (t, s')) : s'.Settled x c := by
  by_cases hc : (ctx.tenantId, n.controllerId) = (x, c)
  · obtain ⟨-, hfree, -, rfl⟩ := createTarget_eq_ok_iff.mp hok
    obtain ⟨rfl, rfl⟩ := Prod.mk.inj hc
    have hnil : s.activeOf ctx.tenantId n.controllerId = [] := by
      rw [activeOf, actionsOf_eq_nil hs hfree, List.filter_nil]
    refine ⟨h.single, ?_, ?_⟩
    · intro u a _ ha
      change a ∈ s.activeOf ctx.tenantId n.controllerId at ha
      rw [hnil] at ha
      cases ha
    · intro u hu _
      -- the only row under this key is the new one
      have hnew : u = n.row ctx now := by
        rcases List.mem_append.mp (mem_of_target? hu) with hmem | hmem
        · exact absurd (key_of_target? hu) (target?_eq_none_iff.mp hfree u hmem)
        · exact List.mem_singleton.mp hmem
      rw [hnew]
      intro hpending
      cases hpending
  · exact h.of_same (.createTarget hc hok)

theorem Settled.quiet (hs : s.Consistent) (h : s.Settled x c) {o : Op} (ho : o.request.IsQuiet) :
    (s.after o).Settled x c := by
  obtain ⟨ctx, now, q⟩ := o
  have heffect := s.perform_effect ctx now q
  show (s.perform ctx now q).2.Settled x c
  generalize (s.perform ctx now q).2 = s' at heffect ⊢
  cases heffect with
  | none => exact h
  | register hok => exact h.createTarget hs hok
  | describe d desc => exact h.changeTarget (fun _ => rfl) fun _ => ⟨rfl, rfl, rfl, .inl rfl⟩
  | contact d time =>
    refine h.changeTarget (fun _ => rfl) fun t => ⟨rfl, rfl, rfl, ?_⟩
    by_cases hst : t.updateStatus = .unknown <;> simp [hst]
  | delete d => exact ho.elim
  | sets sets last => exact h.of_same (.of_tables rfl rfl rfl)
  | commit cs => exact ho.elim

/-! ## Commits -/

/-- A target whose only active action moves on or ends is settled. -/
theorem Settled.of_moves (h : s.Settled ctx.tenantId change.controllerId) {tr : Transition}
    {v : TargetView} {t : Target} (hcommit : s.PlannedCommit ctx now call change tr v t) {a : Action}
    (ha : tr.subject? = some a) :
    (s.written ctx now change).Settled ctx.tenantId change.controllerId := by
  obtain ⟨events, hp⟩ := hcommit.plan
  obtain ⟨u, hmoves⟩ := tr.plan?_of_subject hp ha
  have hmem := hcommit.subject a ha
  have hsingle : v.active = [a] := by
    rw [hcommit.active] at hmem ⊢
    exact h.activeOf_eq hmem
  have hnew : s.createdBy ctx now change = [] := by
    rw [createdBy, hmoves.news, List.mapIdx_nil]
  have hmoved : change.writeAction ctx now a = u.writeTo ctx now a := hmoves.writeAction ctx now a
  have hkept : (u.writeTo ctx now a).active = u.active :=
    ActionUpdate.writeTo_active hmoves.action.1
  have hafter := hcommit.activeAfter
  rw [hsingle, hnew, List.append_nil, List.map_singleton, hmoved] at hafter
  obtain ⟨hassigned, hpending⟩ := h.driven t a hcommit.stored (hcommit.active ▸ hmem)
  have hstate := hcommit.state
  -- the action goes on and the state of the target rests, or it ends and nothing is left active
  rcases hmoves.state with ⟨hu, hnone⟩ | ⟨hu, termination, hsome⟩
  · rw [List.filter_cons_of_pos (by rw [hkept, hu]), List.filter_nil] at hafter
    rw [hnone, Option.getD_none] at hstate
    refine ⟨?_, ?_, ?_⟩
    · rw [hafter]
      exact Nat.le_refl 1
    · intro t' a' ht' ha'
      obtain rfl : _ = t' := Option.some.inj (hcommit.row.symm.trans ht')
      rw [hafter, List.mem_singleton] at ha'
      rw [ha', ActionUpdate.writeTo_setId]
      exact ⟨(congrArg TargetState.assigned hstate).trans hassigned,
        (congrArg TargetState.updateStatus hstate).trans hpending⟩
    · intro t' _ hnil
      rw [hafter] at hnil
      cases hnil
  · rw [List.filter_cons_of_neg (by rw [hkept, hu]; exact Bool.false_ne_true), List.filter_nil]
      at hafter
    rw [hsome, Option.getD_some] at hstate
    refine ⟨?_, ?_, ?_⟩
    · rw [hafter]
      exact Nat.zero_le 1
    · intro t' a' _ ha'
      rw [hafter] at ha'
      cases ha'
    · intro t' ht' _
      obtain rfl : _ = t' := Option.some.inj (hcommit.row.symm.trans ht')
      have hothers : v.others a.id = [] := by
        rw [TargetView.others, hsingle]
        simp
      rw [show (change.writeTarget ctx now t).updateStatus = _ from
        congrArg TargetState.updateStatus hstate]
      exact TargetView.updateStatus_stateAfter_ne_pending hothers

/-- A target that gets a new action while all others are canceled is settled. -/
theorem Settled.of_assign (hs : s.Consistent) {n : NewAction} {time : Instant} {v : TargetView}
    {t : Target} (hcommit : s.PlannedCommit ctx now call change (.assign n .immediate time) v t) :
    (s.written ctx now change).Settled ctx.tenantId change.controllerId := by
  obtain ⟨events, hp⟩ := hcommit.plan
  have hchange : (planAssignment v n .immediate time).change = change :=
    congrArg Plan.change (Option.some.inj hp)
  have hended : (v.active.map (change.writeAction ctx now)).filter (fun a => a.active) = [] := by
    rw [← hchange]
    exact filter_active_of_immediate (hcommit.nodup hs) hcommit.all_active
  have hnew : s.createdBy ctx now change =
      [n.row ctx now change.controllerId (s.lastActionId + 1 + 0)] := by
    rw [createdBy, ← hchange]
    rfl
  have hafter := hcommit.activeAfter
  rw [hended, hnew, List.nil_append] at hafter
  have hstate := hcommit.state
  rw [show change.targetState = some { v.target.state with
    assigned := some n.setId, updateStatus := .pending } by rw [← hchange]; rfl,
    Option.getD_some] at hstate
  refine ⟨?_, ?_, ?_⟩
  · rw [hafter]
    exact Nat.le_refl 1
  · intro t' a' ht' ha'
    obtain rfl : _ = t' := Option.some.inj (hcommit.row.symm.trans ht')
    rw [hafter, List.mem_singleton] at ha'
    rw [ha']
    exact ⟨congrArg TargetState.assigned hstate, congrArg TargetState.updateStatus hstate⟩
  · intro t' _ hnil
    rw [hafter] at hnil
    cases hnil

/-- A settled target whose update state is computed anew stays settled. -/
theorem Settled.of_recalculate (h : s.Settled ctx.tenantId change.controllerId)
    {ended : Option Action} {v : TargetView} {t : Target}
    (hcommit : s.PlannedCommit ctx now call change (.recalculate ended) v t) :
    (s.written ctx now change).Settled ctx.tenantId change.controllerId := by
  obtain ⟨events, hp⟩ := hcommit.plan
  have hchange := Transition.planRecalculation_eq_some hp
  dsimp only at hchange
  have hkept : change.writeAction ctx now = id := by
    rw [hchange]
    rfl
  have hnew : s.createdBy ctx now change = [] := by
    rw [createdBy, hchange]
    rfl
  have hview : v.active.filter (fun a => a.active) = v.active := by
    rw [hcommit.active]
    exact List.filter_eq_self.mpr fun a ha => (mem_activeOf.mp ha).2
  have hafter := hcommit.activeAfter
  rw [hkept, List.map_id, hnew, List.append_nil, hview] at hafter
  have hstate : (change.writeTarget ctx now t).state = { v.target.state with
      updateStatus := deriveUpdateStatus (!v.active.isEmpty) ended v.target.assigned
        v.target.installed v.target.lastContact.isSome } := by
    rw [hcommit.state, hchange]
    rfl
  refine ⟨?_, ?_, ?_⟩
  · rw [hafter, hcommit.active]
    exact h.single
  · intro t' a' ht' ha'
    obtain rfl : _ = t' := Option.some.inj (hcommit.row.symm.trans ht')
    rw [hafter] at ha'
    obtain ⟨hassigned, -⟩ := h.driven t a' hcommit.stored (hcommit.active ▸ ha')
    refine ⟨?_, (congrArg TargetState.updateStatus hstate).trans ?_⟩
    · exact (congrArg TargetState.assigned hstate).trans (hcommit.rests.assigned.symm.trans hassigned)
    · -- while an action is active, the state that is derived is pending
      have hsome : v.active.isEmpty = false := by
        rw [List.isEmpty_eq_false_iff]
        exact List.ne_nil_of_mem ha'
      rw [hsome]
      rfl
  · intro t' ht' hnil
    obtain rfl : _ = t' := Option.some.inj (hcommit.row.symm.trans ht')
    rw [hafter] at hnil
    rw [show (change.writeTarget ctx now t).updateStatus = _ from
      congrArg TargetState.updateStatus hstate, hnil]
    exact deriveUpdateStatus_ne_pending

theorem Settled.of_plannedCommit (hs : s.Consistent)
    (h : s.Settled ctx.tenantId change.controllerId) (hcall : call.IsImmediate) {tr : Transition}
    {v : TargetView} {t : Target} (hcommit : s.PlannedCommit ctx now call change tr v t) :
    (s.written ctx now change).Settled ctx.tenantId change.controllerId := by
  cases hsubject : tr.subject? with
  | some a => exact h.of_moves hcommit hsubject
  | none =>
    cases tr with
    | assign n mode time =>
      have hplans := hcommit.plans
      cases hplans with
      | assign =>
        rw [show _ = SupersedeMode.immediate from hcall] at hcommit
        exact Settled.of_assign hs hcommit
      | act hact => cases hact
    | recalculate ended => exact h.of_recalculate hcommit
    | _ => cases hsubject

/-- The commit of a plan of an immediate call settles its target again. -/
theorem Settled.written (hs : s.Consistent) (h : s.Settled x c) (hcall : call.IsImmediate)
    (hacc : s.Accepts ctx change) (hplanned : s.Planned ctx call change) :
    (s.written ctx now change).Settled x c := by
  by_cases hc : (ctx.tenantId, change.controllerId) = (x, c)
  · obtain ⟨rfl, rfl⟩ := Prod.mk.inj hc
    obtain ⟨tr, v, t, hcommit⟩ := hplanned.commit hs now
    exact h.of_plannedCommit hs hcall hcommit
  · exact h.of_same (.written hs hacc hc)

theorem settled_kept : Kept Call.IsImmediate fun s => ∀ x c, s.Settled x c where
  quiet := fun _ _ hs h ho x c => (h x c).quiet hs ho
  commit := fun _ _ _ _ _ hcall hs h hacc hplanned x c => (h x c).written hs hcall hacc hplanned

/-! ## Reports of success -/

/-- The commit of a report of success leaves a settled target in its desired state. -/
theorem Settled.of_finished {i : Int} {r : IncomingReport} (hs : s.Consistent)
    (h : s.Settled ctx.tenantId change.controllerId) (hr : r.status = .finished)
    (hplanned : s.Planned ctx (.act i (.report r)) change) :
    ∃ a t, s.action? ctx.tenantId i = some a ∧
      (s.written ctx now change).target? ctx.tenantId a.controllerId = some t ∧
      t.updateStatus = .inSync ∧ t.assigned = some a.setId ∧ t.installed = some a.setId := by
  obtain ⟨tr, v, t, hcommit⟩ := hplanned.commit hs now
  obtain ⟨events, hp⟩ := hcommit.plan
  have hplans := hcommit.plans
  cases hplans with
  | act hact =>
  rename_i a
  cases hact with
  | @report _ time log =>
  have hmem : a ∈ s.activeOf ctx.tenantId change.controllerId :=
    hcommit.active ▸ hcommit.subject a rfl
  have hsingle : v.active = [a] := hcommit.active.trans (h.activeOf_eq hmem)
  have hothers : v.others a.id = [] := by
    rw [TargetView.others, hsingle]
    simp
  obtain ⟨hassigned, -⟩ := h.driven t a hcommit.stored hmem
  obtain ⟨hactions, howner⟩ := mem_actionsOf.mp (mem_activeOf.mp hmem).1
  obtain ⟨htenant, hcontroller⟩ := Prod.mk.inj howner
  have hplan : planStatusUpdate v a ⟨r.status, r.messages, r.code, time⟩ log = .ok ⟨change, events⟩ :=
    toOption_eq_some hp
  have hstate := hcommit.state
  rw [planStatusUpdate_of_finished hplan hr, Option.getD_some,
    TargetView.stateAfter_finished hothers (hcommit.rests.assigned.symm.trans hassigned)] at hstate
  refine ⟨a, change.writeTarget ctx now t, ?_, ?_, ?_, ?_, ?_⟩
  · exact (action?_eq_some_iff hs).mpr ⟨hactions, rfl, htenant⟩
  · rw [hcontroller]
    exact hcommit.row
  · exact congrArg TargetState.updateStatus hstate
  · exact congrArg TargetState.assigned hstate
  · exact congrArg TargetState.installed hstate

end Store

/-- Whatever the order in which the steps of calls in the immediate mode follow each other, as long
as no target is deleted: every target has at most one active action, it is driven to the set of this
action and is pending while there is one, and it is not pending otherwise.  And when the store
accepts the change of a report of success, the target is in its desired state, with the set of the
action that the report is about. -/
theorem World.immediate_calls_settle {w : World}
    (hw : w.Reachable Call.IsImmediate Request.IsQuiet) :
    (∀ x c, w.store.Settled x c) ∧
    ∀ q ∈ w.running, ∀ i r ctx cs now k outcomes, q.call = .act i (.report r) →
      r.status = .finished → q.commits? = some (ctx, cs) →
      (w.store.perform ctx now (.applyChanges cs)).1 = .ok (.ok k :: outcomes) →
      ∃ a t, w.store.action? ctx.tenantId i = some a ∧
        (q.advance now w.store).2.target? ctx.tenantId a.controllerId = some t ∧
        t.updateStatus = .inSync ∧ t.assigned = some a.setId ∧ t.installed = some a.setId := by
  have hsound := hw.sound Store.settled_kept (fun _ hq => hq) fun x c =>
    ⟨Nat.zero_le 1, fun t a ht => (by cases ht), fun t ht => (by cases ht)⟩
  refine ⟨hsound.holds, ?_⟩
  intro q hmem i r ctx cs now k outcomes hcall hr hcommits hok
  obtain ⟨-, s₀, hs₀, hmeets⟩ := hsound.running q hmem
  obtain ⟨next, hrest⟩ := Running.rest_of_commits? hcommits
  rw [hrest] at hmeets
  obtain ⟨hissues, -⟩ := hmeets w.store hs₀
  rw [hcall] at hissues
  obtain ⟨hsingle, hissues⟩ := hissues
  -- a report asks for one change
  obtain ⟨change, rfl⟩ := List.length_eq_one_iff.mp (hsingle.resolve_left fun h => h)
  have hs := hsound.consistent
  rw [Running.advance_of_commits? hcommits]
  unfold Store.perform at hok ⊢
  split at hok
  · cases hok
  · rename_i hx
    rw [if_neg hx]
    have hfirst : (w.store.commit ctx now change).1 = .ok k :=
      (List.cons.inj (Except.ok.inj hok)).1
    show ∃ a t, _ ∧ (w.store.commit ctx now change).2.target? _ _ = _ ∧ _
    rcases Store.commit_cases hs ctx now change with ⟨k', hacc, hcommit, -⟩ | ⟨e, -, hcommit⟩
    · rw [hcommit]
      have hplanned := hissues change List.mem_cons_self w.store (.refl hs) hacc
      exact (hsound.holds _ _).of_finished hs hr hplanned
    · rw [hcommit] at hfirst
      cases hfirst

/-! ## A device that reports success -/

/-- The call of the operator that assigns the first distribution set to the device. -/
def sampleAssign : Call := .assign .standard (.forced 1 ["device"])

/-- The call of the device that reports success. -/
def sampleReport : Call := .act 1 (.report ⟨.finished, [], none, some 3⟩)

/-- The assignment has run, -/
def sampleAssigned : Running × Store :=
  Running.advances 2 100
    (⟨Store.sampleContext, sampleAssign, sampleAssign.program Store.sampleContext⟩, Store.sample)

/-- and the report has read what it needs and is about to be committed. -/
def sampleReported : Running × Store :=
  Running.advances 3 3
    (⟨Store.sampleContext, sampleReport, sampleReport.program Store.sampleContext⟩,
      sampleAssigned.2)

theorem sampleReported_reachable :
    World.Reachable Call.IsImmediate Request.IsQuiet
      ⟨sampleReported.2, [sampleAssigned.1, sampleReported.1]⟩ := by
  have hsample : World.Reachable Call.IsImmediate Request.IsQuiet ⟨Store.sample, []⟩ :=
    World.Reachable.requests .refl (by simp [Store.sampleOps, Request.IsQuiet])
  have hassigned := hsample.call Store.sampleContext (show sampleAssign.IsImmediate from rfl) 2 100
  exact hassigned.call Store.sampleContext (show sampleReport.IsImmediate from trivial) 3 3

/-- The first of several changes is committed. -/
def firstCommitted : Except StorageError (List (Except StorageError Committed)) → Bool
  | .ok (.ok _ :: _) => true
  | _ => false

/-- The device ends in its desired state, with the distribution set that was assigned to it. -/
theorem sample_settles :
    sampleReported.2.Settled "acme" "device" ∧
    ∃ a t, sampleReported.2.action? "acme" 1 = some a ∧
      (sampleReported.1.advance 4 sampleReported.2).2.target? "acme" a.controllerId = some t ∧
      t.updateStatus = .inSync ∧ t.assigned = some a.setId ∧ t.installed = some a.setId := by
  obtain ⟨hsettled, hreport⟩ := World.immediate_calls_settle sampleReported_reachable
  dsimp only at hsettled hreport
  refine ⟨hsettled "acme" "device", ?_⟩
  obtain ⟨⟨ctx, cs⟩, hcommits⟩ : ∃ x, sampleReported.1.commits? = some x :=
    Option.isSome_iff_exists.mp (by decide +kernel)
  have hctx : sampleReported.1.commits?.map Prod.fst = some Store.sampleContext := by
    decide +kernel
  have haccepted : (sampleReported.1.commits?.map fun x =>
      firstCommitted (sampleReported.2.perform x.1 4 (.applyChanges x.2)).1) = some true := by
    decide +kernel
  rw [hcommits, Option.map_some, Option.some.injEq] at hctx haccepted
  obtain rfl : ctx = Store.sampleContext := hctx
  unfold firstCommitted at haccepted
  split at haccepted
  · rename_i k outcomes hok
    have hmem : sampleReported.1 ∈ [sampleAssigned.1, sampleReported.1] :=
      List.mem_cons_of_mem _ List.mem_cons_self
    have hcall : sampleReported.1.call = sampleReport := by
      rw [sampleReported, Running.call_advances]
    have hdone := hreport sampleReported.1 hmem 1 ⟨.finished, [], none, some 3⟩ Store.sampleContext
      cs 4 k outcomes hcall rfl hcommits hok
    rwa [show Store.sampleContext.tenantId = "acme" from rfl] at hdone
  · cases haccepted

end FleetUpdate
