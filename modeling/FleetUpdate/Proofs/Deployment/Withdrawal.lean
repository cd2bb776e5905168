import FleetUpdate.Proofs.Deployment.Moves
import FleetUpdate.Proofs.Deployment.Tally
import FleetUpdate.Proofs.Deployment.Tasks
import FleetUpdate.Proofs.Deployment.Unchanged

/-!
# An assignment that is withdrawn

A target that has the distribution set it should have gets another one, and the action is canceled
before it has come to anything.  Whatever the device and the operator have done to the action in the
meantime, the target is then as it was before the assignment (`assignment_withdrawn`): it should have
and has the set that it had, since the same time, and is in sync if there is one.

While the action is active no call about it touches the target (`Store.Trying`).  Four ways lead to
the status canceled, at once, by force, or by a report or an answer of the device, and all of them
release the target (`Transition.Turns.eq_released`); once the action has ended, calls about it are
refused (`Store.Tried`).
-/

namespace FleetUpdate

/-! ## Ending as canceled -/

/-- A turn that brings an action to the status canceled ends it and releases its target. -/
theorem Transition.Turns.eq_released {a : Action} {tr : Transition} {u : ActionUpdate}
    {es : List NewStatusEntry} {ending : Option Termination} (h : tr.Turns a u es ending)
    (ha : a.status ≠ .canceled) (hu : u.status = .canceled) : ending = some .released := by
  cases h with
  | @supersede _ _ _ _ active _ hs =>
    cases active with
    | false => rfl
    | true => exact absurd ((status_of_supersession hs).symm.trans hu) (by decide)
  | cancelNow | forceQuit | agree => rfl
  | askToStop | goOn | confirm | deny => cases hu
  | force => exact absurd hu ha
  | @reportEnd r _ _ hr =>
    have hstatus : r.status = .canceled := hu
    simp [StatusReport.termination?, hstatus] at hr
  | @reportProgress r _ _ _ hprogress =>
    change (if a.status = .canceling then ActionStatus.canceling else r.status) = .canceled at hu
    split at hu
    · cases hu
    · exact absurd hu hprogress.1
  | @refuse _ r log _ _ _ =>
    have hcounts := isPassing_statusBeforeCanceling log
    rw [show statusBeforeCanceling log = .canceled from hu] at hcounts
    cases hcounts

/-- A target is back where it was with the distribution set that was installed then: it should have
and has this set, since the same time, and its update state says so. -/
structure Target.Restored (t t' : Target) : Prop where
  assigned : t'.assigned = t.assigned
  installed : t'.installed = t.installed
  installedAt : t'.installedAt = t.installedAt
  status : t'.updateStatus =
    if t.installed.isSome then .inSync else if t.lastContact.isSome then .registered else .unknown

/-- The state of a target that is released by its last active action, canceled. -/
theorem TargetView.stateAfter_canceled {v : TargetView} {a : Action} (h : v.others a.id = []) :
    v.stateAfter a .canceled .released =
      { v.target.state with
        assigned := v.target.installed
        updateStatus :=
          if v.target.installed.isSome then .inSync
          else if v.target.lastContact.isSome then .registered else .unknown } := by
  unfold stateAfter Target.stateAfter deriveUpdateStatus
  simp [h, Action.isDownloadDone, fallbackSet, greatest?, Target.state]

namespace Store

variable {s s' : Store} {ctx : Context} {now : Instant} {x c : String} {i : Int} {t₀ : Target}
  {what : ActionCall} {change : TargetChange}

/-! ## While the action is active, and after it has ended -/

/-- The action is the only active one of its target, which has what it had before. -/
structure Trying (s : Store) (x c : String) (i : Int) (t₀ : Target) : Prop where
  action : ∃ a, s.activeOf x c = [a] ∧ a.id = i ∧ a.status ≠ .canceled
  target : ∃ t, s.target? x c = some t ∧ t.installed = t₀.installed ∧
    t.installedAt = t₀.installedAt ∧ t.lastContact = t₀.lastContact

/-- The action has ended and the target has no active action; if it was canceled, the target is
restored. -/
structure Tried (s : Store) (x c : String) (i : Int) (t₀ : Target) : Prop where
  idle : s.activeOf x c = []
  action : ∃ a ∈ s.actionsOf x c, a.id = i ∧
    (a.status = .canceled → ∃ t, s.target? x c = some t ∧ t₀.Restored t)

section Turning

variable {tr : Transition} {v : TargetView} {t : Target} {a : Action} {u : ActionUpdate}

/-- A call about the only active action of its target turns this action. -/
theorem PlannedCommit.turning_of_single
    (h : s.PlannedCommit ctx now (.act i what) change tr v t) (hsingle : v.active = [a]) :
    ∃ u ending, s.TurningCommit ctx now change tr v a u ending := by
  refine h.turning ?_
  cases h.plans with
  | @act b _ _ hact =>
    have hmem := h.subject b hact.subject?
    rw [hsingle, List.mem_singleton] at hmem
    rw [hact.subject?, hmem]

/-- While the action goes on, the target stays as it is. -/
theorem Trying.of_turning (hcommit : s.PlannedCommit ctx now (.act i what) change tr v t)
    (hturning : s.TurningCommit ctx now change tr v a u none) (hsingle : v.active = [a])
    (hid : a.id = i) (hstatus : a.status ≠ .canceled) (hinstalled : t.installed = t₀.installed)
    (hinstalledAt : t.installedAt = t₀.installedAt) (hcontact : t.lastContact = t₀.lastContact) :
    (s.written ctx now change).Trying ctx.tenantId change.controllerId i t₀ := by
  have hafter := hcommit.activeAfter
  rw [hsingle, hturning.created, List.append_nil, List.map_singleton,
    List.filter_cons_of_pos (by simpa using hturning.active_eq), List.filter_nil] at hafter
  have hstate := hcommit.state
  rw [hturning.state] at hstate
  refine ⟨⟨_, hafter, (change.writeAction_id a).trans hid, fun hcanceled => ?_⟩,
    _, hcommit.row, ?_, ?_, (change.lastContact_writeTarget t).trans hcontact⟩
  · obtain ⟨es, hturns⟩ := hturning.turns
    cases hturns.eq_released hstatus (hturning.status_eq.symm.trans hcanceled)
  · exact (congrArg TargetState.installed hstate).trans hinstalled
  · exact (congrArg TargetState.installedAt hstate).trans hinstalledAt

/-- When it ends as canceled, the target is restored. -/
theorem Tried.of_turning (hs : s.Consistent)
    (hcommit : s.PlannedCommit ctx now (.act i what) change tr v t) {termination : Termination}
    (hturning : s.TurningCommit ctx now change tr v a u (some termination))
    (hsingle : v.active = [a]) (hid : a.id = i) (hstatus : a.status ≠ .canceled)
    (hsame : t₀.assigned = t₀.installed) (hinstalled : t.installed = t₀.installed)
    (hinstalledAt : t.installedAt = t₀.installedAt)
    (hcontact : v.target.lastContact = t₀.lastContact) :
    (s.written ctx now change).Tried ctx.tenantId change.controllerId i t₀ := by
  have hothers : v.others a.id = [] := by
    rw [TargetView.others, hsingle]
    simp
  have hmem : change.writeAction ctx now a ∈
      (s.written ctx now change).actionsOf ctx.tenantId change.controllerId := by
    rw [actionsOf_written]
    refine List.mem_append_left _ (List.mem_map_of_mem ?_)
    exact (mem_activeOf.mp (hcommit.active ▸ hturning.mem)).1
  refine ⟨(hturning.activeAfter hs hcommit).trans hothers,
    _, hmem, (change.writeAction_id a).trans hid, fun hcanceled => ⟨_, hcommit.row, ?_⟩⟩
  obtain ⟨es, hturns⟩ := hturning.turns
  have hu : u.status = .canceled := hturning.status_eq.symm.trans hcanceled
  obtain rfl := Option.some.inj (hturns.eq_released hstatus hu)
  have hstate := hcommit.state
  rw [hturning.state, hu, Option.map_some, Option.getD_some,
    TargetView.stateAfter_canceled hothers] at hstate
  -- what was read of the target is what the store holds, and what it held before
  have hread : v.target.installed = t₀.installed := hcommit.rests.installed.symm.trans hinstalled
  refine ⟨?_, ?_, ?_, ?_⟩
  · exact (congrArg TargetState.assigned hstate).trans (hread.trans hsame.symm)
  · exact (congrArg TargetState.installed hstate).trans hread
  · exact (congrArg TargetState.installedAt hstate).trans
      (hcommit.rests.installedAt.symm.trans hinstalledAt)
  · rw [← hread, ← hcontact]
    exact congrArg TargetState.updateStatus hstate

/-- The change of a call about the action leads from trying to trying or tried. -/
theorem Trying.of_plannedCommit (hs : s.Consistent)
    (h : s.Trying ctx.tenantId change.controllerId i t₀) (hsame : t₀.assigned = t₀.installed)
    (hcommit : s.PlannedCommit ctx now (.act i what) change tr v t)
    (hcontact : v.target.lastContact = t.lastContact) :
    (s.written ctx now change).Trying ctx.tenantId change.controllerId i t₀ ∨
      (s.written ctx now change).Tried ctx.tenantId change.controllerId i t₀ := by
  obtain ⟨a, hactive, hid, hstatus⟩ := h.action
  obtain ⟨t₁, ht₁, hinstalled, hinstalledAt, hcontact₁⟩ := h.target
  obtain rfl : t = t₁ := Option.some.inj (hcommit.stored.symm.trans ht₁)
  have hsingle : v.active = [a] := hcommit.active.trans hactive
  obtain ⟨u, ending, hturning⟩ := hcommit.turning_of_single hsingle
  cases ending with
  | none =>
    exact .inl (.of_turning hcommit hturning hsingle hid hstatus hinstalled hinstalledAt hcontact₁)
  | some termination =>
    exact .inr (.of_turning hs hcommit hturning hsingle hid hstatus hsame hinstalled hinstalledAt
      (hcontact.trans hcontact₁))

end Turning

/-- The action is being tried or was tried. -/
abbrev Tries (s : Store) (x c : String) (i : Int) (t₀ : Target) : Prop :=
  s.Trying x c i t₀ ∨ s.Tried x c i t₀

/-- The stored action belongs to the target. -/
theorem Tries.exists_action (h : s.Tries x c i t₀) : ∃ a ∈ s.actionsOf x c, a.id = i := by
  rcases h with h | h
  · obtain ⟨a, hactive, hid, -⟩ := h.action
    exact ⟨a, (mem_activeOf.mp (hactive ▸ List.mem_singleton_self a)).1, hid⟩
  · obtain ⟨a, ha, hid, -⟩ := h.action
    exact ⟨a, ha, hid⟩

/-- A change of a call about the action, accepted or not, keeps it so. -/
theorem Tries.commit (hs : s.Consistent) (h : s.Tries x c i t₀)
    (hsame : t₀.assigned = t₀.installed) {tr : Transition} {v : TargetView}
    (hread : s.ReadPlan Continues ctx (.act i what) change tr v) :
    (s.commit ctx now change).2.Tries x c i t₀ := by
  rcases commit_cases hs ctx now change with ⟨k, hacc, hwritten, -⟩ | ⟨e, -, hrefused⟩
  · obtain ⟨t, hcommit, hcontact⟩ := hread.commit_of_accepts hs now hacc
    -- the change is about the action, so it is about its target
    obtain ⟨b, hb, hbid⟩ : ∃ b ∈ s.activeOf ctx.tenantId change.controllerId, b.id = i := by
      cases hcommit.plans with
      | @act b _ _ hact => exact ⟨b, hcommit.active ▸ hcommit.subject b hact.subject?, rfl⟩
    obtain ⟨a, ha, hid⟩ := h.exists_action
    obtain ⟨hamem, howner⟩ := mem_actionsOf.mp ha
    obtain ⟨hbmem, hbowner⟩ := mem_actionsOf.mp (mem_activeOf.mp hb).1
    obtain rfl : a = b := hs.actions.eq_of_id_eq hamem hbmem (hid.trans hbid.symm)
    obtain ⟨rfl, rfl⟩ := Prod.mk.inj (hbowner.symm.trans howner)
    rcases h with h | h
    · rw [hwritten]
      exact h.of_plannedCommit hs hsame hcommit hcontact
    · rw [h.idle] at hb
      cases hb
  · rw [hrefused]
    exact h

end Store

/-! ## Calls about the action -/

/-- Calls about the action are completed one after the other, whether they succeed or fail, each under
a clock that may move on. -/
inductive Store.Acted (i : Int) (s : Store) : Store → Prop where
  | refl : Acted i s s
  | call {s' s'' : Store} (before : Acted i s s') (ctx : Context) (what : ActionCall)
      {times : Instant → Prop} {x : Except DeploymentError Action} {es : List Event}
      (ends : (what.program ctx i).Ends times s' x s'' es) : Acted i s s''

/-- Such are calls that are done while the clock stands still. -/
theorem Store.acted_afterTasks {i : Int} (s : Store) {tasks : List Task}
    (htasks : ∀ task ∈ tasks, ∃ ctx what time, task = .call ctx (.act i what) time) :
    s.Acted i (s.afterTasks tasks) := by
  induction tasks using List.reverseRecOn with
  | nil => exact .refl
  | append_singleton tasks task ih =>
    obtain ⟨hbefore, hlast⟩ := List.forall_mem_append.mp htasks
    obtain ⟨ctx, what, time, rfl⟩ := hlast task (List.mem_singleton_self task)
    rw [afterTasks_concat]
    exact (ih hbefore).call ctx what (Program.ends_runOn (· = time) rfl (what.program ctx i) _)

namespace Store

variable {s s' : Store} {ctx : Context} {x c : String} {i : Int} {t₀ : Target} {what : ActionCall}

theorem Tries.after (hs : s.Consistent) (h : s.Tries x c i t₀) (hsame : t₀.assigned = t₀.installed)
    {o : Op} (hasks : s.AsksSingly Continues (.act i what) o.ctx o.request) :
    (s.after o).Tries x c i t₀ := by
  obtain ⟨ctx, now, r⟩ := o
  rcases hasks with hlook | ⟨change, tr, v, rfl, hread⟩
  · rw [Store.after, perform_of_isLookup s ctx now hlook]
    exact h
  · unfold Store.after perform
    split
    · exact h
    · exact h.commit hs hsame hread

theorem Tries.afterAll (hs : s.Consistent) (h : s.Tries x c i t₀)
    (hsame : t₀.assigned = t₀.installed) {ops : List Op}
    (hasks : Program.Heeds (AsksSingly Continues (.act i what)) s ops) :
    (s.afterAll ops).Tries x c i t₀ := by
  induction ops generalizing s with
  | nil => exact h
  | cons o ops ih => exact ih (hs.after o) (h.after hs hsame hasks.1) hasks.2

theorem Acted.consistent (h : s.Acted i s') (hs : s.Consistent) : s'.Consistent := by
  induction h with
  | refl => exact hs
  | call _ ctx what ends ih =>
    obtain ⟨-, ops, -, -, rfl⟩ := ends.exists_makes
    exact ih.afterAll ops

/-- Through all calls about the action it is being tried or was tried. -/
theorem Tries.acted (hs : s.Consistent) (h : s.Tries x c i t₀) (hsame : t₀.assigned = t₀.installed)
    (hacted : s.Acted i s') : s'.Tries x c i t₀ := by
  induction hacted with
  | refl => exact h
  | @call s' _ before ctx what _ _ _ ends ih =>
    have hs' := before.consistent hs
    obtain ⟨readings, ops, hmakes, -, rfl⟩ := ends.exists_makes
    have hcall : (Call.act i what).IsAboutOne := trivial
    exact ih.afterAll hs' hsame (Call.heeds_singly Continues.rely hcall hs' hmakes)

/-- If the action has been canceled, the target is restored. -/
theorem Tries.restored (hs : s.Consistent) (h : s.Tries x c i t₀) {a : Action}
    (ha : s.actionById? i = some a) (hstatus : a.status = .canceled) :
    ∃ t, s.target? x c = some t ∧ t₀.Restored t := by
  obtain ⟨hmem, hid⟩ := (actionById?_eq_some_iff hs).mp ha
  rcases h with h | h
  · obtain ⟨b, hactive, hbid, hnot⟩ := h.action
    have hb := (mem_activeOf.mp (hactive ▸ List.mem_singleton_self b)).1
    obtain rfl : a = b := hs.actions.eq_of_id_eq hmem (mem_actionsOf.mp hb).1 (hid.trans hbid.symm)
    exact absurd hstatus hnot
  · obtain ⟨b, hb, hbid, hrestored⟩ := h.action
    obtain rfl : a = b := hs.actions.eq_of_id_eq hmem (mem_actionsOf.mp hb).1 (hid.trans hbid.symm)
    exact hrestored hstatus

end Store

/-! ## The assignment -/

section Assign

open Store

variable {s s' : Store} {ctx : Context} {p : Policy} {r : AssignmentRequest} {c : String} {t : Target}

/-- An assignment to a target without active actions creates the only active one. -/
theorem Assigned.trying (h : Assigned s ctx p r c s') (ht : s.target? ctx.tenantId c = some t)
    (hidle : s.activeOf ctx.tenantId c = []) :
    ∃ a, s'.activeOf ctx.tenantId c = [a] ∧ a.setId = r.setId ∧
      s'.Trying ctx.tenantId c a.id t := by
  obtain ⟨change, s₁, now, hs₁, hbefore, rfl, hplanned, hafter⟩ := h.change
  obtain ⟨tr, v, t₁, hcommit⟩ := hplanned.commit hs₁ now
  obtain ⟨events, hp⟩ := hcommit.plan
  obtain rfl : t₁ = t := Option.some.inj (hcommit.stored.symm.trans (hbefore.target.trans ht))
  have hnone : v.active = [] := hcommit.active.trans (hbefore.activeOf_eq.trans hidle)
  have hstate := hcommit.state
  have hactive := hcommit.activeAfter
  rw [hnone, List.map_nil, List.filter_nil, List.nil_append, ← hafter.activeOf_eq] at hactive
  cases hcommit.plans with
  | assign =>
    obtain rfl : (planAssignment v _ p.supersede _).change = change :=
      congrArg Plan.change (Option.some.inj hp)
    refine ⟨_, hactive, rfl, ⟨_, hactive, rfl, ?_⟩, _, hafter.target.trans hcommit.row, ?_, ?_,
      TargetChange.lastContact_writeTarget _ _⟩
    · show initialStatus r.confirmationRequired ≠ .canceled
      cases r.confirmationRequired <;> decide
    · exact (congrArg TargetState.installed hstate).trans hcommit.rests.installed.symm
    · exact (congrArg TargetState.installedAt hstate).trans hcommit.rests.installedAt.symm

/-- Let a target without active actions have the distribution set that it should have, or neither,
and let an assignment, in whatever mode, bring it another one.  Then it has one active action, and
whatever calls about this action follow, by whomever and whether they succeed or fail: if the action
is canceled after them, the target should have and has what it had before, since the same time, and it
is in sync if that is a distribution set, and otherwise registered or unknown, depending on whether
its device has ever made contact. -/
theorem assignment_withdrawn (hs : s.Reachable) (ht : s.target? ctx.tenantId c = some t)
    (hidle : s.activeOf ctx.tenantId c = []) (hsame : t.assigned = t.installed)
    {times : Instant → Prop} {result : AssignmentResult} {es : List Event}
    (hends : (assignSet p ctx r).Ends times s (.ok result) s' es)
    (hc : c ∈ result.assignedTargets) :
    ∃ a, s'.activeOf ctx.tenantId c = [a] ∧ a.setId = r.setId ∧
      ∀ s'', s'.Acted a.id s'' → ∀ a', s''.actionById? a.id = some a' → a'.status = .canceled →
        ∃ t', s''.target? ctx.tenantId c = some t' ∧ t.Restored t' := by
  have hcs := hs.consistent
  obtain ⟨hnodup, -, hcourse⟩ := (leaves_assign hcs p r).of_ends hends
  have hassigned : Assigned s ctx p r c s' := ⟨hcourse.planned_at hcs hnodup hc⟩
  obtain ⟨a, hactive, hset, htrying⟩ := hassigned.trying ht hidle
  have hcs' := hcourse.consistent hcs
  refine ⟨a, hactive, hset, fun s'' hacted a' ha' hcanceled => ?_⟩
  exact (Tries.acted hcs' (.inl htrying) hsame hacted).restored (hacted.consistent hcs') ha' hcanceled

/-- The device has the first distribution set installed. -/
def Store.sampleInstalled : Store :=
  sample.afterTasks
    [.call sampleContext (.assign .standard (.forced 1 ["device"])) 2,
      .call sampleContext (.act 1 (.report ⟨.finished, [], none, some 3⟩)) 3]

/-- The second distribution set is assigned to it. -/
def Store.sampleReassigned : Store :=
  ((assignSet .standard sampleContext (.forced 2 ["device"])).runOn 4 sampleInstalled).state

/-- The device starts with the second distribution set and refuses to stop when it is asked to; asked
once more it does not answer, and the action is ended by force. -/
def stopping : List Task :=
  [.call sampleContext (.act 2 (.report ⟨.running, [], none, some 5⟩)) 5,
    .call sampleContext (.act 2 .cancel) 6,
    .call sampleContext (.act 2 (.reportCancel ⟨.cancelRejected, [], none, some 7⟩)) 7,
    .call sampleContext (.act 2 .cancel) 8,
    .call sampleContext (.act 2 .forceQuit) 9]

theorem sampleInstalled_reachable : Store.sampleInstalled.Reachable :=
  sample_reachable.afterTasks _

/-- The device should have and has the first distribution set again. -/
theorem stopping_withdrawn :
    ∃ t, (Store.sampleReassigned.afterTasks stopping).target? "acme" "device" = some t ∧
      t.assigned = some 1 ∧ t.installed = some 1 ∧ t.installedAt = some 3 ∧
      t.updateStatus = .inSync := by
  have hbefore : (Store.sampleInstalled.target? "acme" "device").map
      (fun t => (t.assigned, t.installed, t.installedAt)) = some (some 1, some 1, some 3) := by
    decide +kernel
  obtain ⟨t, ht, hfields⟩ := Option.map_eq_some_iff.mp hbefore
  obtain ⟨hassigned, hinstalled, hat⟩ : t.assigned = some 1 ∧ t.installed = some 1 ∧
      t.installedAt = some 3 := by simpa using hfields
  have hresult : ((assignSet .standard sampleContext (.forced 2 ["device"])).runOn 4
      Store.sampleInstalled).result = .ok ⟨1, 0, [2], ["device"], [], [], 1⟩ := by decide +kernel
  have hends := Program.ends_runOn (· = 4) rfl
    (assignSet .standard sampleContext (.forced 2 ["device"])) Store.sampleInstalled
  rw [hresult] at hends
  obtain ⟨a, hactive, -, hwithdrawn⟩ := assignment_withdrawn (c := "device")
    sampleInstalled_reachable ht (by decide +kernel) (hassigned.trans hinstalled.symm) hends
    (List.mem_singleton_self _)
  have hid : (Store.sampleReassigned.activeOf "acme" "device").map Action.id = [2] := by
    decide +kernel
  have haction : a.id = 2 := by
    rw [show Store.sampleReassigned.activeOf "acme" "device" = [a] from hactive] at hid
    exact List.singleton_inj.mp hid
  rw [haction] at hwithdrawn
  have hcanceled : ((Store.sampleReassigned.afterTasks stopping).actionById? 2).map Action.status =
      some .canceled := by decide +kernel
  obtain ⟨a', ha', hstatus⟩ := Option.map_eq_some_iff.mp hcanceled
  have hacted : Store.sampleReassigned.Acted 2 (Store.sampleReassigned.afterTasks stopping) :=
    acted_afterTasks _ (by simp [stopping])
  obtain ⟨t', ht', hrestored⟩ := hwithdrawn _ hacted a' ha' hstatus
  refine ⟨t', ht', hrestored.assigned.trans hassigned, hrestored.installed.trans hinstalled,
    hrestored.installedAt.trans hat, ?_⟩
  rw [hrestored.status, hinstalled]
  rfl

end Assign

end FleetUpdate
