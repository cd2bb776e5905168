import FleetUpdate.Proofs.Deployment.Backed
import FleetUpdate.Proofs.Deployment.Unchanged
import FleetUpdate.Proofs.Deployment.Windows

/-!
# No spurious errors

The store checks every change that it is to commit, and a call passes on what the store refuses:
that somebody else was faster, that the store makes no sense of the change, or that it misses a row.
When nobody comes in between, none of this ever happens.  Whatever planner has made a plan from what
has been loaded, the plan passes the checks of the store, and the action that it is about comes back
(`Plan.Passes`).  So a call fails because of what it has loaded, what it was asked for or the rules
of transitions, and for no other reason (`World.no_spurious_failures`).
-/

namespace FleetUpdate

open Program Store

/-! ## Errors -/

/-- An error that a call owes to the store: somebody else was faster, the store does not work or
makes no sense of the call, or it misses a row when it commits. -/
def DeploymentError.IsSpurious : DeploymentError → Prop
  | concurrentModification _ | storage _ | notFound .record _ => True
  | _ => False

/-- The rules of transitions forbid what is asked of an action: it has ended, cannot be canceled or
ended by force, or cannot move on from its status. -/
inductive Action.Forbids (a : Action) : DeploymentError → Prop where
  | notActive : Forbids a (.actionNotActive a.id)
  | cancel (reason : String) : Forbids a (.cancelNotAllowed a.id reason)
  | forceQuit : Forbids a (.forceQuitNotAllowed a.id a.status)
  | move (goal : ActionStatus) : Forbids a (.invalidTransition a.id a.status goal)

section Errors

variable {v : TargetView} {a : Action} {e : DeploymentError} {s : Store} {ctx : Context}
  {p : Policy} {r : AssignmentRequest} {call : Call}

theorem Action.Forbids.not_isSpurious (h : a.Forbids e) : ¬ e.IsSpurious := by
  cases h <;> exact not_false

theorem forbids_of_planCancelFeedback {r : StatusReport} {log : List StatusEntry}
    (h : planCancelFeedback v a r log = .error e) : a.Forbids e := by
  unfold planCancelFeedback at h
  split at h
  · cases h
    exact .move _
  · dsimp only at h
    split at h <;> cases h

theorem forbids_of_ensureWaiting {goal : ActionStatus} {plan : Plan}
    (h : (ensureWaiting a goal >>= fun _ => .ok plan) = .error e) : a.Forbids e := by
  unfold ensureWaiting at h
  split at h
  · cases h
    exact .notActive
  · split at h
    · cases h
      exact .move _
    · cases h

/-- A planner that refuses does so by the rules of transitions. -/
theorem ActionCall.Rejects.forbids {what : ActionCall} (h : what.Rejects v a e) : a.Forbids e := by
  cases h with
  | cancel h =>
    unfold planCancel at h
    split at h
    · cases h
      exact .cancel _
    · split at h
      · cases h
        exact .cancel _
      · split at h <;> cases h
  | forceQuit h =>
    unfold planForceQuit at h
    split at h
    · cases h
      exact .forceQuit
    · cases h
  | report h =>
    unfold planStatusUpdate at h
    dsimp only at h
    split at h
    · cases h
      exact .move _
    · split at h
      · split at h
        · cases h
          exact .move _
        · exact forbids_of_planCancelFeedback h
      · split at h <;> cases h
  | reportCancel h => exact forbids_of_planCancelFeedback h
  | confirm h => exact forbids_of_ensureWaiting h
  | deny h => exact forbids_of_ensureWaiting h

/-- A tenant's request for an assignment that is declined has not met a faulty store. -/
theorem Store.Declines.not_isSpurious (h : s.Declines ctx p r e) (hx : ctx.tenantId ≠ "") :
    ¬ e.IsSpurious := by
  cases h with
  | noTenant h => exact absurd h hx
  | noSet | deleted | incomplete | window => exact not_false
  | weight h =>
    unfold checkWeight at h
    split at h
    · split at h
      · cases h
      · cases h
        exact not_false
    · split at h
      · cases h
        exact not_false
      · cases h
  | forcedTime h =>
    unfold checkForcedTime at h
    split at h
    · cases h
      exact not_false
    · cases h

/-- The call names a device, if it is the first contact of one. -/
def Call.NamesDevice : Call → Prop
  | register c => Text.allBlank c = false
  | _ => True

/-- What refuses a tenant's call is what it has loaded, what it was asked for, or the rules of
transitions. -/
theorem Store.Refuses.not_isSpurious (h : s.Refuses ctx call e) (hx : ctx.tenantId ≠ "")
    (hdevice : call.NamesDevice) : ¬ e.IsSpurious := by
  cases h with
  | noTenant h => exact absurd h hx
  | blank h => cases hdevice.symm.trans h
  | noAction | noTarget => exact not_false
  | rejected _ h => exact h.forbids.not_isSpurious
  | declined h => exact h.not_isSpurious hx

end Errors

/-! ## Plans -/

/-- What a transition is planned from has been loaded: the target with its active actions, the
action of this target that it is about, and, for an assignment, the distribution set. -/
structure Store.Loads (s : Store) (ctx : Context) (tr : Transition) (v : TargetView) : Prop where
  view : ∃ times s' es, (loadView ctx v.target.controllerId).Ends times s (.ok v) s' es
  subject : ∀ a, tr.subject? = some a → a.controllerId = v.target.controllerId ∧
    ∃ times s' es, (loadAction ctx a.id).Ends times s (.ok a) s' es
  set : ∀ n mode now, tr = .assign n mode now → (s.set? ctx.tenantId n.setId).isSome

/-- The store passes a plan: its check finds nothing to object to, the commit writes what has been
planned, and if the transition is about an action, this action comes back. -/
structure Plan.Passes (p : Plan) (s : Store) (ctx : Context) (tr : Transition) : Prop where
  check : s.checkChange ctx p.change = .ok ()
  commit : ∀ now, ∃ k, s.commit ctx now p.change = (.ok k, s.written ctx now p.change) ∧
    ∀ a, tr.subject? = some a → (k.action? a.id).isSome

section Plans

variable {s : Store} {ctx : Context} {tr : Transition} {v : TargetView} {p : Plan} {a : Action}
  {times : Instant → Prop}

theorem Store.action?_of_loadAction {s' : Store} {es : List Event} {i : Int}
    (h : (loadAction ctx i).Ends times s (.ok a) s' es) : s.action? ctx.tenantId i = some a := by
  have hleaves : (loadAction ctx i).Leaves times
      (fun b _ _ => s.action? ctx.tenantId i = some b) (fun _ _ _ => True) s :=
    leaves_loadAction (fun _ _ hb => hb) (fun _ => trivial) fun _ => trivial
  exact hleaves.of_ends h

theorem Store.view_of_loadView {s' : Store} {es : List Event} {c : String}
    (h : (loadView ctx c).Ends times s (.ok v) s' es) :
    ∃ t, s.target? ctx.tenantId c = some t ∧ v = .ofActions t (s.activeOf ctx.tenantId c) := by
  have hleaves : (loadView ctx c).Leaves times
      (fun w _ _ => ∃ t, s.target? ctx.tenantId c = some t ∧
        w = .ofActions t (s.activeOf ctx.tenantId c)) (fun _ _ _ => True) s :=
    leaves_loadView (fun _ t ht => ⟨t, ht, rfl⟩) (fun _ => trivial) fun _ => trivial
  exact hleaves.of_ends h

/-- A transition creates actions only if it is an assignment, and for its distribution set. -/
theorem Store.Loads.sets (h : s.Loads ctx tr v) (hp : tr.plan? v = some p) :
    ∀ n ∈ p.change.newActions, (s.set? ctx.tenantId n.setId).isSome := by
  intro n hn
  cases hsubject : tr.subject? with
  | some a =>
    obtain ⟨u, hmoves⟩ := tr.plan?_of_subject hp hsubject
    rw [hmoves.news] at hn
    cases hn
  | none =>
    cases tr with
    | assign m mode now =>
      obtain rfl := Option.some.inj hp
      obtain rfl := List.mem_singleton.mp hn
      exact h.set n mode now rfl
    | recalculate ended =>
      rw [Transition.planRecalculation_eq_some hp] at hn
      cases hn
    | _ => cases hsubject

/-- The store passes every plan that a planner makes from what it has loaded. -/
theorem Store.Loads.passes (h : s.Loads ctx tr v) (hs : s.Consistent) (hp : tr.plan? v = some p) :
    p.Passes s ctx tr := by
  obtain ⟨_, _, _, hview⟩ := h.view
  obtain ⟨t, ht, hv⟩ := view_of_loadView hview
  have hactive : ∀ a, tr.subject? = some a →
      a ∈ s.activeOf ctx.tenantId v.target.controllerId := by
    intro a ha
    obtain ⟨howner, _, _, _, hloaded⟩ := h.subject a ha
    obtain ⟨hmem, -, hax⟩ := (action?_eq_some_iff hs).mp (action?_of_loadAction hloaded)
    obtain ⟨u, hmoves⟩ := tr.plan?_of_subject hp ha
    refine mem_activeOf.mpr ⟨mem_actionsOf.mpr ⟨hmem, ?_⟩, hmoves.active⟩
    rw [Action.owner, hax, howner]
  have hacc : s.Accepts ctx p.change :=
    accepts_fresh_plan hs ht hactive (by rw [← hv]; exact hp) (h.sets hp)
  refine ⟨(checkChange_eq_ok_iff hs).mpr hacc, fun now => ?_⟩
  obtain ⟨k, hcommit, hreceipt⟩ := commit_of_accepts hs hacc now
  refine ⟨k, hcommit, fun a ha => ?_⟩
  obtain ⟨u, hmoves⟩ := tr.plan?_of_subject hp ha
  obtain ⟨b, hb⟩ := hreceipt.exists_action? (u := u) (by simp [hmoves.updates])
  rw [← hmoves.action.1, hb]
  rfl

end Plans

/-! ## Looking things up -/

/-- What can be looked up. -/
inductive Query where
  | action (actionId : Int)
  | actions (controllerId : String)
  | activeActions (controllerId : String)
  | inactiveActions (controllerId : String)
  | summaries (controllerId : String)
  | log (actionId : Int)
  | details (actionId : Int)
  | available (actionId : Int) (time : Instant)
  | window (actionId : Int) (time : Instant)
  | oldestActive (controllerId : String)

namespace Query

/-- What a query returns. -/
@[reducible] def Reply : Query → Type
  | action _ => Option Action
  | actions _ | activeActions _ | inactiveActions _ => List Action
  | summaries _ => List ActionSummary
  | log _ => List StatusEntry
  | details _ => ActionDetails
  | available .. => Bool
  | window .. => Option (Schedule × Window)
  | oldestActive _ => Option Action

/-- The program of a query. -/
def program (ctx : Context) : (q : Query) → Program q.Reply
  | action actionId => findAction ctx actionId
  | actions controllerId => findActions ctx controllerId
  | activeActions controllerId => findActiveActions ctx controllerId
  | inactiveActions controllerId => findInactiveActions ctx controllerId
  | summaries controllerId => findActionSummaries ctx controllerId
  | log actionId => findActionLog ctx actionId
  | details actionId => findActionDetails ctx actionId
  | available actionId time => isActionAvailable ctx actionId time
  | window actionId time => actionWindow ctx actionId time
  | oldestActive controllerId => FleetUpdate.oldestActive ctx controllerId

/-- The action that must be there. -/
def needs? : Query → Option Int
  | log actionId | details actionId | available actionId _ | window actionId _ => some actionId
  | _ => none

/-- A query misses the action that must be there. -/
def Misses (q : Query) (s : Store) (ctx : Context) (e : DeploymentError) : Prop :=
  ∃ i, q.needs? = some i ∧ s.action? ctx.tenantId i = none ∧ e = .notFound .action (toString i)

/-- A query of a tenant changes nothing, and fails only if it misses its action. -/
theorem leaves_program {times : Instant → Prop} {s : Store} {ctx : Context} (hs : s.Consistent)
    (hscheduled : s.Scheduled) (hx : ctx.tenantId ≠ "") (q : Query) :
    (q.program ctx).Leaves times (fun _ s' es => s' = s ∧ es = [])
      (fun e s' es => q.Misses s ctx e ∧ s' = s ∧ es = []) s := by
  have htenant {P : Prop} (hno : ctx.tenantId = "") : P := absurd hno hx
  cases q with
  | action i => exact leaves_lookup (fun _ => rfl) (fun _ => ⟨rfl, rfl⟩) htenant
  | actions c => exact leaves_lookup (fun _ => rfl) (fun _ => ⟨rfl, rfl⟩) htenant
  | activeActions c => exact leaves_lookup (fun _ => rfl) (fun _ => ⟨rfl, rfl⟩) htenant
  | inactiveActions c =>
    exact leaves_bind.mpr (leaves_lookup (fun _ => rfl) (fun _ => ⟨rfl, rfl⟩) htenant)
  | summaries c => exact leaves_lookup (fun _ => rfl) (fun _ => ⟨rfl, rfl⟩) htenant
  | oldestActive c =>
    exact leaves_bind.mpr (leaves_lookup (fun _ => rfl) (fun _ => ⟨rfl, rfl⟩) htenant)
  | log i =>
    refine leaves_bind.mpr (leaves_loadAction (fun _ a _ => ?_) htenant
      fun hnone => ⟨⟨i, rfl, hnone, rfl⟩, rfl, rfl⟩)
    exact leaves_lookup (fun _ => rfl) (fun _ => ⟨rfl, rfl⟩) htenant
  | details i =>
    exact leaves_findActionDetails hs (fun _ _ _ _ _ _ => ⟨rfl, rfl⟩) htenant
      fun hnone => ⟨⟨i, rfl, hnone, rfl⟩, rfl, rfl⟩
  | available i time =>
    refine leaves_bind.mpr (leaves_loadAction (fun _ a ha => ?_) htenant
      fun hnone => ⟨⟨i, rfl, hnone, rfl⟩, rfl, rfl⟩)
    -- the window of a stored action can be read
    obtain ⟨b, hb⟩ := hscheduled.exists_isWindowAvailable ((action?_eq_some_iff hs).mp ha).1 time
    rw [hb]
    exact ⟨rfl, rfl⟩
  | window i time =>
    refine leaves_bind.mpr (leaves_loadAction (fun _ a ha => ?_) htenant
      fun hnone => ⟨⟨i, rfl, hnone, rfl⟩, rfl, rfl⟩)
    split
    · exact ⟨rfl, rfl⟩
    · rename_i spec hspec
      obtain ⟨schedule, hread⟩ := hscheduled a ((action?_eq_some_iff hs).mp ha).1 spec hspec
      rw [hread]
      exact ⟨rfl, rfl⟩

end Query

/-! ## All calls -/

/-- Nothing fails at this store but for good reason, for a user of a tenant whom nobody disturbs. -/
structure Store.Faultless (s : Store) (ctx : Context) : Prop where
  /-- A call that fails is refused because of what it has loaded, what it was asked for, or the
  rules of transitions. -/
  call : ∀ (call : Call) (times : Instant → Prop) e s' es, call.NamesDevice →
    (call.program ctx).Ends times s (.error e) s' es → s.Refuses ctx call e ∧ ¬ e.IsSpurious
  /-- A query that fails misses the action that it is about. -/
  query : ∀ (q : Query) (times : Instant → Prop) e s' es,
    (q.program ctx).Ends times s (.error e) s' es → q.Misses s ctx e ∧ ¬ e.IsSpurious
  /-- A plan that has been made from what has been loaded passes. -/
  plan : ∀ tr v p, s.Loads ctx tr v → tr.plan? v = some p → p.Passes s ctx tr
  /-- An assignment leaves out targets that it was asked for, because they are not registered or
  have as many actions as they may have. -/
  failed : ∀ p r (times : Instant → Prop) result s' es,
    (assignSet p ctx r).Ends times s (.ok result) s' es → ∀ f ∈ result.failed,
      f.1 ∈ r.controllerIds ∧ s.LeavesOut ctx p f.1 f.2

/-- Whatever calls and requests of clients, deletions included, have led to a store, and however
their steps have followed each other: nothing that a user of a tenant asks of it undisturbed fails
because somebody else was faster, because the store does not work or because it misses a row when it
commits.  Calls are refused because an action, target or distribution set is missing when it is
loaded, because the request is not valid, or by the rules of transitions; every plan passes the
check of the store and gives the action back that it is about; and assignments leave out only
targets that are not registered or have too many actions. -/
theorem World.no_spurious_failures {ws : List World} {w : World} {ctx : Context} (h : IsRun ws)
    (hw : w ∈ ws) (hx : ctx.tenantId ≠ "") : w.store.Faultless ctx where
  call := by
    intro call times e s' es hdevice hends
    have hrefused := (call.leaves_or_refused (h.free w hw).consistent ctx).of_ends hends
    exact ⟨hrefused.1, hrefused.1.not_isSpurious hx hdevice⟩
  query := by
    intro q times e s' es hends
    have hmisses := (q.leaves_program (h.free w hw).consistent (h.scheduled w hw) hx).of_ends hends
    refine ⟨hmisses.1, ?_⟩
    obtain ⟨⟨i, -, -, rfl⟩, -⟩ := hmisses
    exact not_false
  plan := fun tr v p hloads hp => hloads.passes (h.free w hw).consistent hp
  failed := by
    intro p r times result s' es hends f hf
    have hs := (h.free w hw).consistent
    obtain ⟨hset, hsteps⟩ :=
      (leaves_assignSet hs (leaves_checkRequest times ctx p r w.store)).of_ends hends
    obtain ⟨-, hfailed, -⟩ := hsteps.course hs hset (nodup_eraseDups _)
    obtain ⟨hmem, -, hout⟩ := hfailed f hf
    exact ⟨List.mem_eraseDups.mp hmem, hout⟩

/-- A request for the device that has come back, and for one that is not there. -/
def comebackRequest : AssignmentRequest := .forced 1 ["device", "unknown"]

/-- The action of the device has ended, so it cannot be ended by force; an assignment leaves out the
target that is not there, and what is planned for the device passes. -/
theorem comeback_faultless : ∃ ws w, World.IsRun ws ∧ w ∈ ws ∧
    (∃ e, ((forceQuitAction sampleContext 2).runOn 7 w.store).result = .error e ∧
      w.store.Refuses sampleContext (.act 2 .forceQuit) e ∧ ¬ e.IsSpurious) ∧
    (∃ result,
      ((assignSet .standard sampleContext comebackRequest).runOn 7 w.store).result = .ok result ∧
      ("unknown", .notFound) ∈ result.failed ∧
      w.store.LeavesOut sampleContext .standard "unknown" .notFound) ∧
    ∃ v, v.target.controllerId = "device" ∧
      (planAssignment v (comebackRequest.newAction sampleContext) .graceful 7).Passes w.store
        sampleContext (.assign (comebackRequest.newAction sampleContext) .graceful 7) := by
  obtain ⟨ws, hrun, hpasses⟩ := World.exists_isRun comeback_not_raw
  obtain ⟨w, hw, hstore⟩ := World.exists_mem_of_scanl hpasses
  have hfaultless : w.store.Faultless sampleContext :=
    World.no_spurious_failures hrun hw (by decide)
  refine ⟨ws, w, hrun, hw, ?_, ?_, ?_⟩
  · have hquit : ((forceQuitAction sampleContext 2).runOn 7 w.store).result =
        .error (.forceQuitNotAllowed 2 .finished) := by
      rw [hstore]
      decide +kernel
    have hends := ends_runOn (· = 7) rfl (forceQuitAction sampleContext 2) w.store
    rw [hquit] at hends
    exact ⟨_, hquit, hfaultless.call (.act 2 .forceQuit) _ _ _ _ trivial hends⟩
  · have hassign : ((assignSet .standard sampleContext comebackRequest).runOn 7 w.store).result =
        .ok ⟨1, 0, [3], ["device"], [], [("unknown", .notFound)], 2⟩ := by
      rw [hstore]
      decide +kernel
    have hends := ends_runOn (· = 7) rfl (assignSet .standard sampleContext comebackRequest)
      w.store
    rw [hassign] at hends
    have hmem := List.mem_singleton_self ("unknown", AssignmentFailure.notFound)
    exact ⟨_, hassign, hmem, (hfaultless.failed _ _ _ _ _ _ hends _ hmem).2⟩
  · have hview : ((loadView sampleContext "device").runOn 7 w.store).result.toOption.map
        (fun v => v.target.controllerId) = some "device" := by
      rw [hstore]
      decide +kernel
    obtain ⟨v, hv, hdevice⟩ := Option.map_eq_some_iff.mp hview
    have hends := ends_runOn (· = 7) rfl (loadView sampleContext "device") w.store
    rw [toOption_eq_some hv] at hends
    refine ⟨v, hdevice, hfaultless.plan (.assign _ .graceful 7) v _ ⟨?_, ?_, ?_⟩ rfl⟩
    · rw [hdevice]
      exact ⟨_, _, _, hends⟩
    · intro a ha
      cases ha
    · rintro n mode now heq
      cases heq
      rw [hstore]
      decide +kernel

end FleetUpdate
