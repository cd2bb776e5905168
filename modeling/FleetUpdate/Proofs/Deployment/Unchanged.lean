import FleetUpdate.Proofs.Deployment.EachTarget

/-!
# Calls that fail

A call that runs alone does all its checks before its first commit, and the commit of what it has
planned from the store as it is does not fail.  So a call that fails has changed nothing and
published nothing, and it is one of its checks that has refused it (`Store.Refuses`); and one that
succeeds has taken its course (`Store.Proceeds`).

An assignment that succeeds may list single targets as failed.  These are left as they were, and no
event is about them (`failed_changes_nothing`).
-/

namespace FleetUpdate

open Program Store

/-- A call has taken its course, by commits for different targets. -/
def Store.Proceeds (s : Store) (ctx : Context) (call : Call) (s' : Store) (es : List Event) : Prop :=
  ∃ ids, ids.Nodup ∧ Course ctx call ids s s' es

/-- Whatever the error, the store is as it was and nothing has been published. -/
def Store.Unchanged (s : Store) (_ : DeploymentError) (s' : Store) (es : List Event) : Prop :=
  s' = s ∧ es = []

variable {times : Instant → Prop} {s s' : Store} {ctx : Context} {call : Call} {a : Action}
  {v : TargetView} {p : Plan} {c : String} {i : Int}

theorem Store.Unchanged.refl (s : Store) (e : DeploymentError) : s.Unchanged e s [] := ⟨rfl, rfl⟩

theorem Store.Proceeds.nil (s : Store) (ctx : Context) (call : Call) : s.Proceeds ctx call s [] :=
  ⟨[], .nil, .nil⟩

/-! ## Why a call is refused -/

/-- What a call about an action has read: the action, and its target with the active actions. -/
structure Store.Reads (s : Store) (ctx : Context) (a : Action) (v : TargetView) : Prop where
  tenant : ctx.tenantId ≠ ""
  action : a ∈ s.actionsOf ctx.tenantId a.controllerId
  view : ∃ t, s.target? ctx.tenantId a.controllerId = some t ∧
    v = .ofActions t (s.activeOf ctx.tenantId a.controllerId)

/-- The planner of a call about an action refuses to plan. -/
inductive ActionCall.Rejects (v : TargetView) (a : Action) :
    ActionCall → DeploymentError → Prop where
  | cancel {now : Instant} {e : DeploymentError} (h : planCancel v a now = .error e) :
      Rejects v a .cancel e
  | forceQuit {now : Instant} {e : DeploymentError} (h : planForceQuit v a now = .error e) :
      Rejects v a .forceQuit e
  | report {r : IncomingReport} {time : Instant} {log : List StatusEntry} {e : DeploymentError}
      (h : planStatusUpdate v a ⟨r.status, r.messages, r.code, time⟩ log = .error e) :
      Rejects v a (.report r) e
  | reportCancel {r : IncomingReport} {time : Instant} {log : List StatusEntry}
      {e : DeploymentError}
      (h : planCancelFeedback v a ⟨r.status, r.messages, r.code, time⟩ log = .error e) :
      Rejects v a (.reportCancel r) e
  | confirm {messages : List String} {now : Instant} {e : DeploymentError}
      (h : planConfirm v a messages now = .error e) : Rejects v a (.confirm messages) e
  | deny {messages : List String} {now : Instant} {e : DeploymentError}
      (h : planDeny v a messages now = .error e) : Rejects v a (.deny messages) e

/-- Why a call is refused at a store: it comes without a tenant or with a blank controller id, what
it is about is missing, its planner refuses, or the check of its request does. -/
inductive Store.Refuses (s : Store) (ctx : Context) : Call → DeploymentError → Prop where
  | noTenant {call : Call} (h : ctx.tenantId = "") :
      Refuses s ctx call StorageError.tenantRequired.toDeployment
  | blank {c : String} (h : Text.allBlank c = true) :
      Refuses s ctx (.register c) StorageError.controllerRequired.toDeployment
  | noAction {i : Int} {what : ActionCall} (h : s.action? ctx.tenantId i = none) :
      Refuses s ctx (.act i what) (.notFound .action (toString i))
  | noTarget {c : String} (h : s.target? ctx.tenantId c = none) :
      Refuses s ctx (.recalculate c) (.notFound .target c)
  | rejected {a : Action} {v : TargetView} {what : ActionCall} {e : DeploymentError}
      (reads : s.Reads ctx a v) (h : what.Rejects v a e) : Refuses s ctx (.act a.id what) e
  | declined {p : Policy} {r : AssignmentRequest} {e : DeploymentError}
      (h : s.Declines ctx p r e) : Refuses s ctx (.assign p r) e

/-- The call is refused, and has left no trace. -/
def Store.Refused (s : Store) (ctx : Context) (call : Call) (e : DeploymentError) (s' : Store)
    (es : List Event) : Prop :=
  s.Refuses ctx call e ∧ s.Unchanged e s' es

theorem Store.Refuses.refused {e : DeploymentError} (h : s.Refuses ctx call e) :
    s.Refused ctx call e s [] := ⟨h, .refl s e⟩

/-! ## Loading and committing -/

theorem leaves_loadAction {Q : Action → Store → List Event → Prop}
    {E : DeploymentError → Store → List Event → Prop}
    (h : ctx.tenantId ≠ "" → ∀ a, s.action? ctx.tenantId i = some a → Q a s [])
    (htenant : ctx.tenantId = "" → E StorageError.tenantRequired.toDeployment s [])
    (hmissing : s.action? ctx.tenantId i = none → E (.notFound .action (toString i)) s []) :
    (loadAction ctx i).Leaves times Q E s :=
  leaves_bind.mpr (leaves_lookup (fun _ => rfl)
    (fun hx => leaves_require.mpr ⟨fun a ha => h hx a ha, hmissing⟩) htenant)

theorem leaves_loadView {Q : TargetView → Store → List Event → Prop}
    {E : DeploymentError → Store → List Event → Prop}
    (h : ctx.tenantId ≠ "" → ∀ t, s.target? ctx.tenantId c = some t →
      Q (.ofActions t (s.activeOf ctx.tenantId c)) s [])
    (htenant : ctx.tenantId = "" → E StorageError.tenantRequired.toDeployment s [])
    (hmissing : s.target? ctx.tenantId c = none → E (.notFound .target c) s []) :
    (loadView ctx c).Leaves times Q E s := by
  refine leaves_bind.mpr (leaves_lookup (fun _ => rfl) (fun hx => ?_) htenant)
  refine leaves_bind.mpr (leaves_require.mpr ⟨fun t ht => ?_, hmissing⟩)
  exact leaves_bind.mpr (leaves_lookup (fun _ => rfl) (fun _ => h hx t ht) htenant)

theorem leaves_logIfCanceling {Q : List StatusEntry → Store → List Event → Prop}
    {E : DeploymentError → Store → List Event → Prop} (hx : ctx.tenantId ≠ "")
    (h : ∀ log, Q log s []) : (logIfCanceling ctx a).Leaves times Q E s := by
  unfold logIfCanceling
  split
  · exact leaves_lookup (fun _ => rfl) (fun _ => h _) fun hno => absurd hno hx
  · exact h []

theorem leaves_date {E : DeploymentError → Store → List Event → Prop} {r : IncomingReport}
    {Q : StatusReport → Store → List Event → Prop}
    (h : ∀ time, Q ⟨r.status, r.messages, r.code, time⟩ s []) : r.date.Leaves times Q E s := by
  unfold IncomingReport.date
  split
  · exact h _
  · exact leaves_bind.mpr (leaves_recordedNow.mpr fun t _ => h _)

/-- The commit of a plan from the store as it is does not fail. -/
theorem leaves_commitPlan {E : DeploymentError → Store → List Event → Prop} (hs : s.Consistent)
    (hx : ctx.tenantId ≠ "") (call : Call)
    (hplanned : ∃ tr v, call.Plans ctx tr ∧ tr.plan? v = some p ∧ s.Current ctx.tenantId v ∧
      ∀ a, tr.subject? = some a → a ∈ v.active) (hacc : s.Accepts ctx p.change) :
    (commitPlan ctx p).Leaves times (fun k s' es => ∃ now, s.FreshCommit ctx call now p k ∧
      s' = s.written ctx now p.change ∧ es = k.resolve p.events) E s := by
  refine leaves_bind.mpr (leaves_request.mpr fun t _ => ?_)
  obtain ⟨k, hcommit, hreceipt⟩ := commit_of_accepts hs hacc (epochMillis t)
  have hperform : s.perform ctx (epochMillis t) (.applyChanges [p.change]) =
      (.ok [.ok k], s.written ctx (epochMillis t) p.change) := by
    rw [Store.perform, if_neg hx]
    show Store.done (s.commitAll ctx (epochMillis t) [p.change]) = _
    simp only [commitAll, hcommit]
    rfl
  rw [hperform]
  refine leaves_bind.mpr (leaves_publish.mpr ?_)
  exact ⟨epochMillis t, ⟨hplanned, hacc, hreceipt⟩, rfl, by simp⟩

/-! ## Calls about one action -/

/-- A call about one action reads first.  The target of a stored action is never missing. -/
theorem leaves_load (hs : s.Consistent) {what : ActionCall}
    {f : Action → TargetView → Program Action} {Q : Action → Store → List Event → Prop}
    (h : ∀ a v, a.id = i → s.Reads ctx a v →
      (f a v).Leaves times Q (s.Refused ctx (.act i what)) s) :
    ((loadAction ctx i).bind fun a => (loadView ctx a.controllerId).bind (f a)).Leaves times Q
      (s.Refused ctx (.act i what)) s := by
  have htenant (hno : ctx.tenantId = "") :
      s.Refused ctx (.act i what) StorageError.tenantRequired.toDeployment s [] :=
    (Refuses.noTenant hno).refused
  refine leaves_bind.mpr (leaves_loadAction (fun hx a ha => ?_) htenant fun hno =>
    (Refuses.noAction hno).refused)
  obtain ⟨hmem, hid, hax⟩ := (action?_eq_some_iff hs).mp ha
  have hread : a ∈ s.actionsOf ctx.tenantId a.controllerId :=
    mem_actionsOf.mpr ⟨hmem, by rw [Action.owner, hax]⟩
  refine leaves_bind.mpr (leaves_loadView (fun _ t ht => ?_) htenant fun hno => ?_)
  · exact h a _ hid ⟨hx, hread, t, ht, rfl⟩
  · rw [actionsOf_eq_nil hs hno] at hread
    cases hread

/-- A call about one action commits what it has planned, and then only makes notes. -/
theorem Store.Reads.leaves_commit (hs : s.Consistent) (h : s.Reads ctx a v) (tr : Transition)
    (hplans : call.Plans ctx tr) (hsubject : tr.subject? = some a) (hp : tr.plan? v = some p)
    {f : Action → Program Action} {E : DeploymentError → Store → List Event → Prop}
    (hf : ∀ u s', (f u).Leaves times (fun _ s'' es => s'' = s' ∧ es = []) (fun _ _ _ => False) s') :
    ((commitAction ctx p a.id).bind f).Leaves times (fun _ s' es => s.Proceeds ctx call s' es) E
      s := by
  obtain ⟨u, hmoves⟩ := tr.plan?_of_subject hp hsubject
  have hmem : ∀ b, tr.subject? = some b → b ∈ s.activeOf ctx.tenantId a.controllerId := by
    intro b hb
    obtain rfl := Option.some.inj (hsubject.symm.trans hb)
    exact mem_activeOf.mpr ⟨h.action, hmoves.active⟩
  obtain ⟨t, ht, rfl⟩ := h.view
  have hacc : s.Accepts ctx p.change := by
    refine accepts_fresh_plan hs ht hmem hp fun n hn => ?_
    rw [hmoves.news] at hn
    cases hn
  have hviewed : ∀ b, tr.subject? = some b →
      b ∈ (TargetView.ofActions t (s.activeOf ctx.tenantId a.controllerId)).active := by
    rw [active_ofActions_activeOf hs]
    exact hmem
  refine leaves_bind.mpr (leaves_bind.mpr ?_)
  refine (leaves_commitPlan hs h.tenant call
    ⟨tr, _, hplans, hp, current_ofActions hs ht, hviewed⟩ hacc).mono ?_ fun _ _ _ hno => hno
  rintro k s' es ⟨now, hfresh, rfl, rfl⟩
  -- the commit hands back the action that the call is about
  obtain ⟨b, hb⟩ := hfresh.receipt.exists_action? (u := u) (by simp [hmoves.updates])
  rw [hmoves.action.1] at hb
  rw [hb]
  refine leaves_done.mpr ((hf b _).mono ?_ fun _ _ _ hno => hno.elim)
  rintro _ s'' es' ⟨rfl, rfl⟩
  refine ⟨[p.change.controllerId], List.nodup_singleton _, ?_⟩
  simpa using Course.single hfresh

/-- A call about one action fails if its planner refuses what it has read. -/
theorem Store.Reads.leaves_plan (hs : s.Consistent) (h : s.Reads ctx a v) (tr : Transition)
    {what : ActionCall} (hplans : what.Plans a tr) {x : Except DeploymentError Plan}
    (hrejects : ∀ e, x = .error e → what.Rejects v a e) (hx : tr.plan? v = x.toOption)
    {f : Action → Program Action}
    (hf : ∀ u s', (f u).Leaves times (fun _ s'' es => s'' = s' ∧ es = []) (fun _ _ _ => False) s') :
    ((ofExcept x).bind fun p => (commitAction ctx p a.id).bind f).Leaves times
      (fun _ s' es => s.Proceeds ctx (.act a.id what) s' es)
      (s.Refused ctx (.act a.id what)) s := by
  refine leaves_bind.mpr (leaves_ofExcept.mpr ⟨fun p hp => ?_, fun e he => ?_⟩)
  · rw [hp] at hx
    exact h.leaves_commit hs tr (.act hplans) hplans.subject? hx hf
  · exact (Refuses.rejected h (hrejects e he)).refused

theorem leaves_cancelAction (hs : s.Consistent) :
    (cancelAction ctx i).Leaves times
      (fun _ s' es => s.Proceeds ctx (.act i .cancel) s' es)
      (s.Refused ctx (.act i .cancel)) s := by
  refine leaves_load hs fun a v hid hreads => ?_
  subst hid
  refine leaves_bind.mpr (leaves_recordedNow.mpr fun t _ => ?_)
  apply hreads.leaves_plan hs (.cancel a (epochMillis t)) .cancel (fun e => .cancel) rfl
  intro u s'
  split <;> simp

theorem leaves_forceQuitAction (hs : s.Consistent) :
    (forceQuitAction ctx i).Leaves times
      (fun _ s' es => s.Proceeds ctx (.act i .forceQuit) s' es)
      (s.Refused ctx (.act i .forceQuit)) s := by
  refine leaves_load hs fun a v hid hreads => ?_
  subst hid
  refine leaves_bind.mpr (leaves_recordedNow.mpr fun t _ => ?_)
  apply hreads.leaves_plan hs (.forceQuit a (epochMillis t)) .forceQuit (fun e => .forceQuit) rfl
  intro u s'
  simp

theorem leaves_forceAction (hs : s.Consistent) :
    (forceAction ctx i).Leaves times
      (fun _ s' es => s.Proceeds ctx (.act i .force) s' es)
      (s.Refused ctx (.act i .force)) s := by
  refine leaves_load hs fun a v hid hreads => ?_
  subst hid
  cases hp : planForce v a with
  | none => exact .nil s ctx _
  | some p =>
    apply hreads.leaves_commit hs (.force a) (.act .force) rfl hp
    intro u s'
    simp

theorem leaves_reportStatus (hs : s.Consistent) {r : IncomingReport} :
    (reportStatus ctx i r).Leaves times
      (fun _ s' es => s.Proceeds ctx (.act i (.report r)) s' es)
      (s.Refused ctx (.act i (.report r))) s := by
  refine leaves_load hs fun a v hid hreads => ?_
  subst hid
  refine leaves_bind.mpr (leaves_logIfCanceling hreads.tenant fun log => ?_)
  refine leaves_bind.mpr (leaves_date fun t => ?_)
  apply hreads.leaves_plan hs (.report a ⟨r.status, r.messages, r.code, t⟩ log) .report
    (fun e => .report) rfl
  intro u s'
  simp only [bind_eq, leaves_bind, leaves_count]
  split <;> simp

theorem leaves_reportCancel (hs : s.Consistent) {r : IncomingReport} :
    (reportCancel ctx i r).Leaves times
      (fun _ s' es => s.Proceeds ctx (.act i (.reportCancel r)) s' es)
      (s.Refused ctx (.act i (.reportCancel r))) s := by
  refine leaves_load hs fun a v hid hreads => ?_
  subst hid
  refine leaves_bind.mpr (leaves_logIfCanceling hreads.tenant fun log => ?_)
  refine leaves_bind.mpr (leaves_date fun t => ?_)
  apply hreads.leaves_plan hs (.reportCancel a ⟨r.status, r.messages, r.code, t⟩ log)
    .reportCancel (fun e => .reportCancel) rfl
  intro u s'
  simp only [bind_eq, leaves_bind, leaves_count]
  split <;> simp

theorem leaves_confirmAction (hs : s.Consistent) {messages : List String} :
    (confirmAction ctx i messages).Leaves times
      (fun _ s' es => s.Proceeds ctx (.act i (.confirm messages)) s' es)
      (s.Refused ctx (.act i (.confirm messages))) s := by
  refine leaves_load hs fun a v hid hreads => ?_
  subst hid
  refine leaves_bind.mpr (leaves_recordedNow.mpr fun t _ => ?_)
  apply hreads.leaves_plan hs (.confirm a messages (epochMillis t)) .confirm (fun e => .confirm) rfl
  intro u s'
  simp

theorem leaves_denyAction (hs : s.Consistent) {messages : List String} :
    (denyAction ctx i messages).Leaves times
      (fun _ s' es => s.Proceeds ctx (.act i (.deny messages)) s' es)
      (s.Refused ctx (.act i (.deny messages))) s := by
  refine leaves_load hs fun a v hid hreads => ?_
  subst hid
  refine leaves_bind.mpr (leaves_recordedNow.mpr fun t _ => ?_)
  apply hreads.leaves_plan hs (.deny a messages (epochMillis t)) .deny (fun e => .deny) rfl
  intro u s'
  simp

/-! ## Calls about targets -/

theorem leaves_recalculateStatus (hs : s.Consistent) :
    (recalculateStatus ctx c).Leaves times
      (fun _ s' es => s.Proceeds ctx (.recalculate c) s' es)
      (s.Refused ctx (.recalculate c)) s := by
  refine leaves_bind.mpr (leaves_loadView (fun hx t ht => ?_) (fun hno =>
    (Refuses.noTenant hno).refused) fun hno => (Refuses.noTarget hno).refused)
  refine leaves_bind.mpr (leaves_lookup (fun _ => rfl) (fun _ => ?_) fun hno => absurd hno hx)
  dsimp only
  split
  · exact .nil s ctx _
  · rename_i hne
    have hp : (Transition.recalculate (s.lastEnded ctx.tenantId c)).plan?
        (.ofActions t (s.activeOf ctx.tenantId c)) = some ⟨_, []⟩ := if_neg hne
    have hacc := accepts_fresh_plan hs ht (fun a ha => by cases ha) hp fun n hn => by cases hn
    refine leaves_bind.mpr ((leaves_commitPlan hs hx (.recalculate c)
      ⟨_, _, .recalculate, hp, current_ofActions hs ht, fun a ha => by cases ha⟩ hacc).mono ?_
      fun _ _ _ hno => hno)
    rintro k s' es ⟨now, hfresh, rfl, rfl⟩
    refine leaves_bind.mpr (leaves_log.mpr (leaves_done.mpr ?_))
    exact ⟨_, List.nodup_singleton _, by simpa using Course.single hfresh⟩

/-- The contact of a device that is there is noted. -/
theorem leaves_contact {E : DeploymentError → Store → List Event → Prop}
    {Q : Target → Store → List Event → Prop} (hx : ctx.tenantId ≠ "")
    (hthere : (s.target? ctx.tenantId c).isSome) (h : ∀ t s', s'.actions = s.actions → Q t s' []) :
    (do
      let t ← recordedNow
      require .target c (← request ctx (.markContacted c t))).Leaves times Q E s := by
  refine leaves_bind.mpr (leaves_recordedNow.mpr fun t _ => ?_)
  refine leaves_bind.mpr (leaves_request.mpr fun t' _ => ?_)
  rw [Store.perform, if_neg hx]
  refine leaves_require.mpr ⟨fun u _ => h u _ (s.actions_changeTarget ctx c _), fun hnone => ?_⟩
  obtain ⟨u, hu⟩ := Option.isSome_iff_exists.mp hthere
  unfold markContacted changeTarget at hnone
  rw [hu] at hnone
  cases hnone

/-- A device that is not there is registered, unless its controller id is blank. -/
theorem leaves_registerTarget (hx : ctx.tenantId ≠ "") (hfree : s.target? ctx.tenantId c = none) :
    (registerTarget ctx c).Leaves times
      (fun _ s' es => es = [] ∧ s'.actions = s.actions ∧ (s'.target? ctx.tenantId c).isSome)
      (s.Refused ctx (.register c)) s := by
  refine leaves_bind.mpr fun t _ => leaves_done.mpr ?_
  have hperform : s.perform ctx (epochMillis t) (.createTarget (.ofId c)) =
      s.settle (s.createTarget ctx (epochMillis t) (.ofId c)) := if_neg hx
  rw [hperform]
  cases hblank : Text.allBlank c with
  | true =>
    have hcreate : s.createTarget ctx (epochMillis t) (.ofId c) = .error .controllerRequired :=
      if_pos hblank
    rw [hcreate]
    exact (Refuses.blank hblank).refused
  | false =>
    rw [createTarget_eq_ok_iff.mpr ⟨hblank, hfree, rfl, rfl⟩]
    refine ⟨rfl, rfl, ?_⟩
    simp [settle, target?, NewTarget.row, NewTarget.ofId, Target.key]

/-- The first contact of a device creates and changes no action, and fails for a blank controller id
only. -/
theorem leaves_findOrRegister :
    (findOrRegister ctx c).Leaves times (fun _ s' es => s'.actions = s.actions ∧ es = [])
      (s.Refused ctx (.register c)) s := by
  refine leaves_bind.mpr (leaves_lookup (fun _ => rfl) (fun hx => ?_) fun hno =>
    (Refuses.noTenant hno).refused)
  dsimp only
  split
  · rename_i hfree
    refine leaves_bind.mpr ((leaves_registerTarget hx (Option.isNone_iff_eq_none.mp hfree)).mono ?_
      fun _ _ _ h => h)
    rintro _ s' es ⟨rfl, hactions, hthere⟩
    exact leaves_contact hx hthere fun _ _ h => ⟨h.trans hactions, rfl⟩
  · rename_i hthere
    refine leaves_contact hx ?_ fun _ _ h => ⟨h, rfl⟩
    rwa [Bool.not_eq_true, Option.isNone_eq_false_iff] at hthere

/-! ## All calls -/

/-- An assignment that succeeds has changed the targets that it lists as assigned, and no other. -/
theorem leaves_assign (hs : s.Consistent) (p : Policy) (r : AssignmentRequest) :
    (assignSet p ctx r).Leaves times
      (fun result s' es => result.assignedTargets.Nodup ∧
        (∀ f ∈ result.failed, f.1 ∉ result.assignedTargets) ∧
        Course ctx (.assign p r) result.assignedTargets s s' es)
      (s.Refused ctx (.assign p r)) s := by
  refine (leaves_assignSet hs (leaves_checkRequest times ctx p r s)).mono ?_ fun e s' es h =>
    ⟨.declined h.1, h.2⟩
  rintro result s' es ⟨hset, hsteps⟩
  obtain ⟨hnodup, hfailed, hcourse⟩ := hsteps.course hs hset (nodup_eraseDups _)
  exact ⟨hnodup, fun f hf => (hfailed f hf).2.1, hcourse⟩

/-- A call that runs alone takes its course, or, if it is the first contact of a device, creates and
changes no action; or it is refused. -/
theorem Call.leaves_or_refused (hs : s.Consistent) (ctx : Context) (call : Call) :
    (call.program ctx).Leaves times
      (fun _ s' es => s.Proceeds ctx call s' es ∨ s'.actions = s.actions ∧ es = [])
      (s.Refused ctx call) s := by
  have course {α : Type} {q : Program α}
      (h : q.Leaves times (fun _ s' es => s.Proceeds ctx call s' es) (s.Refused ctx call) s) :
      q.Leaves times (fun _ s' es => s.Proceeds ctx call s' es ∨ s'.actions = s.actions ∧ es = [])
        (s.Refused ctx call) s :=
    h.mono (fun _ _ _ => .inl) fun _ _ _ h => h
  cases call with
  | assign p r =>
    refine course ((leaves_assign hs p r).mono ?_ fun _ _ _ h => h)
    rintro result s' es ⟨hnodup, -, hcourse⟩
    exact ⟨_, hnodup, hcourse⟩
  | act i what =>
    cases what with
    | cancel => exact course (leaves_cancelAction hs)
    | forceQuit => exact course (leaves_forceQuitAction hs)
    | force => exact course (leaves_forceAction hs)
    | report r => exact course (leaves_reportStatus hs)
    | reportCancel r => exact course (leaves_reportCancel hs)
    | confirm messages => exact course (leaves_confirmAction hs)
    | deny messages => exact course (leaves_denyAction hs)
  | recalculate c => exact course (leaves_recalculateStatus hs)
  | register c => exact leaves_findOrRegister.mono (fun _ _ _ => .inr) fun _ _ _ h => h

/-- In particular, if it fails, it has changed nothing. -/
theorem Call.leaves_program (hs : s.Consistent) (ctx : Context) (call : Call) :
    (call.program ctx).Leaves times
      (fun _ s' es => s.Proceeds ctx call s' es ∨ s'.actions = s.actions ∧ es = [])
      s.Unchanged s :=
  (call.leaves_or_refused hs ctx).mono (fun _ _ _ h => h) fun _ _ _ h => h.2

/-- Whatever a call is, however the clock moves on while it runs, and from every store that can be
reached: if it fails, the store is as it was, with all its counters, and nothing has been published.
If an assignment succeeds, the targets that it lists as failed have kept their rows, their actions
and the logs of these, and no event is about them. -/
theorem failed_changes_nothing (hs : s.Reachable) :
    (∀ (times : Instant → Prop) ctx (call : Call) e s' es,
      (call.program ctx).Ends times s (.error e) s' es → s' = s ∧ es = []) ∧
    ∀ (times : Instant → Prop) ctx p r result s' es,
      (assignSet p ctx r).Ends times s (.ok result) s' es → ∀ f ∈ result.failed,
        SameAt ctx.tenantId f.1 s s' ∧ ∀ e ∈ es, e.controllerId ≠ f.1 := by
  refine ⟨?_, ?_⟩
  · intro times ctx call e s' es hends
    exact (call.leaves_program hs.consistent ctx).of_ends hends
  · intro times ctx p r result s' es hends f hf
    obtain ⟨-, hfailed, hcourse⟩ := (leaves_assign hs.consistent p r).of_ends hends
    refine ⟨hcourse.sameAt_of_not_mem hs.consistent (hfailed f hf), ?_⟩
    intro e he heq
    exact hfailed f hf (heq ▸ hcourse.controllerId_mem hs.consistent e he)

/-- The small store after an assignment. -/
def Store.sampleAssigned : Store :=
  sample.afterAll [⟨sampleContext, 2, .applyChanges [sampleAssignment 1]⟩]

/-- The action of the device cannot be ended by force, since nobody has canceled it; and another
assignment fails for a device that is not there. -/
theorem sampleAssigned_failed_changes_nothing :
    (∃ e, ((forceQuitAction sampleContext 1).runOn 5 sampleAssigned).result = .error e ∧
      ((forceQuitAction sampleContext 1).runOn 5 sampleAssigned).state = sampleAssigned) ∧
    ∃ result, ((assignSet .standard sampleContext (.forced 2 ["device", "unknown"])).runOn 5
        sampleAssigned).result = .ok result ∧
      ("unknown", .notFound) ∈ result.failed ∧
      SameAt "acme" "unknown" sampleAssigned
        ((assignSet .standard sampleContext (.forced 2 ["device", "unknown"])).runOn 5
          sampleAssigned).state := by
  have hreachable : sampleAssigned.Reachable := sample_reachable.afterAll _
  have hquit : ((forceQuitAction sampleContext 1).runOn 5 sampleAssigned).result =
      .error (.forceQuitNotAllowed 1 .scheduled) := by decide +kernel
  have hassign : ((assignSet .standard sampleContext (.forced 2 ["device", "unknown"])).runOn 5
      sampleAssigned).result =
      .ok ⟨1, 0, [2], ["device"], [], [("unknown", .notFound)], 2⟩ := by decide +kernel
  have hquitEnds := ends_runOn (· = 5) rfl (forceQuitAction sampleContext 1) sampleAssigned
  have hassignEnds := ends_runOn (· = 5) rfl
    (assignSet .standard sampleContext (.forced 2 ["device", "unknown"])) sampleAssigned
  rw [hquit] at hquitEnds
  rw [hassign] at hassignEnds
  obtain ⟨hcalls, hassignments⟩ := failed_changes_nothing hreachable
  refine ⟨⟨_, hquit, (hcalls _ _ (.act 1 .forceQuit) _ _ _ hquitEnds).1⟩, _, hassign, by simp, ?_⟩
  exact (hassignments _ _ _ _ _ _ _ hassignEnds _ (List.mem_singleton_self _)).1

end FleetUpdate
