import FleetUpdate.Proofs.Deployment.Recorded
import FleetUpdate.Proofs.Deployment.Unchanged
import FleetUpdate.Proofs.Store.LastEnded
import FleetUpdate.Proofs.Store.Tenants

/-!
# The distribution sets that targets name

The store keeps a distribution set for as long as some action brings it.  Whether a target names the
set, as the one that it should have or as the one that it has, the store does not ask.  It need not:
every set that a target names is brought by one of the actions of this very target
(`Store.BackedAt`).  A transition writes only sets to a target that the target has named before, or
that the new action or one of those still active brings (`Transition.names_of_plan?`); an action
never changes its set and is deleted only along with its target.

This takes that calls are completed one after the other (`Store.Completed`).  A call that is
overtaken by the deletion of its target could write what it has read of the old one to a target that
is registered anew.
-/

namespace FleetUpdate

/-! ## What a transition writes to a target -/

/-- The state of a target names a distribution set, as the assigned or as the installed one. -/
def TargetState.Names (st : TargetState) (i : Int) : Prop :=
  st.assigned = some i ∨ st.installed = some i

section Plans

variable {v : TargetView} {a : Action} {p : Plan} {i : Int}

/-- A target falls back to the set of an action that is still active, or to the installed one. -/
theorem fallbackSet_eq_some {remaining : List Action} {installed : Option Int}
    (h : fallbackSet remaining installed = some i) :
    (∃ a ∈ remaining, a.setId = i) ∨ installed = some i := by
  unfold fallbackSet at h
  cases hyoungest : greatest? (fun a b : Action => decide (a.id ≤ b.id)) remaining with
  | none =>
    rw [hyoungest] at h
    exact .inr h
  | some a =>
    rw [hyoungest] at h
    have htotal (a b : Action) : decide (a.id ≤ b.id) ∨ decide (b.id ≤ a.id) := by
      simpa using Int.le_total a.id b.id
    have htrans (a b d : Action) : decide (a.id ≤ b.id) → decide (b.id ≤ d.id) →
        decide (a.id ≤ d.id) := by
      simpa using Int.le_trans
    exact .inl ⟨a, (greatest?_spec htotal htrans hyoungest).1, Option.some.inj h⟩

/-- However an action ends, its target names what it named before or an active action brings. -/
theorem TargetView.names_stateAfter {status : ActionStatus} {termination : Termination}
    (ha : a ∈ v.active) (h : (v.stateAfter a status termination).Names i) :
    v.target.state.Names i ∨ ∃ b ∈ v.active, b.setId = i := by
  cases termination with
  | finished time =>
    rcases h with h | h
    · exact .inl (.inl h)
    · exact .inr ⟨a, ha, Option.some.inj h⟩
  | failed => exact .inl h
  | released =>
    rcases h with h | h
    · rcases fallbackSet_eq_some h with ⟨b, hb, hset⟩ | hinstalled
      · exact .inr ⟨b, (List.mem_filter.mp hb).1, hset⟩
      · exact .inl (.inr hinstalled)
    · exact .inl (.inr h)

/-- The state that a plan writes names only sets that the target has named before, or that an active
action or the new one brings. -/
theorem Transition.names_of_plan? {tr : Transition} (h : tr.plan? v = some p)
    (hsubject : ∀ a, tr.subject? = some a → a ∈ v.active) {st : TargetState}
    (hst : p.change.targetState = some st) (hi : st.Names i) :
    v.target.state.Names i ∨ (∃ a ∈ v.active, a.setId = i) ∨
      ∃ n ∈ p.change.newActions, n.setId = i := by
  cases hsub : tr.subject? with
  | some a =>
    obtain ⟨-, u, es, ending, -, rfl⟩ := tr.plan?_turns h hsub
    obtain ⟨termination, -, rfl⟩ := Option.map_eq_some_iff.mp hst
    rcases TargetView.names_stateAfter (hsubject a hsub) hi with hold | hactive
    · exact .inl hold
    · exact .inr (.inl hactive)
  | none =>
    cases tr with
    | assign n mode now =>
      obtain rfl := Option.some.inj h
      obtain rfl := Option.some.inj hst
      rcases hi with hi | hi
      · exact .inr (.inr ⟨n, List.mem_singleton_self n, Option.some.inj hi⟩)
      · exact .inl (.inr hi)
    | recalculate ended =>
      rw [planRecalculation_eq_some h] at hst
      obtain rfl := Option.some.inj hst
      exact .inl hi
    | _ => cases hsub

end Plans

namespace Store

/-! ## Sets that actions of the target bring -/

/-- Whatever set a target names, one of its actions brings it. -/
def BackedAt (s : Store) (x c : String) : Prop :=
  ∀ t, s.target? x c = some t → ∀ i, t.state.Names i → ∃ a ∈ s.actionsOf x c, a.setId = i

variable {s s' : Store} {x c : String} {ctx : Context} {now : Instant} {call : Call}
  {change : TargetChange} {tr : Transition} {v : TargetView} {t : Target}

theorem BackedAt.of_gone (hgone : s.target? x c = none) : s.BackedAt x c := by
  intro t ht
  rw [hgone] at ht
  cases ht

/-- It is a matter of what commits write of the target. -/
theorem BackedAt.of_standing (h : s.BackedAt x c) (hsame : s'.standing? x c = s.standing? x c) :
    s'.BackedAt x c := by
  intro t' ht' i hi
  unfold standing? at hsame
  rw [ht', Option.map_some] at hsame
  obtain ⟨t, ht, hstanding⟩ := Option.map_eq_some_iff.mp hsame.symm
  simp only [Standing.mk.injEq] at hstanding
  obtain ⟨hassigned, hinstalled, -, -, hhistory⟩ := hstanding
  rw [(historyOf_eq_iff.mp hhistory.symm).1]
  refine h t ht i ?_
  rcases hi with hi | hi
  · exact .inl (hassigned.trans hi)
  · exact .inr (hinstalled.trans hi)

/-- A target that has just been registered names no set. -/
theorem BackedAt.of_fresh (hfresh : s.standing? x c = some .fresh) : s.BackedAt x c := by
  intro t ht i hi
  rw [standing?, ht, Option.map_some, Option.some.injEq] at hfresh
  simp only [Standing.fresh, Standing.mk.injEq] at hfresh
  obtain ⟨hassigned, hinstalled, -⟩ := hfresh
  rcases hi with hi | hi
  · cases hassigned.symm.trans hi
  · cases hinstalled.symm.trans hi

/-- Clients can only delete a target together with its actions. -/
theorem BackedAt.client (hs : s.Consistent) (h : s.BackedAt x c) {o : Op}
    (ho : o.request.CommitsNothing) : (s.after o).BackedAt x c := by
  by_cases hquiet : o.request.IsQuiet
  · have hkept : (s.after o).standing? x c = s.standing? x c ∨
        s.target? x c = none ∧ (s.after o).standing? x c = some .fresh :=
      standing?_of_isQuiet hs hquiet
    rcases hkept with hsame | ⟨-, hfresh⟩
    · exact h.of_standing hsame
    · exact .of_fresh hfresh
  · obtain ⟨ctx, now, q⟩ := o
    cases q with
    | deleteTarget d =>
      unfold Store.after perform
      split
      · exact h
      · by_cases hd : (ctx.tenantId, d) = (x, c)
        · obtain ⟨rfl, rfl⟩ := Prod.mk.inj hd
          exact .of_gone (s.target?_deleteTarget ctx d)
        · exact h.of_standing (SameAt.deleteTarget hs hd).standing?_eq
    | applyChanges cs => exact ho.elim
    | _ => exact absurd trivial hquiet

/-- A commit keeps all actions of its target with their sets, and adds the one that it creates. -/
theorem BackedAt.written (h : s.BackedAt ctx.tenantId change.controllerId)
    (hcommit : s.PlannedCommit ctx now call change tr v t) :
    (s.written ctx now change).BackedAt ctx.tenantId change.controllerId := by
  have hkept : ∀ a ∈ s.actionsOf ctx.tenantId change.controllerId,
      ∃ b ∈ (s.written ctx now change).actionsOf ctx.tenantId change.controllerId,
        b.setId = a.setId := by
    intro a ha
    refine ⟨change.writeAction ctx now a, ?_, by simp⟩
    rw [actionsOf_written]
    exact List.mem_append_left _ (List.mem_map_of_mem ha)
  intro t' ht' i hi
  obtain rfl := Option.some.inj (hcommit.row.symm.trans ht')
  rw [hcommit.state] at hi
  cases hstate : change.targetState with
  | none =>
    rw [hstate] at hi
    obtain ⟨a, ha, rfl⟩ := h t hcommit.stored i hi
    exact hkept a ha
  | some st =>
    rw [hstate] at hi
    obtain ⟨events, hp⟩ := hcommit.plan
    rcases tr.names_of_plan? hp hcommit.subject hstate hi with hold | ⟨a, ha, rfl⟩ | ⟨n, hn, rfl⟩
    · have hnamed : t.state.Names i := by
        rcases hold with hold | hold
        · exact .inl (hcommit.rests.assigned.trans hold)
        · exact .inr (hcommit.rests.installed.trans hold)
      obtain ⟨a, ha, rfl⟩ := h t hcommit.stored i hnamed
      exact hkept a ha
    · rw [hcommit.active] at ha
      exact hkept a (mem_activeOf.mp ha).1
    · obtain ⟨j, hj, rfl⟩ := List.getElem_of_mem hn
      rw [actionsOf_written]
      refine ⟨_, List.mem_append_right _ (List.mem_mapIdx.mpr ⟨j, hj, rfl⟩), rfl⟩

/-- So clients and calls keep all targets backed. -/
theorem backedAt_kept (call : Call) : KeptWith call fun s x c _ => s.BackedAt x c where
  same := fun _ h hsame => h.of_standing hsame.standing?_eq
  gone := fun _ h _ => h
  client := fun hs ho h => h.client hs ho
  commit := fun hs hread hacc h => by
    obtain ⟨t, hcommit, -⟩ := hread.commit_of_accepts hs _ hacc
    exact h.written hcommit

end Store

/-! ## Completed calls -/

/-- A store that completed calls and requests of clients lead to, one after the other, in which
clients have no changes of their own committed; the clock is free. -/
inductive Store.Completed : Store → Prop where
  | empty : Completed .empty
  | client {s : Store} (before : Completed s) (o : Op) (quiet : o.request.CommitsNothing) :
      Completed (s.after o)
  | call {s : Store} (before : Completed s) (ctx : Context) {call : Call} {readings : List Instant}
      {ops : List Op} (makes : (call.program ctx).Makes s readings ops) : Completed (s.afterAll ops)

namespace Store.Completed

variable {s : Store} {ctx : Context} {i : Int} {a : Action}

theorem reachable (h : s.Completed) : s.Reachable := by
  induction h with
  | empty => exact ⟨[], rfl⟩
  | client _ o _ ih => exact ih.afterAll [o]
  | call _ _ _ ih => exact ih.afterAll _

theorem consistent (h : s.Completed) : s.Consistent := h.reachable.consistent

theorem backedAt (h : s.Completed) (x c : String) : s.BackedAt x c := by
  induction h with
  | empty => exact .of_gone rfl
  | client before o quiet ih => exact ih.client before.consistent quiet
  | call before ctx makes ih =>
    apply (backedAt_kept _).completed ctx before.consistent makes ih
    -- any chronicle will do
    exact fun _ _ => []

end Store.Completed

/-! ## Actions with all that they refer to -/

section Details

open Program Store

variable {s : Store} {ctx : Context} {i : Int} {times : Instant → Prop}

/-- Of the distribution sets that were looked up, the one with an id is the one that is stored. -/
theorem find?_findSets (hs : s.Consistent) {ids : List Int} (hi : i ∈ ids) :
    ((s.findSets ctx ids).find? fun d => d.id == i) = s.set? ctx.tenantId i := by
  refine find?_filterMap_of_key (fun j d hd => ?_) hi
  exact ((set?_eq_some_iff hs).mp hd).2.1

/-- An action is found with its distribution set, its target and whatever of the set that the target
names is stored; and only the action may be missing. -/
theorem leaves_findActionDetails (hs : s.Consistent)
    {Q : ActionDetails → Store → List Event → Prop}
    {E : DeploymentError → Store → List Event → Prop}
    (h : ∀ a d t, s.action? ctx.tenantId i = some a → s.set? ctx.tenantId a.setId = some d →
      s.target? ctx.tenantId a.controllerId = some t →
      Q ⟨a, d, t, t.assigned.bind (s.set? ctx.tenantId)⟩ s [])
    (htenant : ctx.tenantId = "" → E StorageError.tenantRequired.toDeployment s [])
    (hmissing : s.action? ctx.tenantId i = none → E (.notFound .action (toString i)) s []) :
    (findActionDetails ctx i).Leaves times Q E s := by
  refine leaves_bind.mpr (leaves_loadAction (fun hx a ha => ?_) htenant hmissing)
  obtain ⟨hmem, -, hax⟩ := (action?_eq_some_iff hs).mp ha
  obtain ⟨t, ht, hkey⟩ := hs.owner a hmem
  obtain ⟨d, hd, hid, hdx⟩ := hs.set a hmem
  have htarget : s.target? ctx.tenantId a.controllerId = some t := by
    rw [target?_eq_some_iff hs, hkey, Action.owner, hax]
    exact ⟨ht, rfl⟩
  have hset : s.set? ctx.tenantId a.setId = some d :=
    (set?_eq_some_iff hs).mpr ⟨hd, hid, hdx.trans hax⟩
  refine leaves_bind.mpr (leaves_lookup (fun _ => rfl) (fun _ => ?_) fun h => absurd h hx)
  refine leaves_bind.mpr (leaves_require.mpr ⟨fun u hu => ?_, fun hnone => ?_⟩)
  · obtain rfl : t = u := Option.some.inj (htarget.symm.trans hu)
    refine leaves_bind.mpr (leaves_lookup (fun _ => rfl) (fun _ => ?_) fun h => absurd h hx)
    have hassigned : (t.assigned.bind fun j =>
        (s.findSets ctx (a.setId :: t.assigned.toList)).find? fun d => d.id == j) =
          t.assigned.bind (s.set? ctx.tenantId) := by
      cases hj : t.assigned with
      | none => rfl
      | some j => exact find?_findSets hs (by simp)
    dsimp only
    rw [find?_findSets hs List.mem_cons_self, hset, hassigned]
    refine leaves_bind.mpr (leaves_require.mpr ⟨fun d' hd' => ?_, fun hnone => ?_⟩)
    · obtain rfl := Option.some.inj hd'
      exact h a d t ha hset htarget
    · cases hnone
  · cases htarget.symm.trans hnone

/-- After every sequence of completed calls and requests of clients, deletions included, each set
that a target names is stored, for the same tenant.  So every action can be shown with all that it
refers to, and with the set that its target is driven to just if there is one. -/
theorem Store.Completed.sets_never_dangle (h : s.Completed) :
    (∀ t ∈ s.targets, ∀ i, t.assigned = some i ∨ t.installed = some i →
      ∃ d ∈ s.sets, d.id = i ∧ d.tenantId = t.tenantId) ∧
    ∀ (ctx : Context) i a, s.action? ctx.tenantId i = some a → ∀ times : Instant → Prop,
      (findActionDetails ctx i).Leaves times
        (fun details s' es => s' = s ∧ es = [] ∧ ∃ d t,
          s.set? ctx.tenantId a.setId = some d ∧
          s.target? ctx.tenantId a.controllerId = some t ∧
          details = ⟨a, d, t, t.assigned.bind (s.set? ctx.tenantId)⟩ ∧
          details.assignedSet.isSome = t.assigned.isSome)
        (fun _ _ _ => False) s := by
  have hs := h.consistent
  have hstored : ∀ t ∈ s.targets, ∀ i, t.assigned = some i ∨ t.installed = some i →
      ∃ d ∈ s.sets, d.id = i ∧ d.tenantId = t.tenantId := by
    intro t ht i hi
    have hrow : s.target? t.tenantId t.controllerId = some t :=
      (target?_eq_some_iff hs).mpr ⟨ht, rfl⟩
    obtain ⟨a, ha, rfl⟩ := h.backedAt _ _ t hrow i hi
    obtain ⟨hmem, howner⟩ := mem_actionsOf.mp ha
    obtain ⟨d, hd, hid, hx⟩ := hs.set a hmem
    exact ⟨d, hd, hid, hx.trans (Prod.mk.inj howner).1⟩
  refine ⟨hstored, fun ctx i a ha times => leaves_findActionDetails hs ?_ ?_ ?_⟩
  · intro a' d t ha' hd ht
    obtain rfl := Option.some.inj (ha.symm.trans ha')
    refine ⟨rfl, rfl, d, t, hd, ht, rfl, ?_⟩
    cases hj : t.assigned with
    | none => rfl
    | some j =>
      obtain ⟨htmem, hkey⟩ := (target?_eq_some_iff hs).mp ht
      obtain ⟨d', hd', hid, hx⟩ := hstored t htmem j (.inl hj)
      have hset : s.set? ctx.tenantId j = some d' :=
        (set?_eq_some_iff hs).mpr ⟨hd', hid, hx.trans (Prod.mk.inj hkey).1⟩
      rw [Option.bind_some, hset]
      rfl
  · intro htenant
    obtain ⟨hmem, -, hax⟩ := (action?_eq_some_iff hs).mp ha
    exact absurd (hax.trans htenant) (h.reachable.tenantId_ne hmem)
  · intro hmissing
    cases ha.symm.trans hmissing

end Details

/-! ## A device that comes back -/

/-- Calls that are done while the clock stands still are completed. -/
theorem Store.completed_afterTasks {tasks : List Task} (hraw : ∀ task ∈ tasks, ¬ task.IsRaw) :
    (Store.empty.afterTasks tasks).Completed := by
  induction tasks using List.reverseRecOn with
  | nil => exact .empty
  | append_singleton tasks task ih =>
    obtain ⟨hbefore, hlast⟩ := List.forall_mem_append.mp hraw
    have hnot := hlast task (List.mem_singleton_self task)
    rw [afterTasks_concat]
    cases task with
    | request o => exact (ih hbefore).client o (Task.commitsNothing hnot)
    | call ctx call time =>
      obtain ⟨readings, ops, hmakes, hstate⟩ := (call.program ctx).makes_runOn time
        (Store.empty.afterTasks tasks)
      rw [afterTask, hstate]
      exact (ih hbefore).call ctx hmakes

/-- When the device has come back, the operator deletes both distribution sets. -/
def Store.sampleCleared : Store :=
  empty.afterTasks (comeback ++
    [.request ⟨sampleContext, 7, .deleteSet 1⟩, .request ⟨sampleContext, 8, .deleteSet 2⟩])

theorem Store.sampleCleared_rows :
    (sampleCleared.set? "acme" 1, (sampleCleared.action? "acme" 2).map Action.controllerId,
      (sampleCleared.target? "acme" "device").map Target.assigned,
      (sampleCleared.set? "acme" 2).map fun d => (d.id, d.deleted)) =
    (none, some "device", some (some 2), some (2, true)) := by
  decide +kernel

/-- The one that only the deleted target has had is gone, the other one is still shown. -/
theorem sampleCleared_shown : Store.sampleCleared.set? "acme" 1 = none ∧
    ∃ details, (findActionDetails Store.sampleContext 2).Runs 9 Store.sampleCleared (.ok details)
        Store.sampleCleared [] ∧
      details.assignedSet.map (fun d => (d.id, d.deleted)) = some (2, true) := by
  have hcompleted : Store.sampleCleared.Completed :=
    Store.completed_afterTasks (by simp [comeback, Store.sampleOps, Task.IsRaw])
  obtain ⟨hgone, hrest⟩ := Prod.mk.inj Store.sampleCleared_rows
  obtain ⟨haction, hrest⟩ := Prod.mk.inj hrest
  obtain ⟨htarget, hset⟩ := Prod.mk.inj hrest
  obtain ⟨a, ha, hc⟩ := Option.map_eq_some_iff.mp haction
  obtain ⟨details, s', es, hruns, rfl, rfl, d, t, -, ht, rfl, -⟩ :=
    (hcompleted.sets_never_dangle.2 Store.sampleContext 2 a ha (· = 9)).exists_runs
  refine ⟨hgone, _, hruns, ?_⟩
  rw [hc] at ht
  have hassigned : t.assigned = some 2 := by
    have hrow := congrArg (Option.map Target.assigned) ht
    exact Option.some.inj (hrow.symm.trans htarget)
  rw [hassigned]
  exact hset

end FleetUpdate
