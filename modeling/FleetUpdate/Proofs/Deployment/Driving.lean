import FleetUpdate.Proofs.Deployment.EachTarget
import FleetUpdate.Proofs.Deployment.Tasks
import Mathlib.Computability.Primrec.List
import Mathlib.Data.List.Permutation

/-!
# Actions that drive a target

An active action drives its target if it is about the distribution set that is assigned to the
target.  There should never be two of them.  In the immediate mode there never are.  In the graceful
mode an assignment spares the actions that the device has fetched, and when one of these is about
the very distribution set that is assigned, the target has two driving actions afterwards: the
assignment *redrives* the target.

`single_driving_iff` says that this is the only way: along every run of calls, each target has at
most one driving action throughout if and only if no assignment redrives a target.  What the other
calls keep is stronger than that, namely that no two active actions of a target are about the same
distribution set (`Store.Apart`).
-/

namespace FleetUpdate

namespace Store

/-- No target has two active actions that are about the distribution set assigned to it. -/
def SingleDriving (s : Store) : Prop :=
  ∀ x c t, s.target? x c = some t →
    ((s.activeOf x c).filter fun a => t.assigned = some a.setId).length ≤ 1

/-- No target has two active actions that are about the same distribution set. -/
def Apart (s : Store) : Prop := ∀ x c, ((s.activeOf x c).map Action.setId).Nodup

end Store

/-- An assignment brings a target back to a distribution set that an action which the assignment
spares is about. -/
def Task.Redrives (s : Store) : Task → Prop
  | .call ctx (.assign p r) time =>
    ∃ result, ((assignSet p ctx r).runOn time s).result = .ok result ∧
      ∃ c ∈ result.assignedTargets, ∃ a ∈ s.activeOf ctx.tenantId c,
        p.supersede.spares a = true ∧ a.setId = r.setId
  | _ => False

/-- In the immediate mode no target is redriven. -/
theorem Task.Redrives.graceful {s : Store} {ctx : Context} {p : Policy} {r : AssignmentRequest}
    {time : Instant} (h : (Task.call ctx (.assign p r) time).Redrives s) :
    p.supersede = .graceful := by
  obtain ⟨-, -, -, -, a, -, hspared, -⟩ := h
  cases hmode : p.supersede with
  | graceful => rfl
  | immediate =>
    rw [hmode, SupersedeMode.spares_immediate] at hspared
    cases hspared

namespace Store

variable {s s' : Store}

/-- The driving actions of a target are the active actions about the assigned distribution set. -/
theorem length_driving {t : Target} {i : Int} (h : t.assigned = some i) (as : List Action) :
    (as.filter fun a => t.assigned = some a.setId).length = (as.map Action.setId).count i := by
  rw [← List.countP_eq_length_filter, List.count, List.countP_map, h]
  apply List.countP_congr
  intro a _
  show decide (some i = some a.setId) = true ↔ (a.setId == i) = true
  rw [decide_eq_true_iff, Option.some.injEq, beq_iff_eq]
  exact eq_comm

theorem Apart.single_driving (h : s.Apart) : s.SingleDriving := by
  intro x c t _
  cases ht : t.assigned with
  | none => simp
  | some i =>
    rw [← ht, length_driving ht]
    exact List.nodup_iff_count_le_one.mp (h x c) i

/-! ## Calls that assign nothing -/

/-- Actions that are gone do no harm. -/
theorem Apart.of_sublist (h : s.Apart) (hsub : s'.actions.Sublist s.actions) : s'.Apart := by
  intro x c
  exact (h x c).sublist (((hsub.filter _).filter _).map _)

/-- A client that has nothing committed leaves no action behind. -/
theorem actions_sublist {o : Op} (ho : ∀ cs, o.request ≠ .applyChanges cs) :
    (s.after o).actions.Sublist s.actions := by
  obtain ⟨ctx, now, q⟩ := o
  have heffect := s.perform_effect ctx now q
  show (s.perform ctx now q).2.actions.Sublist s.actions
  generalize (s.perform ctx now q).2 = s' at heffect ⊢
  have hrow (c : String) (f : Target → Target) :
      (s.changeTarget ctx c f).2.actions.Sublist s.actions := by simp
  cases heffect with
  | none => exact List.Sublist.refl _
  | register hok =>
    obtain ⟨-, -, -, rfl⟩ := createTarget_eq_ok_iff.mp hok
    exact List.Sublist.refl _
  | describe c desc => exact hrow c _
  | contact c time => exact hrow c _
  | delete c =>
    unfold deleteTarget
    split
    · exact List.Sublist.refl _
    · exact List.filter_sublist
  | sets sets last => exact List.Sublist.refl _
  | commit cs => exact absurd rfl (ho cs)

theorem Apart.of_plannedCommit (h : s.Apart) {ctx : Context} {now : Instant}
    {call : Call} {change : TargetChange} {tr : Transition} {v : TargetView} {t : Target}
    (hcall : ¬ call.IsAssignment) (hcommit : s.PlannedCommit ctx now call change tr v t) :
    (((s.written ctx now change).activeOf ctx.tenantId change.controllerId).map
      Action.setId).Nodup := by
  obtain ⟨events, hp⟩ := hcommit.plan
  have hnew : s.createdBy ctx now change = [] := by
    rw [createdBy, newActions_eq_nil hcall hcommit.plans hp, List.mapIdx_nil]
  have hsets : Action.setId ∘ change.writeAction ctx now = Action.setId := by
    funext a
    exact TargetChange.writeAction_setId change a
  rw [hcommit.activeAfter, hnew, List.append_nil, hcommit.active]
  have hall := h ctx.tenantId change.controllerId
  rw [← hsets, ← List.map_map] at hall
  exact hall.sublist (List.filter_sublist.map _)

theorem apart_kept : Kept (fun call => ¬ call.IsAssignment) Apart where
  quiet := by
    intro s o _ h ho
    apply h.of_sublist
    apply actions_sublist
    intro cs hcs
    rw [hcs] at ho
    exact ho
  commit := by
    intro s ctx now call change hcall hs h hacc hplanned x c
    by_cases hc : (ctx.tenantId, change.controllerId) = (x, c)
    · obtain ⟨rfl, rfl⟩ := Prod.mk.inj hc
      obtain ⟨tr, v, t, hcommit⟩ := hplanned.commit hs now
      exact h.of_plannedCommit hcall hcommit
    · rw [(SameAt.written hs hacc hc).activeOf_eq]
      exact h x c

/-! ## Assignments -/

section Assign

variable {ctx : Context} {p : Policy} {r : AssignmentRequest} {time : Instant}

/-- An assignment that redrives no target leaves the active actions of all targets apart. -/
theorem Apart.assign (hs : s.Consistent) (h : s.Apart)
    (hno : ¬ (Task.call ctx (.assign p r) time).Redrives s) :
    (s.afterTask (.call ctx (.assign p r) time)).Apart := by
  show ((assignSet p ctx r).runOn time s).state.Apart
  rcases assignSet_runs ctx p r time hs with ⟨e, hrun⟩ | ⟨hset, hrun⟩
  · rw [hrun.state]
    exact h
  · rw [hrun.state]
    intro x c
    by_cases hx : ctx.tenantId = x
    · subst hx
      rcases assigning_at hs hset p (epochMillis time) c with ⟨hc, hassigned⟩ | ⟨-, hsame⟩
      · rw [hassigned.setIds, List.nodup_append]
        refine ⟨(h ctx.tenantId c).sublist (List.filter_sublist.map _), List.nodup_singleton _, ?_⟩
        rintro i hi j hj rfl
        -- a spared action about the same distribution set would be redriven
        obtain rfl := List.mem_singleton.mp hj
        obtain ⟨a, ha, hid⟩ := List.mem_map.mp hi
        obtain ⟨ha, hspared⟩ := List.mem_filter.mp ha
        exact hno ⟨_, hrun.result, c, hc, a, ha, hspared, hid⟩
      · rw [hsame.activeOf_eq]
        exact h ctx.tenantId c
    · rw [(sameAt_assigning hs hset hx).activeOf_eq]
      exact h x c

/-- An assignment that redrives a target leaves it with two driving actions. -/
theorem not_single_driving_of_redrives (hs : s.Consistent) {task : Task} (h : task.Redrives s) :
    ¬ (s.afterTask task).SingleDriving := by
  intro hsingle
  cases task with
  | request o => exact h
  | call ctx call time =>
    cases call with
    | assign p r =>
      obtain ⟨result, hresult, c, hc, a, ha, hspared, hid⟩ := h
      change ((assignSet p ctx r).runOn time s).state.SingleDriving at hsingle
      rcases assignSet_runs ctx p r time hs with ⟨e, hrun⟩ | ⟨hset, hrun⟩
      · rw [hrun.result] at hresult
        cases hresult
      · rw [hrun.result] at hresult
        obtain rfl := Except.ok.inj hresult
        rw [hrun.state] at hsingle
        rcases assigning_at hs hset p (epochMillis time) c with ⟨-, hassigned⟩ | ⟨hout, -⟩
        · obtain ⟨t, ht, hdriven⟩ := hassigned.driven
          -- the new action drives the target, and so does the spared one
          have hone := hsingle ctx.tenantId c t ht
          rw [length_driving hdriven, hassigned.setIds, List.count_append,
            List.count_singleton_self] at hone
          have hspare : r.setId ∈ ((s.activeOf ctx.tenantId c).filter p.supersede.spares).map
              Action.setId := List.mem_map.mpr ⟨a, List.mem_filter.mpr ⟨ha, hspared⟩, hid⟩
          have hpos := List.count_pos_iff.mpr hspare
          omega
        · exact hout hc
    | _ => exact h

end Assign

end Store

/-! ## Runs -/

/-- A task other than one that redrives a target leaves the active actions of all targets apart. -/
theorem Store.Apart.afterTask {s : Store} (hs : s.Consistent) (h : s.Apart) {task : Task}
    (hraw : ¬ task.IsRaw) (hno : ¬ task.Redrives s) : (s.afterTask task).Apart := by
  cases task with
  | request o =>
    apply h.of_sublist
    apply Store.actions_sublist
    intro cs hcs
    exact hraw ⟨cs, hcs⟩
  | call ctx call time =>
    by_cases hassign : call.IsAssignment
    · cases call with
      | assign p r => exact h.assign hs hno
      | _ => exact hassign.elim
    · exact Store.apart_kept.runOn hassign hs h ctx time

/-- Along a run of calls, and of requests that commit nothing, in whatever modes the assignments are
made: every target has at most one driving action throughout if and only if no assignment of the run
redrives a target. -/
theorem Store.single_driving_iff {tasks : List Task} (hraw : ∀ task ∈ tasks, ¬ task.IsRaw) :
    (∀ before, before <+: tasks → (Store.empty.afterTasks before).SingleDriving) ↔
    ∀ before task, before ++ [task] <+: tasks → ¬ task.Redrives (Store.empty.afterTasks before) := by
  constructor
  · intro hsingle before task hprefix hredrives
    apply Store.not_single_driving_of_redrives (Store.Consistent.empty.afterTasks before) hredrives
    rw [← Store.afterTasks_concat]
    exact hsingle _ hprefix
  · intro hno before hprefix
    -- the stronger property goes through the run, task by task
    apply Store.Apart.single_driving
    induction before using List.reverseRecOn with
    | nil =>
      intro x c
      exact List.nodup_nil
    | append_singleton before task ih =>
      have hbefore : before <+: tasks := (List.prefix_append before [task]).trans hprefix
      have hmem : task ∈ tasks := hprefix.subset (by simp)
      rw [Store.afterTasks_concat]
      exact (ih hbefore).afterTask (Store.Consistent.empty.afterTasks before) (hraw task hmem)
        (hno before task hprefix)

/-! ## Back to a distribution set that is being canceled -/

/-- The policy that waits for devices. -/
def Policy.patient : Policy := { Policy.standard with supersede := .graceful }

/-- A distribution set is assigned to the device, which starts with it; then another one is, so that
the device is asked to stop; and before it answers the first one is assigned again. -/
def returning : List Task :=
  Store.sampleOps.map .request ++
    [.call Store.sampleContext (.assign .patient (.forced 1 ["device"])) 2,
      .call Store.sampleContext (.act 1 (.report ⟨.running, [], none, some 3⟩)) 3,
      .call Store.sampleContext (.assign .patient (.forced 2 ["device"])) 4,
      .call Store.sampleContext (.assign .patient (.forced 1 ["device"])) 5]

theorem returning_not_raw : ∀ task ∈ returning, ¬ task.IsRaw := by
  simp [returning, Store.sampleOps, Task.IsRaw]

/-- The device has an action that it is asked to stop and a new one, both about the distribution set
that is assigned to it. -/
theorem returning_driving :
    (fun s : Store => ((s.target? "acme" "device").map fun t => t.assigned,
        (s.activeOf "acme" "device").map Action.setId)) (Store.empty.afterTasks returning) =
      (some (some 1), [1, 1]) := by
  -- the store is computed once, and then looked at twice; `cbv` takes the equations of
  -- `List.lookup` from `Primrec.List` and those of `Prod.snd` from `List.Permutation`
  cbv

theorem returning_not_single_driving : ¬ (Store.empty.afterTasks returning).SingleDriving := by
  intro hsingle
  obtain ⟨hassigned, hactive⟩ := Prod.mk.inj returning_driving
  obtain ⟨t, ht, hdriven⟩ := Option.map_eq_some_iff.mp hassigned
  have hone := hsingle "acme" "device" t ht
  rw [Store.length_driving hdriven, hactive] at hone
  exact absurd hone (by decide)

/-- After the return the device has two driving actions. -/
theorem returning_drives_twice :
    (∀ task ∈ returning, ¬ task.IsRaw) ∧ ¬ (Store.empty.afterTasks returning).SingleDriving :=
  ⟨returning_not_raw, returning_not_single_driving⟩

/-- So some assignment of this run redrives the device. -/
theorem returning_redrives :
    (∀ task ∈ returning, ¬ task.IsRaw) ∧ ∃ before task, before ++ [task] <+: returning ∧
      task.Redrives (Store.empty.afterTasks before) := by
  refine ⟨returning_not_raw, ?_⟩
  by_contra hnone
  have hsingle := (Store.single_driving_iff returning_not_raw).mpr fun before task hprefix h =>
    hnone ⟨before, task, hprefix, h⟩
  exact returning_not_single_driving (hsingle returning (List.prefix_refl _))

end FleetUpdate
