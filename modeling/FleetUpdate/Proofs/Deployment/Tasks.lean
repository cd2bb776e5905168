import FleetUpdate.Proofs.Deployment.Alone
import FleetUpdate.Proofs.Deployment.World

/-!
# Tasks one after the other

A task is done from start to end with nobody else in between: a call runs alone, or a client asks the
store for something.  What all commits of a call keep, the call as a whole keeps (`Kept.runOn`).
-/

namespace FleetUpdate

/-- Something that is done without interruption. -/
inductive Task where
  | call (ctx : Context) (call : Call) (time : Instant)
  | request (o : Op)

/-- A client has changes of its own committed. -/
def Task.IsRaw : Task → Prop
  | call .. => False
  | request o => ∃ cs, o.request = .applyChanges cs

namespace Store

/-- The store after a task. -/
def afterTask (s : Store) : Task → Store
  | .call ctx call time => ((call.program ctx).runOn time s).state
  | .request o => s.after o

/-- The store after several tasks. -/
def afterTasks (s : Store) (tasks : List Task) : Store := tasks.foldl afterTask s

variable {s : Store} {tasks : List Task}

theorem afterTasks_concat (task : Task) :
    s.afterTasks (tasks ++ [task]) = (s.afterTasks tasks).afterTask task := by
  unfold afterTasks
  rw [List.foldl_append]
  rfl

/-- The last store that several tasks lead through is the one after them. -/
theorem afterTasks_mem_scanl (s : Store) (tasks : List Task) :
    s.afterTasks tasks ∈ tasks.scanl afterTask s := by
  induction tasks generalizing s with
  | nil => exact List.mem_singleton_self s
  | cons task tasks ih =>
    rw [List.scanl_cons]
    exact List.mem_cons_of_mem s (ih (s.afterTask task))

/-- The store after some tasks comes before the store after more of them. -/
theorem pair_sublist_scanl (s : Store) {before after : List Task} (h : after ≠ []) :
    [s.afterTasks before, s.afterTasks (before ++ after)].Sublist
      ((before ++ after).scanl afterTask s) := by
  induction before generalizing s with
  | nil =>
    obtain ⟨task, tasks, rfl⟩ := List.exists_cons_of_ne_nil h
    rw [List.nil_append, List.scanl_cons]
    exact (List.singleton_sublist.mpr (afterTasks_mem_scanl (s.afterTask task) tasks)).cons_cons s
  | cons task before ih =>
    rw [List.cons_append, List.scanl_cons]
    exact (ih (s.afterTask task)).cons s

theorem Consistent.afterTask (hs : s.Consistent) (task : Task) : (s.afterTask task).Consistent := by
  cases task with
  | call ctx call time => exact hs.runOn (call.program ctx) time
  | request o => exact hs.after o

theorem Consistent.afterTasks (hs : s.Consistent) (tasks : List Task) :
    (s.afterTasks tasks).Consistent := by
  induction tasks generalizing s with
  | nil => exact hs
  | cons task tasks ih => exact ih (hs.afterTask task)

/-- A call leads to no other stores than the requests that it makes. -/
theorem Reachable.afterTask (hs : s.Reachable) (task : Task) : (s.afterTask task).Reachable := by
  cases task with
  | call ctx call time =>
    obtain ⟨-, ops, -, hstate⟩ := (call.program ctx).makes_runOn time s
    rw [Store.afterTask, hstate]
    exact hs.afterAll ops
  | request o => exact hs.afterAll [o]

theorem Reachable.afterTasks (hs : s.Reachable) (tasks : List Task) :
    (s.afterTasks tasks).Reachable := by
  induction tasks generalizing s with
  | nil => exact hs
  | cons task tasks ih => exact ih (hs.afterTask task)

end Store

/-- What all commits of a call keep, the call keeps. -/
theorem Kept.runOn {calls : Call → Prop} {I : Store → Prop} (hI : Kept calls I) {call : Call}
    (hcall : calls call) {s : Store} (hs : s.Consistent) (h : I s) (ctx : Context)
    (time : Instant) : I ((call.program ctx).runOn time s).state := by
  have hissues := call.program_issues ctx s
  unfold Program.runOn
  generalize call.program ctx = p at hissues ⊢
  -- nobody comes in between, so each request is asked of the store that the last one left
  induction p generalizing s with
  | done a => exact h
  | fail e => exact h
  | ask cx q next ih =>
    obtain ⟨hq, hnext⟩ := hissues s (.refl hs)
    obtain ⟨hadv, hkept⟩ := hI.perform (epochMillis time) hcall hs h hq
    exact ih _ hadv.consistent hkept (hnext (epochMillis time))
  | clock next ih => exact ih time hs h (hissues time)
  | note n next ih => exact ih hs h hissues

end FleetUpdate
