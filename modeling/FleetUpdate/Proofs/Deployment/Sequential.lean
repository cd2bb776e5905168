import FleetUpdate.Proofs.Deployment.Batch
import FleetUpdate.Proofs.Deployment.Runs
import FleetUpdate.Proofs.Lifecycle.FreshPlan
import FleetUpdate.Proofs.Store.Frame

/-!
# Assignments that run alone

An assignment reads and commits its targets in batches.  When nobody else comes in between, this
makes no difference: the assignment decides about one target after the other, each time from the
store as it is (`leaves_assignSet`).  Under a clock that stands still this is all there is to say
about what it leaves (`assignSet_runs`, `leaves_assignSet_of_passes`).
-/

namespace FleetUpdate

open Store Program

/-- What an assignment does about a target, from the store as it is. -/
def Store.decision (s : Store) (ctx : Context) (p : Policy) (r : AssignmentRequest) (now : Instant)
    (c : String) : Decision :=
  match s.target? ctx.tenantId c with
  | none => .left .notFound
  | some t =>
    if t.assigned = some r.setId then .already
    else if 0 < p.maxActions ∧ p.maxActions < (s.actionsOf ctx.tenantId c).length + 1 then
      .left .quotaExceeded
    else
      .change (planAssignment (.ofActions t (s.activeOf ctx.tenantId c)) (r.newAction ctx)
        p.supersede now)

/-- An assignment under way: the result so far, the store, and the events published. -/
structure Assigning where
  result : AssignmentResult
  store : Store
  events : List Event

/-- One more target is assigned, by a change that is planned and committed at the given times. -/
def Assigning.targetAt (ctx : Context) (p : Policy) (r : AssignmentRequest) (planned now : Instant)
    (st : Assigning) (c : String) : Assigning :=
  match st.store.decision ctx p r planned c with
  | .left f => { st with result := st.result.fail c f }
  | .already => { st with result := st.result.skip c }
  | .change plan =>
    match st.store.commit ctx now plan.change with
    | (.ok k, s') => ⟨st.result.assign plan.change.controllerId k, s', st.events ++ k.resolve plan.events⟩
    | (.error e, s') => ⟨st.result.fail plan.change.controllerId (.ofError e), s', st.events⟩

/-- One more target is assigned, while the clock stands still. -/
def Assigning.target (ctx : Context) (p : Policy) (r : AssignmentRequest) (now : Instant) :
    Assigning → String → Assigning :=
  Assigning.targetAt ctx p r now now

variable {s s' : Store} {ctx : Context} {p : Policy} {r : AssignmentRequest}
  {planned now time : Instant}
  {ids : List String} {c : String} {acc : AssignmentResult} {es : List Event}

/-- Stores that agree on a target lead to the same decision about it. -/
theorem decision_of_same (h : SameAt ctx.tenantId c s s') :
    s'.decision ctx p r now c = s.decision ctx p r now c := by
  unfold Store.decision
  rw [h.target, h.actionsOf_eq, h.activeOf_eq]

/-- What a batch reads when nobody comes in between. -/
def Store.batchView (s : Store) (ctx : Context) (p : Policy) (ids : List String) : BatchView :=
  ⟨s.findTargets ctx ids, s.activeOfAll ctx.tenantId ids,
    if 0 < p.maxActions then s.countsOf ctx.tenantId ids else []⟩

/-- A batch decides about each of its targets from what the store holds of it. -/
theorem decideTarget_eq_decision (hc : c ∈ ids) :
    decideTarget ctx p r (s.batchView ctx p ids) now c = s.decision ctx p r now c := by
  have htarget : (s.batchView ctx p ids).target? c = s.target? ctx.tenantId c := find?_findTargets hc
  have hactive : (s.batchView ctx p ids).activeOf c = s.activeOf ctx.tenantId c :=
    filter_activeOfAll hc
  unfold decideTarget Store.decision
  rw [htarget, hactive]
  cases s.target? ctx.tenantId c with
  | none => rfl
  | some t =>
    dsimp only
    by_cases hmax : 0 < p.maxActions
    · have hcount : (s.batchView ctx p ids).count c = (s.actionsOf ctx.tenantId c).length := by
        unfold Store.batchView BatchView.count
        rw [if_pos hmax]
        exact lookup_countsOf hc
      rw [hcount]
    · simp only [hmax, false_and, if_false]

theorem decision_eq_change {plan : Plan} (h : s.decision ctx p r now c = .change plan) :
    ∃ t, s.target? ctx.tenantId c = some t ∧ t.assigned ≠ some r.setId ∧
      plan = planAssignment (.ofActions t (s.activeOf ctx.tenantId c)) (r.newAction ctx)
        p.supersede now := by
  unfold Store.decision at h
  split at h
  · cases h
  · rename_i t ht
    split at h
    · cases h
    · rename_i hassigned
      split at h
      · cases h
      · exact ⟨t, ht, hassigned, (Decision.change.inj h).symm⟩

/-- A decision to change a target is about this target. -/
theorem controllerId_of_decision {plan : Plan} (h : s.decision ctx p r now c = .change plan) :
    plan.change.controllerId = c := by
  obtain ⟨t, ht, -, rfl⟩ := decision_eq_change h
  show t.controllerId = c
  exact (Prod.mk.inj (key_of_target? ht)).2

/-- The store accepts the change that was decided on, as long as the distribution set is stored. -/
theorem accepts_of_decision (hs : s.Consistent) (hset : (s.set? ctx.tenantId r.setId).isSome)
    {plan : Plan} (h : s.decision ctx p r now c = .change plan) : s.Accepts ctx plan.change := by
  obtain ⟨t, ht, -, rfl⟩ := decision_eq_change h
  have hplan : (Transition.assign (r.newAction ctx) p.supersede now).plan?
      (.ofActions t (s.activeOf ctx.tenantId c)) = some _ := rfl
  refine accepts_fresh_plan hs ht (fun a ha => by cases ha) hplan fun n hn => ?_
  obtain rfl := List.mem_singleton.mp hn
  exact hset

/-- The commit of a change that was decided on leaves what is decided about other targets on. -/
theorem sameAt_of_decision (hs : s.Consistent) (hset : (s.set? ctx.tenantId r.setId).isSome)
    {plan : Plan} (h : s.decision ctx p r planned c = .change plan) (now : Instant) {s₀ : Store}
    (hc : c ∉ ids) (hsame : ∀ d ∈ ids, SameAt ctx.tenantId d s₀ s) :
    ∀ d ∈ ids, SameAt ctx.tenantId d s₀ (s.written ctx now plan.change) := by
  intro d hd
  refine (hsame d hd).trans (.written hs (accepts_of_decision hs hset h) fun hkey => hc ?_)
  rw [← controllerId_of_decision h, (Prod.mk.inj hkey).2]
  exact hd

/-- A target that is changed gets the change that was decided on. -/
theorem Assigning.target_of_change (acc : AssignmentResult) (es : List Event) (hs : s.Consistent)
    (hset : (s.set? ctx.tenantId r.setId).isSome) {plan : Plan}
    (h : s.decision ctx p r planned c = .change plan) (now : Instant) :
    ∃ k, s.commit ctx now plan.change = (.ok k, s.written ctx now plan.change) ∧
      s.Receipt ctx now plan.change k ∧
      Assigning.targetAt ctx p r planned now ⟨acc, s, es⟩ c =
        ⟨acc.assign c k, s.written ctx now plan.change, es ++ k.resolve plan.events⟩ := by
  obtain ⟨k, hcommit, hreceipt⟩ := commit_of_accepts hs (accepts_of_decision hs hset h) now
  refine ⟨k, hcommit, hreceipt, ?_⟩
  simp only [targetAt, h, hcommit, controllerId_of_decision h]

theorem Assigning.target_of_left {f : AssignmentFailure}
    (h : s.decision ctx p r planned c = .left f) :
    Assigning.targetAt ctx p r planned now ⟨acc, s, es⟩ c = ⟨acc.fail c f, s, es⟩ := by
  simp only [targetAt, h]

theorem Assigning.target_of_already (h : s.decision ctx p r planned c = .already) :
    Assigning.targetAt ctx p r planned now ⟨acc, s, es⟩ c = ⟨acc.skip c, s, es⟩ := by
  simp only [targetAt, h]

/-! ## What has been done before -/

namespace AssignmentResult

/-- Two results as one: counts are added and lists appended. -/
def append (a b : AssignmentResult) : AssignmentResult where
  assigned := a.assigned + b.assigned
  alreadyAssigned := a.alreadyAssigned + b.alreadyAssigned
  actionIds := a.actionIds ++ b.actionIds
  assignedTargets := a.assignedTargets ++ b.assignedTargets
  alreadyAssignedTargets := a.alreadyAssignedTargets ++ b.alreadyAssignedTargets
  failed := a.failed ++ b.failed
  total := a.total + b.total

variable (a b : AssignmentResult)

@[simp] theorem start_append : (start 0).append b = b := by
  simp [append, start]

@[simp] theorem append_fail (f : AssignmentFailure) : (a.append b).fail c f = a.append (b.fail c f) := by
  simp [append, fail]

@[simp] theorem append_skip : (a.append b).skip c = a.append (b.skip c) := by
  simp [append, skip, Nat.add_assoc]

@[simp] theorem append_assign (k : Committed) :
    (a.append b).assign c k = a.append (b.assign c k) := by
  simp [append, assign, Nat.add_assoc]

end AssignmentResult

/-- What has been done before stays in front of what is done about one more target. -/
theorem Assigning.targetAt_append (acc acc' : AssignmentResult) (s : Store) (es es' : List Event) :
    Assigning.targetAt ctx p r planned now ⟨acc.append acc', s, es ++ es'⟩ c =
      let st := Assigning.targetAt ctx p r planned now ⟨acc', s, es'⟩ c
      ⟨acc.append st.result, st.store, es ++ st.events⟩ := by
  unfold targetAt
  dsimp only
  split
  · simp
  · simp
  · split <;> simp

/-- What has been done before stays in front of what is done about further targets. -/
theorem Assigning.foldl_targetAt_append (ids : List String) (acc acc' : AssignmentResult)
    (s : Store) (es es' : List Event) :
    ids.foldl (Assigning.targetAt ctx p r planned now) ⟨acc.append acc', s, es ++ es'⟩ =
      let st := ids.foldl (Assigning.targetAt ctx p r planned now) ⟨acc', s, es'⟩
      ⟨acc.append st.result, st.store, es ++ st.events⟩ := by
  induction ids generalizing acc' s es' with
  | nil => rfl
  | cons c ids ih =>
    rw [List.foldl_cons, List.foldl_cons, targetAt_append]
    exact ih ..

/-- The events of further targets come after those that were published before. -/
theorem Assigning.foldl_targetAt_events (ids : List String) (st : Assigning) :
    ids.foldl (Assigning.targetAt ctx p r planned now) st =
      let st' := ids.foldl (Assigning.targetAt ctx p r planned now) ⟨st.result, st.store, []⟩
      ⟨st'.result, st'.store, st.events ++ st'.events⟩ := by
  simpa using foldl_targetAt_append ids (.start 0) st.result st.store st.events []

/-- Targets are assigned one by one, each by a change that is planned and committed at some of the
times; what is said to have been done is the result as it has grown, the store, and the events of
these targets. -/
inductive Assigning.Steps (dates : Instant → Prop) (ctx : Context) (p : Policy)
    (r : AssignmentRequest) : AssignmentResult → Store → List String → Assigning → Prop where
  | nil {acc : AssignmentResult} {s : Store} : Steps dates ctx p r acc s [] ⟨acc, s, []⟩
  | cons {acc : AssignmentResult} {s : Store} {planned now : Instant} {c : String}
      {ids : List String} {st st' : Assigning} (hplanned : dates planned) (hnow : dates now)
      (one : Assigning.targetAt ctx p r planned now ⟨acc, s, []⟩ c = st)
      (rest : Steps dates ctx p r st.result st.store ids st') :
      Steps dates ctx p r acc s (c :: ids) ⟨st'.result, st'.store, st.events ++ st'.events⟩

namespace Assigning.Steps

variable {dates : Instant → Prop} {st st' : Assigning}

theorem append {ids' : List String} (h : Steps dates ctx p r acc s ids st)
    (h' : Steps dates ctx p r st.result st.store ids' st') :
    Steps dates ctx p r acc s (ids ++ ids') ⟨st'.result, st'.store, st.events ++ st'.events⟩ := by
  induction h with
  | nil => exact h'
  | cons hplanned hnow one _ ih =>
    have hrest := cons hplanned hnow one (ih h')
    rw [← List.append_assoc] at hrest
    exact hrest

/-- Targets that are planned together and committed together. -/
theorem of_foldl (hplanned : dates planned) (hnow : dates now) (ids : List String)
    (acc : AssignmentResult) (s : Store) :
    Steps dates ctx p r acc s ids (ids.foldl (targetAt ctx p r planned now) ⟨acc, s, []⟩) := by
  induction ids generalizing acc s with
  | nil => exact nil
  | cons c ids ih =>
    rw [List.foldl_cons, foldl_targetAt_events]
    exact cons hplanned hnow rfl (ih _ _)

/-- While the clock stands still there is just one way. -/
theorem eq_foldl (hdates : ∀ d, dates d → d = now) (h : Steps dates ctx p r acc s ids st) :
    st = ids.foldl (target ctx p r now) ⟨acc, s, []⟩ := by
  induction h with
  | nil => rfl
  | cons hplanned hnow one rest ih =>
    obtain rfl := hdates _ hplanned
    obtain rfl := hdates _ hnow
    rw [ih, List.foldl_cons]
    subst one
    exact (foldl_targetAt_events _ _).symm

end Assigning.Steps

/-! ## A batch -/

/-- The result of a batch with the outcomes of its changes. -/
def enterAll (os : List (Plan × Except StorageError Committed)) (acc : AssignmentResult) :
    AssignmentResult :=
  os.foldl (fun acc o =>
    match o.2 with
    | .ok k => acc.assign o.1.change.controllerId k
    | .error e => acc.fail o.1.change.controllerId (.ofError e)) acc

/-- The events of those changes of a batch that were committed. -/
def eventsOf (os : List (Plan × Except StorageError Committed)) : List Event :=
  os.flatMap fun o =>
    match o.2 with
    | .ok k => k.resolve o.1.events
    | .error _ => []

theorem leaves_enterOutcomes {times : Instant → Prop}
    {Q : AssignmentResult → Store → List Event → Prop}
    {E : DeploymentError → Store → List Event → Prop}
    (os : List (Plan × Except StorageError Committed)) (h : Q (enterAll os acc) s (eventsOf os)) :
    (enterOutcomes ctx r os acc).Leaves times Q E s := by
  induction os generalizing acc Q E with
  | nil => exact h
  | cons o os ih =>
    obtain ⟨plan, out⟩ := o
    cases out with
    | ok k =>
      simp only [enterOutcomes, bind_eq, leaves_bind, leaves_count, leaves_publish]
      exact ih h
    | error e =>
      simp only [enterOutcomes, bind_eq]
      split
      · simp only [leaves_bind, leaves_count, leaves_log]
        exact ih h
      · simp only [leaves_bind, leaves_log]
        exact ih h

theorem sortDecisions_change (c : String) (plan : Plan) (ds : List (String × Decision))
    (acc : AssignmentResult) : sortDecisions ((c, .change plan) :: ds) acc =
      ((sortDecisions ds acc).1, plan :: (sortDecisions ds acc).2) := rfl

/-- What a target gets does not change how others are left out. -/
theorem sortDecisions_assign (ds : List (String × Decision)) (acc : AssignmentResult) (c : String)
    (k : Committed) :
    sortDecisions ds (acc.assign c k) =
      ((sortDecisions ds acc).1.assign c k, (sortDecisions ds acc).2) := by
  induction ds generalizing acc with
  | nil => rfl
  | cons d ds ih =>
    obtain ⟨c', d⟩ := d
    cases d with
    | left f => exact ih (acc.fail c' f)
    | already => exact ih (acc.skip c')
    | change plan => rw [sortDecisions_change, sortDecisions_change, ih]

/-- The changes of a batch, decided from one store and committed one after the other, are what the
targets get one by one: a commit for one target leaves the decisions about the others as they were. -/
theorem foldl_targetAt_eq (p : Policy) (planned now : Instant) (acc : AssignmentResult)
    (es : List Event) {s₀ : Store} (hs : s.Consistent)
    (hset : (s.set? ctx.tenantId r.setId).isSome) (hids : ids.Nodup)
    (hsame : ∀ c ∈ ids, SameAt ctx.tenantId c s₀ s) :
    let ds := ids.map fun c => (c, s₀.decision ctx p r planned c)
    let plans := (sortDecisions ds acc).2
    let out := s.commitAll ctx now (plans.map fun p => p.change)
    ids.foldl (Assigning.targetAt ctx p r planned now) ⟨acc, s, es⟩ =
      ⟨enterAll (plans.zip out.1) (sortDecisions ds acc).1, out.2, es ++ eventsOf (plans.zip out.1)⟩ := by
  induction ids generalizing s acc es with
  | nil => simp [sortDecisions, commitAll, enterAll, eventsOf]
  | cons c ids ih =>
    rw [List.nodup_cons] at hids
    have hrest : ∀ d ∈ ids, SameAt ctx.tenantId d s₀ s := fun d hd =>
      hsame d (List.mem_cons_of_mem c hd)
    have hdecision : s.decision ctx p r planned c = s₀.decision ctx p r planned c :=
      decision_of_same (hsame c List.mem_cons_self)
    rw [List.foldl_cons, List.map_cons]
    cases hd : s₀.decision ctx p r planned c with
    | left f =>
      rw [Assigning.target_of_left (hdecision.trans hd)]
      exact ih _ es hs hset hids.2 hrest
    | already =>
      rw [Assigning.target_of_already (hdecision.trans hd)]
      exact ih _ es hs hset hids.2 hrest
    | change plan =>
      have hkey := controllerId_of_decision (hdecision.trans hd)
      have hacc := accepts_of_decision hs hset (hdecision.trans hd)
      obtain ⟨k, hcommit, -, htarget⟩ := Assigning.target_of_change acc es hs hset
        (hdecision.trans hd) now
      -- what the other targets are decided on is still there after this commit
      have hothers := sameAt_of_decision hs hset (hdecision.trans hd) now hids.1 hrest
      have hih := ih (acc.assign c k) (es ++ k.resolve plan.events) (hs.written hacc now) hset
        hids.2 hothers
      simp only [sortDecisions_assign] at hih
      rw [htarget, hih]
      simp only [sortDecisions_change, List.map_cons, commitAll, hcommit]
      simp [enterAll, eventsOf, hkey]

/-- The times that rows record under a clock that shows the given times. -/
def Program.recorded (times : Instant → Prop) : Instant → Prop :=
  fun now => ∃ t, times t ∧ epochMillis t = now

variable {times : Instant → Prop} {E : DeploymentError → Store → List Event → Prop}

theorem leaves_readBatch {Q : BatchView → Store → List Event → Prop} (hx : ctx.tenantId ≠ "")
    (h : Q (s.batchView ctx p ids) s []) : (readBatch ctx p ids).Leaves times Q E s := by
  refine leaves_bind.mpr (leaves_lookup (fun _ => rfl) (fun _ => ?_) fun hno => absurd hno hx)
  refine leaves_bind.mpr (leaves_lookup (fun _ => rfl) (fun _ => ?_) fun hno => absurd hno hx)
  unfold Store.batchView at h
  dsimp only
  split at h
  · rename_i hmax
    rw [if_pos hmax]
    exact leaves_bind.mpr (leaves_lookup (fun _ => rfl) (fun _ => h) fun hno => absurd hno hx)
  · rename_i hmax
    rw [if_neg hmax]
    exact h

/-- A batch that runs alone assigns its targets one by one. -/
theorem leaves_assignBatch (p : Policy) (acc : AssignmentResult) (hs : s.Consistent)
    (hx : ctx.tenantId ≠ "") (hset : (s.set? ctx.tenantId r.setId).isSome) (hids : ids.Nodup) :
    (assignBatch ctx p r ids acc).Leaves times
      (fun a s' es => Assigning.Steps (recorded times) ctx p r acc s ids ⟨a, s', es⟩)
      (fun _ _ _ => False) s := by
  refine leaves_bind.mpr (leaves_readBatch hx ?_)
  refine leaves_bind.mpr (leaves_recordedNow.mpr fun t ht => ?_)
  -- the batch decides on what it has read, which is the store as it is
  have hdecide : (ids.map fun c => (c, decideTarget ctx p r (s.batchView ctx p ids)
      (epochMillis t) c)) = ids.map fun c => (c, s.decision ctx p r (epochMillis t) c) := by
    apply List.map_congr_left
    intro c hc
    rw [decideTarget_eq_decision hc]
  have hsteps (now : Instant) (hnow : recorded times now) :
      Assigning.Steps (recorded times) ctx p r acc s ids
        (ids.foldl (Assigning.targetAt ctx p r (epochMillis t) now) ⟨acc, s, []⟩) :=
    .of_foldl ⟨t, ht, rfl⟩ hnow ids acc s
  have hfold (now : Instant) := foldl_targetAt_eq p (epochMillis t) now acc [] hs hset hids
    fun c _ => .refl s
  rw [hdecide]
  dsimp only at hfold ⊢
  generalize sortDecisions (ids.map fun c => (c, s.decision ctx p r (epochMillis t) c)) acc =
    sorted at hfold ⊢
  obtain ⟨acc', plans⟩ := sorted
  dsimp only at hfold ⊢
  cases plans with
  | nil =>
    have hnone := hsteps _ ⟨t, ht, rfl⟩
    rw [hfold] at hnone
    exact hnone
  | cons plan plans =>
    -- only a batch with changes asks for a commit
    refine leaves_bind.mpr (leaves_request.mpr fun t' ht' => ?_)
    rw [Store.perform, if_neg hx]
    have hall := hsteps _ ⟨t', ht', rfl⟩
    rw [hfold] at hall
    exact leaves_enterOutcomes _ hall

/-! ## All batches -/

theorem set?_of_sets (h : s'.sets = s.sets) (x : String) (i : Int) : s'.set? x i = s.set? x i := by
  unfold set? setById?
  rw [h]

/-- Assigning a target leaves a consistent store with the same distribution sets. -/
theorem Assigning.consistent_target (ctx : Context) (p : Policy) (r : AssignmentRequest)
    (planned now : Instant) (c : String) {st : Assigning} (hs : st.store.Consistent) :
    (st.targetAt ctx p r planned now c).store.Consistent ∧
      (st.targetAt ctx p r planned now c).store.sets = st.store.sets := by
  unfold targetAt
  split
  · exact ⟨hs, rfl⟩
  · exact ⟨hs, rfl⟩
  · rename_i plan _
    rcases commit_cases hs ctx now plan.change with ⟨k, hacc, hcommit, -⟩ | ⟨e, -, hcommit⟩
    · rw [hcommit]
      exact ⟨hs.written hacc now, rfl⟩
    · rw [hcommit]
      exact ⟨hs, rfl⟩

theorem Assigning.Steps.consistent {dates : Instant → Prop} {st : Assigning}
    (h : Assigning.Steps dates ctx p r acc s ids st) (hs : s.Consistent) :
    st.store.Consistent ∧ st.store.sets = s.sets := by
  induction h with
  | nil => exact ⟨hs, rfl⟩
  | @cons acc s planned now c _ _ _ _ _ one _ ih =>
    obtain ⟨hs', hsets⟩ := consistent_target ctx p r planned now c
      (show (Assigning.store ⟨acc, s, []⟩).Consistent from hs)
    rw [one] at hs' hsets
    obtain ⟨hs'', hsets'⟩ := ih hs'
    exact ⟨hs'', hsets'.trans hsets⟩

/-- Batches that run alone assign their targets one by one, however the targets are split. -/
theorem leaves_assignBatches (times : Instant → Prop) (p : Policy) (acc : AssignmentResult)
    (i : Nat) (bs : List (List String)) (hs : s.Consistent) (hx : ctx.tenantId ≠ "")
    (hset : (s.set? ctx.tenantId r.setId).isSome) (hbs : bs.flatten.Nodup) :
    (assignBatches ctx p r i bs acc).Leaves times
      (fun a s' es => Assigning.Steps (recorded times) ctx p r acc s bs.flatten ⟨a, s', es⟩)
      (fun _ _ _ => False) s := by
  induction bs generalizing s acc i with
  | nil => exact .nil
  | cons ids rest ih =>
    rw [List.flatten_cons, List.nodup_append] at hbs
    obtain ⟨hids, hrest, -⟩ := hbs
    refine leaves_bind.mpr ((leaves_assignBatch p acc hs hx hset hids).mono ?_ fun _ _ _ h => h.elim)
    intro acc₁ s₁ es₁ hfirst
    obtain ⟨hs₁, hsets⟩ := hfirst.consistent hs
    have hset₁ : (s₁.set? ctx.tenantId r.setId).isSome := by
      rw [set?_of_sets hsets]
      exact hset
    refine leaves_bind.mpr (leaves_log.mpr ((ih acc₁ (i + 1) hs₁ hset₁ hrest).mono ?_ ?_))
    · intro acc₂ s₂ es₂ hthen
      exact hfirst.append hthen
    · intro _ _ _ h
      exact h

/-! ## The check of a request -/

/-- The check of a request looks up its distribution set, and asks for nothing else. -/
theorem exists_checkRequest_eq (ctx : Context) (p : Policy) (r : AssignmentRequest) :
    ∃ check : Option DistributionSet → Program Unit,
      checkRequest ctx p r = (request ctx (.findSet r.setId)).bind check ∧
      ∀ d, (check d).IsIdle := by
  refine ⟨_, rfl, fun d => ?_⟩
  cases d with
  | none => trivial
  | some d =>
    show Program.IsIdle (if _ then _ else _)
    split
    · trivial
    · split
      · exact ⟨rfl, trivial⟩
      · refine isIdle_ofExcept.bind fun _ => isIdle_ofExcept.bind fun _ => ?_
        unfold checkMaintenance
        split
        · trivial
        · intro t
          dsimp only [Program.bind]
          split <;> trivial

/-- Why the check of a request refuses it: it comes without a tenant, its distribution set is missing
or unfit, or one of the conditions that it asks for is refused. -/
inductive Store.Declines (s : Store) (ctx : Context) (p : Policy) (r : AssignmentRequest) :
    DeploymentError → Prop where
  | noTenant (h : ctx.tenantId = "") : Declines s ctx p r StorageError.tenantRequired.toDeployment
  | noSet (h : s.set? ctx.tenantId r.setId = none) :
      Declines s ctx p r (.notFound .distributionSet (toString r.setId))
  | deleted {d : DistributionSet} (found : s.set? ctx.tenantId r.setId = some d)
      (h : d.deleted = true) : Declines s ctx p r (.setDeleted d.id)
  | incomplete {d : DistributionSet} (found : s.set? ctx.tenantId r.setId = some d)
      (h : d.complete = false) : Declines s ctx p r (.setIncomplete d.id)
  | weight {e : DeploymentError} (h : checkWeight p r.weight = .error e) : Declines s ctx p r e
  | forcedTime {e : DeploymentError} (h : checkForcedTime r = .error e) : Declines s ctx p r e
  | window {spec : MaintenanceSpec} {time : Instant} {e : MaintenanceError}
      (found : r.maintenance = some spec) (h : validateWindow spec time = .error e) :
      Declines s ctx p r e.toDeployment

/-- The check of a request changes nothing; a request that passes is that of a tenant and for a
distribution set that is stored. -/
theorem leaves_checkRequest (times : Instant → Prop) (ctx : Context) (p : Policy)
    (r : AssignmentRequest) (s : Store) :
    (checkRequest ctx p r).Leaves times
      (fun _ s' es => s' = s ∧ es = [] ∧ ctx.tenantId ≠ "" ∧ (s.set? ctx.tenantId r.setId).isSome)
      (fun e s' es => s.Declines ctx p r e ∧ s' = s ∧ es = []) s := by
  refine leaves_bind.mpr (leaves_lookup (fun _ => rfl) (fun hx => ?_) fun hx =>
    ⟨.noTenant hx, rfl, rfl⟩)
  refine leaves_bind.mpr (leaves_require.mpr ⟨fun d hd => ?_, fun hnone =>
    ⟨.noSet hnone, rfl, rfl⟩⟩)
  have hfound : s.set? ctx.tenantId r.setId = some d := hd
  have hpasses : ctx.tenantId ≠ "" ∧ (s.set? ctx.tenantId r.setId).isSome :=
    ⟨hx, Option.isSome_iff_exists.mpr ⟨d, hfound⟩⟩
  split
  · rename_i hdeleted
    exact ⟨.deleted hfound hdeleted, rfl, rfl⟩
  split
  · rename_i hincomplete
    have hpartial : d.complete = false := by simpa using hincomplete
    exact leaves_bind.mpr (leaves_log.mpr ⟨.incomplete hfound hpartial, rfl, rfl⟩)
  refine leaves_bind.mpr (leaves_ofExcept.mpr ⟨fun _ _ => ?_, fun e he =>
    ⟨.weight he, rfl, rfl⟩⟩)
  refine leaves_bind.mpr (leaves_ofExcept.mpr ⟨fun _ _ => ?_, fun e he =>
    ⟨.forcedTime he, rfl, rfl⟩⟩)
  unfold checkMaintenance
  split
  · exact ⟨rfl, rfl, hpasses⟩
  · rename_i spec hspec
    intro t _
    dsimp only [Program.bind]
    split
    · exact ⟨rfl, rfl, hpasses⟩
    · rename_i e he
      exact ⟨.window hspec he, rfl, rfl⟩

/-- Stores with the same distribution sets let the same requests pass. -/
theorem checkRequest_result_of_sets (h : s'.sets = s.sets) (ctx : Context) (p : Policy)
    (r : AssignmentRequest) (time : Instant) :
    ((checkRequest ctx p r).runOn time s').result = ((checkRequest ctx p r).runOn time s).result := by
  obtain ⟨check, heq, hidle⟩ := exists_checkRequest_eq ctx p r
  rw [heq]
  simp only [runOn, request, Program.bind, run, Store.perform]
  by_cases hx : ctx.tenantId = ""
  · rw [if_pos hx, if_pos hx]
    rfl
  · rw [if_neg hx, if_neg hx]
    simp only [Store.answer, set?_of_sets h]
    exact (hidle _).result_runOn s s'

/-! ## The whole assignment -/

/-- An assignment that passes the check and runs alone assigns its targets one by one. -/
theorem leaves_assignSet (hs : s.Consistent)
    (hcheck : (checkRequest ctx p r).Leaves times
      (fun _ s' es => s' = s ∧ es = [] ∧ ctx.tenantId ≠ "" ∧ (s.set? ctx.tenantId r.setId).isSome)
      E s) :
    (assignSet p ctx r).Leaves times
      (fun a s' es => (s.set? ctx.tenantId r.setId).isSome ∧
        Assigning.Steps (recorded times) ctx p r (.start r.controllerIds.eraseDups.length) s
          r.controllerIds.eraseDups ⟨a, s', es⟩) E s := by
  have hsize : 0 < p.batchSize := Nat.lt_of_lt_of_le Nat.zero_lt_one (Nat.le_max_left 1 p.maxEntries)
  refine leaves_bind.mpr (leaves_opened.mpr (leaves_bind.mpr (leaves_count.mpr ?_)))
  refine leaves_bind.mpr (hcheck.mono ?_ fun _ _ _ h => h)
  rintro - s' es ⟨rfl, rfl, hx, hset⟩
  have hbatches := leaves_assignBatches times p (.start r.controllerIds.eraseDups.length) 0
    (batches p.batchSize r.controllerIds.eraseDups) hs hx hset
    (by rw [batches_flatten hsize]; exact nodup_eraseDups _)
  rw [batches_flatten hsize] at hbatches
  refine leaves_bind.mpr (leaves_log.mpr (leaves_bind.mpr (hbatches.mono ?_ ?_)))
  · intro a s' es hsteps
    simpa using ⟨hset, hsteps⟩
  · intro _ _ _ h
    exact h.elim

/-- The targets that a request asks for are assigned one by one. -/
def Store.assigning (s : Store) (ctx : Context) (p : Policy) (r : AssignmentRequest)
    (now : Instant) : Assigning :=
  r.controllerIds.eraseDups.foldl (Assigning.target ctx p r now)
    ⟨.start r.controllerIds.eraseDups.length, s, []⟩

/-- While the clock stands still there is just one way to assign targets one by one. -/
theorem Assigning.Steps.eq_assigning {st : Assigning}
    (h : Assigning.Steps (recorded (· = time)) ctx p r
      (.start r.controllerIds.eraseDups.length) s r.controllerIds.eraseDups st) :
    st = s.assigning ctx p r (epochMillis time) := by
  apply h.eq_foldl
  rintro _ ⟨t, rfl, rfl⟩
  rfl

/-- An assignment that passes the check and runs alone, while the clock stands still. -/
theorem leaves_assignSet_of_passes (hs : s.Consistent)
    (hpass : ((checkRequest ctx p r).runOn time s).result = .ok ()) :
    (assignSet p ctx r).Leaves (· = time)
      (fun a s' es => ⟨a, s', es⟩ = s.assigning ctx p r (epochMillis time))
      (fun _ _ _ => False) s := by
  have hjudged := leaves_iff_runOn.mp (leaves_checkRequest (· = time) ctx p r s)
  rw [hpass] at hjudged
  have hcheck : (checkRequest ctx p r).Leaves (· = time)
      (fun _ s' es => s' = s ∧ es = [] ∧ ctx.tenantId ≠ "" ∧ (s.set? ctx.tenantId r.setId).isSome)
      (fun _ _ _ => False) s := by
    rw [leaves_iff_runOn, hpass]
    exact hjudged
  refine (leaves_assignSet hs hcheck).mono ?_ fun _ _ _ h => h
  rintro a s' es ⟨-, hsteps⟩
  exact hsteps.eq_assigning

/-- An assignment that runs alone either has no effect at all, or assigns the targets that it was
asked for one by one. -/
theorem assignSet_runs (ctx : Context) (p : Policy) (r : AssignmentRequest) (time : Instant)
    (hs : s.Consistent) :
    (∃ e, (assignSet p ctx r).Runs time s (.error e) s []) ∨
    (s.set? ctx.tenantId r.setId).isSome ∧
      let st := s.assigning ctx p r (epochMillis time)
      (assignSet p ctx r).Runs time s (.ok st.result) st.store st.events := by
  have hleaves := leaves_iff_runOn.mp
    (leaves_assignSet hs (leaves_checkRequest (· = time) ctx p r s))
  cases hresult : ((assignSet p ctx r).runOn time s).result with
  | error e =>
    rw [hresult] at hleaves
    exact .inl ⟨e, hresult, hleaves.2.1, hleaves.2.2⟩
  | ok a =>
    rw [hresult] at hleaves
    rw [← hleaves.2.eq_assigning]
    exact .inr ⟨hleaves.1, hresult, rfl, rfl⟩

end FleetUpdate
