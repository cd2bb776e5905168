import FleetUpdate.Proofs.Deployment.Batching
import FleetUpdate.Proofs.Deployment.EachTarget
import FleetUpdate.Proofs.Deployment.Tasks

/-!
# Asking once more

An assignment decides about each of its targets from what the store holds of this target before
anything is changed, and a target that it changes has the distribution set from then on.  Whether a
target has the set already is asked before its actions are counted: the last action that a target
may have is no obstacle when the assignment is asked for once more.  So the second run, directly
after the first one, finds nothing to change, and it fails for the same targets as before
(`assignSet_repeats`).
-/

namespace FleetUpdate

open Program Store

/-! ## Decisions -/

namespace Decision

def isChange : Decision → Bool
  | change _ => true
  | left _ | already => false

def isAlready : Decision → Bool
  | already => true
  | left _ | change _ => false

/-- Why the target is left out, if it is. -/
def failure? : Decision → Option AssignmentFailure
  | left f => some f
  | already | change _ => none

/-- What is left to decide about a target once the decision has been carried out. -/
def settled : Decision → Decision
  | change _ => already
  | d => d

@[simp] theorem isChange_settled (d : Decision) : d.settled.isChange = false := by
  cases d <;> rfl

@[simp] theorem isAlready_settled (d : Decision) :
    d.settled.isAlready = (d.isChange || d.isAlready) := by
  cases d <;> rfl

@[simp] theorem failure?_settled (d : Decision) : d.settled.failure? = d.failure? := by
  cases d <;> rfl

end Decision

variable {s s₀ : Store} {ctx : Context} {p : Policy} {r : AssignmentRequest} {now time : Instant}
  {ids : List String} {c : String}

/-! ## What one run enters -/

/-- A result has grown by different targets as it was decided about them, in their order. -/
structure AssignmentResult.Enters (acc result : AssignmentResult) (ids : List String)
    (decide : String → Decision) : Prop where
  assigned : result.assignedTargets =
    acc.assignedTargets ++ ids.filter fun c => (decide c).isChange
  already : result.alreadyAssignedTargets =
    acc.alreadyAssignedTargets ++ ids.filter fun c => (decide c).isAlready
  failed : result.failed =
    acc.failed ++ ids.filterMap fun c => (decide c).failure?.map fun f => (c, f)
  total : result.total = acc.total

/-- Different targets that are assigned one by one are entered as the store in the beginning decides
about them: what is done about one of them does not matter for the decisions about the others. -/
theorem Assigning.enters_foldl (acc : AssignmentResult) (es : List Event) (hs : s.Consistent)
    (hset : (s.set? ctx.tenantId r.setId).isSome) (hids : ids.Nodup)
    (hsame : ∀ c ∈ ids, SameAt ctx.tenantId c s₀ s) :
    acc.Enters (ids.foldl (Assigning.target ctx p r now) ⟨acc, s, es⟩).result ids
      (s₀.decision ctx p r now) := by
  induction ids generalizing s acc es with
  | nil => exact ⟨by simp, by simp, by simp, rfl⟩
  | cons c ids ih =>
    obtain ⟨hnot, hids⟩ := List.nodup_cons.mp hids
    have hrest : ∀ d ∈ ids, SameAt ctx.tenantId d s₀ s := fun d hd =>
      hsame d (List.mem_cons_of_mem c hd)
    have hdecision : s.decision ctx p r now c = s₀.decision ctx p r now c :=
      decision_of_same (hsame c List.mem_cons_self)
    rw [List.foldl_cons, target]
    cases hd : s₀.decision ctx p r now c with
    | left f =>
      rw [target_of_left (hdecision.trans hd)]
      have hih := ih (acc.fail c f) es hs hset hids hrest
      refine ⟨?_, ?_, ?_, hih.total⟩
      · rw [List.filter_cons_of_neg (by simp [hd, Decision.isChange])]
        exact hih.assigned
      · rw [List.filter_cons_of_neg (by simp [hd, Decision.isAlready])]
        exact hih.already
      · rw [List.filterMap_cons_some (by rw [hd]; rfl)]
        exact hih.failed.trans (by simp [AssignmentResult.fail])
    | already =>
      rw [target_of_already (hdecision.trans hd)]
      have hih := ih (acc.skip c) es hs hset hids hrest
      refine ⟨?_, ?_, ?_, hih.total⟩
      · rw [List.filter_cons_of_neg (by simp [hd, Decision.isChange])]
        exact hih.assigned
      · rw [List.filter_cons_of_pos (by simp [hd, Decision.isAlready])]
        exact hih.already.trans (by simp [AssignmentResult.skip])
      · rw [List.filterMap_cons_none (by rw [hd]; rfl)]
        exact hih.failed
    | change plan =>
      have hacc := accepts_of_decision hs hset (hdecision.trans hd)
      obtain ⟨k, -, -, htarget⟩ := target_of_change acc es hs hset (hdecision.trans hd) now
      -- the commit leaves what the other targets are decided on
      have hothers := sameAt_of_decision hs hset (hdecision.trans hd) now hnot hrest
      have hih := ih (acc.assign c k) (es ++ k.resolve plan.events) (hs.written hacc now) hset hids
        hothers
      rw [htarget]
      refine ⟨?_, ?_, ?_, hih.total⟩
      · rw [List.filter_cons_of_pos (by simp [hd, Decision.isChange])]
        exact hih.assigned.trans (by simp [AssignmentResult.assign])
      · rw [List.filter_cons_of_neg (by simp [hd, Decision.isAlready])]
        exact hih.already
      · rw [List.filterMap_cons_none (by rw [hd]; rfl)]
        exact hih.failed

/-- The result of an assignment that runs alone, told by the decisions about its targets. -/
theorem enters_assigning (hs : s.Consistent) (hset : (s.set? ctx.tenantId r.setId).isSome)
    (p : Policy) (now : Instant) :
    (AssignmentResult.start r.controllerIds.eraseDups.length).Enters
      (s.assigning ctx p r now).result r.controllerIds.eraseDups (s.decision ctx p r now) :=
  Assigning.enters_foldl _ [] hs hset (nodup_eraseDups _) fun _ _ => .refl s

/-! ## Nothing left to change -/

/-- Targets that need no change are entered, and that is all. -/
theorem Assigning.foldl_of_settled (acc : AssignmentResult) (es : List Event)
    (h : ∀ c ∈ ids, (s.decision ctx p r now c).isChange = false) :
    let again := ids.filter fun c => (s.decision ctx p r now c).isAlready
    ids.foldl (Assigning.target ctx p r now) ⟨acc, s, es⟩ =
      ⟨{ acc with
          alreadyAssigned := acc.alreadyAssigned + again.length
          alreadyAssignedTargets := acc.alreadyAssignedTargets ++ again
          failed := acc.failed ++ ids.filterMap fun c =>
            (s.decision ctx p r now c).failure?.map fun f => (c, f) }, s, es⟩ := by
  unfold target
  induction ids generalizing acc with
  | nil => simp
  | cons c ids ih =>
    have hrest := fun d hd => h d (List.mem_cons_of_mem c hd)
    rw [List.foldl_cons]
    cases hd : s.decision ctx p r now c with
    | left f =>
      rw [target_of_left hd, ih (acc.fail c f) hrest]
      simp [hd, Decision.isAlready, Decision.failure?, AssignmentResult.fail]
    | already =>
      rw [target_of_already hd, ih (acc.skip c) hrest]
      simp [hd, Decision.isAlready, Decision.failure?, AssignmentResult.skip, Nat.add_assoc,
        Nat.add_comm 1]
    | change plan =>
      have hno := h c List.mem_cons_self
      rw [hd] at hno
      cases hno

/-- An assignment carries its decisions out: what is left to decide about its targets is what is
left of these decisions. -/
theorem decision_assigning (hs : s.Consistent) (hset : (s.set? ctx.tenantId r.setId).isSome)
    (p : Policy) (now : Instant) (hc : c ∈ r.controllerIds.eraseDups) :
    (s.assigning ctx p r now).store.decision ctx p r now c =
      (s.decision ctx p r now c).settled := by
  have hassigned := (enters_assigning hs hset p now).assigned
  rcases assigning_at hs hset p now c with ⟨hmem, hdone⟩ | ⟨hnot, hsame⟩
  · -- the target has been changed, and has the distribution set now
    rw [hassigned] at hmem
    have hchange := (List.mem_filter.mp hmem).2
    obtain ⟨t, ht, hset'⟩ := hdone.driven
    have halready : (s.assigning ctx p r now).store.decision ctx p r now c = .already := by
      simp only [Store.decision, ht, hset', if_true]
    rw [halready]
    cases hd : s.decision ctx p r now c with
    | change plan => rfl
    | already => rfl
    | left f =>
      rw [hd] at hchange
      cases hchange
  · -- the target is as it was, and nothing was decided that could change it
    rw [decision_of_same hsame]
    cases hd : s.decision ctx p r now c with
    | left f => rfl
    | already => rfl
    | change plan =>
      refine absurd ?_ hnot
      rw [hassigned]
      exact List.mem_append_right _ (List.mem_filter.mpr ⟨hc, by rw [hd]; rfl⟩)

/-! ## The second run -/

/-- What an assignment comes to that is asked for once more: every target that was assigned, or had
the distribution set before, has it already, in the order in which they were asked for, and the
others fail as they did. -/
def AssignmentResult.repeated (first : AssignmentResult) (ids : List String) : AssignmentResult :=
  let again := ids.filter fun c => c ∈ first.assignedTargets ∨ c ∈ first.alreadyAssignedTargets
  { first with
    assigned := 0
    alreadyAssigned := again.length
    actionIds := []
    assignedTargets := []
    alreadyAssignedTargets := again }

/-- To assign the same targets once more changes nothing. -/
theorem assigning_assigning (hs : s.Consistent) (hset : (s.set? ctx.tenantId r.setId).isSome)
    (p : Policy) (now : Instant) :
    let st := s.assigning ctx p r now
    st.store.assigning ctx p r now =
      ⟨st.result.repeated r.controllerIds.eraseDups, st.store, []⟩ := by
  intro st
  have hfirst := enters_assigning hs hset p now
  have hdecision := fun c hc => decision_assigning (c := c) hs hset p now hc
  have hnone : ∀ c ∈ r.controllerIds.eraseDups,
      (st.store.decision ctx p r now c).isChange = false := by
    intro c hc
    rw [hdecision c hc]
    exact Decision.isChange_settled _
  have hagain : (r.controllerIds.eraseDups.filter fun c =>
        (st.store.decision ctx p r now c).isAlready) =
      r.controllerIds.eraseDups.filter fun c =>
        c ∈ st.result.assignedTargets ∨ c ∈ st.result.alreadyAssignedTargets := by
    apply List.filter_congr
    intro c hc
    rw [hdecision c hc, hfirst.assigned, hfirst.already, Decision.isAlready_settled]
    simp [AssignmentResult.start, List.mem_filter, List.mem_eraseDups.mp hc]
  have hfailed : (r.controllerIds.eraseDups.filterMap fun c =>
      (st.store.decision ctx p r now c).failure?.map fun f => (c, f)) = st.result.failed := by
    rw [hfirst.failed]
    refine List.filterMap_congr fun c hc => ?_
    rw [hdecision c hc, Decision.failure?_settled]
  rw [Store.assigning, Assigning.foldl_of_settled _ [] hnone, hagain, hfailed]
  simp [AssignmentResult.repeated, AssignmentResult.start, hfirst.total, st]

/-- For every request that passes the check and every store that can be reached: running the same
assignment a second time, directly after the first one and by the same clock, creates no action,
publishes no event and leaves the store as it is.  It reports all targets that the first run
assigned or found assigned as having the set already, in the order of the request, and fails for the
same targets and reasons as the first run. -/
theorem assignSet_repeats (hs : s.Reachable)
    (hpass : ((checkRequest ctx p r).runOn time s).result = .ok ()) :
    ∃ first s' es,
      (assignSet p ctx r).Runs time s (.ok first) s' es ∧
      (assignSet p ctx r).Runs time s' (.ok (first.repeated r.controllerIds.eraseDups)) s' [] := by
  have hcons := hs.consistent
  let st := s.assigning ctx p r (epochMillis time)
  have hfirst := Assigning.runs_of_leaves (leaves_assignSet_of_passes (p := p) hcons hpass)
  obtain ⟨-, hset⟩ : ctx.tenantId ≠ "" ∧ (s.set? ctx.tenantId r.setId).isSome := by
    have hjudged := leaves_iff_runOn.mp (leaves_checkRequest (· = time) ctx p r s)
    rw [hpass] at hjudged
    exact hjudged.2.2
  -- the first run leaves the distribution sets alone, so the request passes once more
  obtain ⟨hcons', hsets⟩ : st.store.Consistent ∧ st.store.sets = s.sets := by
    have hnow : (· = epochMillis time) (epochMillis time) := rfl
    exact (Assigning.Steps.of_foldl hnow hnow _ _ s).consistent hcons
  have hpass' : ((checkRequest ctx p r).runOn time st.store).result = .ok () := by
    rw [checkRequest_result_of_sets hsets]
    exact hpass
  have hsecond := Assigning.runs_of_leaves (leaves_assignSet_of_passes (p := p) hcons' hpass')
  rw [assigning_assigning hcons hset] at hsecond
  exact ⟨st.result, st.store, st.events, hfirst, hsecond⟩

/-- Targets may have two actions, and what is under way is not cut off. -/
def Policy.scarce : Policy := ⟨2, 2, .graceful, false⟩

/-- The device is under way to the second distribution set; the gateway should have it, by the last
action that it may have; the relay should have the first one. -/
def Store.sampleFleet : Store :=
  sample.afterTasks
    [.request ⟨sampleContext, 1, .createTarget (.ofId "gateway")⟩,
      .request ⟨sampleContext, 1, .createTarget (.ofId "relay")⟩,
      .call sampleContext (.assign .scarce (.forced 1 ["gateway", "relay"])) 2,
      .call sampleContext (.assign .scarce (.forced 2 ["device", "gateway"])) 3,
      .call sampleContext (.act 3 (.report ⟨.running, [], none, some 4⟩)) 4]

/-- A request for all of them, and for one that is not there. -/
def sampleFleetRequest : AssignmentRequest :=
  .forced 1 ["device", "unknown", "gateway", "relay", "device"]

/-- The device gets the last action that it may have, beside one that is to be canceled; asked for
once more, it is not among the targets that fail. -/
theorem sampleFleet_repeats :
    ∃ s' es,
      (assignSet .scarce sampleContext sampleFleetRequest).Runs 5 Store.sampleFleet
        (.ok ⟨1, 1, [5], ["device"], ["relay"],
          [("unknown", .notFound), ("gateway", .quotaExceeded)], 4⟩) s' es ∧
      (assignSet .scarce sampleContext sampleFleetRequest).Runs 5 s'
        (.ok ⟨0, 2, [], [], ["device", "relay"],
          [("unknown", .notFound), ("gateway", .quotaExceeded)], 4⟩) s' [] := by
  have hreachable : Store.sampleFleet.Reachable := sample_reachable.afterTasks _
  have hpass : ((checkRequest sampleContext .scarce sampleFleetRequest).runOn 5
      Store.sampleFleet).result = .ok () := by decide +kernel
  obtain ⟨first, s', es, hfirst, hsecond⟩ := assignSet_repeats hreachable hpass
  have hresult : ((assignSet .scarce sampleContext sampleFleetRequest).runOn 5
      Store.sampleFleet).result = .ok ⟨1, 1, [5], ["device"], ["relay"],
        [("unknown", .notFound), ("gateway", .quotaExceeded)], 4⟩ := by decide +kernel
  obtain rfl := Except.ok.inj (hfirst.result.symm.trans hresult)
  exact ⟨s', es, hfirst, hsecond⟩

end FleetUpdate
