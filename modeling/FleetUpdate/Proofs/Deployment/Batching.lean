import FleetUpdate.Proofs.Deployment.Sequential
import FleetUpdate.Proofs.Store.Run

/-!
# Batching makes no difference

The policy says how many targets an assignment reads and commits together.  An assignment that runs
alone, while the clock stands still, comes to the same result, the same store and the same events
whatever this number is, and so does asking for each of the targets in a request of its own
(`assignments_ignore_batching`).
-/

namespace FleetUpdate

open Program Store

/-- A policy with another size of batches. -/
def Policy.batching (p : Policy) (n : Nat) : Policy := { p with maxEntries := n }

/-- A request for one of the targets only. -/
def AssignmentRequest.only (r : AssignmentRequest) (controllerId : String) : AssignmentRequest :=
  { r with controllerIds := [controllerId] }

/-- Assigns targets by a request for each of them, and puts the results together. -/
def assignEach (p : Policy) (ctx : Context) (r : AssignmentRequest) :
    List String → Program AssignmentResult
  | [] => done (.start 0)
  | c :: cs => do
    let first ← assignSet p ctx (r.only c)
    let rest ← assignEach p ctx r cs
    return first.append rest

variable {s : Store} {ctx : Context} {p : Policy} {r : AssignmentRequest} {c : String}
  {planned now time : Instant}

/-- How many targets were asked for does not matter for what is done about one more of them. -/
theorem Assigning.targetAt_append_start (acc : AssignmentResult) (n : Nat) (s : Store)
    (es : List Event) :
    Assigning.targetAt ctx p r planned now ⟨acc.append (.start n), s, es⟩ c =
      let st := Assigning.targetAt ctx p r planned now ⟨acc, s, es⟩ c
      ⟨st.result.append (.start n), st.store, st.events⟩ := by
  unfold targetAt
  dsimp only
  split
  · simp [AssignmentResult.append, AssignmentResult.start, AssignmentResult.fail]
  · simp [AssignmentResult.append, AssignmentResult.start, AssignmentResult.skip]
  · split <;> simp [AssignmentResult.append, AssignmentResult.start, AssignmentResult.assign,
      AssignmentResult.fail]

/-- One target more is one request more. -/
theorem Assigning.foldl_target_cons (c : String) (cs : List String) (s : Store) :
    (c :: cs).foldl (Assigning.target ctx p r now) ⟨.start (c :: cs).length, s, []⟩ =
      let st := Assigning.target ctx p r now ⟨.start 1, s, []⟩ c
      let st' := cs.foldl (Assigning.target ctx p r now) ⟨.start cs.length, st.store, []⟩
      ⟨st.result.append st'.result, st'.store, st.events ++ st'.events⟩ := by
  have hstart : AssignmentResult.start (c :: cs).length =
      (AssignmentResult.start 1).append (.start cs.length) := by
    simp [AssignmentResult.append, AssignmentResult.start, Nat.add_comm]
  unfold target
  rw [List.foldl_cons, hstart, targetAt_append_start]
  dsimp only
  rw [← foldl_targetAt_append, List.append_nil]

/-- Requests for one target each, all of which pass the check. -/
theorem leaves_assignEach (hs : s.Consistent)
    (hpass : ((checkRequest ctx p r).runOn time s).result = .ok ()) (ids : List String) :
    (assignEach p ctx r ids).Leaves (· = time)
      (fun a s' es => ⟨a, s', es⟩ = ids.foldl (Assigning.target ctx p r (epochMillis time))
        ⟨.start ids.length, s, []⟩)
      (fun _ _ _ => False) s := by
  induction ids generalizing s with
  | nil => rfl
  | cons c cs ih =>
    -- the check does not look at the targets
    have hcheck : ((checkRequest ctx p (r.only c)).runOn time s).result = .ok () := hpass
    refine leaves_bind.mpr ((leaves_assignSet_of_passes hs hcheck).mono ?_ fun _ _ _ h => h)
    intro first s₁ es hfirst
    have hone : ⟨first, s₁, es⟩ =
        Assigning.target ctx p r (epochMillis time) ⟨.start 1, s, []⟩ c := hfirst
    have hstore : s₁ = (Assigning.target ctx p r (epochMillis time) ⟨.start 1, s, []⟩ c).store :=
      congrArg Assigning.store hone
    obtain ⟨hs₁, hsets⟩ : s₁.Consistent ∧ s₁.sets = s.sets := by
      rw [hstore]
      exact Assigning.consistent_target ctx p r _ _ c
        (show (Assigning.store ⟨.start 1, s, []⟩).Consistent from hs)
    have hpass₁ : ((checkRequest ctx p r).runOn time s₁).result = .ok () := by
      rw [checkRequest_result_of_sets hsets]
      exact hpass
    refine leaves_bind.mpr ((ih hs₁ hpass₁).mono ?_ fun _ _ _ h => h)
    intro rest s₂ es' hrest
    rw [pure_eq, leaves_done, Assigning.foldl_target_cons, ← hone]
    dsimp only
    rw [← hrest, List.append_nil]

/-- A program that is sure to leave what assigning targets one by one comes to. -/
theorem Assigning.runs_of_leaves {q : Program AssignmentResult} {st : Assigning}
    (h : q.Leaves (· = time) (fun a s' es => ⟨a, s', es⟩ = st) (fun _ _ _ => False) s) :
    q.Runs time s (.ok st.result) st.store st.events := by
  obtain ⟨a, s', es, hruns, rfl⟩ := h.exists_runs
  exact hruns

/-- For every request that passes the check, every store that can be reached and a clock that stands
still: whatever the size of the batches is, the result, the store and the events are the same, and
so they are if every target is asked for in a request of its own, in the order in which the targets
occur first. -/
theorem assignments_ignore_batching (hs : s.Reachable)
    (hpass : ((checkRequest ctx p r).runOn time s).result = .ok ()) :
    ∃ result s' es,
      (∀ n, (assignSet (p.batching n) ctx r).Runs time s (.ok result) s' es) ∧
      ∀ n, (assignEach (p.batching n) ctx r r.controllerIds.eraseDups).Runs time s (.ok result) s'
        es := by
  -- neither the check nor the decisions look at the size of the batches
  let st := s.assigning ctx p r (epochMillis time)
  refine ⟨st.result, st.store, st.events, ?_, ?_⟩
  · intro n
    exact Assigning.runs_of_leaves
      (leaves_assignSet_of_passes (p := p.batching n) hs.consistent hpass)
  · intro n
    exact Assigning.runs_of_leaves
      (leaves_assignEach (p := p.batching n) hs.consistent hpass r.controllerIds.eraseDups)

/-- The small store with one device more. -/
def Store.samplePair : Store :=
  sample.afterAll [⟨sampleContext, 1, .createTarget (.ofId "gateway")⟩]

/-- A request that names a device twice, and one that is not there. -/
def samplePairRequest : AssignmentRequest :=
  .forced 1 ["device", "unknown", "gateway", "device"]

/-- Both devices are assigned, and the unknown one fails, in batches of any size and in three
requests. -/
theorem samplePair_ignores_batching :
    ∃ s' es,
      (∀ n, (assignSet (Policy.standard.batching n) sampleContext samplePairRequest).Runs 5 samplePair
        (.ok ⟨2, 0, [1, 2], ["device", "gateway"], [], [("unknown", .notFound)], 3⟩) s' es) ∧
      ∀ n, (assignEach (Policy.standard.batching n) sampleContext samplePairRequest
        ["device", "unknown", "gateway"]).Runs 5 samplePair
        (.ok ⟨2, 0, [1, 2], ["device", "gateway"], [], [("unknown", .notFound)], 3⟩) s' es := by
  have hreachable : samplePair.Reachable := sample_reachable.afterAll _
  have hpass : ((checkRequest sampleContext .standard samplePairRequest).runOn 5 samplePair).result =
      .ok () := by decide +kernel
  obtain ⟨result, s', es, hbatch, heach⟩ := assignments_ignore_batching hreachable hpass
  have hresult : ((assignSet (Policy.standard.batching 1) sampleContext samplePairRequest).runOn 5
      samplePair).result =
      .ok ⟨2, 0, [1, 2], ["device", "gateway"], [], [("unknown", .notFound)], 3⟩ := by
    decide +kernel
  obtain rfl := Except.ok.inj ((hbatch 1).result.symm.trans hresult)
  exact ⟨s', es, hbatch, heach⟩

end FleetUpdate
