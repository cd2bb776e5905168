import FleetUpdate.Proofs.Store.Commit

/-!
# Runs of a store

A run is a list of requests that the store answers one after the other, each from some tenant at
some time.  The stores that a run leads to from the empty one are the reachable ones, and these are
consistent.  `Store.applied` lists what the changes of a run met: the store that each was checked
against, the outcome and the store that it left.
-/

namespace FleetUpdate

/-- A request with the call it comes from and the time that its rows record. -/
structure Op where
  ctx : Context
  now : Instant
  request : Request

/-- The request deletes a target. -/
def Op.Deletes (o : Op) (x c : String) : Prop := o.ctx.tenantId = x ∧ o.request = .deleteTarget c

namespace Store

/-- The store after a request. -/
def after (s : Store) (o : Op) : Store := (s.perform o.ctx o.now o.request).2

/-- The store after a run. -/
def afterAll (s : Store) (ops : List Op) : Store := ops.foldl after s

/-- Some run leads to the store from the empty one. -/
def Reachable (s : Store) : Prop := ∃ ops, Store.empty.afterAll ops = s

variable {s : Store}

@[simp] theorem afterAll_nil : s.afterAll [] = s := rfl

@[simp] theorem afterAll_cons {o : Op} {ops : List Op} :
    s.afterAll (o :: ops) = (s.after o).afterAll ops := rfl

theorem afterAll_append {ops ops' : List Op} :
    s.afterAll (ops ++ ops') = (s.afterAll ops).afterAll ops' :=
  List.foldl_append

/-- What every request keeps, a run keeps. -/
theorem afterAll_induction {P : Store → Prop} {ops : List Op} (hs : P s)
    (h : ∀ o ∈ ops, ∀ s, P s → P (s.after o)) : P (s.afterAll ops) := by
  induction ops generalizing s with
  | nil => exact hs
  | cons o ops ih =>
    exact ih (h o List.mem_cons_self s hs) fun o' ho' => h o' (List.mem_cons_of_mem o ho')

theorem Consistent.after (hs : s.Consistent) (o : Op) : (s.after o).Consistent :=
  hs.perform o.ctx o.now o.request

theorem Consistent.afterAll (hs : s.Consistent) (ops : List Op) : (s.afterAll ops).Consistent :=
  afterAll_induction hs fun o _ _ h => h.after o

/-- Reachable stores are consistent. -/
theorem Reachable.consistent (hs : s.Reachable) : s.Consistent := by
  obtain ⟨ops, rfl⟩ := hs
  exact Consistent.empty.afterAll ops

theorem Reachable.afterAll (hs : s.Reachable) (ops : List Op) : (s.afterAll ops).Reachable := by
  obtain ⟨before, rfl⟩ := hs
  exact ⟨before ++ ops, afterAll_append⟩

/-! ## Changes and what they met -/

/-- A change that was asked for: whose it was, the store it was checked against, the outcome, and
the store that it left. -/
structure Applied where
  ctx : Context
  change : TargetChange
  before : Store
  outcome : Except StorageError Committed
  after : Store

/-- The changes of one request, each applied to what those before it left. -/
def appliedBy (s : Store) (ctx : Context) (now : Instant) : List TargetChange → List Applied
  | [] => []
  | c :: cs =>
    let r := s.commit ctx now c
    ⟨ctx, c, s, r.1, r.2⟩ :: r.2.appliedBy ctx now cs

/-- The changes that a request asks for; without a tenant none is applied. -/
def appliedIn (s : Store) (o : Op) : List Applied :=
  match o.request with
  | .applyChanges cs => if o.ctx.tenantId = "" then [] else s.appliedBy o.ctx o.now cs
  | _ => []

/-- The changes of a run in the order in which they were applied. -/
def applied (s : Store) : List Op → List Applied
  | [] => []
  | o :: ops => s.appliedIn o ++ (s.after o).applied ops

/-- The outcomes that the store answers are those of the changes that were applied, and the last of
them leaves the store that the request leaves. -/
theorem commitAll_eq (s : Store) (ctx : Context) (now : Instant) (cs : List TargetChange) :
    s.commitAll ctx now cs =
      ((s.appliedBy ctx now cs).map Applied.outcome,
        ((s.appliedBy ctx now cs).map Applied.after).getLastD s) := by
  induction cs generalizing s with
  | nil => rfl
  | cons c cs ih =>
    simp only [commitAll, ih, appliedBy, List.map_cons, List.getLastD_cons]

/-! ## Relations between a store and later ones -/

/-- A relation between a store and later ones that chains up and that every commit respects. -/
structure Tracks (R : Store → Store → Prop) : Prop where
  refl : ∀ s, R s s
  trans : ∀ {s s' s''}, R s s' → R s' s'' → R s s''
  commit : ∀ {s}, s.Consistent → ∀ ctx now c, R s (s.commit ctx now c).2

/-- A change that was applied to some store that a relation leads to. -/
structure Applied.Follows (R : Store → Store → Prop) (s : Store) (p : Applied) : Prop where
  consistent : p.before.Consistent
  reached : R s p.before
  commit : ∃ now, p.before.commit p.ctx now p.change = (p.outcome, p.after)

namespace Tracks

variable {R : Store → Store → Prop} {ctx : Context} {now : Instant}

theorem follows_of_reached (hR : Tracks R) {s s' : Store} {p : Applied} (h : p.Follows R s')
    (hs : R s s') : p.Follows R s :=
  ⟨h.consistent, hR.trans hs h.reached, h.commit⟩

theorem commitAll (hR : Tracks R) (hs : s.Consistent) (cs : List TargetChange) :
    R s (s.commitAll ctx now cs).2 := by
  induction cs generalizing s with
  | nil => exact hR.refl s
  | cons c cs ih => exact hR.trans (hR.commit hs ctx now c) (ih (hs.commit ctx now c))

/-- A relation that every request of a run respects leads to the end of the run. -/
theorem afterAll (hR : Tracks R) {ops : List Op} (hs : s.Consistent)
    (hops : ∀ o ∈ ops, ∀ s, s.Consistent → R s (s.after o)) : R s (s.afterAll ops) := by
  induction ops generalizing s with
  | nil => exact hR.refl s
  | cons o ops ih =>
    have hfirst : R s (s.after o) := hops o List.mem_cons_self s hs
    exact hR.trans hfirst (ih (hs.after o) fun o' ho' => hops o' (List.mem_cons_of_mem o ho'))

/-- The changes of one request follow each other. -/
theorem appliedBy (hR : Tracks R) (hs : s.Consistent) (cs : List TargetChange) :
    (∀ p ∈ s.appliedBy ctx now cs, p.Follows R s ∧ R p.after (s.commitAll ctx now cs).2) ∧
    (s.appliedBy ctx now cs).Pairwise fun p q => q.Follows R p.after := by
  induction cs generalizing s with
  | nil => exact ⟨by simp [Store.appliedBy], .nil⟩
  | cons c cs ih =>
    obtain ⟨hlater, hpairs⟩ := ih (hs.commit ctx now c)
    refine ⟨?_, List.pairwise_cons.mpr ⟨fun q hq => (hlater q hq).1, hpairs⟩⟩
    intro p hp
    rcases List.mem_cons.mp hp with rfl | hp
    · exact ⟨⟨hs, hR.refl s, now, rfl⟩, hR.commitAll (hs.commit ctx now c) cs⟩
    · obtain ⟨hfollows, hrest⟩ := hlater p hp
      exact ⟨hR.follows_of_reached hfollows (hR.commit hs ctx now c), hrest⟩

theorem appliedIn (hR : Tracks R) (hs : s.Consistent) (o : Op) :
    (∀ p ∈ s.appliedIn o, p.Follows R s ∧ R p.after (s.after o)) ∧
    (s.appliedIn o).Pairwise fun p q => q.Follows R p.after := by
  obtain ⟨ctx, now, r⟩ := o
  unfold Store.appliedIn
  split
  · rename_i cs hr
    obtain rfl : r = .applyChanges cs := hr
    by_cases hx : ctx.tenantId = ""
    · rw [if_pos hx]
      exact ⟨by simp, .nil⟩
    · have hafter : s.after ⟨ctx, now, .applyChanges cs⟩ = (s.commitAll ctx now cs).2 := by
        rw [Store.after, perform, if_neg hx]
        rfl
      rw [if_neg hx, hafter]
      exact hR.appliedBy hs cs
  · exact ⟨by simp, .nil⟩

/-- The changes of a run follow each other. -/
theorem applied (hR : Tracks R) {ops : List Op} (hs : s.Consistent)
    (hops : ∀ o ∈ ops, ∀ s, s.Consistent → R s (s.after o)) :
    (∀ p ∈ s.applied ops, p.Follows R s) ∧
    (s.applied ops).Pairwise fun p q => q.Follows R p.after := by
  induction ops generalizing s with
  | nil => exact ⟨by simp [Store.applied], .nil⟩
  | cons o ops ih =>
    have hfirst : R s (s.after o) := hops o List.mem_cons_self s hs
    obtain ⟨hlater, hpairs⟩ :=
      ih (hs.after o) fun o' ho' => hops o' (List.mem_cons_of_mem o ho')
    obtain ⟨hnow, hnowpairs⟩ := hR.appliedIn hs o
    refine ⟨?_, List.pairwise_append.mpr ⟨hnowpairs, hpairs, ?_⟩⟩
    · intro p hp
      rcases List.mem_append.mp hp with hp | hp
      · exact (hnow p hp).1
      · exact hR.follows_of_reached (hlater p hp) hfirst
    · -- the changes of the first request come before those of all others
      intro p hp q hq
      exact hR.follows_of_reached (hlater q hq) (hnow p hp).2

end Tracks

/-! ## A small store -/

/-- An operator of some tenant. -/
def sampleContext : Context := ⟨"acme", "operator"⟩

/-- The operator creates two distribution sets and registers a device. -/
def sampleOps : List Op :=
  [⟨sampleContext, 1, .createSet ⟨"app", "1", "os", [], []⟩⟩,
    ⟨sampleContext, 1, .createSet ⟨"app", "2", "os", [], []⟩⟩,
    ⟨sampleContext, 1, .createTarget (.ofId "device")⟩]

/-- A store with two distribution sets and a device that nothing has been assigned to. -/
def sample : Store := empty.afterAll sampleOps

/-- The device of the small store. -/
def sampleTarget : Target := (NewTarget.ofId "device").row sampleContext 1

/-- The change that assigns a distribution set to the device as it was registered. -/
def sampleAssignment (setId : Int) : TargetChange :=
  { TargetChange.ofTarget sampleTarget with
    targetState := some { sampleTarget.state with assigned := some setId, updateStatus := .pending }
    newActions := [⟨setId, .scheduled, .forced, none, none, none, none, none, "operator"⟩]
    entries := [⟨.created 0, .scheduled, 1, [], none⟩] }

theorem sample_reachable : sample.Reachable := ⟨sampleOps, rfl⟩

theorem sample_target? : sample.target? "acme" "device" = some sampleTarget := by
  decide +kernel

end Store

end FleetUpdate
