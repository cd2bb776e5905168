import FleetUpdate.Proofs.Deployment.Deeds
import FleetUpdate.Proofs.Deployment.Sequential
import Mathlib.Data.Finset.Card

/-!
# Every target is accounted for

An assignment that passes its check comes to an end and returns, whatever others do in between, and
its result is exact: every target that was asked for is listed once, as assigned, as having the set
already, or as failed, the counts are those of the lists, and the ids of the actions are those of
the actions that the assignment has created, one for each assigned target and in the same order
(`assignSet_partitions`).
-/

namespace FleetUpdate

open Program Store

/-! ## What requests create -/

section Created

variable {s : Store} {ctx : Context} {now : Instant} {r : Request}

theorem newIn_of_subset {s' : Store} (hs : s.Consistent) (h : s'.actions ⊆ s.actions) :
    s.newIn s' = [] := by
  rw [newIn, List.filter_eq_nil_iff]
  intro a ha
  have hle := hs.actions.le_last a (h ha)
  simpa using hle

/-- The new actions after a change are those that it creates. -/
theorem newIn_written {c : TargetChange} (hs : s.Consistent) :
    s.newIn (s.written ctx now c) = s.createdBy ctx now c := by
  have hold : (s.actions.map (c.writeAction ctx now)).filter
      (fun a => decide (s.lastActionId < a.id)) = [] := by
    rw [List.filter_eq_nil_iff]
    intro b hb
    obtain ⟨a, ha, rfl⟩ := List.mem_map.mp hb
    have hle := hs.actions.le_last a ha
    simpa using hle
  have hnew : (s.createdBy ctx now c).filter (fun a => decide (s.lastActionId < a.id)) =
      s.createdBy ctx now c :=
    List.filter_eq_self.mpr fun a ha => decide_eq_true (createdBy_id ha)
  show List.filter _ (s.actions.map (c.writeAction ctx now) ++ s.createdBy ctx now c) = _
  rw [List.filter_append, hold, hnew, List.nil_append]

/-- What the outcomes of changes say was created. -/
def createdIn (outcomes : List (Except StorageError Committed)) : List Action :=
  outcomes.flatMap fun
    | .ok k => k.created
    | .error _ => []

/-- The outcomes of changes tell what was created. -/
theorem newIn_turns (hs : s.Consistent) (ctx : Context) (now : Instant) (cs : List TargetChange) :
    ((s.turns ctx now cs).flatMap fun x => x.1.newIn x.2) =
      createdIn (s.commitAll ctx now cs).1 := by
  induction cs generalizing s with
  | nil => rfl
  | cons c cs ih =>
    have hrest := ih (hs.commit ctx now c)
    rw [turns, List.flatMap_cons, hrest]
    rcases commit_cases hs ctx now c with ⟨k, -, hcommit, hreceipt⟩ | ⟨e, -, hcommit⟩
    · simp only [commitAll, hcommit, createdIn, List.flatMap_cons]
      rw [newIn_written hs, hreceipt.created]
    · simp only [commitAll, hcommit, createdIn, List.flatMap_cons]
      rw [newIn_of_subset hs (List.Subset.refl _)]

theorem created_commits (hs : s.Consistent) (hx : ctx.tenantId ≠ "") (now : Instant)
    (cs : List TargetChange) :
    Deed.created [.asked ctx (.applyChanges cs) now s] = createdIn (s.commitAll ctx now cs).1 := by
  rw [← newIn_turns hs]
  exact Deed.happened_changes hx now cs

/-- Where nothing happens, nothing is created. -/
theorem Deed.Quiet.created {ds : List Deed} (h : Deed.Quiet ds) : Deed.created ds = [] :=
  h.happened _ fun _ _ hs hsub => newIn_of_subset hs hsub

end Created

/-! ## The books of an assignment -/

/-- Of all the targets that were asked for, those that are not pending have been entered into the
result, each once; the counts are those of the lists, and what has been created are the actions of
the assigned targets. -/
structure AssignmentResult.Accounts (r : AssignmentResult) (ctx : Context)
    (pending all : List String) (created : List Action) : Prop where
  entered : (r.assignedTargets ++ r.alreadyAssignedTargets ++ r.failed.map Prod.fst ++ pending).Perm
    all
  total : r.total = all.length
  assigned : r.assigned = r.assignedTargets.length
  already : r.alreadyAssigned = r.alreadyAssignedTargets.length
  ids : created.map Action.id = r.actionIds
  owners : created.map Action.owner = r.assignedTargets.map fun c => (ctx.tenantId, c)

namespace AssignmentResult.Accounts

variable {acc : AssignmentResult} {ctx : Context} {c : String} {pending pending' all : List String}
  {made : List Action}

theorem start (ctx : Context) (all : List String) :
    (AssignmentResult.start all.length).Accounts ctx all all [] :=
  ⟨.refl _, rfl, rfl, rfl, rfl, rfl⟩

/-- As many actions have been created as targets are counted as assigned. -/
theorem length_made (h : acc.Accounts ctx pending all made) : made.length = acc.assigned := by
  have howners := congrArg List.length h.owners
  rw [List.length_map, List.length_map] at howners
  rw [howners, h.assigned]

theorem perm (h : acc.Accounts ctx pending all made) (hp : pending.Perm pending') :
    acc.Accounts ctx pending' all made :=
  ⟨(hp.symm.append_left _).trans h.entered, h.total, h.assigned, h.already, h.ids, h.owners⟩

theorem fail (h : acc.Accounts ctx (c :: pending) all made) (f : AssignmentFailure) :
    (acc.fail c f).Accounts ctx pending all made := by
  refine ⟨?_, h.total, h.assigned, h.already, h.ids, h.owners⟩
  have hentered := h.entered
  simpa [AssignmentResult.fail] using hentered

theorem skip (h : acc.Accounts ctx (c :: pending) all made) :
    (acc.skip c).Accounts ctx pending all made := by
  refine ⟨?_, h.total, h.assigned, by simp [AssignmentResult.skip, h.already], h.ids, h.owners⟩
  refine List.Perm.trans ?_ h.entered
  simp only [AssignmentResult.skip, List.append_assoc, List.perm_append_left_iff,
    List.singleton_append]
  exact List.perm_middle.symm

theorem assign (h : acc.Accounts ctx (c :: pending) all made) {k : Committed} {a : Action}
    (hk : k.created = [a]) (ha : a.owner = (ctx.tenantId, c)) :
    (acc.assign c k).Accounts ctx pending all (made ++ [a]) := by
  refine ⟨?_, h.total, by simp [AssignmentResult.assign, h.assigned], h.already, ?_, ?_⟩
  · refine List.Perm.trans ?_ h.entered
    simp only [AssignmentResult.assign, List.append_assoc, List.perm_append_left_iff,
      List.singleton_append]
    rw [← List.append_assoc, ← List.append_assoc]
    exact List.perm_middle.symm
  · simp [AssignmentResult.assign, hk, h.ids]
  · simp [AssignmentResult.assign, h.owners, ha]

end AssignmentResult.Accounts

/-! ## A batch -/

section Batch

variable {s : Store} {ctx : Context} {p : Policy} {r : AssignmentRequest} {b : BatchView}
  {now : Instant} {acc : AssignmentResult} {rest all : List String} {made : List Action}

/-- A change is planned for one target, and creates one action. -/
def Plan.AssignsTo (plan : Plan) (c : String) : Prop :=
  plan.change.controllerId = c ∧ plan.change.newActions.length = 1

theorem assignsTo_of_decideTarget {c : String} {plan : Plan}
    (h : decideTarget ctx p r b now c = .change plan) : plan.AssignsTo c := by
  obtain ⟨t, ht, -, rfl⟩ := decideTarget_eq_change h
  have htc : t.controllerId = c := by simpa using List.find?_some ht
  exact ⟨htc, rfl⟩

/-- Sorting decisions enters the targets that are not to be changed; the others wait for the commits
of their plans. -/
theorem AssignmentResult.Accounts.sortDecisions {decide : String → Decision}
    (hdecide : ∀ c plan, decide c = .change plan → plan.AssignsTo c) (ids : List String)
    (h : acc.Accounts ctx (ids ++ rest) all made) :
    let sorted := FleetUpdate.sortDecisions (ids.map fun c => (c, decide c)) acc
    sorted.1.Accounts ctx (sorted.2.map (fun plan => plan.change.controllerId) ++ rest) all made ∧
      ∀ plan ∈ sorted.2, plan.AssignsTo plan.change.controllerId := by
  induction ids generalizing acc rest with
  | nil => exact ⟨h, by simp [FleetUpdate.sortDecisions]⟩
  | cons c ids ih =>
    rw [List.map_cons]
    cases hd : decide c with
    | left f => exact ih (h.fail f)
    | already => exact ih h.skip
    | change plan =>
      obtain ⟨hkey, hnew⟩ := hdecide c plan hd
      obtain ⟨haccounts, hplans⟩ := ih (h.perm List.perm_middle.symm)
      rw [sortDecisions_change]
      refine ⟨?_, ?_⟩
      · rw [List.map_cons, hkey]
        exact haccounts.perm List.perm_middle
      · intro plan' hplan'
        rcases List.mem_cons.mp hplan' with rfl | hplan'
        · exact ⟨rfl, hnew⟩
        · exact hplans plan' hplan'

/-- The outcomes of the changes of a batch enter the targets that were to be changed. -/
theorem AssignmentResult.Accounts.enterAll (hs : s.Consistent) (ctx : Context) (now : Instant)
    {plans : List Plan} (hplans : ∀ plan ∈ plans, plan.AssignsTo plan.change.controllerId)
    (h : acc.Accounts ctx (plans.map (fun plan => plan.change.controllerId) ++ rest) all made) :
    let outcomes := (s.commitAll ctx now (plans.map fun plan => plan.change)).1
    (FleetUpdate.enterAll (plans.zip outcomes) acc).Accounts ctx rest all
      (made ++ createdIn outcomes) := by
  induction plans generalizing s acc made with
  | nil => simpa [commitAll, FleetUpdate.enterAll, createdIn] using h
  | cons plan plans ih =>
    have hrest := fun plan' hplan' => hplans plan' (List.mem_cons_of_mem plan hplan')
    have hs' := hs.commit ctx now plan.change
    rcases commit_cases hs ctx now plan.change with
      ⟨k, -, hcommit, hreceipt⟩ | ⟨e, -, hcommit⟩
    · obtain ⟨n, hn⟩ := List.length_eq_one_iff.mp (hplans plan List.mem_cons_self).2
      have hk : k.created = [n.row ctx now plan.change.controllerId (s.lastActionId + 1 + 0)] := by
        rw [hreceipt.created, createdBy, hn]
        rfl
      have hthen := ih hs' hrest (h.assign hk rfl)
      simp only [hcommit] at hthen
      simp only [List.map_cons, commitAll, hcommit, List.zip_cons_cons, FleetUpdate.enterAll,
        List.foldl_cons, createdIn, List.flatMap_cons, hk]
      rw [← List.append_assoc]
      exact hthen
    · have hthen := ih hs' hrest (h.fail (.ofError e))
      simp only [hcommit] at hthen
      simp only [List.map_cons, commitAll, hcommit, List.zip_cons_cons, FleetUpdate.enterAll,
        List.foldl_cons, createdIn, List.flatMap_cons, List.nil_append]
      exact hthen

/-- The notes that are made of the outcomes of a batch. -/
def outcomeNotes (ctx : Context) (r : AssignmentRequest)
    (os : List (Plan × Except StorageError Committed)) : List Note :=
  os.flatMap fun o =>
    match o.2 with
    | .ok k => .counted .actionsSuperseded o.1.updateCount :: (k.resolve o.1.events).map .published
    | .error e => (if e.isConflict then [.counted .optimisticConflicts 1] else []) ++
        [.logged (.targetFailed ctx.tenantId o.1.change.controllerId r.setId e.message)]

variable {R : Store → Store → Prop} {times : Instant → Prop}
  {E : DeploymentError → List Deed → Store → Prop}

theorem yields_enterOutcomes {Q : AssignmentResult → List Deed → Store → Prop}
    (os : List (Plan × Except StorageError Committed))
    (h : Q (enterAll os acc) ((outcomeNotes ctx r os).map .noted) s) :
    (enterOutcomes ctx r os acc).Yields R times Q E s := by
  induction os generalizing acc Q E with
  | nil => exact h
  | cons o os ih =>
    obtain ⟨plan, out⟩ := o
    cases out with
    | ok k =>
      simp only [enterOutcomes, bind_eq, yields_bind, yields_count, yields_publish]
      refine ih ?_
      simpa [outcomeNotes, enterAll] using h
    | error e =>
      simp only [enterOutcomes, bind_eq]
      split
      · rename_i hconflict
        simp only [yields_bind, yields_count, yields_log]
        refine ih ?_
        simpa [outcomeNotes, enterAll, hconflict] using h
      · rename_i hconflict
        simp only [yields_bind, yields_log]
        refine ih ?_
        simpa [outcomeNotes, enterAll, hconflict] using h

/-- A batch reads three times, and nothing happens by that. -/
theorem yields_readBatch {Q : BatchView → List Deed → Store → Prop} {ids : List String}
    (hR : ∀ s s', R s s' → s'.Consistent) (hx : ctx.tenantId ≠ "")
    (h : ∀ s₁ s₂ s₃ ds, R s s₁ → R s₁ s₂ → R s₂ s₃ ∨ s₃ = s₂ → Deed.Quiet ds →
      Q ⟨s₁.findTargets ctx ids, s₂.activeOfAll ctx.tenantId ids,
        if 0 < p.maxActions then s₃.countsOf ctx.tenantId ids else []⟩ ds s₃) :
    (readBatch ctx p ids).Yields R times Q E s := by
  refine yields_bind.mpr (yields_lookup hx (fun _ _ => rfl) fun s₁ hs₁ now₁ => ?_)
  refine yields_bind.mpr (yields_lookup hx (fun _ _ => rfl) fun s₂ hs₂ now₂ => ?_)
  have h₁ := Deed.Quiet.lookup (r := .findTargets ids) (hR _ _ hs₁) trivial ctx now₁
  have h₂ := Deed.Quiet.lookup (r := .findActiveOfAll ids) (hR _ _ hs₂) trivial ctx now₂
  dsimp only
  split
  · rename_i hmax
    refine yields_bind.mpr (yields_lookup hx (fun _ _ => rfl) fun s₃ hs₃ now₃ => ?_)
    have h₃ := Deed.Quiet.lookup (r := .countActions ids) (hR _ _ hs₃) trivial ctx now₃
    have hread := h s₁ s₂ s₃ _ hs₁ hs₂ (.inl hs₃) (h₁.append (h₂.append h₃))
    rw [if_pos hmax] at hread
    exact yields_done.mpr hread
  · rename_i hmax
    have hread := h s₁ s₂ s₂ _ hs₁ hs₂ (.inr rfl) (h₁.append (h₂.append .nil))
    rw [if_neg hmax] at hread
    exact yields_bind.mpr (yields_done.mpr (yields_done.mpr hread))

/-- What a batch does once it has decided: if there are changes, it has them committed and notes
their outcomes. -/
def commitDeeds (ctx : Context) (r : AssignmentRequest) (now : Instant) (s : Store)
    (plans : List Plan) (outcomes : List (Except StorageError Committed)) : List Deed :=
  if plans.isEmpty then []
  else .asked ctx (.applyChanges (plans.map fun plan => plan.change)) now s ::
    (outcomeNotes ctx r (plans.zip outcomes)).map .noted

/-- A batch reads, decides about each of its targets, has the changes committed and enters their
outcomes. -/
inductive Batched (R : Store → Store → Prop) (ctx : Context) (p : Policy) (r : AssignmentRequest)
    (ids : List String) (acc : AssignmentResult) (s : Store) :
    AssignmentResult → List Deed → Store → Prop where
  | intro {s₁ s₂ s₃ s₄ s' : Store} {quiet : List Deed} {t now : Instant} {acc' : AssignmentResult}
      {plans : List Plan} {outcomes : List (Except StorageError Committed)}
      (h₁ : R s s₁) (h₂ : R s₁ s₂) (h₃ : R s₂ s₃ ∨ s₃ = s₂)
      (h₄ : R s₃ s₄ ∨ plans = [] ∧ s₄ = s₃) (reads : Deed.Quiet quiet)
      (decides : sortDecisions (ids.map fun c =>
        (c, decideTarget ctx p r ⟨s₁.findTargets ctx ids, s₂.activeOfAll ctx.tenantId ids,
          if 0 < p.maxActions then s₃.countsOf ctx.tenantId ids else []⟩ t c)) acc =
        (acc', plans))
      (commits : s₄.commitAll ctx now (plans.map fun plan => plan.change) = (outcomes, s')) :
      Batched R ctx p r ids acc s (enterAll (plans.zip outcomes) acc')
        (quiet ++ commitDeeds ctx r now s₄ plans outcomes) s'

theorem yields_assignBatch_batched {ids : List String} (hR : ∀ s s', R s s' → s'.Consistent)
    (hx : ctx.tenantId ≠ "") :
    (assignBatch ctx p r ids acc).Yields R times (Batched R ctx p r ids acc s) E s := by
  refine yields_bind.mpr (yields_readBatch hR hx fun s₁ s₂ s₃ ds h₁ h₂ h₃ hds => ?_)
  refine yields_bind.mpr (yields_recordedNow.mpr fun t _ => ?_)
  dsimp only
  generalize hsorted : sortDecisions _ acc = sorted
  obtain ⟨acc', plans⟩ := sorted
  cases plans with
  | nil =>
    -- then the store is not asked again
    have hidle : Batched R ctx p r ids acc s _ (ds ++ _) s₃ :=
      .intro h₁ h₂ h₃ (.inr ⟨rfl, rfl⟩) hds hsorted (show s₃.commitAll ctx 0 [] = ([], s₃) from rfl)
    exact hidle
  | cons plan plans =>
    refine yields_bind.mpr (yields_request.mpr fun s₄ hs₄ now => ?_)
    rw [Store.perform, if_neg hx]
    exact yields_enterOutcomes _ (.intro h₁ h₂ h₃ (.inl hs₄) hds hsorted rfl)

/-- A batch enters each of its targets, whatever others do in between. -/
theorem Batched.accounts {ids : List String} {s' : Store} {a : AssignmentResult} {ds : List Deed}
    (hR : ∀ s s', R s s' → s'.Consistent) (hx : ctx.tenantId ≠ "")
    (hb : Batched R ctx p r ids acc s a ds s') (h : acc.Accounts ctx (ids ++ rest) all made) :
    a.Accounts ctx rest all (made ++ Deed.created ds) := by
  cases hb with
  | @intro _ _ s₃ s₄ _ _ _ now acc' plans outcomes h₁ h₂ h₃ h₄ reads decides commits =>
  obtain ⟨hsorted, hplans⟩ :=
    h.sortDecisions (fun c plan hplan => assignsTo_of_decideTarget hplan) ids
  rw [decides] at hsorted hplans
  simp only [Deed.happened_append, reads.created, List.nil_append, commitDeeds]
  cases plans with
  | nil =>
    obtain rfl : [] = outcomes := congrArg Prod.fst commits
    simpa [FleetUpdate.enterAll] using hsorted
  | cons plan plans =>
    have hs₄ : s₄.Consistent := by
      rcases h₄ with h₄ | ⟨hno, -⟩
      · exact hR _ _ h₄
      · cases hno
    have hentered := hsorted.enterAll hs₄ ctx now hplans
    have hcreated := created_commits hs₄ hx now ((plan :: plans).map fun plan => plan.change)
    rw [commits] at hentered hcreated
    rw [List.isEmpty_cons, if_neg Bool.false_ne_true]
    simpa only [Deed.happened_cons_notes, hcreated] using hentered

end Batch

/-! ## The check -/

section Check

variable {s : Store} {ctx : Context} {p : Policy} {r : AssignmentRequest} {t₀ : Instant}
  {times : Instant → Prop}

/-- The distribution set of the request was looked up in a store, and there the check of the request
comes to a result at one of the times. -/
def AssignmentRequest.Checks (r : AssignmentRequest) (ctx : Context) (p : Policy)
    (times : Instant → Prop) (result : Except DeploymentError Unit) (ds : List Deed) : Prop :=
  ∃ s now time, Deed.asked ctx (.findSet r.setId) now s ∈ ds ∧ times time ∧
    ((checkRequest ctx p r).runOn time s).result = result

/-- The check of a request looks up its distribution set, and asks for nothing else. -/
theorem exists_checkRequest_eq_brief (ctx : Context) (p : Policy) (r : AssignmentRequest) :
    ∃ check : Option DistributionSet → Program Unit,
      checkRequest ctx p r = (request ctx (.findSet r.setId)).bind check ∧
      ∀ d, (check d).IsBrief := by
  refine ⟨_, rfl, fun d => ?_⟩
  cases d with
  | none => trivial
  | some d =>
    show Program.IsBrief (if _ then _ else _)
    split
    · trivial
    · split
      · exact ⟨⟨_, rfl⟩, trivial⟩
      · refine isBrief_bind _ fun _ => isBrief_bind _ fun _ => ?_
        unfold checkMaintenance
        split
        · trivial
        · intro t
          dsimp only [Program.bind]
          split
          · exact ⟨.ok (), rfl⟩
          · exact ⟨.error _, rfl⟩

/-- The check comes to the result that it has in the store that has answered, and nothing happens by
that. -/
theorem yields_checkRequest {R : Store → Store → Prop} (hR : ∀ s s', R s s' → s'.Consistent)
    (ht : times t₀) :
    (checkRequest ctx p r).Yields R times
      (fun _ ds _ => ctx.tenantId ≠ "" ∧ Deed.Quiet ds ∧ r.Checks ctx p times (.ok ()) ds)
      (fun e ds _ => Deed.Quiet ds ∧ r.Checks ctx p times (.error e) ds) s := by
  obtain ⟨check, heq, hbrief⟩ := exists_checkRequest_eq_brief ctx p r
  have hchecks : ∀ x s' now time ds, times time →
      ((checkRequest ctx p r).runOn time s').result = x →
      r.Checks ctx p times x (.asked ctx (.findSet r.setId) now s' :: ds) :=
    fun x s' now time ds ht h => ⟨s', now, time, List.mem_cons_self, ht, h⟩
  rw [heq] at hchecks ⊢
  refine yields_bind.mpr (yields_request.mpr fun s' hs' now => ?_)
  have hquiet := Deed.Quiet.lookup (r := .findSet r.setId) (hR s s' hs') trivial ctx now
  by_cases hx : ctx.tenantId = ""
  · -- without a tenant the lookup itself is refused
    have hrefused (time : Instant) : (((request ctx (.findSet r.setId)).bind check).runOn time
        s').result = .error StorageError.tenantRequired.toDeployment := by
      simp [runOn, request, Program.bind, run, Store.perform, hx]
    rw [Store.perform, if_pos hx]
    exact ⟨hquiet, hchecks _ _ _ _ _ ht (hrefused t₀)⟩
  · have hgoes (time : Instant) : (((request ctx (.findSet r.setId)).bind check).runOn time
        s').result = ((check (s'.set? ctx.tenantId r.setId)).runOn time s').result := by
      simp [runOn, request, Program.bind, run, Store.perform, hx, Store.answer]
    have hnothing (lines : List Notice) := hquiet.append (.lines lines)
    rw [Store.perform, if_neg hx]
    refine (hbrief _).yields ht (fun _ lines time ht h => ⟨hx, hnothing lines, ?_⟩)
      fun e lines time ht h => ⟨hnothing lines, ?_⟩
    · exact hchecks _ _ _ _ _ ht ((hgoes time).trans h)
    · exact hchecks _ _ _ _ _ ht ((hgoes time).trans h)

end Check

/-! ## The whole assignment -/

section Whole

variable {s : Store} {ctx : Context} {p : Policy} {r : AssignmentRequest} {t₀ : Instant}
  {times : Instant → Prop} {acc : AssignmentResult} {all : List String} {made : List Action}
  {E : DeploymentError → List Deed → Store → Prop}

/-- At first all targets are pending, batch by batch. -/
theorem AssignmentResult.Accounts.start_batches (p : Policy) (ctx : Context) (cs : List String) :
    (AssignmentResult.start cs.length).Accounts ctx (batches p.batchSize cs).flatten cs [] := by
  have hsize : 0 < p.batchSize :=
    Nat.lt_of_lt_of_le Nat.zero_lt_one (Nat.le_max_left 1 p.maxEntries)
  rw [batches_flatten hsize]
  exact .start ctx cs

theorem yields_assignBatches (i : Nat) (bs : List (List String)) (hx : ctx.tenantId ≠ "")
    (h : acc.Accounts ctx bs.flatten all made) :
    (assignBatches ctx p r i bs acc).Yields (fun _ s' => s'.Consistent) times
      (fun a ds _ => a.Accounts ctx [] all (made ++ Deed.created ds)) E s := by
  induction bs generalizing i acc made s E with
  | nil => simpa [assignBatches] using h
  | cons ids rest ih =>
    rw [List.flatten_cons] at h
    refine yields_bind.mpr ((yields_assignBatch_batched (fun _ _ h => h) hx).mono ?_
      fun _ _ _ hE => hE)
    intro a ds s' hb
    have ha := hb.accounts (fun _ _ h => h) hx h
    refine yields_bind.mpr (yields_log.mpr ((ih (i + 1) ha).mono ?_ fun _ _ _ hE => hE))
    intro a' ds' _ ha'
    simpa using ha'

/-- A result lists every target that was asked for just once: as assigned, as having the set
already, or as failed.  The counts are those of the lists.  The ids are those of the actions that
have been created, which are one for each assigned target, in the same order. -/
structure AssignmentResult.Partitions (result : AssignmentResult) (ctx : Context)
    (controllerIds : List String) (created : List Action) : Prop where
  total : result.total = controllerIds.toFinset.card
  sum : result.assigned + result.alreadyAssigned + result.failed.length = result.total
  once : ∀ c, (result.assignedTargets ++ result.alreadyAssignedTargets ++
    result.failed.map Prod.fst).count c = if c ∈ controllerIds then 1 else 0
  assigned : result.assigned = result.assignedTargets.length
  already : result.alreadyAssigned = result.alreadyAssignedTargets.length
  length : result.actionIds.length = result.assignedTargets.length
  ids : created.map Action.id = result.actionIds
  owners : created.map Action.owner = result.assignedTargets.map fun c => (ctx.tenantId, c)

theorem length_eraseDups (cs : List String) : cs.eraseDups.length = cs.toFinset.card := by
  have hsame : cs.eraseDups.toFinset = cs.toFinset := by
    ext c
    simp [List.mem_eraseDups]
  rw [← hsame, List.toFinset_card_of_nodup (nodup_eraseDups cs)]

/-- When all targets have been entered, the result is exact. -/
theorem AssignmentResult.Accounts.partitions {cs : List String}
    (h : acc.Accounts ctx [] cs.eraseDups made) :
    acc.Partitions ctx cs made := by
  have hperm := h.entered
  rw [List.append_nil] at hperm
  have hlength := hperm.length_eq
  have hids := congrArg List.length h.ids
  simp only [List.length_append, List.length_map] at hlength hids
  refine ⟨h.total.trans (length_eraseDups cs), ?_, fun c => ?_, h.assigned, h.already, ?_, h.ids,
    h.owners⟩
  · rw [h.assigned, h.already, h.total]
    exact hlength
  · rw [hperm.count_eq, (nodup_eraseDups cs).count, if_congr List.mem_eraseDups rfl rfl]
  · exact hids.symm.trans (h.length_made.trans h.assigned)

/-- Whatever others do between the requests of an assignment, and whenever the clock shows one of
the given times: unless the check of the request refuses it, which happens before anything is
created, the assignment returns a result that lists each target that was asked for exactly once,
with the ids of the actions that it has created. -/
theorem assignSet_partitions (p : Policy) (ctx : Context) (r : AssignmentRequest) (s : Store)
    (ht : times t₀) :
    (assignSet p ctx r).Yields (fun _ s' => s'.Consistent) times
      (fun result ds _ => r.Checks ctx p times (.ok ()) ds ∧
        result.Partitions ctx r.controllerIds (Deed.created ds))
      (fun e ds _ => r.Checks ctx p times (.error e) ds ∧ Deed.created ds = []) s := by
  have hlater {x : Except DeploymentError Unit} {ds : List Deed} (ds₀ ds₁ : List Deed)
      (h : r.Checks ctx p times x ds) : r.Checks ctx p times x (ds₀ ++ (ds ++ ds₁)) := by
    obtain ⟨s', now, time, hmem, hchecks⟩ := h
    exact ⟨s', now, time, List.mem_append_right _ (List.mem_append_left _ hmem), hchecks⟩
  refine yields_bind.mpr (yields_write.mpr (yields_bind.mpr (yields_count.mpr ?_)))
  refine yields_bind.mpr ((yields_checkRequest (fun _ _ h => h) ht).mono ?_ ?_)
  · rintro - ds s ⟨hx, hds, hchecks⟩
    have hstart := AssignmentResult.Accounts.start_batches p ctx r.controllerIds.eraseDups
    refine yields_bind.mpr (yields_log.mpr (yields_bind.mpr ?_))
    refine (yields_assignBatches (E := fun _ _ _ => False) 0 _ hx hstart).mono ?_
      fun _ _ _ hno => hno.elim
    intro a ds' s' haccounts
    simp only [bind_eq, yields_bind, yields_count, yields_log, pure_eq, yields_done]
    constructor
    · simpa using hlater [.noted _, .noted _] _ hchecks
    · simpa [hds.created] using haccounts.partitions
  · rintro e ds s ⟨hds, hchecks⟩
    refine ⟨?_, by simpa using hds.created⟩
    simpa using hlater [.noted _, .noted _] [] hchecks

/-- An assignment to a device that is named twice and to an unknown one. -/
def sampleRequest : AssignmentRequest := .forced 1 ["device", "unknown", "device"]

/-- The device is assigned once, by the action that has been created for it. -/
theorem sampleRequest_partitions :
    ((assignSet .standard sampleContext sampleRequest).runOn 5 sample).result =
        .ok ⟨1, 0, [1], ["device"], [], [("unknown", .notFound)], 2⟩ ∧
      (AssignmentResult.mk 1 0 [1] ["device"] [] [("unknown", .notFound)] 2).Partitions sampleContext
        ["device", "unknown", "device"]
        (Deed.created ((assignSet .standard sampleContext sampleRequest).deeds 5 sample)) := by
  have hresult : ((assignSet .standard sampleContext sampleRequest).runOn 5 sample).result =
      .ok ⟨1, 0, [1], ["device"], [], [("unknown", .notFound)], 2⟩ := by decide +kernel
  have hyields := assignSet_partitions .standard sampleContext sampleRequest sample
    (show (· = 5) 5 from rfl)
  have hruns := hyields.runOn (fun _ hs => hs) sample_reachable.consistent rfl
  rw [hresult] at hruns
  exact ⟨hresult, hruns.2⟩

end Whole

end FleetUpdate
