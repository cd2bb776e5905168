import FleetUpdate.Proofs.Deployment.Aging

/-!
# No target gets more actions than it may have

An assignment counts the actions of its targets once for a whole batch, before it commits any of
them, and the store does not count again.  What ties the count to the commit is the revision of the
target: every commit raises it, so a change that the store accepts finds as many actions as were
counted (`Store.Decided.hasRoom`).  Of two assignments that counted the same target at the same time
at most one is committed, and no other call creates actions.

So where all assignments observe one limit, no target ever has more actions than that, the ended
ones included (`World.quota_holds`).  A target that is deleted takes its actions with it, and the
revision of the one that is registered in its place starts again; the statement is about worlds in
which no target is deleted.
-/

namespace FleetUpdate

/-- The call is no assignment, or one that lets a target have so many actions in all. -/
def Call.Allows (q : Nat) : Call → Prop
  | assign p _ => p.maxActions = q
  | _ => True

namespace Store

/-- No target has more actions. -/
def Within (q : Nat) (s : Store) : Prop := ∀ x c, (s.actionsOf x c).length ≤ q

/-- If a change creates actions, its target has room for them. -/
def HasRoom (q : Nat) (s : Store) (ctx : Context) (change : TargetChange) : Prop :=
  change.newActions ≠ [] →
    (s.actionsOf ctx.tenantId change.controllerId).length + change.newActions.length ≤ q

/-- A request that a call may make if it observes a limit: it deletes nothing, and whatever change is
accepted, be it right away or later, finds room. -/
def Observes (q : Nat) (call : Call) (ctx : Context) (r : Request) (s : Store) : Prop :=
  match r with
  | .applyChanges cs => call.Allows q →
      ∀ change ∈ cs, ∀ s', s.Advances s' → s'.Accepts ctx change → s'.HasRoom q ctx change
  | .deleteTarget _ => False
  | _ => True

variable {q : Nat} {s s' s'' : Store} {ctx : Context} {now : Instant} {x c : String} {call : Call}
  {change : TargetChange} {p : Policy} {r : AssignmentRequest}

/-! ## What is decided has room when it is accepted -/

/-- Between two moments at which a target has the same revision its actions are the same. -/
theorem actionsOf_eq_of_revision_eq (h : AdvancesAt x c s s') (h' : AdvancesAt x c s' s'')
    {t t'' : Target} (ht : s.target? x c = some t) (ht'' : s''.target? x c = some t'')
    (hrev : t''.revision = t.revision) : s''.actionsOf x c = s'.actionsOf x c := by
  obtain ⟨t', ht', hle, -⟩ := h.target t ht
  obtain ⟨u, hu, hle', hrest⟩ := h'.target t' ht'
  obtain rfl : u = t'' := Option.some.inj (hu.symm.trans ht'')
  obtain ⟨-, hhistory⟩ := hrest (by omega)
  exact (historyOf_eq_iff.mp hhistory).1

/-- A change that an assignment has decided on finds room where it is accepted. -/
theorem Decided.hasRoom (h : s.Decided Advances ctx p r change) (hs : s.Advances s')
    (hacc : s'.Accepts ctx change) (hlimit : 0 < p.maxActions) :
    s'.HasRoom p.maxActions ctx change := by
  intro _
  obtain @⟨b, ids, s₀, now, c, plan, read, later, mem, decided⟩ := h
  obtain ⟨s₁, s₂, s₃, -, htargets, h₂, -, h₃, hcounts, h₄⟩ := read.read
  have hcounted : b.count c + 1 ≤ p.maxActions := count_lt_of_decideTarget decided hlimit
  have hcount : b.count c = (s₃.actionsOf ctx.tenantId c).length := by
    rw [BatchView.count, hcounts hlimit, lookup_countsOf mem]
  obtain ⟨t, ht, -, rfl⟩ := decideTarget_eq_change decided
  have hstored : s₁.target? ctx.tenantId c = some t := by
    rw [← find?_findTargets mem, ← htargets]
    exact ht
  have hc : t.controllerId = c := (Prod.mk.inj (key_of_target? hstored)).2
  obtain ⟨t', ht', hrev⟩ := hacc.target
  change s'.target? ctx.tenantId t.controllerId = some t' at ht'
  change t'.revision = t.revision at hrev
  show (s'.actionsOf ctx.tenantId t.controllerId).length + 1 ≤ p.maxActions
  rw [hc] at ht' ⊢
  -- the count was taken after the revision was read and before the commit
  have hread : s₁.Advances s₃ := h₂.trans h₃
  have hcommit : s₃.Advances s' := (h₄.trans later).trans hs
  rw [actionsOf_eq_of_revision_eq (hread.target _ c) (hcommit.target _ c) hstored ht' hrev, ← hcount]
  exact hcounted

end Store

/-- Every call observes the limit that it is under. -/
theorem Call.program_observes {q : Nat} (hq : 0 < q) (ctx : Context) (call : Call) (s : Store) :
    (call.program ctx).Meets Store.Advances (Store.Observes q call) (fun _ _ => True) s := by
  by_cases hcall : call.IsAssignment
  · cases call with
    | assign p r =>
      refine meets_assignSet_of rely_advances (fun q s hlook => ?_) fun cs s hcs hallows => ?_
      · cases q with
        | applyChanges cs => exact hlook.elim
        | deleteTarget c => exact hlook.elim
        | _ => trivial
      · obtain rfl : p.maxActions = q := hallows
        exact fun change hchange s' hs' hacc => (hcs change hchange).hasRoom hs' hacc hq
    | _ => exact hcall.elim
  · refine (call.program_asks rely_advances ctx s).promise_mono fun ctx r s _ hasks => ?_
    cases r with
    | applyChanges cs =>
      intro _ change hchange s' _ _ hnew
      obtain ⟨tr, v, hread⟩ := hasks.2 change hchange
      obtain ⟨events, hp⟩ := hread.plan
      exact absurd (newActions_eq_nil hcall hread.plans hp) hnew
    | deleteTarget c => exact hasks
    | _ => trivial

/-! ## No step leads beyond the limit -/

namespace Store

variable {q : Nat} {s : Store} {ctx : Context} {now : Instant} {call : Call} {change : TargetChange}

theorem Within.written (h : s.Within q) (hs : s.Consistent) (hacc : s.Accepts ctx change)
    (hroom : s.HasRoom q ctx change) : (s.written ctx now change).Within q := by
  intro x c
  by_cases hc : (ctx.tenantId, change.controllerId) = (x, c)
  · obtain ⟨rfl, rfl⟩ := Prod.mk.inj hc
    rw [actionsOf_written, List.length_append, List.length_map, createdBy, List.length_mapIdx]
    by_cases hnew : change.newActions = []
    · rw [hnew]
      exact h ctx.tenantId change.controllerId
    · exact hroom hnew
  · rw [(SameAt.written hs hacc hc).actionsOf_eq]
    exact h x c

theorem Within.quiet (h : s.Within q) {o : Op} (ho : o.request.IsQuiet) : (s.after o).Within q := by
  intro x c
  rw [actionsOf, actions_of_quiet s ho]
  exact h x c

/-- A request of a call that observes the limit keeps it, and deletes nothing. -/
theorem Within.perform (h : s.Within q) (hs : s.Consistent) (hcall : call.Allows q) {r : Request}
    (hr : Observes q call ctx r s) (now : Instant) :
    s.Advances (s.perform ctx now r).2 ∧ (s.perform ctx now r).2.Within q := by
  refine ⟨.after (o := ⟨ctx, now, r⟩) hs ?_, ?_⟩
  · rintro c rfl
    exact hr
  · by_cases hquiet : r.IsQuiet
    · exact h.quiet (o := ⟨ctx, now, r⟩) hquiet
    · cases r with
      | deleteTarget c => exact hr.elim
      | applyChanges cs =>
        unfold Store.perform
        split
        · exact h
        · exact Advances.commitAll_induction hs h fun change hchange s' hs' h' hacc =>
            h'.written hs'.consistent hacc (hr hcall change hchange s' hs' hacc)
      | _ => exact absurd trivial hquiet

end Store

namespace World

open Store

variable {q : Nat} {w w' : World}

/-- A world whose calls observe the limit, and whose targets are within it. -/
structure Limited (q : Nat) (w : World) : Prop where
  sure : w.Sure Advances (Observes q) (Call.Allows q)
  within : w.store.Within q

theorem Limited.step (hq : 0 < q) (h : w.Limited q)
    (hstep : Step (Call.Allows q) Request.IsQuiet w w') : w'.Limited q := by
  have hs := h.sure.consistent
  have hstore : w.store.Advances w'.store ∧ w'.store.Within q := by
    have hsame : w'.store = w.store → w.store.Advances w'.store ∧ w'.store.Within q := by
      intro hsame
      rw [hsame]
      exact ⟨.refl hs, h.within⟩
    rcases hstep.cases with hsame' | ⟨o, ho, hafter⟩ | ⟨r, hr⟩
    · exact hsame hsame'
    · rw [hafter]
      refine ⟨.after hs fun c hc => ?_, h.within.quiet ho⟩
      rw [hc] at ho
      exact ho
    · rcases h.sure.takes rely_advances hr with hsame' | ⟨cx, request, now, hasked, hafter⟩
      · exact hsame hsame'
      · rw [hafter]
        exact h.within.perform hs (h.sure.running r hr.mem).1 hasked now
  exact ⟨h.sure.step rely_advances (Call.program_observes hq) hstep hstore.1, hstore.2⟩

theorem Reachable.limited (hq : 0 < q) (hw : w.Reachable (Call.Allows q) Request.IsQuiet) :
    w.Limited q := by
  induction hw with
  | refl => exact ⟨⟨.empty, by simp⟩, fun x c => Nat.zero_le q⟩
  | tail _ hstep ih => exact ih.step hq hstep

/-- Where all assignments observe the same limit, in whatever batches and in either mode, and no
target is deleted, no target ever has more actions than that, active and ended ones together, in
whatever order the steps of calls follow each other. -/
theorem quota_holds (hq : 0 < q) (hw : w.Reachable (Call.Allows q) Request.IsQuiet) :
    ∀ x c, (w.store.actionsOf x c).length ≤ q :=
  (Reachable.limited hq hw).within

end World

/-! ## Two assignments that count the same device -/

/-- The policy under which a target may have one action and no more. -/
def Policy.single : Policy := { Policy.standard with maxActions := 1 }

/-- The operator assigns one of the distribution sets under this policy. -/
def sampleSingle (setId : Int) : Call := .assign .single (.forced setId ["device"])

/-- The assignment of the first set has counted the actions of the device, -/
def sampleCounted : Running × Store :=
  Running.advances 2 8
    (⟨Store.sampleContext, sampleSingle 1, (sampleSingle 1).program Store.sampleContext⟩,
      Store.sample)

/-- and before it goes on, the assignment of the second set runs as a whole. -/
def sampleOvertaken : Running × Store :=
  Running.advances 3 100
    (⟨Store.sampleContext, sampleSingle 2, (sampleSingle 2).program Store.sampleContext⟩,
      sampleCounted.2)

/-- Then the first one asks for its commit. -/
def sampleBelated : World :=
  ⟨(sampleCounted.1.advance 4 sampleOvertaken.2).2,
    [(sampleCounted.1.advance 4 sampleOvertaken.2).1, sampleOvertaken.1]⟩

theorem sampleBelated_reachable :
    sampleBelated.Reachable (Call.Allows 1) Request.IsQuiet := by
  have hsample : World.Reachable (Call.Allows 1) Request.IsQuiet ⟨Store.sample, []⟩ :=
    World.Reachable.requests .refl (by simp [Store.sampleOps, Request.IsQuiet])
  have hcounted := hsample.call Store.sampleContext (show (sampleSingle 1).Allows 1 from rfl) 2 8
  have hovertaken := hcounted.call Store.sampleContext (show (sampleSingle 2).Allows 1 from rfl)
    3 100
  exact hovertaken.tail (@World.Step.run _ _ _ [] [sampleOvertaken.1] sampleCounted.1 4)

/-- Both had found no action.  The device has the action of the second set, and no other. -/
theorem sampleBelated_within :
    sampleCounted.1.commits?.isSome = true ∧
    (sampleBelated.store.actionsOf "acme" "device").map Action.setId = [2] ∧
    ∀ x c, (sampleBelated.store.actionsOf x c).length ≤ 1 :=
  ⟨by decide +kernel, by decide +kernel, World.quota_holds Nat.one_pos sampleBelated_reachable⟩

end FleetUpdate
