import FleetUpdate.Store.Request

/-!
# What requests do to a store

Of the many requests few write, and those that write touch the tables in few ways.  Statements about
all requests go through these cases.
-/

namespace FleetUpdate

/-- The row of a target when it is registered. -/
def NewTarget.row (n : NewTarget) (ctx : Context) (now : Instant) : Target :=
  { tenantId := ctx.tenantId
    controllerId := n.controllerId
    name := n.name
    description := n.description
    assigned := none
    installed := none
    installedAt := none
    updateStatus := .unknown
    lastContact := none
    revision := 1
    audit := Audit.created ctx.userId now }

namespace Store

/-- A target can be registered under a controller id that is not blank and not taken. -/
theorem createTarget_eq_ok_iff {s s' : Store} {ctx : Context} {now : Instant} {n : NewTarget}
    {t : Target} : s.createTarget ctx now n = .ok (t, s') ↔
      Text.allBlank n.controllerId = false ∧ s.target? ctx.tenantId n.controllerId = none ∧
        t = n.row ctx now ∧ s' = { s with targets := s.targets ++ [n.row ctx now] } := by
  unfold createTarget
  split
  · rename_i hblank
    simp [hblank]
  · rename_i hblank
    split
    · rename_i htaken
      refine ⟨fun h => (by cases h), ?_⟩
      rintro ⟨-, hfree, -⟩
      rw [hfree] at htaken
      cases htaken
    · rename_i hfree
      have hnone : s.target? ctx.tenantId n.controllerId = none := by simpa using hfree
      have hletter : Text.allBlank n.controllerId = false := by simpa using hblank
      constructor
      · intro h
        obtain ⟨rfl, rfl⟩ := Prod.mk.inj (Except.ok.inj h)
        exact ⟨hletter, hnone, rfl, rfl⟩
      · rintro ⟨-, -, rfl, rfl⟩
        rfl

/-- Changing the row of a target leaves all actions as they are. -/
@[simp] theorem actions_changeTarget (s : Store) (ctx : Context) (c : String) (f : Target → Target) :
    (s.changeTarget ctx c f).2.actions = s.actions := by
  unfold changeTarget
  split <;> rfl

/-- What becomes of a store by a request. -/
inductive Effect (s : Store) (ctx : Context) (now : Instant) : Request → Store → Prop where
  /-- A lookup, or a write that is refused. -/
  | none {r : Request} : Effect s ctx now r s
  | register {n : NewTarget} {t : Target} {s' : Store}
      (h : s.createTarget ctx now n = .ok (t, s')) : Effect s ctx now (.createTarget n) s'
  | describe (c : String) (d : TargetDescription) :
      Effect s ctx now (.updateTarget c d) (s.updateTarget ctx now c d).2
  | contact (c : String) (time : Instant) :
      Effect s ctx now (.markContacted c time) (s.markContacted ctx c time).2
  | delete (c : String) : Effect s ctx now (.deleteTarget c) (s.deleteTarget ctx c).2
  /-- A write to the distribution sets. -/
  | sets {r : Request} (sets : List DistributionSet) (last : Int) :
      Effect s ctx now r { s with sets := sets, lastSetId := last }
  | commit (cs : List TargetChange) :
      Effect s ctx now (.applyChanges cs) (s.commitAll ctx now cs).2

/-- These are all the things that a request can do. -/
theorem perform_effect (s : Store) (ctx : Context) (now : Instant) (r : Request) :
    s.Effect ctx now r (s.perform ctx now r).2 := by
  unfold perform
  split
  · exact .none
  · cases r with
    | createTarget n =>
      show s.Effect ctx now _ (s.settle (s.createTarget ctx now n)).2
      cases h : s.createTarget ctx now n with
      | error e => exact .none
      | ok r => exact .register h
    | updateTarget c d => exact .describe c d
    | markContacted c time => exact .contact c time
    | deleteTarget c => exact .delete c
    | createSet n =>
      show s.Effect ctx now _ (s.settle (s.createSet ctx now n)).2
      unfold createSet
      split
      · exact .none
      · exact .sets _ _
    | setModules d modules =>
      show s.Effect ctx now _ (s.settle (s.setModules ctx now d modules)).2
      unfold setModules
      split
      · exact .none
      · split
        · exact .none
        · exact .sets _ _
    | deleteSet d =>
      show s.Effect ctx now _ (s.deleteSet ctx now d).2
      unfold deleteSet
      split
      · exact .none
      · split
        · exact .sets _ _
        · exact .sets _ _
    | applyChanges cs => exact .commit cs
    | findTarget _ | findTargets _ | findSet _ | findSets _ | findAction _ | findActions _
    | findActive _ | findActiveOfAll _ | countActions _ | findSummaries _ | findLog _
    | findLastEnded _ => exact .none

end Store

end FleetUpdate
