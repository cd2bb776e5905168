import FleetUpdate.Proofs.Deployment.Sights
import FleetUpdate.Proofs.Store.Agreement

/-!
# Tenants are isolated

Every request of every operation of a tenant is made in the context of the tenant
(`Operation.within`).  So an operation leaves what the store holds for other tenants alone, and what
these hold shows in nothing that the operation returns, notes or leaves of its own tenant's
(`Operation.isolated`).

The clock may show any time at any look, as long as the two runs that are compared see the same.
-/

namespace FleetUpdate

namespace Program

variable {α : Type} {p : Program α} {x : String}

/-! ## Runs with a clock that goes on -/

/-- Runs a program alone while the clock goes on: every request and every look at the clock comes at
the next of the given times. -/
def runWith : Program α → (times : Nat → Instant) → Store → Outcome Store α
  | done a, _, s => ⟨.ok a, [], s⟩
  | fail e, _, s => ⟨.error e, [], s⟩
  | ask ctx r next, times, s =>
    let o := s.perform ctx (epochMillis (times 0)) r
    (next o.1).runWith (fun n => times (n + 1)) o.2
  | clock next, times, s => (next (times 0)).runWith (fun n => times (n + 1)) s
  | note n next, times, s =>
    let o := next.runWith times s
    { o with notes := n :: o.notes }

/-- With a clock that stands still this is the run at that time. -/
theorem runWith_const (p : Program α) (time : Instant) (s : Store) :
    p.runWith (fun _ => time) s = p.runOn time s := by
  unfold runOn
  induction p generalizing s with
  | done a => rfl
  | fail e => rfl
  | ask ctx r next ih => exact ih _ _
  | clock next ih => exact ih time s
  | note n next ih => simp only [runWith, run, ih]

/-! ## What programs do and see that ask for one tenant only -/

/-- Every request of the program is made for the tenant. -/
abbrev Within (x : String) (p : Program α) : Prop :=
  p.Only (fun ctx _ => ctx.tenantId = x) fun _ => True

/-- A program that asks for one tenant leaves the parts of all others alone. -/
theorem Within.partOf_eq {y : String} (hp : p.Within x) {s : Store} (hs : s.Consistent)
    (hne : x ≠ y) (times : Nat → Instant) : (p.runWith times s).state.partOf y = s.partOf y := by
  induction p generalizing s times with
  | done a => rfl
  | fail e => rfl
  | ask ctx r next ih =>
    obtain ⟨rfl, hnext⟩ := (hp s hs).resolve_left id
    rw [runWith, ih _ (hnext _) (hs.perform ctx _ r), Store.partOf_perform_of_ne hs hne]
  | clock next ih => exact ih (times 0) (hp _) hs _
  | note n next ih => exact ih hp hs times

/-- On stores that agree for the tenant it does and returns the same. -/
theorem Within.agree (hp : p.Within x) {s s' : Store} (hs : s.Consistent) (hs' : s'.Consistent)
    (h : s.Agree x s') (times : Nat → Instant) :
    (p.runWith times s').result = (p.runWith times s).result ∧
      (p.runWith times s').notes = (p.runWith times s).notes ∧
      Store.Agree x (p.runWith times s).state (p.runWith times s').state := by
  induction p generalizing s s' times with
  | done a => exact ⟨rfl, rfl, h⟩
  | fail e => exact ⟨rfl, rfl, h⟩
  | ask ctx r next ih =>
    obtain ⟨rfl, hnext⟩ := (hp s hs).resolve_left id
    have hstep := h.perform hs hs' (epochMillis (times 0)) r
    simp only [runWith, hstep.answer]
    exact ih _ (hnext _) (hs.perform ctx _ r) (hs'.perform ctx _ r) hstep.agree _
  | clock next ih => exact ih (times 0) (hp _) hs hs' h _
  | note n next ih =>
    obtain ⟨hresult, hnotes, hstate⟩ := ih hp hs hs' h times
    exact ⟨hresult, congrArg (n :: ·) hnotes, hstate⟩

end Program

/-! ## Operations -/

section Operations

open Program

variable {ctx : Context}

/-- What can be done on behalf of a tenant: any request to the store, and any call of the management
and the device side. -/
inductive Operation (ctx : Context) : {α : Type} → Program α → Prop where
  | request (r : Request) : Operation ctx (attempt ctx r)
  | call (call : Call) : Operation ctx (call.program ctx)
  | findAction (actionId : Int) : Operation ctx (findAction ctx actionId)
  | findActions (controllerId : String) : Operation ctx (findActions ctx controllerId)
  | findActiveActions (controllerId : String) : Operation ctx (findActiveActions ctx controllerId)
  | findInactiveActions (controllerId : String) :
      Operation ctx (findInactiveActions ctx controllerId)
  | findActionSummaries (controllerId : String) :
      Operation ctx (findActionSummaries ctx controllerId)
  | findActionLog (actionId : Int) : Operation ctx (findActionLog ctx actionId)
  | findActionDetails (actionId : Int) : Operation ctx (findActionDetails ctx actionId)
  | isActionAvailable (actionId : Int) (time : Instant) :
      Operation ctx (isActionAvailable ctx actionId time)
  | actionWindow (actionId : Int) (time : Instant) : Operation ctx (actionWindow ctx actionId time)
  | oldestActive (controllerId : String) : Operation ctx (oldestActive ctx controllerId)

theorem Operation.within {α : Type} {p : Program α} (hp : Operation ctx p) :
    p.Within ctx.tenantId := by
  have hlook (r : Request) (_ : r.IsLookup) : ctx.tenantId = ctx.tenantId := rfl
  cases hp with
  | request r => exact safeUntil_attempt rfl fun _ => trivial
  | call call => exact (call.only_unset ctx).safe_mono fun _ _ hasked => congrArg _ hasked.1
  | findAction i => exact safeUntil_request rfl fun _ => trivial
  | findActions c => exact safeUntil_request rfl fun _ => trivial
  | findActiveActions c => exact safeUntil_request rfl fun _ => trivial
  | findInactiveActions c => exact safeUntil_bind.mpr (safeUntil_request rfl fun _ => trivial)
  | findActionSummaries c => exact safeUntil_request rfl fun _ => trivial
  | findActionLog i =>
    exact safeUntil_bind.mpr (safeUntil_loadAction hlook fun _ =>
      safeUntil_request rfl fun _ => trivial)
  | findActionDetails i =>
    refine safeUntil_bind.mpr (safeUntil_loadAction hlook fun a => ?_)
    refine safeUntil_bind.mpr (safeUntil_request rfl fun found => ?_)
    refine safeUntil_bind.mpr (safeUntil_require.mpr fun t _ => ?_)
    refine safeUntil_bind.mpr (safeUntil_request rfl fun sets => ?_)
    exact safeUntil_bind.mpr (safeUntil_require.mpr fun d _ => trivial)
  | isActionAvailable i time =>
    refine safeUntil_bind.mpr (safeUntil_loadAction hlook fun a => ?_)
    split <;> trivial
  | actionWindow i time =>
    refine safeUntil_bind.mpr (safeUntil_loadAction hlook fun a => ?_)
    split
    · trivial
    · split <;> trivial
  | oldestActive c => exact safeUntil_bind.mpr (safeUntil_request rfl fun _ => trivial)

/-- Whatever a tenant has done, the targets, distribution sets, actions and logs of every other
tenant stay as they are; and on two stores that hold the same for the tenant and have given out the
same ids, at the same times, it returns the same, notes the same and leaves the tenant the same. -/
theorem Operation.isolated {α : Type} {p : Program α} (hp : Operation ctx p) {s : Store}
    (hs : s.Reachable) (times : Nat → Instant) :
    (∀ y, y ≠ ctx.tenantId → (p.runWith times s).state.partOf y = s.partOf y) ∧
    ∀ s' : Store, s'.Reachable → s.Agree ctx.tenantId s' →
      (p.runWith times s').result = (p.runWith times s).result ∧
      (p.runWith times s').notes = (p.runWith times s).notes ∧
      Store.Agree ctx.tenantId (p.runWith times s).state (p.runWith times s').state :=
  ⟨fun _ hne => hp.within.partOf_eq hs.consistent (Ne.symm hne) times, fun _ hs' h =>
    hp.within.agree hs.consistent hs'.consistent h times⟩

end Operations

/-! ## Two neighbours -/

namespace Store

/-- Another tenant next to the small store, with a distribution set and a device of this name. -/
def sampleBeside (name : String) : Store :=
  sample.afterAll
    [⟨⟨"other", "operator"⟩, 2, .createSet ⟨name, "1", "os", [], []⟩⟩,
      ⟨⟨"other", "operator"⟩, 2, .createTarget (.ofId name)⟩]

theorem sampleBeside_reachable (name : String) : (sampleBeside name).Reachable :=
  sample_reachable.afterAll _

/-- The first tenant holds the same beside either neighbour. -/
theorem sampleBeside_agree : (sampleBeside "north").Agree "acme" (sampleBeside "south") where
  part := by
    refine Part.ext (funext fun c => ?_) (by decide +kernel) (by decide +kernel) (by decide +kernel)
    show (sampleBeside "south").target? "acme" c = (sampleBeside "north").target? "acme" c
    have hrows : (sampleBeside "south").targets.filter (fun t => t.tenantId == "acme") =
        (sampleBeside "north").targets.filter fun t => t.tenantId == "acme" := by decide +kernel
    rw [target?_eq_find?, target?_eq_find?, hrows]
  lastSet := by decide +kernel
  lastAction := by decide +kernel
  lastEntry := by decide +kernel

/-- The operator assigns a distribution set to the device, and does not learn who else is there. -/
theorem sampleAssignment_isolated :
    (sampleBeside "south").partOf "other" ≠ (sampleBeside "north").partOf "other" ∧
    let p := (Call.assign .standard (.forced 1 ["device"])).program sampleContext
    let run (s : Store) := p.runWith (fun n => n) s
    (run (sampleBeside "north")).state.lastActionId = 1 ∧
    (run (sampleBeside "north")).state.partOf "other" = (sampleBeside "north").partOf "other" ∧
    (run (sampleBeside "south")).result = (run (sampleBeside "north")).result ∧
    Agree "acme" (run (sampleBeside "north")).state (run (sampleBeside "south")).state := by
  have hcall : Operation sampleContext
      ((Call.assign .standard (.forced 1 ["device"])).program sampleContext) := .call _
  obtain ⟨hothers, hsame⟩ := hcall.isolated (sampleBeside_reachable "north") fun n => n
  obtain ⟨hresult, -, hagree⟩ := hsame _ (sampleBeside_reachable "south") sampleBeside_agree
  refine ⟨fun hparts => ?_, by decide +kernel, hothers "other" (by decide), hresult, hagree⟩
  exact absurd (congrArg Part.sets hparts) (by decide +kernel)

end Store

end FleetUpdate
