import FleetUpdate.Proofs.Deployment.Calls

/-!
# What calls have read

A call reads an action, its target, the active actions of the target and maybe a log, one after the
other; then it plans a transition and has it committed.  While others only do what a relation `R`
allows, the readings are of moments that `R` connects with each other and with the commit
(`Readings`).  What follows from that for a commit depends on `R`: without deletions the revisions
vouch for target and actions alike, with deletions only for the actions.
-/

namespace FleetUpdate

/-- A relation between a store and later ones that a call may rely on. -/
structure Rely (R : Store → Store → Prop) : Prop where
  refl : ∀ {s}, s.Consistent → R s s
  trans : ∀ {s s' s''}, R s s' → R s' s'' → R s s''
  consistent : ∀ {s s'}, R s s' → s'.Consistent

/-- The least that a call may rely on. -/
theorem rely_consistent : Rely fun _ s' : Store => s'.Consistent := ⟨id, fun _ h => h, id⟩

/-- What a transition is planned with besides the view is what the store holds: the log, which only
counts while the action is canceling, or the action that ended last. -/
def Transition.Consults (s : Store) (x c : String) : Transition → Prop
  | report a _ log | reportCancel a _ log => a.status = .canceling → log = s.findLog x a.id
  | recalculate ended => ended = s.lastEnded x c
  | _ => True

/-- A report that came in with a time keeps it. -/
def Call.Dates : Call → Transition → Prop
  | act _ (.report r), .report _ r' _ | act _ (.reportCancel r), .reportCancel _ r' _ =>
    ∀ t, r.time = some t → r'.time = t
  | _, _ => True

/-- The readings that a transition is planned from, the action first and the store `s` last. -/
inductive Readings (R : Store → Store → Prop) (x c : String) (tr : Transition) (s : Store) :
    TargetView → Prop where
  | intro {s₀ s₁ s₂ s₃ : Store} {t : Target}
      (action : ∀ a, tr.subject? = some a → a ∈ s₀.actionsOf x c) (h₁ : R s₀ s₁)
      (target : s₁.target? x c = some t) (h₂ : R s₁ s₂) (h₃ : R s₂ s₃)
      (consults : tr.Consults s₃ x c) (h : R s₃ s) :
      Readings R x c tr s (.ofActions t (s₂.activeOf x c))

namespace Readings

variable {R R' : Store → Store → Prop} {x c : String} {tr : Transition} {s s' : Store}
  {v : TargetView}

theorem later (hR : Rely R) (h : Readings R x c tr s v) (h' : R s s') : Readings R x c tr s' v := by
  cases h with
  | intro action h₁ target h₂ h₃ consults h =>
    exact .intro action h₁ target h₂ h₃ consults (hR.trans h h')

theorem mono (hR : ∀ s s', R s s' → R' s s') (h : Readings R x c tr s v) :
    Readings R' x c tr s v := by
  cases h with
  | intro action h₁ target h₂ h₃ consults h =>
    exact .intro action (hR _ _ h₁) target (hR _ _ h₂) (hR _ _ h₃) consults (hR _ _ h)

theorem controller (h : Readings R x c tr s v) : v.target.controllerId = c := by
  cases h with
  | intro _ _ target _ _ _ _ => exact (Prod.mk.inj (Store.key_of_target? target)).2

end Readings

namespace Store

/-- A change that a call has planned from what it has read, with the transition and the view. -/
structure ReadPlan (R : Store → Store → Prop) (s : Store) (ctx : Context) (call : Call)
    (change : TargetChange) (tr : Transition) (v : TargetView) : Prop where
  plans : call.Plans ctx tr
  dates : call.Dates tr
  readings : Readings R ctx.tenantId change.controllerId tr s v
  plan : ∃ events, tr.plan? v = some ⟨change, events⟩

variable {R R' : Store → Store → Prop} {s s' : Store} {ctx : Context} {call : Call}
  {change : TargetChange} {tr : Transition} {v : TargetView}

theorem ReadPlan.later (hR : Rely R) (h : s.ReadPlan R ctx call change tr v) (h' : R s s') :
    s'.ReadPlan R ctx call change tr v :=
  ⟨h.plans, h.dates, h.readings.later hR h', h.plan⟩

theorem ReadPlan.mono (hR : ∀ s s', R s s' → R' s s') (h : s.ReadPlan R ctx call change tr v) :
    s.ReadPlan R' ctx call change tr v :=
  ⟨h.plans, h.dates, h.readings.mono hR, h.plan⟩

/-- A request that a call may make: it deletes nothing, and every change is planned from readings.
Only assignments ask for several changes together. -/
def Asks (R : Store → Store → Prop) (call : Call) (ctx : Context) (r : Request) (s : Store) : Prop :=
  match r with
  | .applyChanges cs => (call.IsAssignment ∨ cs.length = 1) ∧
      ∀ change ∈ cs, ∃ tr v, s.ReadPlan R ctx call change tr v
  | .deleteTarget _ => False
  | _ => True

end Store

end FleetUpdate
