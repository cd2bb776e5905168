import FleetUpdate.Proofs.Deployment.Batch
import FleetUpdate.Proofs.Deployment.Readings
import FleetUpdate.Proofs.Deployment.UpToDate

/-!
# What calls ask of the store

Every call reads, plans and commits, and makes notes of it; its readings are of different moments.
Whatever others may do in between, every change that the call asks for is planned from what it has
read, and a call deletes nothing (`Call.program_asks`).

Where others delete no targets either, a change that the store accepts is one that the call plans
for the target as it stands at that moment (`Call.program_issues`).
-/

namespace FleetUpdate

/-! ## Loading and committing -/

section Load

open Program Store

variable {R : Store → Store → Prop} {s : Store} {ctx : Context} {call : Call}

theorem meets_loadAction (hR : Rely R) {i : Int} {Q : Action → Store → Prop}
    (h : ∀ s' a, R s s' → a ∈ s'.actionsOf ctx.tenantId a.controllerId → a.id = i → Q a s') :
    (loadAction ctx i).Meets R (Asks R call) Q s := by
  refine meets_bind.mpr (meets_lookup (fun _ _ => rfl) fun s' hs' => ⟨trivial, ?_⟩)
  refine meets_require.mpr fun a ha => ?_
  obtain ⟨hmem, hid, hx⟩ := (action?_eq_some_iff (hR.consistent hs')).mp ha
  refine h s' a hs' (mem_actionsOf.mpr ⟨hmem, ?_⟩) hid
  rw [Action.owner, hx]

theorem meets_loadView {c : String} {Q : TargetView → Store → Prop}
    (h : ∀ s₁ s₂ t, R s s₁ → s₁.target? ctx.tenantId c = some t → R s₁ s₂ →
      Q (.ofActions t (s₂.activeOf ctx.tenantId c)) s₂) :
    (loadView ctx c).Meets R (Asks R call) Q s := by
  refine meets_bind.mpr (meets_lookup (fun _ _ => rfl) fun s₁ hs₁ => ⟨trivial, ?_⟩)
  refine meets_bind.mpr (meets_require.mpr fun t ht => ?_)
  refine meets_bind.mpr (meets_lookup (fun _ _ => rfl) fun s₂ hs₂ => ⟨trivial, ?_⟩)
  exact h s₁ s₂ t hs₁ ht hs₂

/-- A plan may be committed if it is planned from readings wherever the commit takes place. -/
theorem meets_commitPlan {p : Plan}
    (h : ∀ s', R s s' → ∃ tr v, s'.ReadPlan R ctx call p.change tr v) :
    (commitPlan ctx p).Meets R (Asks R call) (fun _ _ => True) s := by
  refine meets_bind.mpr (meets_request fun s' hs' => ⟨⟨.inr rfl, ?_⟩, ?_⟩)
  · intro change hchange
    obtain rfl := List.mem_singleton.mp hchange
    exact h s' hs'
  · intro now outcomes _
    split
    · trivial
    · split <;> simp
    · simp

theorem meets_commitAction {p : Plan} {i : Int}
    (h : ∀ s', R s s' → ∃ tr v, s'.ReadPlan R ctx call p.change tr v) :
    (commitAction ctx p i).Meets R (Asks R call) (fun _ _ => True) s := by
  refine meets_bind.mpr ((meets_commitPlan h).mono fun k s' _ => ?_)
  exact meets_require.mpr fun _ _ => trivial

/-- The log is looked up just when it counts. -/
theorem meets_logIfCanceling (hR : Rely R) {a : Action} {Q : List StatusEntry → Store → Prop}
    (hs : s.Consistent)
    (h : ∀ log s', R s s' → (a.status = .canceling → log = s'.findLog ctx.tenantId a.id) → Q log s') :
    (logIfCanceling ctx a).Meets R (Asks R call) Q s := by
  unfold logIfCanceling
  split
  · exact meets_lookup (fun _ _ => rfl) fun s' hs' => ⟨trivial, h _ s' hs' fun _ => rfl⟩
  · rename_i hno
    exact h [] s (hR.refl hs) fun hc => absurd hc hno

theorem meets_date {G : Context → Request → Store → Prop} {r : IncomingReport}
    {Q : StatusReport → Store → Prop}
    (h : ∀ time, (∀ t, r.time = some t → time = t) → Q ⟨r.status, r.messages, r.code, time⟩ s) :
    r.date.Meets R G Q s := by
  unfold IncomingReport.date
  split
  · rename_i t ht
    exact h t fun t' ht' => Option.some.inj (ht.symm.trans ht')
  · rename_i ht
    intro now
    refine h (epochMillis now) fun t ht' => ?_
    rw [ht] at ht'
    cases ht'

end Load

/-! ## Calls about one action -/

section Act

open Program Store

/-- What a call about an action has read by now: the action, then its target, and then the active
actions of the target. -/
inductive Loaded (R : Store → Store → Prop) (x : String) (a : Action) (s : Store) :
    TargetView → Prop where
  | intro {s₀ s₁ : Store} {t : Target} (action : a ∈ s₀.actionsOf x a.controllerId) (h₁ : R s₀ s₁)
      (target : s₁.target? x a.controllerId = some t) (h₂ : R s₁ s) :
      Loaded R x a s (.ofActions t (s.activeOf x a.controllerId))

variable {R : Store → Store → Prop} {s s' s'' : Store} {ctx : Context} {call : Call} {a : Action}
  {v : TargetView}

theorem Loaded.readPlan (h : Loaded R ctx.tenantId a s v) (h₃ : R s s') {tr : Transition}
    (hconsults : tr.Consults s' ctx.tenantId a.controllerId) (h' : R s' s'')
    (hplans : call.Plans ctx tr) (hdates : call.Dates tr) (hsubject : tr.subject? = some a)
    {p : Plan} (hp : tr.plan? v = some p) : s''.ReadPlan R ctx call p.change tr v := by
  obtain ⟨hcontroller, -⟩ := tr.plan?_target hp
  cases h with
  | intro action h₁ target h₂ =>
    have hc : p.change.controllerId = a.controllerId :=
      hcontroller.trans (Prod.mk.inj (key_of_target? target)).2
    refine ⟨hplans, hdates, ?_, p.events, hp⟩
    rw [hc]
    refine .intro (fun b hb => ?_) h₁ target h₂ h₃ hconsults h'
    obtain rfl : a = b := Option.some.inj (hsubject.symm.trans hb)
    exact action

/-- A call about one action reads first. -/
theorem meets_load (hR : Rely R) {i : Int} {f : Action → TargetView → Program Action}
    (h : ∀ a v s, a.id = i → s.Consistent → Loaded R ctx.tenantId a s v →
      (f a v).Meets R (Asks R call) (fun _ _ => True) s) :
    ((loadAction ctx i).bind fun a => (loadView ctx a.controllerId).bind (f a)).Meets R
      (Asks R call) (fun _ _ => True) s := by
  refine meets_bind.mpr (meets_loadAction hR fun s₀ a _ ha hid => ?_)
  refine meets_bind.mpr (meets_loadView fun s₁ s₂ t h₁ ht h₂ => ?_)
  exact h a _ s₂ hid (hR.consistent h₂) (.intro ha h₁ ht h₂)

/-- A call about one action commits what it has planned, and then only makes notes. -/
theorem Loaded.meets_commit (h : Loaded R ctx.tenantId a s v) (h₃ : R s s') (tr : Transition)
    (hconsults : tr.Consults s' ctx.tenantId a.controllerId) (hplans : call.Plans ctx tr)
    (hdates : call.Dates tr) (hsubject : tr.subject? = some a) {p : Plan} (hp : tr.plan? v = some p)
    {i : Int} {f : Action → Program Action}
    (hf : ∀ u s, (f u).Meets R (Asks R call) (fun _ _ => True) s) :
    ((commitAction ctx p i).bind f).Meets R (Asks R call) (fun _ _ => True) s' := by
  refine meets_bind.mpr ((meets_commitAction fun s'' hs'' => ?_).mono fun u s _ => hf u s)
  exact ⟨tr, v, h.readPlan h₃ hconsults hs'' hplans hdates hsubject hp⟩

theorem meets_cancelAction (hR : Rely R) {i : Int} :
    (cancelAction ctx i).Meets R (Asks R (Call.act i .cancel)) (fun _ _ => True) s := by
  refine meets_load hR fun a v s hid hs hloaded => ?_
  subst hid
  refine meets_bind.mpr (meets_recordedNow.mpr fun t => ?_)
  refine meets_bind.mpr (meets_ofExcept.mpr fun p hp => ?_)
  refine hloaded.meets_commit (hR.refl hs) (.cancel a (epochMillis t)) trivial (.act .cancel) trivial
    rfl (congrArg Except.toOption hp) fun u s => ?_
  split <;> simp

theorem meets_forceQuitAction (hR : Rely R) {i : Int} :
    (forceQuitAction ctx i).Meets R (Asks R (Call.act i .forceQuit)) (fun _ _ => True) s := by
  refine meets_load hR fun a v s hid hs hloaded => ?_
  subst hid
  refine meets_bind.mpr (meets_recordedNow.mpr fun t => ?_)
  refine meets_bind.mpr (meets_ofExcept.mpr fun p hp => ?_)
  refine hloaded.meets_commit (hR.refl hs) (.forceQuit a (epochMillis t)) trivial (.act .forceQuit)
    trivial rfl (congrArg Except.toOption hp) fun u s => ?_
  simp

theorem meets_forceAction (hR : Rely R) {i : Int} :
    (forceAction ctx i).Meets R (Asks R (Call.act i .force)) (fun _ _ => True) s := by
  refine meets_load hR fun a v s hid hs hloaded => ?_
  subst hid
  cases hp : planForce v a with
  | none => trivial
  | some p =>
    exact hloaded.meets_commit (hR.refl hs) (.force a) trivial (.act .force) trivial rfl hp
      fun u s => by simp

theorem meets_reportStatus (hR : Rely R) {i : Int} {r : IncomingReport} :
    (reportStatus ctx i r).Meets R (Asks R (Call.act i (.report r))) (fun _ _ => True) s := by
  refine meets_load hR fun a v s hid hs hloaded => ?_
  subst hid
  refine meets_bind.mpr (meets_logIfCanceling hR hs fun log s' hs' hlog => ?_)
  refine meets_bind.mpr (meets_date fun t ht => ?_)
  refine meets_bind.mpr (meets_ofExcept.mpr fun p hp => ?_)
  refine hloaded.meets_commit hs' (.report a ⟨r.status, r.messages, r.code, t⟩ log) hlog
    (.act .report) ht rfl (congrArg Except.toOption hp) fun u s => ?_
  simp only [bind_eq, meets_bind, meets_count]
  split <;> simp

theorem meets_reportCancel (hR : Rely R) {i : Int} {r : IncomingReport} :
    (reportCancel ctx i r).Meets R (Asks R (Call.act i (.reportCancel r))) (fun _ _ => True) s := by
  refine meets_load hR fun a v s hid hs hloaded => ?_
  subst hid
  refine meets_bind.mpr (meets_logIfCanceling hR hs fun log s' hs' hlog => ?_)
  refine meets_bind.mpr (meets_date fun t ht => ?_)
  refine meets_bind.mpr (meets_ofExcept.mpr fun p hp => ?_)
  refine hloaded.meets_commit hs' (.reportCancel a ⟨r.status, r.messages, r.code, t⟩ log) hlog
    (.act .reportCancel) ht rfl (congrArg Except.toOption hp) fun u s => ?_
  simp only [bind_eq, meets_bind, meets_count]
  split <;> simp

theorem meets_confirmAction (hR : Rely R) {i : Int} {messages : List String} :
    (confirmAction ctx i messages).Meets R (Asks R (Call.act i (.confirm messages)))
      (fun _ _ => True) s := by
  refine meets_load hR fun a v s hid hs hloaded => ?_
  subst hid
  refine meets_bind.mpr (meets_recordedNow.mpr fun t => ?_)
  refine meets_bind.mpr (meets_ofExcept.mpr fun p hp => ?_)
  refine hloaded.meets_commit (hR.refl hs) (.confirm a messages (epochMillis t)) trivial
    (.act .confirm) trivial rfl (congrArg Except.toOption hp) fun u s => ?_
  simp

theorem meets_denyAction (hR : Rely R) {i : Int} {messages : List String} :
    (denyAction ctx i messages).Meets R (Asks R (Call.act i (.deny messages)))
      (fun _ _ => True) s := by
  refine meets_load hR fun a v s hid hs hloaded => ?_
  subst hid
  refine meets_bind.mpr (meets_recordedNow.mpr fun t => ?_)
  refine meets_bind.mpr (meets_ofExcept.mpr fun p hp => ?_)
  refine hloaded.meets_commit (hR.refl hs) (.deny a messages (epochMillis t)) trivial (.act .deny)
    trivial rfl (congrArg Except.toOption hp) fun u s => ?_
  simp

end Act

/-! ## Calls about targets -/

section Targets

open Program Store

variable {R : Store → Store → Prop} {s : Store} {ctx : Context}

theorem meets_recalculateStatus (hR : Rely R) {c : String} :
    (recalculateStatus ctx c).Meets R (Asks R (Call.recalculate c)) (fun _ _ => True) s := by
  refine meets_bind.mpr (meets_loadView fun s₁ s₂ t h₁ ht h₂ => ?_)
  refine meets_bind.mpr (meets_lookup (fun _ _ => rfl) fun s₃ h₃ => ⟨trivial, ?_⟩)
  generalize hended : s₃.lastEnded ctx.tenantId c = ended
  dsimp only
  split
  · trivial
  · rename_i hne
    refine meets_bind.mpr ((meets_commitPlan fun s' hs' => ?_).mono fun k s' _ => by simp)
    have hp : (Transition.recalculate ended).plan? (.ofActions t (s₂.activeOf ctx.tenantId c)) =
        some ⟨_, []⟩ := if_neg hne
    refine ⟨_, _, .recalculate, trivial, ?_, [], hp⟩
    show Readings R ctx.tenantId t.controllerId _ s' _
    rw [(Prod.mk.inj (key_of_target? ht)).2]
    exact .intro (fun a ha => by cases ha) (hR.refl (hR.consistent h₁)) ht h₂ h₃ hended.symm hs'

theorem meets_findOrRegister {c : String} :
    (findOrRegister ctx c).Meets R (Asks R (Call.register c)) (fun _ _ => True) s := by
  refine meets_bind.mpr (meets_lookup (fun _ _ => rfl) fun s₁ h₁ => ⟨trivial, ?_⟩)
  have hcontact (s : Store) : (do
      let t ← recordedNow
      require .target c (← request ctx (.markContacted c t))).Meets R
        (Asks R (Call.register c)) (fun _ _ => True) s := by
    refine meets_bind.mpr (meets_recordedNow.mpr fun t => ?_)
    refine meets_bind.mpr (meets_request fun s' hs' => ⟨trivial, fun now u _ => ?_⟩)
    exact meets_require.mpr fun _ _ => trivial
  dsimp only
  split
  · refine meets_bind.mpr (meets_bind.mpr fun s' hs' => ⟨trivial, fun now => ?_⟩)
    refine meets_done.mpr ?_
    split
    · exact hcontact _
    · split
      · exact hcontact _
      · trivial
  · exact hcontact _

/-! ## Assignments -/

variable {p : Policy} {r : AssignmentRequest} {G : Context → Request → Store → Prop}

theorem meets_enterOutcomes {os : List (Plan × Except StorageError Committed)}
    {acc : AssignmentResult} : (enterOutcomes ctx r os acc).Meets R G (fun _ _ => True) s := by
  induction os generalizing acc with
  | nil => trivial
  | cons o os ih =>
    obtain ⟨plan, out⟩ := o
    cases out with
    | ok k =>
      simp only [enterOutcomes, bind_eq, meets_bind, meets_count, meets_publish]
      exact ih
    | error e =>
      simp only [enterOutcomes, bind_eq]
      split
      · simp only [meets_bind, meets_count, meets_log]
        exact ih
      · simp only [meets_bind, meets_log]
        exact ih

/-- What a batch has read by now: its targets, and then their active actions. -/
structure BatchView.Loaded (R : Store → Store → Prop) (b : BatchView) (ctx : Context)
    (ids : List String) (s : Store) : Prop where
  read : ∃ s₁ s₂ : Store, s₁.Consistent ∧ b.targets = s₁.findTargets ctx ids ∧ R s₁ s₂ ∧
    b.active = s₂.activeOfAll ctx.tenantId ids ∧ R s₂ s

/-- And then, under a limit, how many actions each of them has. -/
structure BatchView.Counted (R : Store → Store → Prop) (b : BatchView) (ctx : Context) (p : Policy)
    (ids : List String) (s : Store) : Prop where
  read : ∃ s₁ s₂ s₃ : Store, s₁.Consistent ∧ b.targets = s₁.findTargets ctx ids ∧ R s₁ s₂ ∧
    b.active = s₂.activeOfAll ctx.tenantId ids ∧ R s₂ s₃ ∧
    (0 < p.maxActions → b.counts = s₃.countsOf ctx.tenantId ids) ∧ R s₃ s

theorem BatchView.Counted.loaded (hR : Rely R) {b : BatchView} {ids : List String}
    (h : b.Counted R ctx p ids s) : b.Loaded R ctx ids s := by
  obtain ⟨s₁, s₂, s₃, hs₁, htargets, h₂, hactive, h₃, -, hs⟩ := h.read
  exact ⟨s₁, s₂, hs₁, htargets, h₂, hactive, hR.trans h₃ hs⟩

/-- A plan of a batch is planned from what the batch has read. -/
theorem BatchView.Loaded.readPlan (hR : Rely R) {b : BatchView} {ids : List String} {s' : Store}
    (h : b.Loaded R ctx ids s) (h' : R s s') {now : Instant} {c : String} (hc : c ∈ ids)
    {plan : Plan} (hplan : decideTarget ctx p r b now c = .change plan) :
    ∃ tr v, s'.ReadPlan R ctx (.assign p r) plan.change tr v := by
  obtain ⟨s₁, s₂, hs₁, htargets, h₂, hactive, hs⟩ := h.read
  obtain ⟨t, ht, -, rfl⟩ := decideTarget_eq_change hplan
  have hstored : s₁.target? ctx.tenantId c = some t := by
    rw [← find?_findTargets hc, ← htargets]
    exact ht
  have hview : b.activeOf c = s₂.activeOf ctx.tenantId c := by
    rw [BatchView.activeOf, hactive, filter_activeOfAll hc]
  rw [hview]
  refine ⟨.assign (r.newAction ctx) p.supersede now, _, .assign, trivial, ?_, _, rfl⟩
  show Readings R ctx.tenantId t.controllerId _ s' _
  rw [(Prod.mk.inj (key_of_target? hstored)).2]
  exact .intro (fun a ha => by cases ha) (hR.refl hs₁) hstored h₂
    (hR.refl (hR.consistent h₂)) trivial (hR.trans hs h')

/-- A change that an assignment decides on for a target of one of its batches. -/
inductive Store.Decided (R : Store → Store → Prop) (s : Store) (ctx : Context) (p : Policy)
    (r : AssignmentRequest) : TargetChange → Prop where
  | intro {b : BatchView} {ids : List String} {s₀ : Store} {now : Instant} {c : String} {plan : Plan}
      (read : b.Counted R ctx p ids s₀) (later : R s₀ s) (mem : c ∈ ids)
      (decided : decideTarget ctx p r b now c = .change plan) : Decided R s ctx p r plan.change

theorem meets_readBatch (hR : Rely R) (hlook : ∀ q s, q.IsLookup → G ctx q s) {ids : List String}
    {Q : BatchView → Store → Prop} (h : ∀ b s', b.Counted R ctx p ids s' → Q b s') :
    (readBatch ctx p ids).Meets R G Q s := by
  refine meets_bind.mpr (meets_lookup (fun _ _ => rfl) fun s₁ h₁ => ⟨hlook _ _ trivial, ?_⟩)
  refine meets_bind.mpr (meets_lookup (fun _ _ => rfl) fun s₂ h₂ => ⟨hlook _ _ trivial, ?_⟩)
  have hs₁ := hR.consistent h₁
  dsimp only
  split
  · refine meets_bind.mpr (meets_lookup (fun _ _ => rfl) fun s₃ h₃ => ⟨hlook _ _ trivial, ?_⟩)
    exact h _ s₃ ⟨s₁, s₂, s₃, hs₁, rfl, h₂, rfl, h₃, fun _ => rfl, hR.refl (hR.consistent h₃)⟩
  · rename_i hunlimited
    have hrefl := hR.refl (hR.consistent h₂)
    exact h _ s₂ ⟨s₁, s₂, s₂, hs₁, rfl, h₂, rfl, hrefl, fun hp => absurd hp hunlimited, hrefl⟩

/-- A batch commits what it has decided on. -/
theorem meets_assignBatch (hR : Rely R) (hlook : ∀ q s, q.IsLookup → G ctx q s)
    (hcommit : ∀ cs s, (∀ change ∈ cs, s.Decided R ctx p r change) → G ctx (.applyChanges cs) s)
    {ids : List String} {acc : AssignmentResult} :
    (assignBatch ctx p r ids acc).Meets R G (fun _ _ => True) s := by
  refine meets_bind.mpr (meets_readBatch hR hlook fun b s' hb => ?_)
  refine meets_bind.mpr (meets_recordedNow.mpr fun t => ?_)
  dsimp only
  split
  · trivial
  · refine meets_bind.mpr (meets_request fun s'' hs'' => ⟨hcommit _ s'' ?_,
      fun now outcomes _ => meets_enterOutcomes⟩)
    intro change hchange
    obtain ⟨plan, hplan, rfl⟩ := List.mem_map.mp hchange
    rw [sortDecisions_plans, List.mem_filterMap] at hplan
    obtain ⟨⟨c, d⟩, hd, hplan⟩ := hplan
    obtain ⟨c, hc, hdecide⟩ := List.mem_map.mp hd
    obtain ⟨rfl, rfl⟩ := Prod.mk.inj hdecide
    dsimp only at hplan
    split at hplan
    · rename_i plan' hchange'
      obtain rfl := Option.some.inj hplan
      exact .intro hb hs'' hc hchange'
    · cases hplan

theorem meets_assignBatches (hR : Rely R) (hlook : ∀ q s, q.IsLookup → G ctx q s)
    (hcommit : ∀ cs s, (∀ change ∈ cs, s.Decided R ctx p r change) → G ctx (.applyChanges cs) s)
    {i : Nat} {bs : List (List String)} {acc : AssignmentResult} :
    (assignBatches ctx p r i bs acc).Meets R G (fun _ _ => True) s := by
  induction bs generalizing i acc s with
  | nil => trivial
  | cons ids bs ih =>
    refine meets_bind.mpr ((meets_assignBatch hR hlook hcommit).mono fun acc s _ => ?_)
    exact meets_bind.mpr (meets_log.mpr ih)

theorem meets_checkRequest (hlook : ∀ q s, q.IsLookup → G ctx q s) {Q : Unit → Store → Prop}
    (h : ∀ s', R s s' → Q () s') : (checkRequest ctx p r).Meets R G Q s := by
  refine meets_bind.mpr (meets_lookup (fun _ _ => rfl) fun s' hs' => ⟨hlook _ _ trivial, ?_⟩)
  refine meets_bind.mpr (meets_require.mpr fun d _ => ?_)
  split
  · trivial
  · split
    · trivial
    · refine meets_bind.mpr (meets_ofExcept.mpr fun _ _ => ?_)
      refine meets_bind.mpr (meets_ofExcept.mpr fun _ _ => ?_)
      unfold checkMaintenance
      split
      · exact h s' hs'
      · refine meets_bind.mpr (meets_clock.mpr fun t => meets_done.mpr ?_)
        split
        · exact h s' hs'
        · trivial

/-- Besides lookups, an assignment asks only for changes that it has decided on. -/
theorem meets_assignSet_of (hR : Rely R) (hlook : ∀ q s, q.IsLookup → G ctx q s)
    (hcommit : ∀ cs s, (∀ change ∈ cs, s.Decided R ctx p r change) → G ctx (.applyChanges cs) s) :
    (assignSet p ctx r).Meets R G (fun _ _ => True) s := by
  refine meets_bind.mpr (meets_write.mpr (meets_bind.mpr (meets_count.mpr ?_)))
  refine meets_bind.mpr (meets_checkRequest hlook fun s' _ => ?_)
  refine meets_bind.mpr (meets_log.mpr (meets_bind.mpr
    ((meets_assignBatches hR hlook hcommit).mono ?_)))
  intro acc s _
  simp

theorem meets_assignSet (hR : Rely R) :
    (assignSet p ctx r).Meets R (Asks R (Call.assign p r)) (fun _ _ => True) s := by
  refine meets_assignSet_of hR (fun q s hq => ?_) fun cs s hcs => ⟨.inl trivial, ?_⟩
  · cases q with
    | applyChanges cs => exact hq.elim
    | deleteTarget c => exact hq.elim
    | _ => trivial
  · intro change hchange
    obtain ⟨read, later, mem, decided⟩ := hcs change hchange
    exact (read.loaded hR).readPlan hR later mem decided

end Targets

/-! ## All calls -/

/-- Whatever a call asks for is planned from what it has read, and a call deletes nothing. -/
theorem Call.program_asks {R : Store → Store → Prop} (hR : Rely R) (ctx : Context) (call : Call)
    (s : Store) : (call.program ctx).Meets R (Store.Asks R call) (fun _ _ => True) s := by
  cases call with
  | assign p r => exact meets_assignSet hR
  | act i what =>
    cases what with
    | cancel => exact meets_cancelAction hR
    | forceQuit => exact meets_forceQuitAction hR
    | force => exact meets_forceAction hR
    | report r => exact meets_reportStatus hR
    | reportCancel r => exact meets_reportCancel hR
    | confirm messages => exact meets_confirmAction hR
    | deny messages => exact meets_denyAction hR
  | recalculate c => exact meets_recalculateStatus hR
  | register c => exact meets_findOrRegister

/-! ## Without deletions -/

section Advances

open Store

variable {s : Store} {ctx : Context} {call : Call} {change : TargetChange} {tr : Transition}
  {v : TargetView}

theorem rely_advances : Rely Advances := ⟨Advances.refl, Advances.trans, Advances.consistent⟩

/-- A plan is accepted only where what it was planned from is up to date. -/
theorem Store.ReadPlan.current_of_accepts (h : s.ReadPlan Advances ctx call change tr v)
    (hacc : s.Accepts ctx change) :
    s.Current ctx.tenantId v ∧ ∀ a, tr.subject? = some a → a ∈ v.active := by
  obtain ⟨events, hp⟩ := h.plan
  have hreadings := h.readings
  have hcontroller := h.readings.controller
  cases hreadings with
  | @intro s₀ s₁ s₂ s₃ t action h₁ target h₂ h₃ _ h₄ =>
    have h' : s₂.Advances s := h₃.trans h₄
    have hcurrent := Store.current_of_accepts target h₂ h' hp hacc
    refine ⟨hcurrent, fun a ha => ?_⟩
    obtain ⟨u, hmoves⟩ := tr.plan?_of_subject hp ha
    have howned := action a ha
    have hc : a.controllerId = change.controllerId :=
      (Prod.mk.inj (mem_actionsOf.mp howned).2).2
    rw [← hc] at howned
    have hmem := mem_actionsOf_of_accepts howned (h₁.trans (h₂.trans h')) hmoves
      (hcontroller.trans hc.symm) hacc
    rw [hcurrent.active, hcontroller]
    rw [hc] at hmem
    exact mem_activeOf.mpr ⟨hmem, hmoves.active⟩

/-- So it is a plan for the target as it stands. -/
theorem Store.ReadPlan.planned_of_accepts (h : s.ReadPlan Advances ctx call change tr v)
    (hacc : s.Accepts ctx change) : s.Planned ctx call change := by
  obtain ⟨events, hp⟩ := h.plan
  obtain ⟨hcurrent, hsubject⟩ := h.current_of_accepts hacc
  exact ⟨tr, v, _, h.plans, hp, rfl, hcurrent, hsubject⟩

/-- Whatever change of a call is accepted, however many calls come in between, is one that the call
plans for the target as it stands then; and a call deletes nothing. -/
theorem Call.program_issues (ctx : Context) (call : Call) (s : Store) :
    (call.program ctx).Meets Store.Advances (Store.Issues call) (fun _ _ => True) s := by
  refine (call.program_asks rely_advances ctx s).promise_mono fun ctx r s hs hasks => ?_
  cases r with
  | applyChanges cs =>
    refine ⟨hasks.1, fun change hchange s' hs' hacc => ?_⟩
    obtain ⟨tr, v, hread⟩ := hasks.2 change hchange
    exact (hread.later rely_advances hs').planned_of_accepts hacc
  | deleteTarget c => exact hasks
  | _ => trivial

end Advances

end FleetUpdate
