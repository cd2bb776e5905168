import FleetUpdate.Proofs.Deployment.Books
import FleetUpdate.Proofs.Deployment.Immediate

/-!
# The counters are a ledger

In the immediate mode an assignment counts as superseded what it cancels, batch by batch
(`Batched.supersedes`), so its books are right as well.  Then the counters, however many calls have
been completed, whatever their outcome and whatever the clock has shown them, tell what has become of
the actions since the counters were zero (`Booked.ledger_of_calls`).
-/

namespace FleetUpdate

open Program Store

/-! ## Assignments -/

section Assign

variable {s s' : Store} {ctx : Context} {p : Policy} {r : AssignmentRequest} {now : Instant}
  {ds ds' : List Deed}

/-- Step by step, what has been noted as superseded is what has been canceled, and nothing else has
happened to actions that were there, nor has anything else been counted but conflicts. -/
structure Supersedes (steps : List (Store × Store)) (ns : List Note) : Prop where
  canceled : Counter.total .actionsSuperseded ns =
    (steps.flatMap fun x => turned Action.endsCanceled x.1 x.2).length
  recalled : (steps.flatMap fun x => turned Action.getsRecalled x.1 x.2) = []
  others : ∀ c : Counter, c ≠ .actionsSuperseded → c ≠ .optimisticConflicts → c.total ns = 0

/-- The same of deeds. -/
abbrev Deed.Supersedes (ds : List Deed) : Prop :=
  FleetUpdate.Supersedes (ds.flatMap Deed.turns) (Deed.notes ds)

theorem Supersedes.append {steps steps' : List (Store × Store)} {ns ns' : List Note}
    (h : Supersedes steps ns) (h' : Supersedes steps' ns') :
    Supersedes (steps ++ steps') (ns ++ ns') := by
  constructor
  · rw [Counter.total_append, h.canceled, h'.canceled, List.flatMap_append, List.length_append]
  · rw [List.flatMap_append, h.recalled, h'.recalled, List.append_nil]
  · intro c hc hc'
    rw [Counter.total_append, h.others c hc hc', h'.others c hc hc']

theorem Deed.Quiet.supersedes (h : Deed.Quiet ds) : Deed.Supersedes ds :=
  ⟨(h.counted _).trans (congrArg List.length h.canceled).symm, h.recalled, fun c _ _ => h.counted c⟩

theorem Deed.Supersedes.append (h : Deed.Supersedes ds) (h' : Deed.Supersedes ds') :
    Deed.Supersedes (ds ++ ds') := by
  have hboth := FleetUpdate.Supersedes.append h h'
  rwa [← List.flatMap_append, Deed.notes, Deed.notes, ← List.filterMap_append] at hboth

/-- In the immediate mode, an assignment cancels the actions that it updates. -/
theorem Store.PlannedCommit.turned_of_immediate (hs : s.Consistent) {call : Call} {n : NewAction}
    {time : Instant} {change : TargetChange} {v : TargetView} {t : Target}
    (hacc : s.Accepts ctx change)
    (h : s.PlannedCommit ctx now call change (.assign n .immediate time) v t) :
    (turned Action.endsCanceled s (s.written ctx now change)).length =
        change.actionUpdates.length ∧
      turned Action.getsRecalled s (s.written ctx now change) = [] := by
  obtain ⟨events, hp⟩ := h.plan
  have hnodup := Transition.nodup_updates hp (h.nodup hs)
  have hupdates : ∀ u ∈ change.actionUpdates, ∃ a, s.actionById? u.actionId = some a ∧
      a.active = true ∧ (u.writeTo ctx now a).active = false ∧
      (u.writeTo ctx now a).status = .canceled := by
    intro u hu
    obtain ⟨a, es, ending, hread, hturns⟩ := Transition.turns_of_mem_updates hp hu
    have ha : a ∈ s.activeOf ctx.tenantId change.controllerId :=
      h.active ▸ hread.resolve_left fun hno => nomatch hno.1
    obtain ⟨howned, hactive⟩ := mem_activeOf.mp ha
    have hid := hturns.action.1
    have hfound := (actionById?_eq_some_iff hs).mpr ⟨(mem_actionsOf.mp howned).1, hid.symm⟩
    refine ⟨a, hfound, hactive, ?_⟩
    rw [ActionUpdate.writeTo, if_pos hid.symm]
    cases hturns with
    | @supersede _ _ _ status active remark hsup =>
      have hended : active = false := active_of_supersession hsup
      refine ⟨hended, (status_of_supersession hsup).trans ?_⟩
      rw [hended]
      rfl
    | agree htr | refuse htr | goOn htr => cases htr
  constructor
  · rw [length_turned_written hs hacc hnodup Action.endsCanceled_self, List.filter_eq_self.mpr]
    intro u hu
    obtain ⟨a, hfound, hactive, hended, hcanceled⟩ := hupdates u hu
    rw [hfound, Option.any_some, Action.endsCanceled, hactive, hended, hcanceled]
    rfl
  · rw [← List.length_eq_zero_iff, length_turned_written hs hacc hnodup Action.getsRecalled_self,
      List.length_eq_zero_iff, List.filter_eq_nil_iff]
    intro u hu
    obtain ⟨a, hfound, -, -, hcanceled⟩ := hupdates u hu
    rw [hfound, Option.any_some, Action.getsRecalled, hcanceled]
    simp

/-- What the outcomes of the changes of a batch are counted as is what has become of the actions. -/
theorem supersedes_commits (hs : s.Consistent) (himmediate : p.supersede = .immediate)
    (now : Instant) {plans : List Plan} (hplanned : ∀ plan ∈ plans, ∀ s', s.Advances s' →
      s'.Accepts ctx plan.change → s'.Planned ctx (.assign p r) plan.change) :
    Supersedes (s.turns ctx now (plans.map fun plan => plan.change)) (outcomeNotes ctx r
      (plans.zip (s.commitAll ctx now (plans.map fun plan => plan.change)).1)) := by
  induction plans generalizing s with
  | nil => exact ⟨rfl, rfl, fun _ _ _ => rfl⟩
  | cons plan plans ih =>
    have hadv : s.Advances (s.commit ctx now plan.change).2 :=
      ⟨hs.commit ctx now plan.change, fun _ _ => .commit hs plan.change⟩
    have hrest := ih hadv.consistent fun plan' hmem s' hs' =>
      hplanned plan' (List.mem_cons_of_mem plan hmem) s' (hadv.trans hs')
    have hfirst : Supersedes [(s, (s.commit ctx now plan.change).2)]
        (outcomeNotes ctx r [(plan, (s.commit ctx now plan.change).1)]) := by
      rcases commit_cases hs ctx now plan.change with ⟨k, hacc, hcommit, -⟩ | ⟨e, -, hcommit⟩
      · -- the commit checks what the plan was made from, so the plan fits the store as it is
        have hplanned' := hplanned plan List.mem_cons_self s (.refl hs) hacc
        obtain ⟨tr, v, t, hplan⟩ := hplanned'.commit hs now
        have hplans := hplan.plans
        cases hplans with
        | assign =>
        rw [himmediate] at hplan
        obtain ⟨hcanceled, hrecalled⟩ := hplan.turned_of_immediate hs hacc
        simp only [hcommit, outcomeNotes, List.flatMap_singleton]
        refine ⟨?_, ?_, fun c hc _ => ?_⟩
        · rw [Counter.total_counted, Counter.total_published, List.flatMap_singleton, hcanceled]
          rfl
        · rw [List.flatMap_singleton, hrecalled]
        · rw [Counter.total_counted, if_neg hc.symm, Counter.total_published]
      · simp only [hcommit, outcomeNotes, List.flatMap_singleton]
        refine ⟨?_, ?_, fun c _ hc => ?_⟩
        · rw [List.flatMap_singleton,
            turned_of_subset hs Action.endsCanceled_self (List.Subset.refl _)]
          split <;> rfl
        · rw [List.flatMap_singleton,
            turned_of_subset hs Action.getsRecalled_self (List.Subset.refl _)]
        · split
          · simp [Counter.total, hc.symm]
          · rfl
    have hboth := hfirst.append hrest
    rwa [outcomeNotes, outcomeNotes, ← List.flatMap_append] at hboth

/-- A change that a batch has decided on is accepted only where it still fits. -/
theorem planned_of_sortDecisions {b : BatchView} {ids : List String} {acc acc' : AssignmentResult}
    {t : Instant} (hb : b.Loaded Advances ctx ids s) {plans : List Plan}
    (hsorted : sortDecisions (ids.map fun c => (c, decideTarget ctx p r b t c)) acc = (acc', plans))
    {plan : Plan} (hplan : plan ∈ plans) (hs : s.Advances s') (hacc : s'.Accepts ctx plan.change) :
    s'.Planned ctx (.assign p r) plan.change := by
  obtain rfl : _ = plans := congrArg Prod.snd hsorted
  rw [sortDecisions_plans, List.mem_filterMap] at hplan
  obtain ⟨⟨c, d⟩, hd, hpick⟩ := hplan
  obtain ⟨c, hc, heq⟩ := List.mem_map.mp hd
  obtain ⟨rfl, rfl⟩ := Prod.mk.inj heq
  dsimp only at hpick
  split at hpick
  · rename_i plan' hdecided
    obtain rfl := Option.some.inj hpick
    obtain ⟨tr, v, hread⟩ := hb.readPlan rely_advances hs hc hdecided
    exact hread.planned_of_accepts hacc
  · cases hpick

/-- A batch cancels what it supersedes, and counts it, whatever others do in between but
deletions. -/
theorem Batched.supersedes (hx : ctx.tenantId ≠ "")
    (himmediate : p.supersede = .immediate) {ids : List String} {acc a : AssignmentResult}
    (hb : Batched Advances ctx p r ids acc s a ds s') : Deed.Supersedes ds := by
  cases hb with
  | @intro s₁ s₂ s₃ s₄ _ _ t now acc' plans outcomes h₁ h₂ h₃ h₄ reads decides commits =>
  refine reads.supersedes.append ?_
  rw [commitDeeds]
  split
  · exact Deed.Quiet.nil.supersedes
  · rename_i hne
    have h₂₄ : s₂.Advances s₄ := by
      have h₂₃ : s₂.Advances s₃ := by
        rcases h₃ with h₃ | rfl
        · exact h₃
        · exact .refl h₂.consistent
      rcases h₄ with h₄ | ⟨rfl, -⟩
      · exact h₂₃.trans h₄
      · exact absurd rfl hne
    have hread : BatchView.Loaded Advances ⟨s₁.findTargets ctx ids, s₂.activeOfAll ctx.tenantId ids,
        if 0 < p.maxActions then s₃.countsOf ctx.tenantId ids else []⟩ ctx ids s₄ :=
      ⟨s₁, s₂, h₁.consistent, rfl, h₂, rfl, h₂₄⟩
    have hcommits := supersedes_commits h₂₄.consistent himmediate now fun plan hplan s' hs' hacc =>
      planned_of_sortDecisions hread decides hplan hs' hacc
    rw [commits] at hcommits
    have hturns (ns : List Note) : (ns.map Deed.noted).flatMap Deed.turns = [] := by
      simp [Deed.turns]
    rw [Deed.Supersedes, List.flatMap_cons, hturns, List.append_nil, Deed.turns, if_neg hx]
    show FleetUpdate.Supersedes _ (Deed.notes (List.map Deed.noted _))
    rw [Deed.notes_map_noted]
    exact hcommits

/-- All batches of an assignment cancel what they supersede, and count it. -/
theorem yields_assignBatches_supersedes {times : Instant → Prop}
    {E : DeploymentError → List Deed → Store → Prop} (hx : ctx.tenantId ≠ "")
    (himmediate : p.supersede = .immediate) (i : Nat) (bs : List (List String))
    (acc : AssignmentResult) : (assignBatches ctx p r i bs acc).Yields Advances times
      (fun _ ds _ => Deed.Supersedes ds) E s := by
  induction bs generalizing i acc s E with
  | nil => exact Deed.Quiet.nil.supersedes
  | cons ids rest ih =>
    refine yields_bind.mpr ((yields_assignBatch_batched (fun _ _ h => h.consistent) hx).mono ?_
      fun _ _ _ hE => hE)
    intro a ds s' hb
    refine yields_bind.mpr (yields_log.mpr ((ih (i + 1) a).mono ?_ fun _ _ _ hE => hE))
    intro a' ds' _ hrest
    exact (hb.supersedes hx himmediate).append
      ((Deed.Quiet.lines [_]).supersedes.append hrest)

/-- If nobody comes in between, the batches enter all targets as well. -/
theorem yields_assignBatches_still {E : DeploymentError → List Deed → Store → Prop}
    {all : List String} {made : List Action} (hx : ctx.tenantId ≠ "")
    (himmediate : p.supersede = .immediate) (i : Nat) (bs : List (List String))
    {acc : AssignmentResult} (h : acc.Accounts ctx bs.flatten all made) :
    (assignBatches ctx p r i bs acc).Yields Still (fun _ => True)
      (fun a ds _ => a.Accounts ctx [] all (made ++ Deed.created ds) ∧ Deed.Supersedes ds) E s := by
  have haccounts : (assignBatches ctx p r i bs acc).Yields Still (fun _ => True)
      (fun a ds _ => a.Accounts ctx [] all (made ++ Deed.created ds)) E s :=
    (yields_assignBatches i bs hx h).rely_mono fun _ _ hstill => hstill.2
  have hsupersedes : (assignBatches ctx p r i bs acc).Yields Still (fun _ => True)
      (fun _ ds _ => Deed.Supersedes ds) E s := by
    refine (yields_assignBatches_supersedes hx himmediate i bs acc).rely_mono ?_
    rintro s _ ⟨rfl, hs⟩
    exact .refl hs
  exact (haccounts.and hsupersedes).mono (fun _ _ _ h => h) fun _ _ _ h => h.1

theorem counts_assignSet (himmediate : p.supersede = .immediate) :
    Counts (.assign p r) (assignSet p ctx r) s := by
  refine yields_bind.mpr (yields_write.mpr (yields_bind.mpr (yields_count.mpr ?_)))
  have hcheck := @yields_checkRequest s ctx p r 0 (fun _ => True) Still (fun _ _ h => h.2) trivial
  refine yields_bind.mpr (hcheck.mono ?_ ?_)
  · rintro - ds s' ⟨hx, hds, -⟩
    refine yields_bind.mpr (yields_log.mpr (yields_bind.mpr ?_))
    have hstart := AssignmentResult.Accounts.start_batches p ctx r.controllerIds.eraseDups
    refine (yields_assignBatches_still (E := fun _ _ _ => False) hx himmediate 0 _ hstart).mono ?_
      fun _ _ _ hno => hno.elim
    rintro result ds' s'' ⟨haccounts, hds'⟩
    simp only [bind_eq, yields_bind, yields_count, yields_log, pure_eq, yields_done]
    -- as created it counts the targets that it lists as assigned, one for each that it has created
    have hcreated : (Deed.created ds').length = result.assigned := haccounts.length_made
    have hcanceled : Deed.counted .actionsSuperseded ds' = (Deed.canceled ds').length :=
      hds'.canceled
    have hrecalled : Deed.recalled ds' = [] := hds'.recalled
    have hothers (c : Counter) (hc : c ≠ .actionsSuperseded) (hc' : c ≠ .optimisticConflicts) :
      Deed.counted c ds' = 0 := hds'.others c hc hc'
    rw [← hcreated]
    constructor <;>
      simp [hds.counted, hds.created, hds.canceled, hds.recalled, hcanceled, hrecalled, hothers] <;>
      rfl
  · rintro e ds s' ⟨hds, -⟩
    constructor <;> simp [hds.counted, hds.created, hds.canceled, hds.recalled] <;> rfl

end Assign

/-! ## Any calls -/

/-- In the immediate mode every call that runs alone counts what happens. -/
theorem Call.counts_program {s : Store} (hs : s.Consistent) {call : Call} (hcall : call.IsImmediate)
    (ctx : Context) : Counts call (call.program ctx) s := by
  cases call with
  | assign p r => exact counts_assignSet hcall
  | act i what =>
    cases what with
    | cancel => exact counts_cancelAction hs
    | forceQuit => exact counts_forceQuitAction hs
    | force => exact counts_forceAction hs
    | report r => exact counts_reportStatus hs
    | reportCancel r => exact counts_reportCancel hs
    | confirm messages => exact counts_confirmAction hs
    | deny messages => exact counts_denyAction hs
  | recalculate c => exact counts_recalculateStatus hs
  | register c => exact counts_findOrRegister hs

/-- Calls in the immediate mode have been completed one after the other, from a store on at which
the counters were zero, whatever the clock has shown them; clients have asked for what they liked in
between, only that they had no changes of their own committed.  This is the store by now, with all
that has been done and what the calls account for together. -/
inductive Booked (s₀ : Store) : Store → List Deed → Account → Prop where
  | start : Booked s₀ s₀ [] 0
  | client {s : Store} {ds : List Deed} {account : Account} (before : Booked s₀ s ds account)
      (o : Op) (quiet : o.request.CommitsNothing) :
      Booked s₀ (s.after o) (ds ++ [.asked o.ctx o.request o.now s]) account
  | call {s s' : Store} {ds ds' : List Deed} {account : Account} (before : Booked s₀ s ds account)
      (ctx : Context) {call : Call} (immediate : call.IsImmediate)
      {x : Except DeploymentError call.Reply}
      (does : (call.program ctx).Does (fun _ => True) s x s' ds') :
      Booked s₀ s' (ds ++ ds') (account + call.account x)

namespace Booked

variable {s₀ s : Store} {ds : List Deed} {account : Account}

theorem consistent (h : Booked s₀ s ds account) (hs : s₀.Consistent) : s.Consistent := by
  induction h with
  | start => exact hs
  | client _ o _ ih => exact ih.after o
  | call _ _ _ does ih => exact does.consistent ih

/-- All that has been done is counted. -/
theorem balances (h : Booked s₀ s ds account) (hs : s₀.Consistent) : account.Balances ds := by
  induction h with
  | start => exact Deed.Quiet.nil.balances
  | client before o quiet ih =>
    have hasked := Deed.Quiet.of_commitsNothing (o := o) (before.consistent hs) quiet
    have hboth := ih.append hasked.balances
    rwa [Account.add_zero] at hboth
  | @call _ _ _ _ _ before ctx call immediate x does ih =>
    refine ih.append ?_
    have hbefore := before.consistent hs
    obtain ⟨hreply, herror⟩ := Yields.of_does (call.counts_program hbefore immediate ctx)
      (fun _ hs => ⟨rfl, hs⟩) hbefore does
    cases x with
    | ok a => exact hreply a rfl
    | error e => exact herror e rfl

end Booked

/-! ## Machine counters -/

/-- What a counter shows after some notes have been made: a machine word that has started at zero,
and wraps around. -/
def Counter.shown (c : Counter) (ns : List Note) : UInt64 :=
  ns.foldl (fun shown n => shown + .ofNat (c.total [n])) 0

/-- A counter shows what has been counted, as far as a word can. -/
theorem Counter.shown_eq (c : Counter) (ns : List Note) : c.shown ns = .ofNat (c.total ns) := by
  suffices h : ∀ k : Nat, ns.foldl (fun (shown : UInt64) n => shown + .ofNat (c.total [n]))
      (.ofNat k) = .ofNat (k + c.total ns) by
    exact (h 0).trans (by rw [Nat.zero_add])
  induction ns with
  | nil => exact fun k => rfl
  | cons n ns ih =>
    intro k
    rw [List.foldl_cons, ← UInt64.ofNat_add, ih, Nat.add_assoc, ← c.total_append]
    rfl

/-- The counters, which have started at zero and have taken in these notes, show what has become of
actions by these deeds, and what the account says. -/
structure Ledger (ns : List Note) (ds : List Deed) (account : Account) : Prop where
  created : Counter.shown .actionsCreated ns = .ofNat (Deed.created ds).length
  canceled : Counter.shown .actionsSuperseded ns + Counter.shown .actionsCanceled ns =
    .ofNat (Deed.canceled ds).length
  recalled : Counter.shown .cancelRequests ns = .ofNat (Deed.recalled ds).length
  quits : Counter.shown .forceQuits ns = .ofNat account.quits
  reports : Counter.shown .statusUpdates ns = .ofNat account.reports
  skipped : Counter.shown .targetsAlreadyAssigned ns = .ofNat account.skipped
  failures : Counter.shown .targetsFailed ns = .ofNat account.failures

theorem Account.Balances.ledger {account : Account} {ds : List Deed} (h : account.Balances ds) :
    Ledger (Deed.notes ds) ds account := by
  have hshown (c : Counter) : c.shown (Deed.notes ds) = .ofNat (Deed.counted c ds) :=
    c.shown_eq (Deed.notes ds)
  constructor <;> simp only [hshown]
  · rw [h.created]
  · rw [← UInt64.ofNat_add, h.canceled]
  · rw [h.recalled]
  · rw [h.quits]
  · rw [h.reports]
  · rw [h.skipped]
  · rw [h.failures]

/-- Calls in the immediate mode are completed one after the other, whatever their outcome and
however the clock moves, and clients ask for what they like in between, only that they have no
changes of their own committed.  Then the counters are a ledger of all that has happened. -/
theorem Booked.ledger_of_calls {s₀ s : Store} {ds : List Deed} {account : Account}
    (hs : s₀.Consistent) (h : Booked s₀ s ds account) : Ledger (Deed.notes ds) ds account :=
  (h.balances hs).ledger

/-! ## Tasks -/

/-- The notes that are made in a task. -/
def Task.notes (s : Store) : Task → List Note
  | .call ctx c time => ((c.program ctx).runOn time s).notes
  | .request _ => []

/-- What is done in a task. -/
def Task.deeds (s : Store) : Task → List Deed
  | .call ctx c time => (c.program ctx).deeds time s
  | .request o => [.asked o.ctx o.request o.now s]

/-- What a task accounts for. -/
def Task.account (s : Store) : Task → Account
  | .call ctx c time => c.account ((c.program ctx).runOn time s).result
  | .request _ => 0

/-- The task is no call, or one in the immediate mode. -/
def Task.IsImmediate : Task → Prop
  | .call _ c _ => c.IsImmediate
  | .request _ => True

theorem Task.notes_deeds (s : Store) (task : Task) : Deed.notes (task.deeds s) = task.notes s := by
  cases task with
  | call ctx call time => exact (call.program ctx).notes_deeds time s
  | request o => rfl

namespace Store

/-- Tasks, each with the store that it is done on. -/
def stages (s : Store) : List Task → List (Store × Task)
  | [] => []
  | task :: tasks => (s, task) :: (s.afterTask task).stages tasks

/-- The notes that tasks make one after the other. -/
def notesOf (s : Store) (tasks : List Task) : List Note :=
  (s.stages tasks).flatMap fun x => x.2.notes x.1

/-- What tasks do one after the other. -/
def deedsOf (s : Store) (tasks : List Task) : List Deed :=
  (s.stages tasks).flatMap fun x => x.2.deeds x.1

/-- What tasks account for together. -/
def accountOf (s : Store) (tasks : List Task) : Account :=
  ((s.stages tasks).map fun x => x.2.account x.1).sum

theorem notes_deedsOf (s : Store) (tasks : List Task) :
    Deed.notes (s.deedsOf tasks) = s.notesOf tasks := by
  rw [Deed.notes, deedsOf, List.filterMap_flatMap]
  exact List.flatMap_congr fun x _ => x.2.notes_deeds x.1

end Store

/-- Tasks that are done one after the other, while the clock stands still during each of them, are
booked. -/
theorem Booked.afterTasks {s₀ s : Store} {ds : List Deed} {account : Account}
    (h : Booked s₀ s ds account) {tasks : List Task}
    (htasks : ∀ task ∈ tasks, ¬ task.IsRaw ∧ task.IsImmediate) :
    Booked s₀ (s.afterTasks tasks) (ds ++ s.deedsOf tasks) (account + s.accountOf tasks) := by
  induction tasks generalizing s ds account with
  | nil =>
    show Booked s₀ s (ds ++ []) (account + 0)
    rwa [List.append_nil, Account.add_zero]
  | cons task tasks ih =>
    obtain ⟨hraw, himmediate⟩ := htasks task List.mem_cons_self
    have hfirst : Booked s₀ (s.afterTask task) (ds ++ task.deeds s) (account + task.account s) := by
      cases task with
      | call ctx call time => exact h.call ctx himmediate (does_runOn trivial _ s)
      | request o =>
        show Booked s₀ (s.after o) _ (account + 0)
        rw [Account.add_zero]
        exact h.client o (Task.commitsNothing hraw)
    have hrest := ih hfirst fun task' hmem => htasks task' (List.mem_cons_of_mem task hmem)
    rwa [List.append_assoc, Account.add_assoc] at hrest

namespace Store

/-- In particular the counters that a run of tasks leaves, started at zero, are a ledger of the
tasks. -/
theorem ledger_of_tasks {s : Store} (hs : s.Consistent) {tasks : List Task}
    (htasks : ∀ task ∈ tasks, ¬ task.IsRaw ∧ task.IsImmediate) :
    Ledger (s.notesOf tasks) (s.deedsOf tasks) (s.accountOf tasks) := by
  have hbooked : Booked s (s.afterTasks tasks) _ _ := Booked.start.afterTasks htasks
  have hledger := (hbooked.balances hs).ledger
  rwa [List.nil_append, Account.zero_add, notes_deedsOf] at hledger

/-- A device gets an assignment and starts on it.  Then the assignment is canceled, twice, and after
the device has agreed nothing is left to quit. -/
def sampleDay : List Task :=
  [.call sampleContext (.assign .standard (.forced 1 ["device", "unknown"])) 2,
    .call sampleContext (.act 1 (.report ⟨.running, [], none, none⟩)) 3,
    .call sampleContext (.act 1 .cancel) 4,
    .call sampleContext (.act 1 .cancel) 5,
    .call sampleContext (.act 1 (.reportCancel ⟨.canceled, [], none, none⟩)) 6,
    .call sampleContext (.act 1 .forceQuit) 7]

/-- The second cancellation and the force quit have failed, and do not count. -/
theorem sampleDay_ledger :
    Ledger (sample.notesOf sampleDay) (sample.deedsOf sampleDay) (sample.accountOf sampleDay) ∧
    (Deed.created (sample.deedsOf sampleDay)).length = 1 ∧
    (Deed.canceled (sample.deedsOf sampleDay)).length = 1 ∧
    (Deed.recalled (sample.deedsOf sampleDay)).length = 1 ∧
    sample.accountOf sampleDay = ⟨0, 2, 0, 1⟩ := by
  have htasks : ∀ task ∈ sampleDay, ¬ task.IsRaw ∧ task.IsImmediate := by
    intro task htask
    simp only [sampleDay, List.mem_cons, List.not_mem_nil, or_false] at htask
    rcases htask with rfl | rfl | rfl | rfl | rfl | rfl <;>
      exact ⟨id, by first | rfl | trivial⟩
  have hbooked : Booked sample (sample.afterTasks sampleDay) _ _ := Booked.start.afterTasks htasks
  have hledger := hbooked.ledger_of_calls sample_reachable.consistent
  rw [List.nil_append, Account.zero_add, notes_deedsOf] at hledger
  exact ⟨hledger, by decide +kernel⟩

end Store

end FleetUpdate
