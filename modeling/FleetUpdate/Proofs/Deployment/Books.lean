import FleetUpdate.Proofs.Deployment.Aging
import FleetUpdate.Proofs.Deployment.Partition
import FleetUpdate.Proofs.Deployment.Unchanged
import FleetUpdate.Proofs.Store.Turnings

/-!
# The books of a call

A call counts what it does at about a dozen places, some judged by the plan, some by what the commit
has handed back, some before the commit and some after it.  Yet its books balance: a call that runs
alone has counted just what has happened, the actions it has created, those it has canceled for good
and those it has asked to stop, and what it accounts for by its result (`Account.Balances`).  It is
shown here of the calls about one action or one target (`Program.Counts`).
-/

namespace FleetUpdate

open Program Store

/-! ## Accounts -/

/-- The active actions that deeds have canceled for good. -/
abbrev Deed.canceled (ds : List Deed) : List Action := Deed.happened (turned Action.endsCanceled) ds

/-- The actions that deeds have asked to stop. -/
abbrev Deed.recalled (ds : List Deed) : List Action := Deed.happened (turned Action.getsRecalled) ds

/-- What calls are counted for by their results, besides what becomes of the actions. -/
structure Account where
  /-- The force quits that have succeeded. -/
  quits : Nat
  /-- The reports of devices that have been taken in. -/
  reports : Nat
  /-- The targets that assignments have found to have the distribution set already. -/
  skipped : Nat
  /-- The targets that assignments have left out. -/
  failures : Nat
  deriving DecidableEq

namespace Account

instance : Zero Account := ⟨⟨0, 0, 0, 0⟩⟩

instance : Add Account :=
  ⟨fun x y => ⟨x.quits + y.quits, x.reports + y.reports, x.skipped + y.skipped,
    x.failures + y.failures⟩⟩

/-- What deeds have counted is what has happened to actions, and what the account says. -/
structure Balances (account : Account) (ds : List Deed) : Prop where
  created : Deed.counted .actionsCreated ds = (Deed.created ds).length
  canceled : Deed.counted .actionsSuperseded ds + Deed.counted .actionsCanceled ds =
    (Deed.canceled ds).length
  recalled : Deed.counted .cancelRequests ds = (Deed.recalled ds).length
  quits : Deed.counted .forceQuits ds = account.quits
  reports : Deed.counted .statusUpdates ds = account.reports
  skipped : Deed.counted .targetsAlreadyAssigned ds = account.skipped
  failures : Deed.counted .targetsFailed ds = account.failures

variable {x y : Account} {ds ds' : List Deed}

theorem zero_add (x : Account) : 0 + x = x := by
  show Account.mk (0 + x.quits) (0 + x.reports) (0 + x.skipped) (0 + x.failures) = x
  simp only [Nat.zero_add]

theorem add_zero (x : Account) : x + 0 = x := rfl

theorem add_assoc (x y z : Account) : x + y + z = x + (y + z) := by
  show Account.mk (x.quits + y.quits + z.quits) (x.reports + y.reports + z.reports)
    (x.skipped + y.skipped + z.skipped) (x.failures + y.failures + z.failures) = _
  simp only [Nat.add_assoc]
  rfl

theorem Balances.append (h : x.Balances ds) (h' : y.Balances ds') :
    (x + y).Balances (ds ++ ds') := by
  constructor <;>
    simp only [Deed.counted_append, Deed.happened_append, List.length_append]
  · rw [h.created, h'.created]
  · rw [← h.canceled, ← h'.canceled]
    omega
  · rw [h.recalled, h'.recalled]
  · exact congrArg₂ (· + ·) h.quits h'.quits
  · exact congrArg₂ (· + ·) h.reports h'.reports
  · exact congrArg₂ (· + ·) h.skipped h'.skipped
  · exact congrArg₂ (· + ·) h.failures h'.failures

end Account

theorem Deed.Quiet.canceled {ds : List Deed} (h : Deed.Quiet ds) : Deed.canceled ds = [] :=
  h.happened _ fun _ _ hs hsub => turned_of_subset hs Action.endsCanceled_self hsub

theorem Deed.Quiet.recalled {ds : List Deed} (h : Deed.Quiet ds) : Deed.recalled ds = [] :=
  h.happened _ fun _ _ hs hsub => turned_of_subset hs Action.getsRecalled_self hsub

/-- Where nothing happens, there is nothing to account for. -/
theorem Deed.Quiet.balances {ds : List Deed} (h : Deed.Quiet ds) : (0 : Account).Balances ds := by
  constructor <;> simp only [h.counted, h.created, h.canceled, h.recalled] <;> rfl

/-- Looking around before something happens does not show in the books. -/
theorem Account.Balances.prepend {x : Account} {ds ds' : List Deed} (hds : Deed.Quiet ds)
    (h : x.Balances ds') : x.Balances (ds ++ ds') := by
  have hboth := hds.balances.append h
  rwa [Account.zero_add] at hboth

/-- The force quits that a call about an action stands for. -/
def ActionCall.quits : ActionCall → Nat
  | forceQuit => 1
  | _ => 0

/-- The reports that a call about an action stands for. -/
def ActionCall.reports : ActionCall → Nat
  | report _ | reportCancel _ => 1
  | _ => 0

/-- What a call accounts for by its result. -/
def Call.account : (call : Call) → Except DeploymentError call.Reply → Account
  | act _ what, .ok _ => ⟨what.quits, what.reports, 0, 0⟩
  | assign .., .ok result => ⟨0, 0, result.alreadyAssigned, result.failed.length⟩
  | _, _ => 0

/-- A call that fails accounts for nothing. -/
theorem Call.account_error (call : Call) (e : DeploymentError) : call.account (.error e) = 0 := by
  cases call <;> rfl

/-! ## Looking around -/

namespace Program

variable {α β : Type} {p : Program α} {P : α → Prop} {s : Store} {ctx : Context} {call : Call}

/-- Nobody else comes in between. -/
abbrev Still (s s' : Store) : Prop := s' = s ∧ s'.Consistent

/-- Alone at a store, the program only looks around, and returns something as `P` says or fails. -/
def Looks (p : Program α) (P : α → Prop) (s : Store) : Prop :=
  p.Yields Still (fun _ => True) (fun a ds s' => s' = s ∧ Deed.Quiet ds ∧ P a)
    (fun _ ds _ => Deed.Quiet ds) s

/-- Alone at a store, the program counts what happens. -/
def Counts (call : Call) (p : Program call.Reply) (s : Store) : Prop :=
  p.Yields Still (fun _ => True) (fun a ds _ => (call.account (.ok a)).Balances ds)
    (fun e ds _ => (call.account (.error e)).Balances ds) s

theorem Looks.bind {f : α → Program β} {P' : β → Prop} (h : p.Looks P s)
    (hf : ∀ a, P a → (f a).Looks P' s) : (p.bind f).Looks P' s := by
  refine yields_bind.mpr (Yields.mono h ?_ fun _ _ _ hquiet => hquiet)
  rintro a ds _ ⟨rfl, hds, ha⟩
  refine (hf a ha).mono ?_ fun _ _ _ hquiet => hds.append hquiet
  rintro b ds' s' ⟨rfl, hds', hb⟩
  exact ⟨rfl, hds.append hds', hb⟩

theorem Looks.counts_bind {f : α → Program call.Reply} (h : p.Looks P s)
    (hf : ∀ a, P a → Counts call (f a) s) : Counts call (p.bind f) s := by
  refine yields_bind.mpr (Yields.mono h ?_ fun _ _ _ hquiet => by
    rw [call.account_error]
    exact hquiet.balances)
  rintro a ds _ ⟨rfl, hds, ha⟩
  exact (hf a ha).mono (fun _ _ _ hbooks => hbooks.prepend hds) fun _ _ _ hbooks =>
    hbooks.prepend hds

theorem looks_done {a : α} (ha : P a) : (done a).Looks P s := ⟨rfl, .nil, ha⟩

theorem looks_recordedNow : recordedNow.Looks (fun _ => True) s :=
  fun _ _ => ⟨rfl, .nil, trivial⟩

theorem looks_ofExcept {x : Except DeploymentError α} :
    (ofExcept x).Looks (fun a => x = .ok a) s := by
  cases x with
  | ok a => exact looks_done rfl
  | error e => exact Deed.Quiet.nil

theorem looks_require {e : Entity} {id : String} {x : Option α} :
    (require e id x).Looks (fun a => x = some a) s := by
  cases x with
  | some a => exact looks_done rfl
  | none => exact Deed.Quiet.nil

theorem looks_lookup {r : Request} {find : Store → r.Answer} (hr : r.IsLookup)
    (hfind : ∀ (s : Store) now, s.answer ctx now r = (.ok (find s), s)) (hs : s.Consistent) :
    (request ctx r).Looks (fun a => ctx.tenantId ≠ "" ∧ a = find s) s := by
  refine yields_request.mpr ?_
  rintro _ ⟨rfl, -⟩ now
  have hquiet := Deed.Quiet.lookup hs hr ctx now
  unfold Store.perform
  by_cases hx : ctx.tenantId = ""
  · rw [if_pos hx]
    exact hquiet
  · rw [if_neg hx, hfind]
    exact ⟨rfl, hquiet, hx, rfl⟩

theorem looks_loadAction {i : Int} (hs : s.Consistent) :
    (loadAction ctx i).Looks
      (fun a => ctx.tenantId ≠ "" ∧ a ∈ s.actionsOf ctx.tenantId a.controllerId ∧ a.id = i) s := by
  refine (looks_lookup (r := .findAction i) trivial (fun _ _ => rfl) hs).bind ?_
  rintro _ ⟨hx, rfl⟩
  refine Yields.mono looks_require ?_ fun _ _ _ h => h
  rintro a ds s' ⟨hs', hds, ha⟩
  obtain ⟨hmem, hid, htenant⟩ := (action?_eq_some_iff hs).mp ha
  refine ⟨hs', hds, hx, mem_actionsOf.mpr ⟨hmem, ?_⟩, hid⟩
  rw [Action.owner, htenant]

theorem looks_loadView {c : String} (hs : s.Consistent) :
    (loadView ctx c).Looks (fun v => ctx.tenantId ≠ "" ∧ ∃ t, s.target? ctx.tenantId c = some t ∧
      v = .ofActions t (s.activeOf ctx.tenantId c)) s := by
  refine (looks_lookup (r := .findTarget c) trivial (fun _ _ => rfl) hs).bind ?_
  rintro _ ⟨hx, rfl⟩
  refine looks_require.bind fun t ht => ?_
  refine (looks_lookup (r := .findActive c) trivial (fun _ _ => rfl) hs).bind ?_
  rintro _ ⟨-, rfl⟩
  exact looks_done ⟨hx, t, ht, rfl⟩

theorem looks_logIfCanceling {a : Action} (hs : s.Consistent) :
    (logIfCanceling ctx a).Looks (fun _ => True) s := by
  unfold logIfCanceling
  split
  · refine (looks_lookup (r := .findLog a.id) trivial (fun _ _ => rfl) hs).mono ?_
      fun _ _ _ h => h
    rintro _ _ _ ⟨hs', hds, -⟩
    exact ⟨hs', hds, trivial⟩
  · exact looks_done trivial

theorem looks_date {r : IncomingReport} :
    r.date.Looks (fun r' => ∃ time, r' = ⟨r.status, r.messages, r.code, time⟩) s := by
  unfold IncomingReport.date
  split
  · exact looks_done ⟨_, rfl⟩
  · exact looks_recordedNow.bind fun t _ => looks_done ⟨t, rfl⟩

/-- A call about one action looks at the action and at its target first. -/
theorem counts_load {i : Int} {what : ActionCall} {f : Action → TargetView → Program Action}
    (hs : s.Consistent)
    (h : ∀ a v, a.id = i → s.Reads ctx a v → Counts (.act i what) (f a v) s) :
    Counts (.act i what)
      ((loadAction ctx i).bind fun a => (loadView ctx a.controllerId).bind (f a)) s := by
  refine (looks_loadAction hs).counts_bind fun a ha => ?_
  obtain ⟨hx, hmem, hid⟩ := ha
  exact (looks_loadView hs).counts_bind fun v hv => h a v hid ⟨hx, hmem, hv.2⟩

end Program

/-! ## Commits -/

section Commit

variable {s : Store} {ctx : Context}

/-- What has happened is the commit of one change, and nothing has been counted. -/
structure Deed.Commits (s : Store) (ctx : Context) (now : Instant) (c : TargetChange)
    (ds : List Deed) : Prop where
  happened : ∀ f : Store → Store → List Action, Deed.happened f ds = f s (s.written ctx now c)
  counted : ∀ d, Deed.counted d ds = 0

/-- What a call has planned from the store as it is, is committed. -/
theorem yields_commitPlan (hs : s.Consistent) (hx : ctx.tenantId ≠ "") {c : String} {t : Target}
    (ht : s.target? ctx.tenantId c = some t) {call : Call} {tr : Transition} {p : Plan}
    (hplans : call.Plans ctx tr) (hp : tr.plan? (.ofActions t (s.activeOf ctx.tenantId c)) = some p)
    (hsubject : ∀ a, tr.subject? = some a → a ∈ s.activeOf ctx.tenantId c)
    (hsets : ∀ n ∈ p.change.newActions, (s.set? ctx.tenantId n.setId).isSome) :
    (commitPlan ctx p).Yields Still (fun _ => True)
      (fun k ds s' => ∃ now, s.FreshCommit ctx call now p k ∧ Deed.Commits s ctx now p.change ds ∧
        s' = s.written ctx now p.change)
      (fun _ _ _ => False) s := by
  have hacc := accepts_fresh_plan hs ht hsubject hp hsets
  refine yields_bind.mpr (yields_request.mpr fun s' hs' now => ?_)
  rw [hs'.1]
  obtain ⟨k, hcommit, hreceipt⟩ := commit_of_accepts hs hacc now
  have hperform : s.perform ctx now (.applyChanges [p.change]) =
      (.ok [.ok k], s.written ctx now p.change) := by
    rw [Store.perform, if_neg hx]
    show Store.done (s.commitAll ctx now [p.change]) = _
    simp only [commitAll, hcommit]
    rfl
  rw [hperform]
  refine yields_bind.mpr (yields_publish.mpr (yields_done.mpr
    ⟨now, ⟨?_, hacc, hreceipt⟩, ⟨?_, ?_⟩, rfl⟩))
  · refine ⟨tr, _, hplans, hp, current_ofActions hs ht, fun a ha => ?_⟩
    rw [active_ofActions_activeOf hs]
    exact hsubject a ha
  · intro f
    simp [-List.map_map, Deed.happened_changes hx, turns, hcommit]
  · intro d
    simp [-List.map_map]

end Commit

/-! ## One action -/

section Act

variable {s : Store} {ctx : Context} {a : Action} {v : TargetView} {p : Plan} {i : Int}
  {what : ActionCall}

/-- What a call counts when it has updated an action. -/
def ActionCall.counts (what : ActionCall) (a : Action) (w : ActionUpdate) : Counter → Nat
  | .actionsCanceled => if w.active = false ∧ w.status = .canceled then 1 else 0
  | .cancelRequests => if a.status ≠ .canceling ∧ w.status = .canceling then 1 else 0
  | .forceQuits => what.quits
  | .statusUpdates => what.reports
  | _ => 0

/-- Nothing more happens when a call has updated an action, and the call counts what it should. -/
structure ActionCall.Closes (what : ActionCall) (a : Action) (w : ActionUpdate) (ds : List Deed) :
    Prop where
  notes : ∃ ns : List Note, ds = ns.map .noted
  counted : ∀ c, Deed.counted c ds = what.counts a w c

theorem ActionCall.closes_of {w : ActionUpdate} (ns : List Note)
    (h : ∀ c : Counter, c.total ns = what.counts a w c) : what.Closes a w (ns.map .noted) := by
  refine ⟨⟨ns, rfl⟩, fun c => ?_⟩
  rw [Deed.counted, Deed.notes_map_noted, h]

/-- A call has the update of one active action committed, and gets the action as it is then. -/
structure Store.UpdatesOne (s : Store) (ctx : Context) (a : Action) (tr : Transition) (p : Plan)
    (w : ActionUpdate) (now : Instant) (u : Action) : Prop where
  turns : ∃ es ending, tr.Turns a w es ending
  accepts : s.Accepts ctx p.change
  updates : p.change.actionUpdates = [w]
  news : p.change.newActions = []
  mem : a ∈ s.actions
  active : a.active = true
  written : p.change.writeAction ctx now a = u

theorem Store.UpdatesOne.id_eq {tr : Transition} {w : ActionUpdate} {now : Instant} {u : Action}
    (h : s.UpdatesOne ctx a tr p w now u) : w.actionId = a.id := by
  obtain ⟨es, ending, hturns⟩ := h.turns
  exact hturns.action.1

/-- The action gets the status that the update says. -/
theorem Store.UpdatesOne.status_eq {tr : Transition} {w : ActionUpdate} {now : Instant} {u : Action}
    (h : s.UpdatesOne ctx a tr p w now u) : u.status = w.status ∧ u.active = w.active := by
  rw [← h.written, TargetChange.writeAction, h.updates, List.foldl_cons, List.foldl_nil,
    ActionUpdate.writeTo, if_pos h.id_eq.symm]
  exact ⟨rfl, rfl⟩

/-- A call that closes as it should, after the commit of an update of one active action. -/
theorem ActionCall.Closes.books (hs : s.Consistent) {tr : Transition} {w : ActionUpdate}
    {now : Instant} {u : Action} (hone : s.UpdatesOne ctx a tr p w now u) {ds ds' : List Deed}
    (hcommits : Deed.Commits s ctx now p.change ds) (hclose : what.Closes a w ds')
    (u' : Action) : ((Call.act a.id what).account (.ok u')).Balances (ds ++ ds') := by
  obtain ⟨⟨ns, rfl⟩, hcounted⟩ := hclose
  have hcount (d : Counter) : Deed.counted d (ds ++ ns.map .noted) = what.counts a w d := by
    rw [Deed.counted_append, hcommits.counted, hcounted, Nat.zero_add]
  have hhappened (f : Store → Store → List Action) :
      Deed.happened f (ds ++ ns.map .noted) = f s (s.written ctx now p.change) := by
    rw [Deed.happened_append, Deed.happened_map_noted, hcommits.happened, List.append_nil]
  have hwrite : w.writeTo ctx now a = { a with
      status := w.status, active := w.active, actionType := w.actionType, lastCode := w.lastCode
      revision := a.revision + 1, audit := a.audit.touch ctx.userId now } := if_pos hone.id_eq.symm
  refine ⟨?_, ?_, ?_, hcount _, hcount _, hcount _, hcount _⟩
  · rw [hcount, Deed.created, hhappened, newIn_written hs, createdBy, hone.news]
    rfl
  · rw [hcount, hcount, Deed.canceled, hhappened,
      length_turned_of_update hs hone.accepts hone.updates hone.mem hone.id_eq
        Action.endsCanceled_self, hwrite]
    simp [ActionCall.counts, Action.endsCanceled, hone.active]
  · rw [hcount, Deed.recalled, hhappened,
      length_turned_of_update hs hone.accepts hone.updates hone.mem hone.id_eq
        Action.getsRecalled_self, hwrite]
    simp [ActionCall.counts, Action.getsRecalled]

/-- A call that has planned from the store as it is updates its action. -/
theorem Store.Reads.yields_commitAction (hs : s.Consistent) (h : s.Reads ctx a v) (tr : Transition)
    (hplans : (Call.act a.id what).Plans ctx tr) (hsubject : tr.subject? = some a)
    (hp : tr.plan? v = some p) :
    (commitAction ctx p a.id).Yields Still (fun _ => True)
      (fun u ds s' => ∃ w now, s.UpdatesOne ctx a tr p w now u ∧
        Deed.Commits s ctx now p.change ds ∧ s' = s.written ctx now p.change)
      (fun _ _ _ => False) s := by
  obtain ⟨hactive, w, es, ending, hturns, hplan⟩ := tr.plan?_turns hp hsubject
  have hid := (hturns.action).1
  have hupdates : p.change.actionUpdates = [w] := by rw [hplan]; rfl
  have hnews : p.change.newActions = [] := by rw [hplan]; rfl
  have ha : a ∈ s.actions := (mem_actionsOf.mp h.action).1
  have hmem : a ∈ s.activeOf ctx.tenantId a.controllerId := mem_activeOf.mpr ⟨h.action, hactive⟩
  obtain ⟨t, ht, rfl⟩ := h.view
  have hsubject' : ∀ b, tr.subject? = some b → b ∈ s.activeOf ctx.tenantId a.controllerId := by
    intro b hb
    obtain rfl := Option.some.inj (hsubject.symm.trans hb)
    exact hmem
  refine yields_bind.mpr ?_
  refine (yields_commitPlan hs h.tenant ht hplans hp hsubject' fun n hn => ?_).mono ?_
    fun _ _ _ hno => hno
  · rw [hnews] at hn
    cases hn
  rintro k ds s' ⟨now, hfresh, hcommits, hs'⟩
  -- the commit hands back the action as it was written
  have hu : k.action? a.id = some (p.change.writeAction ctx now a) := by
    have hback := hfresh.action?_eq hs (u := w) (by simp [hupdates]) ha hid.symm
    rwa [hid] at hback
  rw [hu]
  refine yields_done.mpr ⟨w, now, ?_, by rwa [List.append_nil], hs'⟩
  exact ⟨⟨es, ending, hturns⟩, hfresh.accepts, hupdates, hnews, ha, hactive, rfl⟩

/-- A call that updates one action counts what happens by that, if it closes as it should. -/
theorem Store.Reads.counts_commit (hs : s.Consistent) (h : s.Reads ctx a v) (tr : Transition)
    (hplans : (Call.act a.id what).Plans ctx tr) (hsubject : tr.subject? = some a)
    (hp : tr.plan? v = some p) {f : Action → Program Action}
    (hf : ∀ w es ending u s', tr.Turns a w es ending → u.status = w.status →
      u.active = w.active → (f u).Yields Still (fun _ => True) (fun _ ds _ => what.Closes a w ds)
        (fun _ _ _ => False) s') :
    Counts (.act a.id what) ((commitAction ctx p a.id).bind f) s := by
  refine yields_bind.mpr ((h.yields_commitAction hs tr hplans hsubject hp).mono ?_
    fun _ _ _ hno => hno.elim)
  rintro u ds s' ⟨w, now, hone, hcommits, -⟩
  obtain ⟨es, ending, hturns⟩ := hone.turns
  obtain ⟨hstatus, hactive⟩ := hone.status_eq
  refine (hf w es ending u s' hturns hstatus hactive).mono ?_ fun _ _ _ hno => hno.elim
  exact fun u' ds' _ hclose => hclose.books hs hone hcommits u'

/-- A call about one action counts, if it closes as it should once its plan is committed. -/
theorem Store.Reads.counts_plan (hs : s.Consistent) (h : s.Reads ctx a v) (tr : Transition)
    (hplans : (Call.act a.id what).Plans ctx tr) (hsubject : tr.subject? = some a)
    {x : Except DeploymentError Plan} (hx : tr.plan? v = x.toOption) {f : Action → Program Action}
    (hf : ∀ p w es ending u s', x = .ok p → tr.Turns a w es ending → u.status = w.status →
      u.active = w.active → (f u).Yields Still (fun _ => True) (fun _ ds _ => what.Closes a w ds)
        (fun _ _ _ => False) s') :
    Counts (.act a.id what) ((ofExcept x).bind fun p => (commitAction ctx p a.id).bind f) s := by
  refine looks_ofExcept.counts_bind fun p hp => ?_
  rw [hp] at hx
  exact h.counts_commit hs tr hplans hsubject hx fun w es ending u s' => hf p w es ending u s' hp

theorem status_ne_of_planCancel {now : Instant} (h : planCancel v a now = .ok p) :
    a.status ≠ .canceling := by
  unfold planCancel at h
  split at h
  · cases h
  · split at h
    · cases h
    · assumption

theorem counts_cancelAction (hs : s.Consistent) :
    Counts (.act i .cancel) (cancelAction ctx i) s := by
  refine counts_load hs fun a v hid hreads => ?_
  subst hid
  refine looks_recordedNow.counts_bind fun t _ => ?_
  refine hreads.counts_plan hs (.cancel a t) (.act .cancel) rfl rfl ?_
  intro p w es ending u s' hp hturns hstatus hactive
  have hne := status_ne_of_planCancel hp
  -- the call judges by the record that the commit hands back, the books by the update
  cases hturns with
  | cancelNow =>
    rw [if_pos (show u.status = .canceled from hstatus)]
    refine ActionCall.closes_of [.counted .actionsCanceled 1, .logged _] fun c => ?_
    cases c <;> simp [Counter.total, ActionCall.counts, ActionCall.quits, ActionCall.reports,
      Action.moveTo]
  | askToStop =>
    rw [if_neg (show u.status ≠ .canceled by rw [hstatus]; exact ActionStatus.noConfusion)]
    refine ActionCall.closes_of [.counted .cancelRequests 1, .logged _] fun c => ?_
    cases c <;> simp [Counter.total, ActionCall.counts, ActionCall.quits, ActionCall.reports,
      Action.moveTo, hne]
  | agree htr | refuse htr | goOn htr => cases htr

theorem counts_forceQuitAction (hs : s.Consistent) :
    Counts (.act i .forceQuit) (forceQuitAction ctx i) s := by
  refine counts_load hs fun a v hid hreads => ?_
  subst hid
  refine looks_recordedNow.counts_bind fun t _ => ?_
  refine hreads.counts_plan hs (.forceQuit a t) (.act .forceQuit) rfl rfl ?_
  intro p w es ending u s' hp hturns hstatus hactive
  cases hturns with
  | forceQuit =>
    refine ActionCall.closes_of [.counted .forceQuits 1, .counted .actionsCanceled 1, .logged _]
      fun c => ?_
    cases c <;> simp [Counter.total, ActionCall.counts, ActionCall.quits, ActionCall.reports,
      Action.moveTo]
  | agree htr | refuse htr | goOn htr => cases htr

/-- A call that is neither a force quit nor a report, and by which its action is neither canceled
nor asked to stop, has nothing to count. -/
theorem ActionCall.closes_of_nothing {w : ActionUpdate} (line : Notice) (hquits : what.quits = 0)
    (hreports : what.reports = 0) (hcanceled : ¬ (w.active = false ∧ w.status = .canceled))
    (hrecalled : ¬ (a.status ≠ .canceling ∧ w.status = .canceling)) :
    what.Closes a w ([Note.logged line].map .noted) := by
  refine closes_of _ fun c => ?_
  cases c <;> simp only [counts, hquits, hreports, if_neg hcanceled, if_neg hrecalled] <;> rfl

theorem counts_forceAction (hs : s.Consistent) :
    Counts (.act i .force) (forceAction ctx i) s := by
  refine counts_load hs fun a v hid hreads => ?_
  subst hid
  cases hp : planForce v a with
  | none => exact Deed.Quiet.nil.balances
  | some p =>
    refine hreads.counts_commit hs (.force a) (.act .force) rfl hp ?_
    intro w es ending u s' hturns _ _
    cases hturns with
    | force =>
      refine ActionCall.closes_of_nothing _ rfl rfl ?_ ?_
      · exact fun hno => Bool.noConfusion hno.1
      · exact fun hno => hno.1 hno.2
    | agree htr | refuse htr | goOn htr => cases htr

theorem counts_confirmAction (hs : s.Consistent) {messages : List String} :
    Counts (.act i (.confirm messages)) (confirmAction ctx i messages) s := by
  refine counts_load hs fun a v hid hreads => ?_
  subst hid
  refine looks_recordedNow.counts_bind fun t _ => ?_
  refine hreads.counts_plan hs (.confirm a messages t) (.act .confirm) rfl rfl ?_
  intro p w es ending u s' _ hturns _ _
  cases hturns with
  | confirm =>
    refine ActionCall.closes_of_nothing _ rfl rfl ?_ ?_
    · exact fun hno => Bool.noConfusion hno.1
    · exact fun hno => ActionStatus.noConfusion hno.2
  | agree htr | refuse htr | goOn htr => cases htr

theorem counts_denyAction (hs : s.Consistent) {messages : List String} :
    Counts (.act i (.deny messages)) (denyAction ctx i messages) s := by
  refine counts_load hs fun a v hid hreads => ?_
  subst hid
  refine looks_recordedNow.counts_bind fun t _ => ?_
  refine hreads.counts_plan hs (.deny a messages t) (.act .deny) rfl rfl ?_
  intro p w es ending u s' _ hturns _ _
  cases hturns with
  | deny =>
    refine ActionCall.closes_of_nothing _ rfl rfl ?_ ?_
    · exact fun hno => Bool.noConfusion hno.1
    · exact fun hno => ActionStatus.noConfusion hno.2
  | agree htr | refuse htr | goOn htr => cases htr

/-- What a device reports never asks its action to stop. -/
theorem Transition.Turns.not_recalled {tr : Transition} {r : StatusReport}
    {log : List StatusEntry} (htr : tr = .report a r log ∨ tr = .reportCancel a r log)
    {w : ActionUpdate} {es : List NewStatusEntry} {ending : Option Termination}
    (h : tr.Turns a w es ending) : ¬ (a.status ≠ .canceling ∧ w.status = .canceling) := by
  rintro ⟨hne, hw⟩
  cases h with
  | @reportEnd r _ termination hend =>
    have hr : r.status = .canceling := hw
    simp [StatusReport.termination?, hr] at hend
  | @reportProgress r _ hnone hdevice =>
    have hr : (if a.status = .canceling then .canceling else r.status) = ActionStatus.canceling :=
      hw
    rw [if_neg hne] at hr
    rw [hr] at hdevice
    cases hdevice
  | agree _ h | refuse _ h | goOn _ h => exact hne h
  | _ => rcases htr with htr | htr <;> cases htr

/-- An answer to the request to stop ends the action only if it agrees. -/
theorem Transition.Turns.canceled_of_reportCancel {r : StatusReport} {log : List StatusEntry}
    {w : ActionUpdate} {es : List NewStatusEntry} {ending : Option Termination}
    (h : (Transition.reportCancel a r log).Turns a w es ending) (hw : w.active = false) :
    w.status = .canceled := by
  cases h with
  | agree => rfl
  | refuse | goOn => cases hw

theorem counts_reportStatus (hs : s.Consistent) {r : IncomingReport} :
    Counts (.act i (.report r)) (reportStatus ctx i r) s := by
  refine counts_load hs fun a v hid hreads => ?_
  subst hid
  refine (looks_logIfCanceling hs).counts_bind fun log _ => ?_
  refine looks_date.counts_bind fun r' hr' => ?_
  obtain ⟨time, rfl⟩ := hr'
  refine hreads.counts_plan hs (.report a ⟨r.status, r.messages, r.code, time⟩ log)
    (.act .report) rfl rfl ?_
  intro p w es ending u s' _ hturns hstatus hactive
  have hno := hturns.not_recalled (.inl rfl)
  rw [hstatus, hactive]
  -- a report can end the action otherwise, which is not counted as canceled
  by_cases hcanceled : w.active = false ∧ w.status = .canceled
  · rw [if_pos hcanceled.symm]
    refine ActionCall.closes_of [.counted .statusUpdates 1, .counted .actionsCanceled 1, .logged _]
      fun c => ?_
    cases c <;> simp only [ActionCall.counts, if_pos hcanceled, if_neg hno] <;> rfl
  · rw [if_neg fun h => hcanceled h.symm]
    refine ActionCall.closes_of [.counted .statusUpdates 1, .logged _] fun c => ?_
    cases c <;> simp only [ActionCall.counts, if_neg hcanceled, if_neg hno] <;> rfl

theorem counts_reportCancel (hs : s.Consistent) {r : IncomingReport} :
    Counts (.act i (.reportCancel r)) (reportCancel ctx i r) s := by
  refine counts_load hs fun a v hid hreads => ?_
  subst hid
  refine (looks_logIfCanceling hs).counts_bind fun log _ => ?_
  refine looks_date.counts_bind fun r' hr' => ?_
  obtain ⟨time, rfl⟩ := hr'
  refine hreads.counts_plan hs (.reportCancel a ⟨r.status, r.messages, r.code, time⟩ log)
    (.act .reportCancel) rfl rfl ?_
  intro p w es ending u s' _ hturns hstatus hactive
  have hno := hturns.not_recalled (.inr rfl)
  rw [hactive]
  -- here the call looks only at whether the action has ended, and that is enough
  by_cases hended : w.active = false
  · have hcanceled := And.intro hended (hturns.canceled_of_reportCancel hended)
    rw [if_pos hended]
    refine ActionCall.closes_of [.counted .statusUpdates 1, .counted .actionsCanceled 1, .logged _]
      fun c => ?_
    cases c <;> simp only [ActionCall.counts, if_pos hcanceled, if_neg hno] <;> rfl
  · rw [if_neg hended]
    refine ActionCall.closes_of [.counted .statusUpdates 1, .logged _] fun c => ?_
    cases c <;> simp only [ActionCall.counts, if_neg fun h : _ ∧ _ => hended h.1, if_neg hno] <;>
      rfl

end Act

/-! ## One target -/

section Target

variable {s : Store} {ctx : Context} {c : String}

/-- A commit that neither updates actions nor creates any. -/
theorem Deed.Commits.quiet (hs : s.Consistent) {now : Instant} {change : TargetChange}
    {ds : List Deed} (h : Deed.Commits s ctx now change ds)
    (hactions : (s.written ctx now change).actions = s.actions) : Deed.Quiet ds :=
  ⟨fun f hf => (h.happened f).trans (hf _ _ hs (hactions ▸ List.Subset.refl _)), h.counted⟩

theorem counts_recalculateStatus (hs : s.Consistent) :
    Counts (.recalculate c) (recalculateStatus ctx c) s := by
  refine (looks_loadView hs).counts_bind fun v hv => ?_
  obtain ⟨hx, t, ht, rfl⟩ := hv
  refine (looks_lookup (r := .findLastEnded c) trivial (fun _ _ => rfl) hs).counts_bind
    fun ended _ => ?_
  dsimp only
  split
  · exact Deed.Quiet.nil.balances
  · rename_i hne
    have hp : (Transition.recalculate ended).plan? (.ofActions t (s.activeOf ctx.tenantId c)) =
        some ⟨_, []⟩ := if_neg hne
    refine yields_bind.mpr ((yields_commitPlan hs hx ht (.recalculate (c := c)) hp
      (fun a ha => by cases ha) fun n hn => by cases hn).mono ?_ fun _ _ _ hno => hno.elim)
    rintro k ds s' ⟨now, -, hcommits, -⟩
    have hquiet : Deed.Quiet ds := by
      refine hcommits.quiet hs ?_
      show s.actions.map id ++ [] = s.actions
      simp
    refine yields_bind.mpr (yields_log.mpr (yields_done.mpr ?_))
    exact (hquiet.append (.lines [_])).balances

/-- Only commits change or create actions. -/
theorem Deed.Quiet.of_commitsNothing (hs : s.Consistent) {o : Op} (ho : o.request.CommitsNothing) :
    Deed.Quiet [.asked o.ctx o.request o.now s] :=
  .request hs ho.ne_applyChanges fun _ ha => mem_of_commitsNothing hs ho ha

/-- A program that commits nothing, and only writes lines to the log. -/
def Program.KeepsActions {α : Type} : Program α → Prop
  | done _ | fail _ => True
  | ask _ r next => r.CommitsNothing ∧ ∀ x, (next x).KeepsActions
  | clock next => ∀ t, (next t).KeepsActions
  | note n next => (∃ line, n = .logged line) ∧ next.KeepsActions

theorem Program.keepsActions_bind {α β : Type} {p : Program α} {f : α → Program β}
    (hp : p.KeepsActions) (hf : ∀ a, (f a).KeepsActions) : (p.bind f).KeepsActions := by
  induction p with
  | done a => exact hf a
  | fail e => trivial
  | ask ctx r next ih => exact ⟨hp.1, fun x => ih x (hp.2 x)⟩
  | clock next ih => exact fun t => ih t (hp t)
  | note n next ih => exact ⟨hp.1, ih hp.2⟩

theorem Program.keepsActions_request {r : Request} (hr : r.CommitsNothing) :
    (request ctx r).KeepsActions := by
  refine ⟨hr, fun x => ?_⟩
  cases x <;> trivial

theorem Program.KeepsActions.yields {α : Type} {p : Program α} (hp : p.KeepsActions)
    (hs : s.Consistent) :
    p.Yields Still (fun _ => True) (fun _ ds _ => Deed.Quiet ds) (fun _ ds _ => Deed.Quiet ds)
      s := by
  induction p generalizing s with
  | done a => exact .nil
  | fail e => exact .nil
  | ask ctx r next ih =>
    rintro _ ⟨rfl, -⟩ now
    have hasked := Deed.Quiet.of_commitsNothing (o := ⟨ctx, now, r⟩) hs hp.1
    exact (ih _ (hp.2 _) (hs.perform ctx now r)).mono (fun _ _ _ h => hasked.append h)
      fun _ _ _ h => hasked.append h
  | clock next ih => exact fun t _ => ih t (hp t) hs
  | note n next ih =>
    obtain ⟨⟨line, rfl⟩, hnext⟩ := hp
    have hline := Deed.Quiet.lines [line]
    exact (ih hnext hs).mono (fun _ _ _ h => hline.append h) fun _ _ _ h => hline.append h

theorem keepsActions_findOrRegister (ctx : Context) (c : String) :
    (findOrRegister ctx c).KeepsActions := by
  refine keepsActions_bind (keepsActions_request trivial) fun known => ?_
  have hcontact : (do
      let t ← recordedNow
      require .target c (← request ctx (.markContacted c t))).KeepsActions := by
    refine keepsActions_bind (fun t => trivial) fun t => ?_
    refine keepsActions_bind (keepsActions_request trivial) fun contacted => ?_
    cases contacted <;> trivial
  dsimp only
  split
  · refine keepsActions_bind ⟨trivial, fun created => ?_⟩ fun _ => hcontact
    cases created with
    | ok t => exact ⟨⟨_, rfl⟩, trivial⟩
    | error e =>
      dsimp only [Program.bind]
      split <;> trivial
  · exact hcontact

theorem counts_findOrRegister (hs : s.Consistent) :
    Counts (.register c) (findOrRegister ctx c) s :=
  ((keepsActions_findOrRegister ctx c).yields hs).mono
    (fun _ _ _ hquiet => hquiet.balances) fun _ _ _ hquiet => hquiet.balances

end Target

end FleetUpdate
