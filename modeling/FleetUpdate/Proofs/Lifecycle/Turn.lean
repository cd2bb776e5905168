import FleetUpdate.Proofs.Lifecycle.Transition

/-!
# What becomes of an action

`Transition.Turns` lists, one by one, all the ways in which a transition can turn an action: the
update that it writes, the log entries that go with it, and how the action ends if it does.
`Transition.plan?_turns` says that a plan about a single action is one of these and nothing else,
and `Transition.turns_of_mem_updates` that every update of any plan is.

What plans about a single action have in common (`Plan.Moves`), which actions a plan refers to
(`Transition.plan?_refers`), and which events it announces (`Transition.events_eq`), is read off the
list; no planner is opened twice.
-/

namespace FleetUpdate

namespace Transition

/-- The transition carries what a device answers to the request to stop an action.  A report of
progress is such an answer if its status says so. -/
inductive Answers (a : Action) (r : StatusReport) (log : List StatusEntry) : Transition → Prop where
  | report (h : r.status = .canceled ∨ r.status = .cancelRejected) : Answers a r log (.report a r log)
  | reportCancel : Answers a r log (.reportCancel a r log)

/-- The device is told when a transition has brought one of its actions to a status: an assignment
recalls whatever it supersedes, a cancellation only what it cannot end by itself. -/
def recalls : Transition → ActionStatus → Bool
  | assign .., _ => true
  | cancel .., status => status == .canceling
  | _, _ => false

/-- What a transition announces of an action that it updates. -/
def announces (tr : Transition) (u : ActionUpdate) : List PlannedEvent :=
  .updated u.actionId :: if tr.recalls u.status then [.cancelRequested u.actionId] else []

/-- An answer of a device recalls nothing. -/
theorem Answers.tail_announces {a : Action} {r : StatusReport} {log : List StatusEntry}
    {tr : Transition} (h : Answers a r log tr) (u : ActionUpdate) :
    (tr.announces u).tail = [] := by
  cases h <;> rfl

/-- The ways in which a transition can turn an action. -/
inductive Turns (a : Action) :
    Transition → ActionUpdate → List NewStatusEntry → Option Termination → Prop where
  | supersede {n : NewAction} {mode : SupersedeMode} {now : Instant} {status : ActionStatus}
      {active : Bool} {remark : String}
      (h : supersession mode a.status = some (status, active, remark)) :
      Turns a (.assign n mode now) (a.moveTo status active) [a.entry status now [remark] none]
        (if active then none else some .released)
  | cancelNow {now : Instant} (h : a.status.isUndispatched = true) :
      Turns a (.cancel a now) (a.moveTo .canceled false)
        [a.entry .canceled now ["canceled before dispatch"] none] (some .released)
  | askToStop {now : Instant} (h : a.status.isUndispatched = false) :
      Turns a (.cancel a now) (a.moveTo .canceling true)
        [a.entry .canceling now ["cancel requested"] none] none
  | forceQuit {now : Instant} (h : a.status = .canceling) :
      Turns a (.forceQuit a now) (a.moveTo .canceled false)
        [a.entry .canceled now ["canceled by force quit"] none] (some .released)
  | force (h : a.actionType = .soft) :
      Turns a (.force a) { a.moveTo a.status true with actionType := .forced } [] none
  | reportEnd {r : StatusReport} {log : List StatusEntry} {termination : Termination}
      (hr : r.termination? a.actionType = some termination) :
      Turns a (.report a r log) { a.moveTo r.status false with lastCode := r.codeOver a }
        [r.entry a] (some termination)
  | reportProgress {r : StatusReport} {log : List StatusEntry}
      (hr : r.termination? a.actionType = none) (hdevice : r.status.isDeviceReportable = true)
      (hprogress : r.status ≠ .canceled ∧ r.status ≠ .cancelRejected) :
      Turns a (.report a r log)
        { a.moveTo (if a.status = .canceling then .canceling else r.status) true with
          lastCode := r.codeOver a } [r.entry a] none
  | agree {tr : Transition} {r : StatusReport} {log : List StatusEntry} (htr : tr.Answers a r log)
      (h : a.status = .canceling) (hr : r.status = .canceled) :
      Turns a tr { a.moveTo .canceled false with lastCode := r.codeOver a } [r.entry a]
        (some .released)
  | refuse {tr : Transition} {r : StatusReport} {log : List StatusEntry} (htr : tr.Answers a r log)
      (h : a.status = .canceling) (hr : r.status = .cancelRejected ∨ r.status = .error) :
      Turns a tr { a.moveTo (statusBeforeCanceling log) true with lastCode := r.codeOver a }
        [r.entry a] none
  | goOn {tr : Transition} {r : StatusReport} {log : List StatusEntry} (htr : tr.Answers a r log)
      (h : a.status = .canceling)
      (hr : r.status ≠ .canceled ∧ r.status ≠ .cancelRejected ∧ r.status ≠ .error) :
      Turns a tr { a.moveTo .canceling true with lastCode := r.codeOver a } [r.entry a] none
  | confirm {messages : List String} {now : Instant} (h : a.status = .waitForConfirmation) :
      Turns a (.confirm a messages now) (a.moveTo .running true)
        [a.entry .running now ("assignment confirmed" :: messages) none] none
  | deny {messages : List String} {now : Instant} (h : a.status = .waitForConfirmation) :
      Turns a (.deny a messages now) (a.moveTo .waitForConfirmation true)
        [a.entry .waitForConfirmation now ("assignment denied" :: messages) none] none

namespace Turns

variable {a : Action} {tr : Transition} {u : ActionUpdate} {es : List NewStatusEntry}
  {ending : Option Termination}

/-- The update is about the action, at the revision it was read at. -/
theorem action (h : tr.Turns a u es ending) :
    u.actionId = a.id ∧ u.expectedRevision = a.revision := by
  cases h <;> exact ⟨rfl, rfl⟩

theorem entries (h : tr.Turns a u es ending) : ∀ e ∈ es, e.action = .existing a.id := by
  cases h <;> simp [Action.entry, StatusReport.entry]

/-- A transition about an action turns no other. -/
theorem eq_of_subject? (h : tr.Turns a u es ending) {b : Action} (hb : tr.subject? = some b) :
    b = a := by
  cases h with
  | supersede => cases hb
  | agree hanswers | refuse hanswers | goOn hanswers =>
    cases hanswers <;> exact (Option.some.inj hb).symm
  | _ => exact (Option.some.inj hb).symm

theorem active_eq (h : tr.Turns a u es ending) : u.active = ending.isNone := by
  cases h with
  | @supersede _ _ _ _ active _ _ => cases active <;> rfl
  | _ => rfl

/-- A report of success ends its action. -/
theorem of_finished {r : StatusReport} {log : List StatusEntry}
    (h : (report a r log).Turns a u es ending) (hr : r.status = .finished) :
    u.status = .finished ∧ ending = some (.finished r.time) := by
  have hends : r.termination? a.actionType = some (.finished r.time) := by
    simp [StatusReport.termination?, hr]
  -- the report is no answer to a request to stop
  have hno {r' : StatusReport} {log' : List StatusEntry} (htr : (report a r log).Answers a r' log') :
      False := by
    cases htr with
    | report hanswer => simp [hr] at hanswer
  cases h with
  | reportEnd hsome => exact ⟨hr, hsome.symm.trans hends⟩
  | reportProgress hnone =>
    rw [hends] at hnone
    cases hnone
  | agree htr => exact (hno htr).elim
  | refuse htr => exact (hno htr).elim
  | goOn htr => exact (hno htr).elim

end Turns

end Transition

/-! ## Opening the planners -/

section Planners

open Transition

variable {v : TargetView} {a : Action} {p : Plan}

/-- The plan writes what a transition turns the action to, announces it, and brings the target up to
date if the action ends. -/
def Plan.TurnsBy (p : Plan) (v : TargetView) (a : Action) (tr : Transition) : Prop :=
  a.active = true ∧ ∃ u es ending, tr.Turns a u es ending ∧
    p = .ofUpdate v u es (ending.map (v.stateAfter a u.status)) (tr.announces u).tail

theorem planCancel_turns {now : Instant} (h : planCancel v a now = .ok p) :
    p.TurnsBy v a (.cancel a now) := by
  unfold planCancel at h
  split at h
  · cases h
  · rename_i hactive
    have ha : a.active = true := by simpa using hactive
    split at h
    · cases h
    · split at h
      · rename_i hundispatched
        obtain rfl := Except.ok.inj h
        exact ⟨ha, _, _, _, .cancelNow hundispatched, rfl⟩
      · rename_i hdispatched
        obtain rfl := Except.ok.inj h
        exact ⟨ha, _, _, _, .askToStop (by simpa using hdispatched), rfl⟩

/-- Force quits and answers need an active action that is canceling. -/
theorem canceling_of_guard (h : ¬ ((!a.active) = true ∨ a.status ≠ .canceling)) :
    a.active = true ∧ a.status = .canceling := by
  simpa using h

theorem planForceQuit_turns {now : Instant} (h : planForceQuit v a now = .ok p) :
    p.TurnsBy v a (.forceQuit a now) := by
  unfold planForceQuit at h
  split at h
  · cases h
  · rename_i hguard
    obtain ⟨ha, hcanceling⟩ := canceling_of_guard hguard
    obtain rfl := Except.ok.inj h
    exact ⟨ha, _, _, _, .forceQuit hcanceling, rfl⟩

theorem planForce_turns (h : planForce v a = some p) : p.TurnsBy v a (.force a) := by
  unfold planForce at h
  split at h
  · rename_i hsoft
    obtain rfl := Option.some.inj h
    exact ⟨hsoft.1, _, _, _, .force hsoft.2, rfl⟩
  · cases h

/-- The device agrees to stop, refuses, or goes on reporting. -/
theorem planCancelFeedback_turns {tr : Transition} {r : StatusReport} {log : List StatusEntry}
    (h : planCancelFeedback v a r log = .ok p) (htr : tr.Answers a r log) : p.TurnsBy v a tr := by
  unfold planCancelFeedback at h
  split at h
  · cases h
  · rename_i hguard
    obtain ⟨ha, hcanceling⟩ := canceling_of_guard hguard
    split at h
    · rename_i hr
      obtain rfl := Except.ok.inj h
      exact ⟨ha, _, _, _, .agree htr hcanceling hr, by rw [htr.tail_announces]; rfl⟩
    · rename_i hr
      obtain rfl := Except.ok.inj h
      exact ⟨ha, _, _, _, .refuse htr hcanceling (.inl hr), by rw [htr.tail_announces]; rfl⟩
    · rename_i hr
      obtain rfl := Except.ok.inj h
      exact ⟨ha, _, _, _, .refuse htr hcanceling (.inr hr), by rw [htr.tail_announces]; rfl⟩
    · rename_i hagree hrefuse hfail
      obtain rfl := Except.ok.inj h
      exact ⟨ha, _, _, _, .goOn htr hcanceling ⟨hagree, hrefuse, hfail⟩, by
        rw [htr.tail_announces]; rfl⟩

theorem planStatusUpdate_turns {r : StatusReport} {log : List StatusEntry}
    (h : planStatusUpdate v a r log = .ok p) : p.TurnsBy v a (.report a r log) := by
  unfold planStatusUpdate at h
  dsimp only at h
  split at h
  · cases h
  · rename_i hguard
    obtain ⟨ha, -, hdevice⟩ : a.active = true ∧ a.status ≠ .waitForConfirmation ∧
        r.status.isDeviceReportable = true := by simpa using hguard
    split at h
    · rename_i hanswer
      split at h
      · cases h
      · exact planCancelFeedback_turns h (.report hanswer)
    · rename_i hprogress
      split at h
      · rename_i termination hr
        obtain rfl := Except.ok.inj h
        exact ⟨ha, _, _, _, .reportEnd hr, rfl⟩
      · rename_i hr
        obtain rfl := Except.ok.inj h
        exact ⟨ha, _, _, _, .reportProgress hr hdevice (not_or.mp hprogress), rfl⟩

theorem ensureWaiting_eq_ok_iff {goal : ActionStatus} :
    ensureWaiting a goal = .ok () ↔ a.active = true ∧ a.status = .waitForConfirmation := by
  unfold ensureWaiting
  split
  · simp_all
  · split
    · simp_all
    · simp_all

theorem planConfirm_turns {messages : List String} {now : Instant}
    (h : planConfirm v a messages now = .ok p) : p.TurnsBy v a (.confirm a messages now) := by
  unfold planConfirm at h
  cases hw : ensureWaiting a .running with
  | error e =>
    rw [hw] at h
    cases h
  | ok u =>
    rw [hw] at h
    obtain ⟨ha, hwaits⟩ := ensureWaiting_eq_ok_iff.mp hw
    obtain rfl := Except.ok.inj h
    exact ⟨ha, _, _, _, .confirm hwaits, rfl⟩

theorem planDeny_turns {messages : List String} {now : Instant}
    (h : planDeny v a messages now = .ok p) : p.TurnsBy v a (.deny a messages now) := by
  unfold planDeny at h
  cases hw : ensureWaiting a .waitForConfirmation with
  | error e =>
    rw [hw] at h
    cases h
  | ok u =>
    rw [hw] at h
    obtain ⟨ha, hwaits⟩ := ensureWaiting_eq_ok_iff.mp hw
    obtain rfl := Except.ok.inj h
    exact ⟨ha, _, _, _, .deny hwaits, rfl⟩

/-- A plan about a single action turns this action in one of the ways listed. -/
theorem Transition.plan?_turns {tr : Transition} (h : tr.plan? v = some p)
    (ha : tr.subject? = some a) : p.TurnsBy v a tr := by
  cases tr with
  | assign n mode now => cases ha
  | cancel b now =>
    obtain rfl := Option.some.inj ha
    exact planCancel_turns (toOption_eq_some h)
  | forceQuit b now =>
    obtain rfl := Option.some.inj ha
    exact planForceQuit_turns (toOption_eq_some h)
  | force b =>
    obtain rfl := Option.some.inj ha
    exact planForce_turns h
  | report b r log =>
    obtain rfl := Option.some.inj ha
    exact planStatusUpdate_turns (toOption_eq_some h)
  | reportCancel b r log =>
    obtain rfl := Option.some.inj ha
    exact planCancelFeedback_turns (toOption_eq_some h) .reportCancel
  | confirm b messages now =>
    obtain rfl := Option.some.inj ha
    exact planConfirm_turns (toOption_eq_some h)
  | deny b messages now =>
    obtain rfl := Option.some.inj ha
    exact planDeny_turns (toOption_eq_some h)
  | recalculate ended => cases ha

end Planners

/-! ## Transitions of one action -/

variable {v : TargetView} {a : Action} {p : Plan}

/-- The plan of a transition of one action: an update of this action alone, at the revision it was
read at.  While the action stays active its target is left as it is; when the action ends, the state
of the target is brought up to date. -/
structure Plan.Moves (p : Plan) (v : TargetView) (a : Action) (u : ActionUpdate) : Prop where
  active : a.active = true
  controller : p.change.controllerId = v.target.controllerId
  revision : p.change.expectedRevision = v.target.revision
  news : p.change.newActions = []
  updates : p.change.actionUpdates = [u]
  action : u.actionId = a.id ∧ u.expectedRevision = a.revision
  entries : ∀ e ∈ p.change.entries, e.action = .existing a.id
  state : u.active = true ∧ p.change.targetState = none ∨
    u.active = false ∧ ∃ termination,
      p.change.targetState = some (v.stateAfter a u.status termination)

theorem Plan.TurnsBy.moves {tr : Transition} (h : p.TurnsBy v a tr) : ∃ u, p.Moves v a u := by
  obtain ⟨ha, u, es, ending, hturns, rfl⟩ := h
  refine ⟨u, ha, rfl, rfl, rfl, rfl, hturns.action, hturns.entries, ?_⟩
  rw [hturns.active_eq]
  cases ending with
  | none => exact .inl ⟨rfl, rfl⟩
  | some termination => exact .inr ⟨rfl, termination, rfl⟩

/-- Every plan about a single action updates this action alone. -/
theorem Transition.plan?_of_subject {tr : Transition} (h : tr.plan? v = some p)
    (ha : tr.subject? = some a) : ∃ u, p.Moves v a u :=
  (tr.plan?_turns h ha).moves

/-- The update of such a plan is all that it writes to the action. -/
theorem Plan.Moves.writeAction {u : ActionUpdate} (h : p.Moves v a u) (ctx : Context)
    (now : Instant) (b : Action) : p.change.writeAction ctx now b = u.writeTo ctx now b := by
  rw [TargetChange.writeAction, h.updates, List.foldl_cons, List.foldl_nil]

/-- A report of success ends its action. -/
theorem planStatusUpdate_of_finished {r : StatusReport} {log : List StatusEntry}
    (h : planStatusUpdate v a r log = .ok p) (hr : r.status = .finished) :
    p.change.targetState = some (v.stateAfter a .finished (.finished r.time)) := by
  obtain ⟨-, u, es, ending, hturns, rfl⟩ := planStatusUpdate_turns h
  obtain ⟨hstatus, rfl⟩ := hturns.of_finished hr
  show some (v.stateAfter a u.status _) = _
  rw [hstatus]

/-! ## What plans refer to -/

/-- Every update of a plan turns an active action of the view, or the subject of the transition. -/
theorem Transition.turns_of_mem_updates {tr : Transition} (h : tr.plan? v = some p)
    {u : ActionUpdate} (hu : u ∈ p.change.actionUpdates) :
    ∃ a es ending, (tr.subject? = some a ∧ a.active = true ∨ a ∈ v.active) ∧
      tr.Turns a u es ending := by
  cases hsubject : tr.subject? with
  | some a =>
    obtain ⟨ha, w, es, ending, hturns, rfl⟩ := tr.plan?_turns h hsubject
    obtain rfl := List.mem_singleton.mp hu
    exact ⟨a, es, ending, .inl ⟨rfl, ha⟩, hturns⟩
  | none =>
    cases tr with
    | assign n mode now =>
      obtain rfl := Option.some.inj h
      obtain ⟨a, ha, status, active, remark, hs, rfl⟩ := mem_updates_planAssignment hu
      exact ⟨a, _, _, .inr ha, .supersede hs⟩
    | recalculate ended =>
      rw [planRecalculation_eq_some h] at hu
      cases hu
    | _ => cases hsubject

/-- A plan updates no action twice, as long as no two actions of the view have one id. -/
theorem Transition.nodup_updates {tr : Transition} (h : tr.plan? v = some p)
    (hids : (v.active.map Action.id).Nodup) :
    (p.change.actionUpdates.map ActionUpdate.actionId).Nodup := by
  cases hsubject : tr.subject? with
  | some a =>
    obtain ⟨-, u, es, ending, -, rfl⟩ := tr.plan?_turns h hsubject
    exact List.nodup_singleton _
  | none =>
    cases tr with
    | assign n mode now =>
      obtain rfl := Option.some.inj h
      exact nodup_updates_planAssignment hids
    | recalculate ended =>
      rw [planRecalculation_eq_some h]
      exact .nil
    | _ => cases hsubject

/-- A plan is made for the target of the view, at the revision it was read at. -/
theorem Transition.plan?_target {tr : Transition} (h : tr.plan? v = some p) :
    p.change.controllerId = v.target.controllerId ∧
      p.change.expectedRevision = v.target.revision := by
  cases hsub : tr.subject? with
  | some a =>
    obtain ⟨u, hmoves⟩ := plan?_of_subject h hsub
    exact ⟨hmoves.controller, hmoves.revision⟩
  | none =>
    cases tr with
    | assign n mode now =>
      obtain rfl := Option.some.inj h
      exact ⟨rfl, rfl⟩
    | recalculate ended =>
      rw [planRecalculation_eq_some h]
      exact ⟨rfl, rfl⟩
    | _ => cases hsub

/-- The log entries of a plan are for the actions that it creates or updates. -/
theorem Transition.plan?_entries {tr : Transition} (h : tr.plan? v = some p) :
    ∀ e ∈ p.change.entries, (∃ i, e.action = .created i ∧ i < p.change.newActions.length) ∨
      ∃ u ∈ p.change.actionUpdates, e.action = .existing u.actionId := by
  intro e he
  cases hsubject : tr.subject? with
  | some a =>
    obtain ⟨u, hmoves⟩ := plan?_of_subject h hsubject
    rw [hmoves.updates]
    refine .inr ⟨u, List.mem_singleton_self u, ?_⟩
    rw [hmoves.entries e he, hmoves.action.1]
  | none =>
    cases tr with
    | assign n mode now =>
      obtain rfl := Option.some.inj h
      rcases List.mem_append.mp he with he | he
      · obtain ⟨⟨a, status, active, remark⟩, hx, rfl⟩ := List.mem_map.mp he
        exact .inr ⟨_, List.mem_map_of_mem hx, rfl⟩
      · obtain rfl := List.mem_singleton.mp he
        exact .inl ⟨0, rfl, Nat.zero_lt_one⟩
    | recalculate ended =>
      rw [planRecalculation_eq_some h] at he
      cases he
    | _ => cases hsubject

/-- A plan updates active actions of the view only, at the revisions they were read at, and its log
entries are for these or for the actions that it creates. -/
theorem Transition.plan?_refers {tr : Transition} (h : tr.plan? v = some p)
    (hsub : ∀ a, tr.subject? = some a → a ∈ v.active) :
    (∀ u ∈ p.change.actionUpdates,
      ∃ a ∈ v.active, a.id = u.actionId ∧ a.revision = u.expectedRevision) ∧
    ∀ e ∈ p.change.entries, (∃ i, e.action = .created i ∧ i < p.change.newActions.length) ∨
      ∃ u ∈ p.change.actionUpdates, e.action = .existing u.actionId := by
  refine ⟨fun u hu => ?_, plan?_entries h⟩
  obtain ⟨a, es, ending, hread, hturns⟩ := turns_of_mem_updates h hu
  obtain ⟨hid, hrev⟩ := hturns.action
  rcases hread with ⟨hsubject, -⟩ | ha
  · exact ⟨a, hsub a hsubject, hid.symm, hrev.symm⟩
  · exact ⟨a, ha, hid.symm, hrev.symm⟩

/-- A plan announces what it updates and then what it creates, each in its order. -/
theorem Transition.events_eq {tr : Transition} (h : tr.plan? v = some p) :
    p.events = p.change.actionUpdates.flatMap tr.announces ++
      (List.range p.change.newActions.length).map .assigned := by
  cases hsubject : tr.subject? with
  | some a =>
    obtain ⟨-, u, es, ending, -, rfl⟩ := tr.plan?_turns h hsubject
    simp [Plan.ofUpdate, announces, TargetChange.ofTarget]
  | none =>
    cases tr with
    | assign n mode now =>
      obtain rfl := Option.some.inj h
      simp [planAssignment, announces, recalls, List.flatMap_map, Action.moveTo]
    | recalculate ended =>
      simp only [plan?, planRecalculation] at h
      split at h
      · cases h
      · obtain rfl := Option.some.inj h
        rfl
    | _ => cases hsubject

/-- A log entry of a plan that is for a new action is for one that the plan creates. -/
theorem Transition.plan?_created {tr : Transition} (h : tr.plan? v = some p) :
    ∀ e ∈ p.change.entries, ∀ i, e.action = .created i → i < p.change.newActions.length := by
  intro e he i hi
  rcases plan?_entries h e he with ⟨j, hj, hlt⟩ | ⟨u, -, hu⟩
  · rw [hi] at hj
    exact ActionRef.created.inj hj ▸ hlt
  · rw [hi] at hu
    cases hu

end FleetUpdate
