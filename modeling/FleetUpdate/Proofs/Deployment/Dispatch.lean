import FleetUpdate.Proofs.Deployment.Moves
import FleetUpdate.Proofs.Lifecycle.Supersession

/-!
# Dispatch is final, but for refusals

Once the device may know of an action, the action is not taken for undispatched again, so that nobody
cancels it without asking the device.  Three kinds of turns leave an action in a status of an
undispatched one: forcing it and denying it, which keep the status, and a refusal, which restores one
from the log (`Turns.undispatched_cases`).  The log keeps whatever a device answers to a request to
stop, and starts with the status of the new action; so dispatch is final exactly along the runs in
which no refusal restores such a status (`World.dispatch_is_final_iff`).
-/

namespace FleetUpdate

/-- With this call a device reports on an action, or somebody confirms it. -/
def Call.Reports (actionId : Int) : Call → Prop
  | act i (.report _) | act i (.reportCancel _) | act i (.confirm _) => i = actionId
  | _ => False

/-- The call cancels an action, or assigns something else and waits for devices. -/
def Call.Supplants (actionId : Int) : Call → Prop
  | act i .cancel => i = actionId
  | assign p _ => p.supersede = .graceful
  | _ => False

namespace Transition.Turns

variable {a : Action} {tr : Transition} {u : ActionUpdate} {es : List NewStatusEntry}
  {ending : Option Termination}

/-- A report that does not end an action comes from a device that has fetched it. -/
theorem isUndispatched_of_reportable {status : ActionStatus}
    (h : status.isDeviceReportable = true) : status.isUndispatched = false := by
  cases status with
  | scheduled | waitForConfirmation => cases h
  | _ => rfl

theorem isUndispatched_of_termination? {r : StatusReport} {t : ActionType}
    {termination : Termination} (h : r.termination? t = some termination) :
    r.status.isUndispatched = false := by
  unfold StatusReport.termination? at h
  split at h
  · rename_i hstatus
    rw [hstatus]
    rfl
  · rename_i hstatus
    rw [hstatus]
    rfl
  · rename_i hstatus
    rw [hstatus]
    rfl
  · cases h

/-- A turn leaves an action undispatched only by forcing or denying it, or by a refusal. -/
theorem undispatched_cases (h : tr.Turns a u es ending) (hu : u.status.isUndispatched = true) :
    (u.status = a.status ∧ (tr = .force a ∨ ∃ messages now, tr = .deny a messages now)) ∨
      ∃ log, tr.Refuses a log ∧ u.status = statusBeforeCanceling log := by
  cases h with
  | supersede hs =>
    have hstatus := status_of_supersession hs
    dsimp only [Action.moveTo] at hu
    rw [hstatus] at hu
    split at hu <;> cases hu
  | force => exact .inl ⟨rfl, .inl rfl⟩
  | deny hwaits => exact .inl ⟨hwaits.symm, .inr ⟨_, _, rfl⟩⟩
  | refuse hanswers hcanceling hr => exact .inr ⟨_, ⟨_, hanswers, hcanceling, hr⟩, rfl⟩
  | reportEnd hr =>
    have hno := isUndispatched_of_termination? hr
    exact absurd (hu.symm.trans hno) (by decide)
  | reportProgress _ hdevice =>
    dsimp only at hu
    split at hu
    · cases hu
    · have hno := isUndispatched_of_reportable hdevice
      exact absurd (hu.symm.trans hno) (by decide)
  | cancelNow | askToStop | forceQuit | agree | goOn | confirm => cases hu

/-- Whoever wants to supplant a dispatched action asks the device to stop. -/
theorem asks_of_supplants {ctx : Context} {call : Call} (h : tr.Turns a u es ending)
    (hplans : call.Plans ctx tr) (hcall : call.Supplants a.id)
    (ha : a.status.isUndispatched = false) : u.active = true ∧ u.status = .canceling := by
  cases hplans with
  | @assign p r now =>
    cases h with
    | supersede hs =>
      have hactive := active_of_supersession hs
      have hspares : p.supersede.spares a = true := by
        simp [SupersedeMode.spares, show p.supersede = .graceful from hcall, ha]
      rw [hspares] at hactive
      subst hactive
      exact ⟨rfl, status_of_supersession hs⟩
    | agree hanswers | refuse hanswers | goOn hanswers => cases hanswers
  | act hact =>
    cases hact with
    | cancel =>
      cases h with
      | cancelNow hundispatched => exact absurd (hundispatched.symm.trans ha) (by decide)
      | askToStop => exact ⟨rfl, rfl⟩
      | agree hanswers | refuse hanswers | goOn hanswers => cases hanswers
    | _ => exact hcall.elim
  | recalculate => exact hcall.elim

end Transition.Turns

/-! ## Along a run -/

namespace World

variable {w w' : World} {ws : List World} {call : Call} {a a' : Action}

/-- A refusal restores the status of an undispatched action. -/
abbrev RestoresUndispatched : World → World → Prop :=
  Restores fun _ status => status.isUndispatched = true

/-- A move leaves an action undispatched only where it was so before and nobody has reported on it, or
by a refusal. -/
theorem Moves.undispatched_cases (h : w.Free) (hmoves : w.Moves w' call a a')
    (ha' : a'.status.isUndispatched = true) :
    (a'.status = a.status ∧ ¬ call.Reports a.id) ∨ w.RestoresUndispatched w' := by
  obtain ⟨ctx, tr, u, hplans, hturned, -, hstatus, -⟩ := hmoves.turned h
  obtain ⟨es, ending, hturns⟩ := hturned.turns
  rw [hstatus] at ha' ⊢
  rcases hturns.undispatched_cases ha' with ⟨hsame, hkeeps⟩ | ⟨log, hrefuses, hrestored⟩
  · refine .inl ⟨hsame, fun hreports => ?_⟩
    rcases hkeeps with rfl | ⟨messages, now, rfl⟩
    · cases hplans with
      | act hact => cases hact with
        | force => exact hreports
    · cases hplans with
      | act hact => cases hact with
        | deny => exact hreports
  · rw [hrestored, hturned.log_of_refuses hrefuses] at ha'
    exact .inr ⟨call, a, a', hmoves, hrefuses.of_plans hplans, ha'⟩

theorem Moves.asks_of_supplants (h : w.Free) (hmoves : w.Moves w' call a a')
    (hcall : call.Supplants a.id) (ha : a.status.isUndispatched = false) :
    a'.active = true ∧ a'.status = .canceling := by
  obtain ⟨ctx, tr, u, hplans, hturned, hactive, hstatus, -⟩ := hmoves.turned h
  obtain ⟨es, ending, hturns⟩ := hturned.turns
  rw [hactive, hstatus]
  exact hturns.asks_of_supplants hplans hcall ha

/-- Dispatch is final: no action becomes undispatched again.  An action that has been reported on or
confirmed counts as dispatched; whoever wants to supplant it asks its device to stop; and no call
makes an action wait for a confirmation that did not wait for one before. -/
structure DispatchIsFinal (ws : List World) : Prop where
  stays : ws.Pairwise fun w w' => ∀ a ∈ w.store.actions, ∀ a' ∈ w'.store.actions, a'.id = a.id →
    a.status.isUndispatched = false → a'.status.isUndispatched = false
  reported : ws.IsChain fun w w' => ∀ call a a', w.Moves w' call a a' → call.Reports a.id →
    a'.status.isUndispatched = false
  asked : ws.IsChain fun w w' => ∀ call a a', w.Moves w' call a a' → call.Supplants a.id →
    a.status.isUndispatched = false → a'.active = true ∧ a'.status = .canceling
  waits : ws.IsChain fun w w' => ∀ call a a', w.Moves w' call a a' →
    a'.status = .waitForConfirmation → a.status = .waitForConfirmation

/-- So once an action has been reported on or confirmed, whoever wants to supplant it later on asks its
device to stop. -/
theorem DispatchIsFinal.asked_of_reported (h : DispatchIsFinal ws) (hrun : IsRun ws) {v v' : World}
    {before after : List World} (hws : ws = before ++ w :: w' :: after)
    (hlater : [v, v'] <:+: w' :: after) (hmoves : w.Moves w' call a a')
    (hreports : call.Reports a.id) {call' : Call} {b b' : Action} (hmoves' : v.Moves v' call' b b')
    (hid : b.id = a.id) (hcall' : call'.Supplants b.id) : b'.active = true ∧ b'.status = .canceling := by
  have hsuffix : w' :: after <:+ ws := by
    rw [hws]
    exact (List.suffix_cons w _).trans (List.suffix_append before _)
  have hnext : [w, w'] <:+: ws := ⟨before, after, by simp [hws]⟩
  have hreported := List.IsChain.infix h.reported hnext
  have hdispatched : a'.status.isUndispatched = false :=
    List.isChain_pair.mp hreported call a a' hmoves hreports
  have hstill : b.status.isUndispatched = false := by
    have hid' : b.id = a'.id := hid.trans hmoves.id_eq.symm
    rcases List.mem_cons.mp (hlater.subset (List.mem_cons_self : v ∈ [v, v'])) with rfl | hv
    · have hs := (hrun.free v (hsuffix.subset List.mem_cons_self)).consistent
      obtain rfl := hs.actions.eq_of_id_eq hmoves'.before hmoves.after hid'
      exact hdispatched
    · have hpair := List.rel_of_pairwise_cons (h.stays.sublist hsuffix.sublist) hv
      exact hpair a' hmoves.after b hmoves'.before hid' hdispatched
  have hasked := List.IsChain.infix h.asked (hlater.trans hsuffix.isInfix)
  exact List.isChain_pair.mp hasked call' b b' hmoves' hcall' hstill

/-- Dispatch is final along exactly those runs in which no refusal restores the status of an
undispatched action. -/
theorem dispatch_is_final_iff (h : IsRun ws) :
    DispatchIsFinal ws ↔ ws.IsChain fun w w' => ¬ w.RestoresUndispatched w' := by
  constructor
  · intro hfinal
    refine (h.steps_and hfinal.stays.isChain).imp fun w w' ⟨hw, _, hstays⟩ => ?_
    -- whoever refuses has been asked to stop
    rintro ⟨call, a, a', hmoves, hrefuses, hundispatched⟩
    obtain ⟨hcanceling, -, hstatus, -⟩ := hmoves.of_refuses hw hrefuses
    have hdispatched : a.status.isUndispatched = false := by
      rw [hcanceling]
      rfl
    have hstayed := hstays a hmoves.before a' hmoves.after hmoves.id_eq hdispatched
    rw [hstatus, hundispatched] at hstayed
    cases hstayed
  · intro hno
    have hsteps := h.steps_and hno
    refine ⟨?_, ?_, ?_, ?_⟩
    · refine h.pairwise_actions hno (fun a ha => ha) (fun a b c hab hbc ha => hbc (hab ha)) ?_
      intro w w' call a a' hw hno hmoves ha
      by_contra ha'
      rcases hmoves.undispatched_cases hw (by simpa using ha') with ⟨hsame, -⟩ | hrestores
      · exact ha' (hsame ▸ ha)
      · exact hno hrestores
    · refine hsteps.imp fun w w' ⟨hw, _, hno⟩ call a a' hmoves hreports => ?_
      by_contra ha'
      rcases hmoves.undispatched_cases hw (by simpa using ha') with ⟨-, hsilent⟩ | hrestores
      · exact hsilent hreports
      · exact hno hrestores
    · exact hsteps.imp fun w w' ⟨hw, _⟩ call a a' hmoves => hmoves.asks_of_supplants hw
    · refine hsteps.imp fun w w' ⟨hw, _, hno⟩ call a a' hmoves hwaits => ?_
      rcases hmoves.undispatched_cases hw (by rw [hwaits]; rfl) with ⟨hsame, -⟩ | hrestores
      · exact hsame.symm.trans hwaits
      · exact (hno hrestores).elim

end World

/-! ## A device that takes back what it said -/

/-- A device has an action and runs it. -/
def underWay : List Task :=
  Store.sampleOps.map .request ++
    [.call Store.sampleContext (.assign .standard (.forced 1 ["device"])) 2,
      .call Store.sampleContext (.act 1 (.report ⟨.running, [], none, some 3⟩)) 3]

/-- Asked to stop, the device answers that the action waits for a confirmation, and then refuses. -/
def takenBack : List Task :=
  [.call Store.sampleContext (.act 1 .cancel) 4,
    .call Store.sampleContext (.act 1 (.reportCancel ⟨.waitForConfirmation, [], none, some 5⟩)) 5,
    .call Store.sampleContext (.act 1 (.reportCancel ⟨.cancelRejected, [], none, some 6⟩)) 6]

theorem takenBack_not_raw : ∀ task ∈ underWay ++ takenBack, ¬ task.IsRaw := by
  simp [underWay, takenBack, Store.sampleOps, Task.IsRaw]

theorem underWay_actions :
    (Store.empty.afterTasks underWay).actions.map (fun a => (a.id, a.status)) = [(1, .running)] := by
  decide +kernel

theorem takenBack_actions :
    (Store.empty.afterTasks (underWay ++ takenBack)).actions.map (fun a => (a.id, a.status)) =
      [(1, .waitForConfirmation)] := by
  decide +kernel

theorem exists_waiting_of_takenBack : ∃ a ∈ (Store.empty.afterTasks underWay).actions,
    ∃ a' ∈ (Store.empty.afterTasks (underWay ++ takenBack)).actions, a'.id = a.id ∧
      a.status = .running ∧ a'.status = .waitForConfirmation := by
  have hmem : (1, ActionStatus.running) ∈
      (Store.empty.afterTasks underWay).actions.map fun a => (a.id, a.status) := by
    rw [underWay_actions]
    exact List.mem_singleton_self _
  have hmem' : (1, ActionStatus.waitForConfirmation) ∈
      (Store.empty.afterTasks (underWay ++ takenBack)).actions.map fun a => (a.id, a.status) := by
    rw [takenBack_actions]
    exact List.mem_singleton_self _
  obtain ⟨a, ha, heq⟩ := List.mem_map.mp hmem
  obtain ⟨a', ha', heq'⟩ := List.mem_map.mp hmem'
  obtain ⟨hid, hstatus⟩ := Prod.mk.inj heq
  obtain ⟨hid', hstatus'⟩ := Prod.mk.inj heq'
  exact ⟨a, ha, a', ha', hid'.trans hid.symm, hstatus, hstatus'⟩

/-- An action that its device runs waits for a confirmation later on. -/
theorem takenBack_waits_again : (∀ task ∈ underWay ++ takenBack, ¬ task.IsRaw) ∧
    ∃ a ∈ (Store.empty.afterTasks underWay).actions,
      ∃ a' ∈ (Store.empty.afterTasks (underWay ++ takenBack)).actions, a'.id = a.id ∧
        a.status.isUndispatched = false ∧ a'.status = .waitForConfirmation := by
  obtain ⟨a, ha, a', ha', hid, hstatus, hstatus'⟩ := exists_waiting_of_takenBack
  refine ⟨takenBack_not_raw, a, ha, a', ha', hid, ?_, hstatus'⟩
  rw [hstatus]
  rfl

/-- So some refusal on the way restores the status of an undispatched action. -/
theorem takenBack_restores_undispatched : ∃ ws, World.IsRun ws ∧
    [Store.empty.afterTasks underWay, Store.empty.afterTasks (underWay ++ takenBack)].Sublist
      (ws.map World.store) ∧
    ¬ ws.IsChain fun w w' => ¬ w.RestoresUndispatched w' := by
  obtain ⟨ws, hrun, hpasses⟩ := World.exists_isRun takenBack_not_raw
  have hpair := (Store.pair_sublist_scanl .empty (by simp [takenBack])).trans hpasses
  refine ⟨ws, hrun, hpair, fun hno => ?_⟩
  obtain ⟨a, ha, a', ha', hid, hstatus, hstatus'⟩ := exists_waiting_of_takenBack
  have hstays : (ws.map World.store).Pairwise fun s s' => ∀ a ∈ s.actions, ∀ a' ∈ s'.actions,
      a'.id = a.id → a.status.isUndispatched = false → a'.status.isUndispatched = false :=
    List.pairwise_map.mpr ((World.dispatch_is_final_iff hrun).mpr hno).stays
  have hdispatched := List.pairwise_pair.mp (hstays.sublist hpair) a ha a' ha' hid
    (by rw [hstatus]; rfl)
  rw [hstatus'] at hdispatched
  cases hdispatched

end FleetUpdate
