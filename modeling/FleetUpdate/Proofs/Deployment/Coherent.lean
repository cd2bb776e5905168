import FleetUpdate.Proofs.Deployment.Moves
import FleetUpdate.Proofs.Lifecycle.Supersession

/-!
# Active exactly until it has ended

Whether an action is active and which status it has are stored side by side.  An action that is not
active always has a status in which actions end.  The converse fails for one reason only: a device
that is asked to stop may send any status, it goes into the log, and a later refusal restores it, so
that an active action has a status in which it should have ended
(`World.active_agrees_with_status`).
-/

namespace FleetUpdate

namespace ActionStatus

/-- An action of the type has ended if it has the status. -/
def isEnd (t : ActionType) : ActionStatus → Bool
  | finished | error | canceled => true
  | downloaded => t == .downloadOnly
  | _ => false

/-- An action of the type may be active in the status. -/
structure IsOngoing (t : ActionType) (status : ActionStatus) : Prop where
  goesOn : status.isEnd t = false
  standing : status ≠ .cancelRejected

variable {t : ActionType} {status : ActionStatus}

theorem IsOngoing.of_undispatched (h : status.isUndispatched = true) : status.IsOngoing t := by
  cases status with
  | scheduled | waitForConfirmation => exact ⟨rfl, by decide⟩
  | _ => cases h

/-- What a refusal restores is ongoing, or an action ends in it. -/
theorem IsOngoing.of_log {log : List StatusEntry}
    (h : (statusBeforeCanceling log).isEnd t ≠ true) : (statusBeforeCanceling log).IsOngoing t := by
  refine ⟨by simpa using h, fun hrejected => ?_⟩
  have hcounts := isPassing_statusBeforeCanceling log
  rw [hrejected] at hcounts
  cases hcounts

end ActionStatus

/-! ## What turns keep -/

namespace Transition.Turns

variable {a : Action} {tr : Transition} {u : ActionUpdate} {es : List NewStatusEntry}
  {ending : Option Termination}

/-- A turn that ends an action leaves it in a status to end in. -/
theorem isEnd (h : tr.Turns a u es ending) (hu : u.active = false) :
    u.status.isEnd u.actionType = true := by
  cases h with
  | supersede hs =>
    show ActionStatus.isEnd _ _ = true
    rw [status_of_supersession hs, if_neg (by simpa [Action.moveTo] using hu)]
    rfl
  | @reportEnd r _ _ hr =>
    show r.status.isEnd a.actionType = true
    unfold StatusReport.termination? at hr
    split at hr
    · rename_i hstatus
      rw [hstatus]
      rfl
    · rename_i hstatus
      rw [hstatus]
      rfl
    · rename_i hstatus
      rw [hstatus]
      split at hr
      · rename_i hdownload
        rw [hdownload]
        rfl
      · cases hr
    · cases hr
  | cancelNow | forceQuit | agree => rfl
  | askToStop | force | reportProgress | refuse | goOn | confirm | deny => cases hu

/-- A report that does not end an action of the type has no status to end in. -/
theorem isOngoing_of_report {r : StatusReport} {t : ActionType} (hr : r.termination? t = none)
    (h : r.status ≠ .canceled ∧ r.status ≠ .cancelRejected) : r.status.IsOngoing t := by
  refine ⟨?_, h.2⟩
  obtain ⟨hagrees, -⟩ := h
  unfold StatusReport.termination? at hr
  cases hstatus : r.status with
  | finished | error => simp [hstatus] at hr
  | canceled => exact absurd hstatus hagrees
  | downloaded => simpa [hstatus, ActionStatus.isEnd] using hr
  | _ => rfl

/-- A turn that keeps an action active keeps its status ongoing, unless it is a refusal. -/
theorem isOngoing (h : tr.Turns a u es ending) (ha : a.status.IsOngoing a.actionType)
    (hu : u.active = true)
    (hrefused : ∀ log, tr.Refuses a log → (statusBeforeCanceling log).IsOngoing a.actionType) :
    u.status.IsOngoing u.actionType := by
  have hcanceling : ActionStatus.IsOngoing a.actionType .canceling := ⟨rfl, by decide⟩
  cases h with
  | supersede hs =>
    show ActionStatus.IsOngoing _ _
    rw [status_of_supersession hs, if_pos (by simpa [Action.moveTo] using hu)]
    exact hcanceling
  | force hsoft =>
    -- the type changes, but neither type is to download only
    refine ⟨?_, ha.standing⟩
    have hgoes := ha.goesOn
    rw [hsoft] at hgoes
    show a.status.isEnd .forced = false
    rw [← hgoes]
    cases a.status <;> rfl
  | @reportProgress r _ hr _ hprogress =>
    show ActionStatus.IsOngoing _ (if _ then _ else _)
    split
    · exact hcanceling
    · exact isOngoing_of_report hr hprogress
  | refuse hanswers hc hr => exact hrefused _ ⟨_, hanswers, hc, hr⟩
  | askToStop | goOn => exact hcanceling
  | confirm => exact (⟨rfl, by decide⟩ : ActionStatus.IsOngoing a.actionType .running)
  | deny => exact ActionStatus.IsOngoing.of_undispatched rfl
  | cancelNow | forceQuit | reportEnd | agree => cases hu

end Transition.Turns

/-! ## Along a run -/

namespace World

variable {w w' : World} {ws : List World} {call : Call} {a a' : Action}

/-- A move that ends an action leaves it in a status to end in. -/
theorem Moves.isEnd (h : w.Free) (hmoves : w.Moves w' call a a') (ha' : a'.active = false) :
    a'.status.isEnd a'.actionType = true := by
  obtain ⟨ctx, tr, u, -, hturned, hactive, hstatus, htype⟩ := hmoves.turned h
  obtain ⟨es, ending, hturns⟩ := hturned.turns
  rw [hstatus, htype]
  exact hturns.isEnd (hactive ▸ ha')

/-- A refusal restores a status in which actions of the type have ended. -/
abbrev RestoresEnd : World → World → Prop :=
  Restores fun a status => status.isEnd a.actionType = true

/-- A move that keeps an action active keeps its status ongoing, unless it restores an end. -/
theorem Moves.isOngoing (h : w.Free) (hno : ¬ w.RestoresEnd w') (hmoves : w.Moves w' call a a')
    (ha : a.status.IsOngoing a.actionType) (ha' : a'.active = true) :
    a'.status.IsOngoing a'.actionType := by
  obtain ⟨ctx, tr, u, hplans, hturned, hactive, hstatus, htype⟩ := hmoves.turned h
  obtain ⟨es, ending, hturns⟩ := hturned.turns
  rw [hstatus, htype]
  refine hturns.isOngoing ha (hactive ▸ ha') fun log hrefuses => .of_log fun hend => hno ?_
  rw [hturned.log_of_refuses hrefuses] at hend
  exact ⟨call, a, a', hmoves, hrefuses.of_plans hplans, hend⟩

/-- Along every run: an action that is not active has a status in which actions of its type end; and
all active actions have ongoing statuses exactly as long as no refusal restores an end. -/
theorem active_agrees_with_status (h : IsRun ws) :
    (∀ w ∈ ws, ∀ a ∈ w.store.actions, a.active = false → a.status.isEnd a.actionType = true) ∧
    ((∀ w ∈ ws, ∀ a ∈ w.store.actions, a.active = true → a.status.IsOngoing a.actionType) ↔
      ws.IsChain fun w w' => ¬ w.RestoresEnd w') := by
  have hended : ∀ w ∈ ws, ∀ a ∈ w.store.actions, a.active = false →
      a.status.isEnd a.actionType = true := by
    refine h.forall_actions (h.isChain fun _ _ _ _ => trivial) (fun s a hnew ha => ?_) ?_
    · rw [hnew.active] at ha
      cases ha
    · exact fun w w' call a a' hw _ hmoves _ => hmoves.isEnd hw
  refine ⟨hended, fun hall => ?_, fun hchain => ?_⟩
  · -- what a refusal restores is the status of an active action
    refine h.steps.imp_of_mem_imp fun w w' hw hw' _ => ?_
    rintro ⟨call, a, a', hmoves, hrefuses, hend⟩
    obtain ⟨-, hactive, hstatus, htype⟩ := hmoves.of_refuses (h.free w hw) hrefuses
    have hgoes := (hall w' hw' a' hmoves.after hactive).goesOn
    rw [hstatus, htype, hend] at hgoes
    cases hgoes
  · refine h.forall_actions (Q := fun a => a.active = true → a.status.IsOngoing a.actionType) hchain
      (fun s a hnew _ => .of_undispatched hnew.undispatched) ?_
    intro w w' call a a' hw hno hmoves hongoing ha'
    obtain ⟨ctx, tr, u, -, hturned, -⟩ := hmoves.turned hw
    exact hmoves.isOngoing hw hno (hongoing hturned.active) ha'

end World

/-! ## A device that refuses twice -/

/-- A device that runs an action is asked to stop and fails to, so that it goes on; then it is asked
again and refuses. -/
def refusedTwice : List Task :=
  Store.sampleOps.map .request ++
    [.call Store.sampleContext (.assign .standard (.forced 1 ["device"])) 2,
      .call Store.sampleContext (.act 1 (.report ⟨.running, [], none, some 3⟩)) 3,
      .call Store.sampleContext (.act 1 .cancel) 4,
      .call Store.sampleContext (.act 1 (.reportCancel ⟨.error, [], none, some 5⟩)) 5,
      .call Store.sampleContext (.act 1 .cancel) 6,
      .call Store.sampleContext (.act 1 (.reportCancel ⟨.cancelRejected, [], none, some 7⟩)) 7]

theorem refusedTwice_not_raw : ∀ task ∈ refusedTwice, ¬ task.IsRaw := by
  simp [refusedTwice, Store.sampleOps, Task.IsRaw]

theorem refusedTwice_actions :
    (Store.empty.afterTasks refusedTwice).actions.map (fun a => (a.active, a.status)) =
      [(true, .error)] := by
  decide +kernel

theorem exists_failed_of_refusedTwice :
    ∃ a ∈ (Store.empty.afterTasks refusedTwice).actions, a.active = true ∧ a.status = .error := by
  have hmem : (true, ActionStatus.error) ∈
      (Store.empty.afterTasks refusedTwice).actions.map fun a => (a.active, a.status) := by
    rw [refusedTwice_actions]
    exact List.mem_singleton_self _
  obtain ⟨a, ha, heq⟩ := List.mem_map.mp hmem
  exact ⟨a, ha, Prod.mk.inj heq⟩

/-- After the second refusal the action is active and has failed. -/
theorem refusedTwice_failed_and_active : (∀ task ∈ refusedTwice, ¬ task.IsRaw) ∧
    ∃ a ∈ (Store.empty.afterTasks refusedTwice).actions, a.active = true ∧
      a.status.isEnd a.actionType = true := by
  obtain ⟨a, ha, hactive, hstatus⟩ := exists_failed_of_refusedTwice
  refine ⟨refusedTwice_not_raw, a, ha, hactive, ?_⟩
  rw [hstatus]
  rfl

/-- So some refusal on the way restores an end. -/
theorem refusedTwice_restores_end : ∃ ws, World.IsRun ws ∧
    (∃ w ∈ ws, w.store = Store.empty.afterTasks refusedTwice) ∧
    ¬ ws.IsChain fun w w' => ¬ w.RestoresEnd w' := by
  obtain ⟨ws, hrun, hpasses⟩ := World.exists_isRun refusedTwice_not_raw
  obtain ⟨w, hw, hstore⟩ := World.exists_mem_of_scanl hpasses
  refine ⟨ws, hrun, ⟨w, hw, hstore⟩, fun hno => ?_⟩
  obtain ⟨a, ha, hactive, hstatus⟩ := exists_failed_of_refusedTwice
  have hgoes := ((World.active_agrees_with_status hrun).2.mpr hno w hw a (hstore ▸ ha) hactive).goesOn
  rw [hstatus] at hgoes
  cases hgoes

end FleetUpdate
