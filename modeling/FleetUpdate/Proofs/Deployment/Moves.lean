import FleetUpdate.Proofs.Deployment.Ended
import FleetUpdate.Proofs.Lifecycle.Held

/-!
# How actions move along a run

Along a run an action is created newborn, and then it changes only when a call commits a transition
of it (`Free.same_or_moves`).  Such a move is one of those that `Transition.Turns` lists, from the
action and the log that the store holds at that moment (`Moves.turned`).  So what newborn actions have
and all moves keep, all actions of the run have (`IsRun.forall_actions`), and a relation that moves
respect relates an action to whatever becomes of it (`IsRun.pairwise_actions`).

One kind of move is decided by the log: when a device refuses to stop, or fails to, the action goes
back to the last status in its log that counts (`Moves.status_of_refuses`).  The log keeps whatever
the device has said, so a run may pass through statuses that no other move leads to
(`World.Restores`).
-/

namespace FleetUpdate

/-! ## Refusals -/

/-- The transition carries the answer of a device that refuses to stop an action, or fails to. -/
def Transition.Refuses (a : Action) (log : List StatusEntry) (tr : Transition) : Prop :=
  ∃ r, tr.Answers a r log ∧ a.status = .canceling ∧ (r.status = .cancelRejected ∨ r.status = .error)

/-- With this call a device refuses to stop an action, or fails to. -/
def Call.Refuses (actionId : Int) : Call → Prop
  | act i (.report r) => i = actionId ∧ r.status = .cancelRejected
  | act i (.reportCancel r) => i = actionId ∧ (r.status = .cancelRejected ∨ r.status = .error)
  | _ => False

section Refusal

open Transition

variable {ctx : Context} {call : Call} {tr : Transition} {a : Action} {log : List StatusEntry}
  {s : Store} {u : ActionUpdate}

/-- Only a call with a refusal plans one. -/
theorem Transition.Refuses.of_plans (h : tr.Refuses a log) (hplans : call.Plans ctx tr) :
    call.Refuses a.id := by
  obtain ⟨r, hanswers, -, hr⟩ := h
  cases hanswers with
  | report hanswer =>
    -- a report of failure is no answer
    have hrejected : r.status = .cancelRejected := by
      rcases hr with hr | hr
      · exact hr
      · simp [hr] at hanswer
    cases hplans with
    | act hact => cases hact with
      | report => exact ⟨rfl, hrejected⟩
  | reportCancel =>
    cases hplans with
    | act hact => cases hact with
      | reportCancel => exact ⟨rfl, hr⟩

/-- A refusal is judged by the log of the action. -/
theorem Store.Turned.log_of_refuses (h : s.Turned tr a u) (hr : tr.Refuses a log) :
    log = s.logOf a.id := by
  obtain ⟨r, hanswers, hcanceling, -⟩ := hr
  exact h.log r log hanswers hcanceling

/-- A call with a refusal takes a canceling action back to what its log tells. -/
theorem Store.Turned.of_refuses (h : s.Turned tr a u) (hplans : call.Plans ctx tr)
    (hr : call.Refuses a.id) :
    a.status = .canceling ∧ u.active = true ∧ u.status = statusBeforeCanceling (s.logOf a.id) ∧
      u.actionType = a.actionType := by
  obtain ⟨es, ending, hturns⟩ := h.turns
  suffices hrefused : ∃ log, tr.Refuses a log ∧ u.active = true ∧
      u.status = statusBeforeCanceling log ∧ u.actionType = a.actionType by
    obtain ⟨log, hrefuses, hrest⟩ := hrefused
    rw [← h.log_of_refuses hrefuses]
    obtain ⟨r, -, hcanceling, -⟩ := hrefuses
    exact ⟨hcanceling, hrest⟩
  cases hplans with
  | assign => exact hr.elim
  | recalculate => exact hr.elim
  | act hact =>
    cases hact with
    | @report r time log =>
      obtain ⟨-, hrejected⟩ := hr
      cases hturns with
      | reportEnd hend => simp [StatusReport.termination?, hrejected] at hend
      | reportProgress _ _ hprogress => exact absurd hrejected hprogress.2
      | agree hanswers _ hagrees =>
        cases hanswers
        exact absurd (hrejected.symm.trans hagrees) (by decide)
      | refuse hanswers hcanceling hstatus =>
        exact ⟨_, ⟨_, hanswers, hcanceling, hstatus⟩, rfl, rfl, rfl⟩
      | goOn hanswers _ hother =>
        cases hanswers
        exact absurd hrejected hother.2.1
    | @reportCancel r time log =>
      obtain ⟨-, hstatus⟩ := hr
      cases hturns with
      | agree hanswers _ hagrees =>
        cases hanswers
        rcases hstatus with hstatus | hstatus <;>
          exact absurd (hstatus.symm.trans hagrees) (by decide)
      | refuse hanswers hcanceling hstatus =>
        exact ⟨_, ⟨_, hanswers, hcanceling, hstatus⟩, rfl, rfl, rfl⟩
      | goOn hanswers _ hother =>
        cases hanswers
        exact (hstatus.elim hother.2.1 hother.2.2).elim
    | _ => exact hr.elim

end Refusal

/-! ## Moves -/

namespace World

open Store

variable {w w' : World} {ws : List World} {call : Call} {a a' : Action}

/-- In the step, a call commits a change of an action. -/
structure Moves (w w' : World) (call : Call) (a a' : Action) : Prop where
  takes : ∃ r, r.call = call ∧ w.Takes w' r
  before : a ∈ w.store.actions
  after : a' ∈ w'.store.actions
  id_eq : a'.id = a.id
  revision_lt : a.revision < a'.revision

/-- In the step, a refusal takes an action back to a status that has the property. -/
def Restores (P : Action → ActionStatus → Prop) (w w' : World) : Prop :=
  ∃ call a a', w.Moves w' call a a' ∧ call.Refuses a.id ∧
    P a (statusBeforeCanceling (w.store.logOf a.id))

/-- Actions change only by moves. -/
theorem Free.same_or_moves (h : w.Free) (hstep : w.FreeStep w') (ha : a ∈ w.store.actions)
    (ha' : a' ∈ w'.store.actions) (hid : a'.id = a.id) : a' = a ∨ ∃ call, w.Moves w' call a a' := by
  have hsame (hmem : a' ∈ w.store.actions) : a' = a :=
    h.consistent.actions.eq_of_id_eq hmem ha hid
  rcases hstep.cases with hstore | ⟨o, ho, hafter⟩ | ⟨r, hr⟩
  · exact .inl (hsame (hstore ▸ ha'))
  · rw [hafter] at ha'
    exact .inl (hsame (mem_of_commitsNothing h.consistent ho ha'))
  · rcases h.becomes hr a ha a' ha' hid with hrests | ⟨ctx, tr, u, now, hplans, hturned, hwritten⟩
    · exact .inl hrests
    · refine .inr ⟨r.call, ⟨r, rfl, hr⟩, ha, ha', hid, ?_⟩
      obtain ⟨es, ending, hturns⟩ := hturned.turns
      rw [hwritten, ActionUpdate.writeTo, if_pos hturns.action.1.symm]
      exact Int.lt_succ a.revision

/-- A move is what some transition of the call does to the action as it stands. -/
theorem Moves.turned (h : w.Free) (hmoves : w.Moves w' call a a') :
    ∃ ctx tr u, call.Plans ctx tr ∧ w.store.Turned tr a u ∧
      a'.active = u.active ∧ a'.status = u.status ∧ a'.actionType = u.actionType := by
  obtain ⟨r, rfl, hr⟩ := hmoves.takes
  rcases h.becomes hr a hmoves.before a' hmoves.after hmoves.id_eq with
    rfl | ⟨ctx, tr, u, now, hplans, hturned, rfl⟩
  · exact absurd hmoves.revision_lt (Int.lt_irrefl _)
  · obtain ⟨es, ending, hturns⟩ := hturned.turns
    refine ⟨ctx, tr, u, hplans, hturned, ?_⟩
    rw [ActionUpdate.writeTo, if_pos hturns.action.1.symm]
    exact ⟨rfl, rfl, rfl⟩

/-- When it moves by a refusal, a canceling action goes on, in the last status of its log that
counts. -/
theorem Moves.of_refuses (h : w.Free) (hmoves : w.Moves w' call a a') (hr : call.Refuses a.id) :
    a.status = .canceling ∧ a'.active = true ∧ a'.status = statusBeforeCanceling (w.store.logOf a.id) ∧
      a'.actionType = a.actionType := by
  obtain ⟨ctx, tr, u, hplans, hturned, hactive, hstatus, htype⟩ := hmoves.turned h
  rw [hactive, hstatus, htype]
  exact hturned.of_refuses hplans hr

/-! ## Along a run -/

/-- Each step of a run is a free step that does what all its steps do. -/
theorem IsRun.steps_and {T : World → World → Prop} (h : IsRun ws) (hT : ws.IsChain T) :
    ws.IsChain fun w w' => w.Free ∧ w.FreeStep w' ∧ T w w' := by
  have hfree : ws.IsChain fun w w' => w.Free ∧ w.FreeStep w' :=
    h.isChain fun w w' hw hstep => ⟨hw, hstep⟩
  rw [List.isChain_iff_getElem] at hfree hT ⊢
  exact fun i hi => ⟨(hfree i hi).1, (hfree i hi).2, hT i hi⟩

/-- What newborn actions have, and what the moves of all steps keep, all actions of a run have. -/
theorem IsRun.forall_actions {T : World → World → Prop} {Q : Action → Prop} (h : IsRun ws)
    (hT : ws.IsChain T) (hnew : ∀ s a, Newborn s a → Q a)
    (hmove : ∀ w w' call a a', w.Free → T w w' → w.Moves w' call a a' → Q a → Q a') :
    ∀ w ∈ ws, ∀ a ∈ w.store.actions, Q a := by
  refine forall_mem_of_isChain h.start (h.steps_and hT) (fun a ha => by cases ha)
    fun w w' ⟨hw, hstep, ht⟩ hall a' ha' => ?_
  by_cases hold : ∃ a ∈ w.store.actions, a.id = a'.id
  · obtain ⟨a, ha, hid⟩ := hold
    rcases hw.same_or_moves hstep ha ha' hid.symm with rfl | ⟨call, hmoves⟩
    · exact hall a' ha
    · exact hmove w w' call a a' hw ht hmoves (hall a ha)
  · exact hnew _ a' (hw.newborn hstep a' ha' fun a ha hid => hold ⟨a, ha, hid⟩)

/-- A relation that every move of every step respects relates an action to what becomes of it. -/
theorem IsRun.pairwise_actions {T : World → World → Prop} {Q : Action → Action → Prop} (h : IsRun ws)
    (hT : ws.IsChain T) (hrefl : ∀ a, Q a a) (htrans : ∀ a b c, Q a b → Q b c → Q a c)
    (hmove : ∀ w w' call a a', w.Free → T w w' → w.Moves w' call a a' → Q a a') :
    ws.Pairwise fun w w' => ∀ a ∈ w.store.actions, ∀ a' ∈ w'.store.actions, a'.id = a.id → Q a a' := by
  have hages : ws.IsChain fun w w' => w.store.Ages w'.store ∧
      ∀ a ∈ w.store.actions, ∀ a' ∈ w'.store.actions, a'.id = a.id → Q a a' := by
    refine (h.steps_and hT).imp fun w w' ⟨hw, hstep, ht⟩ => ?_
    refine ⟨hw.ages hstep, fun a ha a' ha' hid => ?_⟩
    rcases hw.same_or_moves hstep ha ha' hid with rfl | ⟨call, hmoves⟩
    · exact hrefl a'
    · exact hmove w w' call a a' hw ht hmoves
  have htrans' : IsTrans World fun w w' => w.store.Ages w'.store ∧
      ∀ a ∈ w.store.actions, ∀ a' ∈ w'.store.actions, a'.id = a.id → Q a a' := by
    refine ⟨fun w₁ w₂ w₃ h h' => ⟨h.1.trans h'.1, fun a ha c hc hid => ?_⟩⟩
    obtain ⟨b, hb, hab⟩ := h.1.exists_between h'.1 ha hc hid
    exact htrans a b c (h.2 a ha b hb hab) (h'.2 b hb c hc (hid.trans hab.symm))
  exact hages.pairwise.imp fun hrelated => hrelated.2

end World

end FleetUpdate
