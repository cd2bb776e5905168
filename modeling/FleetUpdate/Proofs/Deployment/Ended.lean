import FleetUpdate.Proofs.Deployment.Aging

/-!
# Actions that have ended

An action stays in the store until its target is deleted.  Once it has ended neither the action nor
its log ever changes again, and before that its log is only added to.  The log starts with the
status in which an assignment created the action.  All this holds in whatever order the steps of
calls follow each other, though every call plans on what it read some time ago
(`World.ended_actions_rest`).
-/

namespace FleetUpdate

namespace Store

variable {s s₁ : Store} {ctx : Context} {now : Instant} {call : Call} {change : TargetChange}
  {tr : Transition} {v : TargetView}

/-! ## Actions that are created -/

/-- The action is as an assignment creates it, and its log says no more than that. -/
structure Newborn (s : Store) (a : Action) : Prop where
  undispatched : a.status.isUndispatched = true
  active : a.active = true
  log : ∃ e, s.logOf a.id = [e] ∧ e.status = a.status

/-- An id that has not been issued yet has no log. -/
theorem logOf_eq_nil (hs : s.Consistent) {i : Int} (hi : s.lastActionId < i) : s.logOf i = [] := by
  unfold logOf
  rw [List.filter_eq_nil_iff]
  intro e he hid
  obtain ⟨a, ha, haid, -⟩ := hs.entry e he
  have hle := hs.actions.le_last a ha
  have hid : e.actionId = i := by simpa using hid
  omega

theorem isUndispatched_initialStatus (confirm : Bool) :
    (initialStatus confirm).isUndispatched = true := by
  cases confirm <;> rfl

/-- The action that an assignment creates is newborn, if the assignment updates actions that are
there already. -/
theorem newborn_of_assign (hs : s.Consistent)
    (hupdates : ∀ u ∈ change.actionUpdates, u.actionId ≤ s.lastActionId) {n : NewAction}
    {mode : SupersedeMode} {time : Instant} (hn : n.status.isUndispatched = true)
    (hchange : change = (planAssignment v n mode time).change) :
    ∀ a ∈ s.createdBy ctx now change, (s.written ctx now change).Newborn a := by
  intro a ha
  have hcreated : s.createdBy ctx now change =
      [n.row ctx now change.controllerId (s.lastActionId + 1)] := by
    rw [createdBy, hchange]
    simp [planAssignment]
  rw [hcreated] at ha
  obtain rfl := List.mem_singleton.mp ha
  refine ⟨hn, rfl, (⟨.created 0, n.status, time, [], none⟩ : NewStatusEntry).row ctx s.lastActionId
    (s.lastEntryId + 1 + ((v.superseded mode).length : Int)), ?_, rfl⟩
  show (s.written ctx now change).logOf (s.lastActionId + 1) = _
  rw [logOf_written, logOf_eq_nil hs (Int.lt_succ _), List.nil_append]
  have hentries : change.entries = ((v.superseded mode).map fun x =>
      x.1.entry x.2.1 time [x.2.2.2] none) ++ [⟨.created 0, n.status, time, [], none⟩] := by
    rw [hchange]
    rfl
  -- the entries before the last one are for actions that were there already
  have hold : (((v.superseded mode).map fun x => x.1.entry x.2.1 time [x.2.2.2] none).mapIdx
      fun i e => e.row ctx s.lastActionId (s.lastEntryId + 1 + i)).filter
        (fun e => e.actionId == s.lastActionId + 1) = [] := by
    rw [List.filter_eq_nil_iff]
    intro e he hid
    obtain ⟨i, hi, rfl⟩ := List.mem_mapIdx.mp he
    obtain ⟨x, hx, hentry⟩ := List.mem_map.mp (List.getElem_mem hi)
    rw [← hentry] at hid
    have hle : x.1.id ≤ s.lastActionId := by
      apply hupdates (x.1.moveTo x.2.1 x.2.2.1)
      rw [hchange]
      exact List.mem_map_of_mem hx
    have hid : x.1.id = s.lastActionId + 1 := by
      simpa [NewStatusEntry.row, Action.entry, ActionRef.resolve] using hid
    omega
  rw [entriesBy, hentries, List.mapIdx_append, List.filter_append, hold, List.nil_append]
  simp [NewStatusEntry.row, ActionRef.resolve]

/-- A commit leaves the actions that it creates newborn, and those that were newborn before and that
the call has not read. -/
theorem newborn_written (hages : s.Ages s₁)
    (h : ∀ a ∈ s₁.actions, s.lastActionId < a.id → s₁.Newborn a)
    (hread : s.ReadPlan Ages ctx call change tr v) (hacc : s₁.Accepts ctx change) :
    ∀ a ∈ (s₁.written ctx now change).actions, s.lastActionId < a.id →
      (s₁.written ctx now change).Newborn a := by
  have hs₁ := hages.consistent
  intro a ha hnew
  rcases List.mem_append.mp ha with ha | ha
  · obtain ⟨b, hb, rfl⟩ := List.mem_map.mp ha
    rw [TargetChange.writeAction_id] at hnew
    have hno : ∀ u ∈ change.actionUpdates, u.actionId ≠ b.id := by
      intro u hu hid
      have hle := hread.actionId_le hu
      omega
    obtain ⟨hundispatched, hactive, e, hlog, he⟩ := h b hb hnew
    rw [TargetChange.writeAction_of_forall_ne hno]
    refine ⟨hundispatched, hactive, e, ?_, he⟩
    rw [logOf_written_of_forall_ne hs₁ hb, hlog]
    intro e he haction
    obtain ⟨u, hu, hid⟩ := hread.entries e he b.id haction
    exact hno u hu hid
  · obtain ⟨events, hp⟩ := hread.plan
    by_cases hassign : call.IsAssignment
    · cases hread.plans with
      | assign =>
        have hchange := congrArg Plan.change (Option.some.inj hp).symm
        have hle : ∀ u ∈ change.actionUpdates, u.actionId ≤ s₁.lastActionId := by
          intro u hu
          obtain ⟨b, hb, hid, -⟩ := hacc.updates u hu
          exact hid ▸ hs₁.actions.le_last b (mem_actionsOf.mp hb).1
        exact newborn_of_assign hs₁ hle (isUndispatched_initialStatus _) hchange a ha
      | act _ => exact hassign.elim
      | recalculate => exact hassign.elim
    · have hnews : change.newActions = [] := newActions_eq_nil hassign hread.plans hp
      rw [createdBy, hnews] at ha
      cases ha

/-! ## Actions that go -/

/-- An action goes only when its target is deleted. -/
theorem exists_or_target?_eq_none (s : Store) {o : Op} (ho : o.request.CommitsNothing) :
    ∀ a ∈ s.actions, (∃ a' ∈ (s.after o).actions, a'.id = a.id) ∨
      (s.after o).target? a.tenantId a.controllerId = none := by
  intro a ha
  obtain ⟨ctx, now, q⟩ := o
  by_cases hq : q.IsQuiet
  · rw [actions_of_quiet s (o := ⟨ctx, now, q⟩) hq]
    exact .inl ⟨a, ha, rfl⟩
  · cases q with
    | applyChanges cs => exact ho.elim
    | deleteTarget c =>
      show (∃ a' ∈ (s.perform ctx now (.deleteTarget c)).2.actions, a'.id = a.id) ∨
        (s.perform ctx now (.deleteTarget c)).2.target? a.tenantId a.controllerId = none
      unfold perform answer done deleteTarget
      split
      · exact .inl ⟨a, ha, rfl⟩
      · dsimp only
        split
        · exact .inl ⟨a, ha, rfl⟩
        · by_cases howner : a.owner = (ctx.tenantId, c)
          · refine .inr (target?_eq_none_iff.mpr fun t ht hkey => ?_)
            obtain ⟨-, hother⟩ := List.mem_filter.mp ht
            rw [bne_iff_ne] at hother
            exact hother (hkey.trans howner)
          · refine .inl ⟨a, List.mem_filter.mpr ⟨ha, ?_⟩, rfl⟩
            have hno : ¬ (a.tenantId = ctx.tenantId ∧ a.controllerId = c) := fun h =>
              howner (Prod.ext h.1 h.2)
            simpa [← Decidable.imp_iff_not_or] using hno
    | _ => exact absurd trivial hq

end Store

/-! ## Runs -/

namespace World

open Store

variable {w w' : World} {ws : List World}

/-- An action that a step brings is newborn. -/
theorem Free.newborn (h : w.Free) (hstep : w.FreeStep w') :
    ∀ a' ∈ w'.store.actions, (∀ a ∈ w.store.actions, a.id ≠ a'.id) → w'.store.Newborn a' := by
  have hs := h.consistent
  suffices hnew : ∀ a' ∈ w'.store.actions, w.store.lastActionId < a'.id → w'.store.Newborn a' by
    intro a' ha' hno
    refine hnew a' ha' (Int.not_le.mp fun hle => ?_)
    obtain ⟨a, ha, hid, -⟩ := (h.ages hstep).grows.old a' ha' hle
    exact hno a ha hid
  have hold {s' : Store} (hkept : ∀ a' ∈ s'.actions, a' ∈ w.store.actions) :
      ∀ a' ∈ s'.actions, w.store.lastActionId < a'.id → s'.Newborn a' := by
    intro a' ha' hlt
    have hle := hs.actions.le_last a' (hkept a' ha')
    omega
  refine h.step_induction (P := fun s' => ∀ a' ∈ s'.actions,
    w.store.lastActionId < a'.id → s'.Newborn a') hstep (hold fun _ ha => ha) ?_ ?_
  · exact fun o ho => hold fun a ha => mem_of_commitsNothing hs ho ha
  · exact fun s₁ ctx now call change tr v hages hP hread hacc => newborn_written hages hP hread hacc

/-- An action goes in a step only if its target does. -/
theorem Free.goes (h : w.Free) (hstep : w.FreeStep w') :
    ∀ a ∈ w.store.actions, (∃ a' ∈ w'.store.actions, a'.id = a.id) ∨
      w'.store.target? a.tenantId a.controllerId = none := by
  intro a ha
  refine h.step_induction (P := fun s' => (∃ a' ∈ s'.actions, a'.id = a.id) ∨
    s'.target? a.tenantId a.controllerId = none) hstep (.inl ⟨a, ha, rfl⟩) ?_ ?_
  · exact fun o ho => exists_or_target?_eq_none w.store ho a ha
  · rintro s₁ ctx now call change tr v - (⟨b, hb, hid⟩ | hnone) - -
    · exact .inl ⟨_, List.mem_append_left _ (List.mem_map_of_mem hb), by simpa using hid⟩
    · exact .inr (by rw [target?_written, hnone, Option.map_none])

/-- Every action of a run was newborn at some time, and its log has only been added to since. -/
theorem IsRun.exists_newborn (h : IsRun ws) : ∀ w ∈ ws, ∀ a ∈ w.store.actions, ∃ w₀ ∈ ws,
    ∃ a₀ ∈ w₀.store.actions, a₀.id = a.id ∧ w₀.store.Newborn a₀ ∧
      w₀.store.logOf a.id <+: w.store.logOf a.id := by
  have hsteps : ws.IsChain fun w w' => w.Free ∧ w.FreeStep w' ∧ w' ∈ ws :=
    h.steps.imp_of_mem_imp fun w w' hw hw' hstep => ⟨h.free w hw, hstep, hw'⟩
  refine forall_mem_of_isChain h.start hsteps (fun a ha => by cases ha)
    fun w w' ⟨hw, hstep, hmem⟩ hborn a' ha' => ?_
  by_cases hold : ∃ a ∈ w.store.actions, a.id = a'.id
  · obtain ⟨a, ha, hid⟩ := hold
    obtain ⟨w₀, hw₀, a₀, ha₀, hid₀, hnewborn, hlog⟩ := hborn a ha
    have hages := (hw.ages hstep).action a ha a' ha' hid.symm
    rw [← hid]
    exact ⟨w₀, hw₀, a₀, ha₀, hid₀, hnewborn, hlog.trans hages.log⟩
  · have hnew := hw.newborn hstep a' ha' fun a ha hid => hold ⟨a, ha, hid⟩
    exact ⟨w', hmem, a', ha', rfl, hnew, List.prefix_refl _⟩

/-- Along every run, however the steps of calls follow each other and whatever targets are deleted
and registered again: once an action has ended, neither it nor its log ever changes again, and before
that its log is only added to; an action is stored until its target is deleted; a new action is
scheduled or waits for a confirmation, and its log says just that; and every log starts with the
status in which its action was created. -/
theorem ended_actions_rest (h : IsRun ws) :
    (ws.Pairwise fun w w' => ∀ a ∈ w.store.actions, ∀ a' ∈ w'.store.actions, a'.id = a.id →
      w.store.logOf a.id <+: w'.store.logOf a.id ∧
      (a.active = false → a' = a ∧ w'.store.logOf a.id = w.store.logOf a.id)) ∧
    (ws.IsChain fun w w' => ∀ a ∈ w.store.actions, (∃ a' ∈ w'.store.actions, a'.id = a.id) ∨
      w'.store.target? a.tenantId a.controllerId = none) ∧
    (ws.IsChain fun w w' => ∀ a' ∈ w'.store.actions, (∀ a ∈ w.store.actions, a.id ≠ a'.id) →
      w'.store.Newborn a') ∧
    ∀ w ∈ ws, ∀ a ∈ w.store.actions, ∃ w₀ ∈ ws, ∃ a₀ ∈ w₀.store.actions, a₀.id = a.id ∧
      w₀.store.Newborn a₀ ∧ w₀.store.logOf a.id <+: w.store.logOf a.id := by
  refine ⟨h.pairwise_ages.imp fun hages a ha a' ha' hid => ?_,
    h.isChain fun w w' hw hstep => hw.goes hstep,
    h.isChain fun w w' hw hstep => hw.newborn hstep, h.exists_newborn⟩
  have hold := hages.action a ha a' ha' hid
  exact ⟨hold.log, fun hended => hold.rests (.inr hended)⟩

end World

/-! ## A device that comes back -/

/-- A device is deleted while it has an action; it is registered again, gets another one and reports
success. -/
def comeback : List Task :=
  Store.sampleOps.map .request ++
    [.call Store.sampleContext (.assign .standard (.forced 1 ["device"])) 2,
      .request ⟨Store.sampleContext, 3, .deleteTarget "device"⟩,
      .request ⟨Store.sampleContext, 4, .createTarget (.ofId "device")⟩,
      .call Store.sampleContext (.assign .standard (.forced 2 ["device"])) 5,
      .call Store.sampleContext (.act 2 (.report ⟨.finished, [], none, some 6⟩)) 6]

theorem comeback_not_raw : ∀ task ∈ comeback, ¬ task.IsRaw := by
  simp [comeback, Store.sampleOps, Task.IsRaw]

theorem comeback_actions :
    (Store.empty.afterTasks comeback).actions.map (fun a => (a.id, a.active)) = [(2, false)] := by
  decide +kernel

/-- The second action ends and rests from then on; it was newborn at some time. -/
theorem comeback_rests : ∃ ws, World.IsRun ws ∧
    (∃ w ∈ ws, ∃ a ∈ w.store.actions, a.id = 2 ∧ a.active = false) ∧
    (ws.Pairwise fun w w' => ∀ a ∈ w.store.actions, ∀ a' ∈ w'.store.actions, a'.id = a.id →
      a.active = false → a' = a) ∧
    ∃ w₀ ∈ ws, ∃ a₀ ∈ w₀.store.actions, a₀.id = 2 ∧ w₀.store.Newborn a₀ := by
  obtain ⟨ws, hrun, hpasses⟩ := World.exists_isRun comeback_not_raw
  obtain ⟨w, hw, hstore⟩ := World.exists_mem_of_scanl hpasses
  obtain ⟨a, ha, hid, hended⟩ : ∃ a ∈ w.store.actions, a.id = 2 ∧ a.active = false := by
    have hmem : (2, false) ∈ w.store.actions.map fun a => (a.id, a.active) := by
      rw [hstore, comeback_actions]
      exact List.mem_singleton_self _
    obtain ⟨a, ha, heq⟩ := List.mem_map.mp hmem
    exact ⟨a, ha, Prod.mk.inj heq⟩
  obtain ⟨hrests, -, -, hborn⟩ := World.ended_actions_rest hrun
  obtain ⟨w₀, hw₀, a₀, ha₀, hid₀, hnewborn, -⟩ := hborn w hw a ha
  refine ⟨ws, hrun, ⟨w, hw, a, ha, hid, hended⟩, hrests.imp ?_, w₀, hw₀, a₀, ha₀, hid₀.trans hid,
    hnewborn⟩
  exact fun h a ha a' ha' hid hended => ((h a ha a' ha' hid).2 hended).1

end FleetUpdate
