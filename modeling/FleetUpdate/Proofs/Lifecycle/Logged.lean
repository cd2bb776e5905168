import FleetUpdate.Proofs.Lifecycle.Turn
import FleetUpdate.Proofs.Store.Frame

/-!
# What transitions log

A transition that turns an action logs one entry at most (`Transition.logs`): what a device has
reported, and otherwise what has become of the action.  A plan has this entry for each action that it
updates (`Transition.statuses_of_updates`), and the commit appends it to the log of the action
(`Store.exists_logOf_written_eq`).
-/

namespace FleetUpdate

namespace Transition

/-- The statuses that a transition logs of an action that it updates. -/
def logs (tr : Transition) (u : ActionUpdate) : List ActionStatus :=
  match tr with
  | report _ r _ | reportCancel _ r _ => [r.status]
  | force _ => []
  | _ => [u.status]

theorem Turns.logs {a : Action} {tr : Transition} {u : ActionUpdate} {es : List NewStatusEntry}
    {ending : Option Termination} (h : tr.Turns a u es ending) :
    es.map NewStatusEntry.status = tr.logs u := by
  cases h with
  | agree htr | refuse htr | goOn htr => cases htr <;> rfl
  | _ => rfl

/-- The code that a transition brings: a device reports one or none, and nobody else brings any. -/
def code? : Transition → Option Int
  | report _ r _ | reportCancel _ r _ => r.code
  | _ => none

theorem Answers.code?_eq {a : Action} {tr : Transition} {r : StatusReport} {log : List StatusEntry}
    (h : Answers a r log tr) : tr.code? = r.code := by
  cases h <;> rfl

/-- A turn overwrites the code of its action with the one that the transition brings. -/
theorem Turns.lastCode_eq {a : Action} {tr : Transition} {u : ActionUpdate}
    {es : List NewStatusEntry} {ending : Option Termination} (h : tr.Turns a u es ending) :
    u.lastCode = tr.code?.or a.lastCode := by
  cases h with
  | agree htr | refuse htr | goOn htr =>
    rw [htr.code?_eq]
    rfl
  | _ => rfl

/-- It logs just this code. -/
theorem Turns.codes {a : Action} {tr : Transition} {u : ActionUpdate} {es : List NewStatusEntry}
    {ending : Option Termination} (h : tr.Turns a u es ending) :
    es.map NewStatusEntry.code = [tr.code?] ∨ es = [] ∧ tr.code? = none := by
  cases h with
  | agree htr | refuse htr | goOn htr =>
    rw [htr.code?_eq]
    exact .inl rfl
  | force => exact .inr ⟨rfl, rfl⟩
  | _ => exact .inl rfl

end Transition

/-- Among things with different keys, one is alone with its key. -/
theorem filter_key_eq_singleton {α : Type} {key : α → Int} {l : List α}
    (hl : (l.map key).Nodup) {x : α} (hx : x ∈ l) : (l.filter fun y => key y == key x) = [x] := by
  induction l with
  | nil => cases hx
  | cons y l ih =>
    obtain ⟨hy, hl⟩ := List.nodup_cons.mp hl
    rcases List.mem_cons.mp hx with rfl | hx
    · have hnone : (l.filter fun y => key y == key x) = [] := by
        refine List.filter_eq_nil_iff.mpr fun z hz hkey => hy ?_
        exact List.mem_map.mpr ⟨z, hz, by simpa using hkey⟩
      rw [List.filter_cons_of_pos (by simp), hnone]
    · have hne : key y ≠ key x := fun hkey => hy (hkey ▸ List.mem_map_of_mem hx)
      rw [List.filter_cons_of_neg (by simpa using hne)]
      exact ih hl hx

/-- The entries of a plan for an action that it updates are those of one of its turns. -/
theorem Transition.entries_of_updates {v : TargetView} {p : Plan} {tr : Transition}
    (h : tr.plan? v = some p) (hids : (v.active.map Action.id).Nodup) {u : ActionUpdate}
    (hu : u ∈ p.change.actionUpdates) : ∃ a es ending, tr.Turns a u es ending ∧
      (p.change.entries.filter fun e => e.action == .existing u.actionId) = es := by
  cases hsubject : tr.subject? with
  | some a =>
    obtain ⟨-, w, es, ending, hturns, rfl⟩ := tr.plan?_turns h hsubject
    obtain rfl := List.mem_singleton.mp hu
    refine ⟨a, es, ending, hturns, List.filter_eq_self.mpr fun e he => ?_⟩
    rw [hturns.entries e he, hturns.action.1]
    exact beq_self_eq_true _
  | none =>
    cases tr with
    | assign n mode now =>
      have hnodup : ((planAssignment v n mode now).change.actionUpdates.map
          ActionUpdate.actionId).Nodup := nodup_updates_planAssignment hids
      obtain rfl := Option.some.inj h
      obtain ⟨a, ha, status, active, remark, hs, rfl⟩ := mem_updates_planAssignment hu
      obtain ⟨x, hx, hxa⟩ : ∃ x ∈ v.superseded mode, x = (a, status, active, remark) :=
        ⟨_, List.mem_filterMap.mpr ⟨a, ha, by rw [hs]; rfl⟩, rfl⟩
      have hkeys : ((v.superseded mode).map fun y => y.1.id).Nodup := by
        have hmap : (v.superseded mode).map (fun y => y.1.id) =
            (planAssignment v n mode now).change.actionUpdates.map ActionUpdate.actionId := by
          show _ = ((v.superseded mode).map _).map _
          rw [List.map_map]
          rfl
        rw [hmap]
        exact hnodup
      have halone := filter_key_eq_singleton hkeys hx
      have hold : (fun y : Action × ActionStatus × Bool × String =>
          (y.1.entry y.2.1 now [y.2.2.2] none).action == .existing x.1.id) =
          fun y => y.1.id == x.1.id := by
        funext y
        rw [Bool.eq_iff_iff, beq_iff_eq, beq_iff_eq]
        exact ⟨ActionRef.existing.inj, congrArg ActionRef.existing⟩
      have hkept : ((v.superseded mode).map fun y => y.1.entry y.2.1 now [y.2.2.2] none).filter
          (fun e : NewStatusEntry => e.action == .existing x.1.id) =
          [x.1.entry x.2.1 now [x.2.2.2] none] := by
        rw [List.filter_map, Function.comp_def, hold, halone]
        rfl
      have hentries : (planAssignment v n mode now).change.entries =
          ((v.superseded mode).map fun y => y.1.entry y.2.1 now [y.2.2.2] none) ++
            [⟨.created 0, n.status, now, [], none⟩] := rfl
      subst hxa
      refine ⟨a, _, _, .supersede hs, ?_⟩
      show ((planAssignment v n mode now).change.entries.filter
        fun e : NewStatusEntry => e.action == .existing a.id) = _
      rw [hentries, List.filter_append, hkept]
      rfl
    | recalculate ended =>
      rw [planRecalculation_eq_some h] at hu
      cases hu
    | _ => cases hsubject

/-- They say what the transition logs. -/
theorem Transition.statuses_of_updates {v : TargetView} {p : Plan} {tr : Transition}
    (h : tr.plan? v = some p) (hids : (v.active.map Action.id).Nodup) {u : ActionUpdate}
    (hu : u ∈ p.change.actionUpdates) :
    (p.change.entries.filter fun e => e.action == .existing u.actionId).map
      NewStatusEntry.status = tr.logs u := by
  obtain ⟨a, es, ending, hturns, hentries⟩ := tr.entries_of_updates h hids hu
  rw [hentries, hturns.logs]

/-- Every entry of a plan has the code that the transition brings. -/
theorem Transition.code_of_mem_entries {v : TargetView} {p : Plan} {tr : Transition}
    (h : tr.plan? v = some p) : ∀ e ∈ p.change.entries, e.code = tr.code? := by
  cases hsubject : tr.subject? with
  | some a =>
    obtain ⟨-, u, es, ending, hturns, rfl⟩ := tr.plan?_turns h hsubject
    intro e (he : e ∈ es)
    rcases hturns.codes with hcodes | ⟨rfl, -⟩
    · have hmem : e.code ∈ es.map NewStatusEntry.code := List.mem_map_of_mem he
      rw [hcodes] at hmem
      exact List.mem_singleton.mp hmem
    · cases he
  | none =>
    cases tr with
    | assign n mode now =>
      obtain rfl := Option.some.inj h
      intro e he
      rcases List.mem_append.mp he with he | he
      · obtain ⟨x, -, rfl⟩ := List.mem_map.mp he
        rfl
      · obtain rfl := List.mem_singleton.mp he
        rfl
    | recalculate ended =>
      rw [planRecalculation_eq_some h]
      intro e he
      cases he
    | _ => cases hsubject

namespace Store

variable {s : Store}

/-- Picking the entries of an action commutes with numbering them. -/
theorem filter_mapIdx_map {β : Type} {g : StatusEntry → β} {g' : NewStatusEntry → β}
    {es : List NewStatusEntry} {f : Nat → NewStatusEntry → StatusEntry} {i : Int}
    (hg : ∀ k e, g (f k e) = g' e)
    (haction : ∀ k, ∀ e ∈ es, (f k e).actionId = i ↔ e.action = .existing i) :
    ((es.mapIdx f).filter fun e => e.actionId == i).map g =
      (es.filter fun e => e.action == .existing i).map g' := by
  induction es generalizing f with
  | nil => rfl
  | cons e es ih =>
    have hrest := ih (f := fun k => f (k + 1)) (fun k => hg (k + 1))
      fun k e he => haction (k + 1) e (List.mem_cons_of_mem _ he)
    have hfirst := haction 0 e List.mem_cons_self
    rw [List.mapIdx_cons]
    by_cases he : e.action = .existing i
    · rw [List.filter_cons_of_pos (by simpa using hfirst.mpr he),
        List.filter_cons_of_pos (by simpa using he), List.map_cons, List.map_cons, hg, hrest]
    · rw [List.filter_cons_of_neg (by simpa using fun h => he (hfirst.mp h)),
        List.filter_cons_of_neg (by simpa using he), hrest]

/-- A commit appends to the log of an action what the change says of it; `g` is any of the things
that it can say. -/
theorem exists_logOf_written_map (hs : s.Consistent) (ctx : Context) (now : Instant)
    (change : TargetChange) {a : Action} (ha : a ∈ s.actions) {β : Type} {g : StatusEntry → β}
    {g' : NewStatusEntry → β} (hg : ∀ e last id, g (e.row ctx last id) = g' e) :
    ∃ added, (s.written ctx now change).logOf a.id = s.logOf a.id ++ added ∧
      added.map g = (change.entries.filter fun e => e.action == .existing a.id).map g' := by
  refine ⟨_, logOf_written a.id, filter_mapIdx_map (fun _ e => hg e _ _) fun k e he => ?_⟩
  cases haction : e.action with
  | existing j => simp [NewStatusEntry.row, haction, ActionRef.resolve]
  | created j =>
    -- the ids of new actions come after those of all others
    have hle := hs.actions.le_last a ha
    have hne : s.lastActionId + 1 + (j : Int) ≠ a.id := by omega
    simpa [NewStatusEntry.row, haction, ActionRef.resolve] using hne

theorem exists_logOf_written_eq (hs : s.Consistent) (ctx : Context) (now : Instant)
    (change : TargetChange) {a : Action} (ha : a ∈ s.actions) :
    ∃ added, (s.written ctx now change).logOf a.id = s.logOf a.id ++ added ∧
      added.map StatusEntry.status = (change.entries.filter fun e =>
        e.action == .existing a.id).map NewStatusEntry.status :=
  exists_logOf_written_map hs ctx now change ha fun _ _ _ => rfl

end Store

end FleetUpdate
