import FleetUpdate.Proofs.Store.Agreement
import FleetUpdate.Proofs.Store.Atomic
import Mathlib.Data.List.Induction

/-!
# Changes that update an action twice

A change is checked against the store as it is before the change; its updates are written
afterwards, one after the other, and each of them raises the revision of its action.  An update of
an action that the change has updated before is therefore written to a revision that nobody has
compared with the one it expects.

`repeated_updates` says what becomes of it: the second of two updates finds its action one revision
further than it expects, the third two, and what the store hands back about the action is what the
first of them has written.  So checking all updates beforehand is the same as checking each of them
when its turn comes exactly if the change lists no action twice, and that is also when the store
hands back the actions that it holds.
-/

namespace FleetUpdate

section Writes

variable {ctx : Context} {now : Instant}

/-- Every update of an action raises its revision by one. -/
theorem ActionUpdate.revision_foldl_writeTo (us : List ActionUpdate) (a : Action) :
    (us.foldl (fun a u => u.writeTo ctx now a) a).revision =
      a.revision + (us.map ActionUpdate.actionId).count a.id := by
  induction us generalizing a with
  | nil => simp
  | cons u us ih =>
    rw [List.foldl_cons, ih, ActionUpdate.writeTo_id, List.map_cons, List.count_cons]
    by_cases h : u.actionId = a.id
    · have hrevision : (u.writeTo ctx now a).revision = a.revision + 1 := by
        rw [ActionUpdate.writeTo, if_pos h.symm]
      simp only [hrevision, h, beq_self_eq_true, if_true]
      omega
    · have hsame : u.writeTo ctx now a = a := if_neg (Ne.symm h)
      simp [hsame, h]

/-- An action that is updated once is as this update has written it. -/
theorem ActionUpdate.foldl_writeTo_of_count_eq_one {us : List ActionUpdate} {a : Action}
    (h : (us.map ActionUpdate.actionId).count a.id = 1) {u : ActionUpdate}
    (hu : us.find? (fun u => u.actionId == a.id) = some u) :
    us.foldl (fun a u => u.writeTo ctx now a) a = u.writeTo ctx now a := by
  induction us with
  | nil => cases hu
  | cons v us ih =>
    rw [List.map_cons, List.count_cons] at h
    rw [List.foldl_cons]
    by_cases hv : v.actionId = a.id
    · rw [List.find?_cons_of_pos (by simpa using hv)] at hu
      obtain rfl := Option.some.inj hu
      have hnone : (us.map ActionUpdate.actionId).count a.id = 0 := by
        simpa [hv] using h
      -- the updates that follow are about other actions
      refine TargetChange.writeAction_of_forall_ne (c := ⟨"", 0, none, [], us, []⟩) ?_
      intro w hw hid
      rw [ActionUpdate.writeTo_id] at hid
      exact List.count_eq_zero.mp hnone (hid ▸ List.mem_map_of_mem hw)
    · rw [List.find?_cons_of_neg (by simpa using hv)] at hu
      rw [show v.writeTo ctx now a = a from if_neg (Ne.symm hv)]
      exact ih (by simpa [hv] using h) hu

end Writes

/-- The keys of a list are distinct if none of its elements has the key of one before it. -/
theorem nodup_map_iff_split {α κ : Type} {key : α → κ} {l : List α} :
    (l.map key).Nodup ↔
      ∀ before a after, l = before ++ a :: after → key a ∉ before.map key := by
  constructor
  · rintro h before a after rfl
    rw [List.map_append, List.map_cons, List.nodup_middle, List.nodup_cons] at h
    exact fun hmem => h.1 (List.mem_append_left _ hmem)
  · intro h
    induction l using List.reverseRecOn with
    | nil => exact .nil
    | append_singleton l a ih =>
      rw [List.map_append, List.map_cons, List.map_nil, ← List.concat_eq_append, List.nodup_concat]
      refine ⟨h l a [] rfl, ih ?_⟩
      rintro before b after rfl
      exact h before b (after ++ [a]) (by simp)

namespace Store

variable {s : Store} {ctx : Context} {now : Instant} {c : TargetChange}

/-! ## The updates of a change in turn -/

/-- The action that an update of a change finds once the new actions are created and the updates
before it are written. -/
def foundBy (s : Store) (ctx : Context) (now : Instant) (c : TargetChange)
    (before : List ActionUpdate) (u : ActionUpdate) : Option Action :=
  match (s.createActions ctx now c.controllerId c.newActions).2.updateActions ctx now before with
  | .ok (_, s') => s'.actionById? u.actionId
  | .error _ => none

/-- Each update of a change finds its action at the revision that it expects. -/
def UpdatesMatchInTurn (s : Store) (ctx : Context) (now : Instant) (c : TargetChange) : Prop :=
  ∀ before u after, c.actionUpdates = before ++ u :: after →
    (s.foundBy ctx now c before u).map Action.revision = some u.expectedRevision

/-- Of the rows that updates hand back, the first one about an action is what the first update of
this action has written. -/
theorem find?_updateActions (hids : (s.actions.map Action.id).Nodup) {us : List ActionUpdate}
    (hus : ∀ u ∈ us, ∃ a ∈ s.actions, a.id = u.actionId) {rows : List Action} {s' : Store}
    (hrun : s.updateActions ctx now us = .ok (rows, s')) {a : Action} (ha : a ∈ s.actions) :
    rows.find? (fun b => b.id == a.id) =
      (us.find? fun u => u.actionId == a.id).map fun u => u.writeTo ctx now a := by
  induction us generalizing s rows s' with
  | nil =>
    obtain ⟨rfl, -⟩ := Prod.mk.inj (Except.ok.inj hrun)
    rfl
  | cons u us ih =>
    obtain ⟨b, hb, hid⟩ := hus u List.mem_cons_self
    set s₁ : Store := { s with actions := s.actions.map (u.writeTo ctx now) } with hs₁
    rw [updateActions, updateAction_eq hids hb hid] at hrun
    change (s₁.updateActions ctx now us >>= fun r =>
      Except.ok (u.writeTo ctx now b :: r.1, r.2)) = _ at hrun
    cases hrest : s₁.updateActions ctx now us with
    | error e =>
      rw [hrest] at hrun
      cases hrun
    | ok r =>
      rw [hrest] at hrun
      obtain ⟨rfl, -⟩ := Prod.mk.inj (Except.ok.inj hrun)
      by_cases hua : u.actionId = a.id
      · have hba : b = a := List.inj_on_of_nodup_map hids hb ha (hid.trans hua)
        rw [List.find?_cons_of_pos (by simpa using hid.trans hua),
          List.find?_cons_of_pos (by simpa using hua), hba]
        rfl
      · have hsame : u.writeTo ctx now a = a := if_neg (Ne.symm hua)
        have ha₁ : a ∈ s₁.actions := List.mem_map.mpr ⟨a, ha, hsame⟩
        rw [List.find?_cons_of_neg (by simpa [hid] using hua),
          List.find?_cons_of_neg (by simpa using hua)]
        refine ih ?_ ?_ hrest ha₁
        · simpa [hs₁, List.map_map, Function.comp_def] using hids
        · intro v hv
          obtain ⟨d, hd, hdid⟩ := hus v (List.mem_cons_of_mem u hv)
          exact ⟨_, List.mem_map_of_mem hd, by simpa using hdid⟩

theorem createActions_snd (s : Store) (ctx : Context) (now : Instant) (c : TargetChange) :
    (s.createActions ctx now c.controllerId c.newActions).2 = s.afterCreating ctx now c := by
  rw [createActions_eq]
  rfl

/-- The store that the updates of a change are written to has its ids once each. -/
theorem Consistent.nodup_afterCreating (hs : s.Consistent) (ctx : Context) (now : Instant)
    (c : TargetChange) : ((s.afterCreating ctx now c).actions.map Action.id).Nodup :=
  (hs.actions.append_mapIdx c.newActions _ fun _ _ => rfl).nodup

theorem mem_afterCreating {a : Action} (ha : a ∈ s.actions) (ctx : Context) (now : Instant)
    (c : TargetChange) : a ∈ (s.afterCreating ctx now c).actions :=
  List.mem_append_left _ ha

namespace Accepts

/-- An accepted update names a stored action of the tenant at the revision that it expects. -/
theorem exists_action (h : s.Accepts ctx c) {u : ActionUpdate} (hu : u ∈ c.actionUpdates) :
    ∃ a ∈ s.actions, a.id = u.actionId ∧ a.tenantId = ctx.tenantId ∧
      a.revision = u.expectedRevision := by
  obtain ⟨a, ha, hid, hrevision⟩ := h.updates u hu
  obtain ⟨hmem, howner⟩ := mem_actionsOf.mp ha
  exact ⟨a, hmem, hid, (Prod.mk.inj howner).1, hrevision⟩

variable (hs : s.Consistent) (h : s.Accepts ctx c) (now : Instant)

include hs h

/-- An update finds its action further than it expects, by the number of the updates of this action
that are written before it. -/
theorem revision_foundBy {before after : List ActionUpdate} {u : ActionUpdate}
    (hsplit : c.actionUpdates = before ++ u :: after) :
    (s.foundBy ctx now c before u).map Action.revision =
      some (u.expectedRevision + (before.map ActionUpdate.actionId).count u.actionId) := by
  have hids := hs.nodup_afterCreating ctx now c
  have hfinds : ∀ v ∈ before, ∃ a ∈ (s.afterCreating ctx now c).actions, a.id = v.actionId := by
    intro v hv
    obtain ⟨a, ha, hid, -⟩ := h.exists_action (u := v) (by simp [hsplit, hv])
    exact ⟨a, mem_afterCreating ha ctx now c, hid⟩
  obtain ⟨rows, hrun, -⟩ := @updateActions_eq _ ctx now hids before hfinds
  obtain ⟨a, ha, hid, -, hrevision⟩ := h.exists_action (u := u) (by simp [hsplit])
  set write : Action → Action := fun a => before.foldl (fun a u => u.writeTo ctx now a) a with hwrite
  have hkeeps (b : Action) : (write b).id = b.id :=
    @TargetChange.writeAction_id ctx now ⟨"", 0, none, [], before, []⟩ b
  have hfound : (((s.afterCreating ctx now c).actions.map write).find?
      fun b => b.id == u.actionId) = some (write a) := by
    refine (find?_key_eq_some_iff ?_).mpr
      ⟨List.mem_map_of_mem (mem_afterCreating ha ctx now c), (hkeeps a).trans hid⟩
    simpa [List.map_map, Function.comp_def, hkeeps] using hids
  rw [foundBy, createActions_snd, hrun]
  show (List.find? _ _).map _ = _
  rw [hfound, Option.map_some, hwrite, ActionUpdate.revision_foldl_writeTo, hrevision, hid]

/-- The updates of an accepted change find their actions as they expect exactly if none of these
actions is listed twice. -/
theorem updatesMatchInTurn_iff :
    s.UpdatesMatchInTurn ctx now c ↔ (c.actionUpdates.map ActionUpdate.actionId).Nodup := by
  rw [nodup_map_iff_split]
  refine forall_congr' fun before => forall_congr' fun u => forall_congr' fun after =>
    forall_congr' fun hsplit => ?_
  rw [h.revision_foundBy hs now hsplit, Option.some.injEq, ← List.count_eq_zero]
  omega

/-- What the store hands back about an action is what the first update of it has written. -/
theorem action?_eq {k : Committed} (hcommit : s.commit ctx now c = (.ok k, s.written ctx now c))
    (hreceipt : s.Receipt ctx now c k) {a : Action} (ha : a ∈ s.actions) :
    k.action? a.id =
      (c.actionUpdates.find? fun u => u.actionId == a.id).map fun u => u.writeTo ctx now a := by
  obtain ⟨s₂, hrun⟩ := updated_of_writeChange
    (writeChange_of_commit ((checkChange_eq_ok_iff hs).mpr h) hcommit)
  have hcreated : k.created.find? (fun b => b.id == a.id) = none := by
    rw [List.find?_eq_none, hreceipt.created]
    intro b hb hid
    have hlt := createdBy_id hb
    have hle := hs.actions.le_last a ha
    rw [beq_iff_eq] at hid
    omega
  rw [Committed.action?, List.find?_append, hcreated, Option.none_or]
  refine find?_updateActions (hs.nodup_afterCreating ctx now c) ?_ hrun (mem_afterCreating ha ctx now c)
  intro u hu
  obtain ⟨b, hb, hid, -⟩ := h.exists_action hu
  exact ⟨b, mem_afterCreating hb ctx now c, hid⟩

/-- The store hands back an updated action as it holds it exactly if the change lists it once. -/
theorem action?_eq_iff {k : Committed}
    (hcommit : s.commit ctx now c = (.ok k, s.written ctx now c))
    (hreceipt : s.Receipt ctx now c k) {u : ActionUpdate} (hu : u ∈ c.actionUpdates) :
    k.action? u.actionId = (s.written ctx now c).action? ctx.tenantId u.actionId ↔
      (c.actionUpdates.map ActionUpdate.actionId).count u.actionId = 1 := by
  obtain ⟨a, ha, hid, htenant, -⟩ := h.exists_action hu
  have hstored : (s.written ctx now c).action? ctx.tenantId a.id =
      some (c.writeAction ctx now a) := by
    refine (action?_eq_some_iff (hs.written h now)).mpr ⟨?_, by simp, ?_⟩
    · exact List.mem_append_left _ (List.mem_map_of_mem ha)
    · exact (Prod.mk.inj (@TargetChange.writeAction_owner ctx now c a)).1.trans htenant
  obtain ⟨v, hv⟩ : ∃ v, c.actionUpdates.find? (fun v => v.actionId == a.id) = some v := by
    rw [← Option.isSome_iff_exists, List.find?_isSome]
    exact ⟨u, hu, by simp [hid]⟩
  have hvid : v.actionId = a.id := by simpa using List.find?_some hv
  rw [← hid, hstored, action?_eq hs h now hcommit hreceipt ha, hv, Option.map_some,
    Option.some.injEq]
  constructor
  · -- each update has raised the revision, but only the first one is in what was handed back
    intro hsame
    have hrevision : (c.writeAction ctx now a).revision = _ :=
      ActionUpdate.revision_foldl_writeTo c.actionUpdates a
    rw [← hsame, ActionUpdate.writeTo, if_pos hvid.symm] at hrevision
    simp only at hrevision
    omega
  · exact fun hcount => (ActionUpdate.foldl_writeTo_of_count_eq_one hcount hv).symm

end Accepts

/-! ## What repeated updates meet -/

/-- Each change of a request is committed to the store that it is listed with. -/
theorem commit_of_mem_appliedBy (hs : s.Consistent) {cs : List TargetChange} {p : Applied}
    (hp : p ∈ s.appliedBy ctx now cs) :
    p.before.Consistent ∧ p.before.commit ctx now p.change = (p.outcome, p.after) := by
  induction cs generalizing s with
  | nil => cases hp
  | cons c cs ih =>
    rcases List.mem_cons.mp hp with rfl | hp
    · exact ⟨hs, rfl⟩
    · exact ih (hs.commit ctx now c) hp

/-- Whenever a change is committed: each update has found its action at the revision that it expects
plus the number of updates of this action before it; all of them have found what they expect exactly
if no action is listed twice; and what is handed back about an action is what is stored exactly if the
action is listed once. -/
theorem repeated_updates (hs : s.Reachable) (ctx : Context) (now : Instant)
    (cs : List TargetChange) {p : Applied} (hp : p ∈ s.appliedBy ctx now cs) {k : Committed}
    (hk : p.outcome = .ok k) :
    (∀ before u after, p.change.actionUpdates = before ++ u :: after →
      (p.before.foundBy ctx now p.change before u).map Action.revision =
        some (u.expectedRevision + (before.map ActionUpdate.actionId).count u.actionId)) ∧
    (p.before.UpdatesMatchInTurn ctx now p.change ↔
      (p.change.actionUpdates.map ActionUpdate.actionId).Nodup) ∧
    ∀ u ∈ p.change.actionUpdates,
      k.action? u.actionId = p.after.action? ctx.tenantId u.actionId ↔
        (p.change.actionUpdates.map ActionUpdate.actionId).count u.actionId = 1 := by
  obtain ⟨hbefore, hcommit⟩ := commit_of_mem_appliedBy hs.consistent hp
  rw [hk] at hcommit
  rcases commit_cases hbefore ctx now p.change with ⟨k', hacc, hwritten, hreceipt⟩ | ⟨e, -, hrefused⟩
  · obtain ⟨hkk, hafter⟩ := Prod.mk.inj (hcommit.symm.trans hwritten)
    obtain rfl := Except.ok.inj hkk
    rw [hafter]
    exact ⟨fun _ _ _ hsplit => hacc.revision_foundBy hbefore now hsplit,
      hacc.updatesMatchInTurn_iff hbefore now,
      fun _ hu => hacc.action?_eq_iff hbefore now hwritten hreceipt hu⟩
  · rw [hrefused] at hcommit
    cases (Prod.mk.inj hcommit).1

/-- The small store after a distribution set has been assigned to its device. -/
def sampleUnderWay : Store :=
  sample.afterAll [⟨sampleContext, 2, .applyChanges [sampleAssignment 1]⟩]

/-- A change that updates the action of the device, and a second time at the same revision. -/
def sampleTwice (updates : Nat) : TargetChange :=
  ⟨"device", 2, none, [],
    [⟨1, 1, .running, true, .forced, none⟩, ⟨1, 1, .download, true, .forced, none⟩].take updates, []⟩

theorem sampleUnderWay_reachable : sampleUnderWay.Reachable := sample_reachable.afterAll _

/-- Listed once, the action is checked at its turn and handed back as it is stored. -/
theorem sample_updated_once :
    sampleUnderWay.UpdatesMatchInTurn sampleContext 3 (sampleTwice 1) ∧
    ∃ k s', sampleUnderWay.commit sampleContext 3 (sampleTwice 1) = (.ok k, s') ∧
      k.action? 1 = s'.action? "acme" 1 := by
  have hs := sampleUnderWay_reachable.consistent
  have hacc : sampleUnderWay.Accepts sampleContext (sampleTwice 1) :=
    (checkChange_eq_ok_iff hs).mp (by decide +kernel)
  obtain ⟨k, hcommit, -⟩ := commit_of_accepts hs hacc 3
  have h := repeated_updates sampleUnderWay_reachable sampleContext 3 [sampleTwice 1]
    List.mem_cons_self (congrArg Prod.fst hcommit)
  exact ⟨h.2.1.mpr (by decide), k, _, Prod.ext (congrArg Prod.fst hcommit) rfl,
    (h.2.2 _ List.mem_cons_self).mpr (by decide)⟩

/-- Listed twice at one revision, the action is committed all the same: the second update finds it
one revision further than it expects, and what is handed back is not what is stored. -/
theorem sample_updated_twice :
    (sampleUnderWay.commit sampleContext 3 (sampleTwice 2)).1.isOk = true ∧
    ¬ sampleUnderWay.UpdatesMatchInTurn sampleContext 3 (sampleTwice 2) ∧
    ∀ k s', sampleUnderWay.commit sampleContext 3 (sampleTwice 2) = (.ok k, s') →
      k.action? 1 ≠ s'.action? "acme" 1 := by
  refine ⟨by decide +kernel, ?_, ?_⟩
  · intro h
    exact absurd (h [⟨1, 1, .running, true, .forced, none⟩] ⟨1, 1, .download, true, .forced, none⟩ []
      rfl) (by decide +kernel)
  · intro k s' hcommit
    have hdiffer : (sampleUnderWay.commit sampleContext 3 (sampleTwice 2)).1.toOption.bind
        (fun k => k.action? 1) ≠
          (sampleUnderWay.commit sampleContext 3 (sampleTwice 2)).2.action? "acme" 1 := by
      decide +kernel
    rw [hcommit] at hdiffer
    exact hdiffer

end Store

end FleetUpdate
