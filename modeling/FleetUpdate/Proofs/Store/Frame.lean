import FleetUpdate.Proofs.Store.Commit

/-!
# What a request leaves alone

A target with its actions and their logs is a world of its own: a request about another target, or
about distribution sets, leaves it as it is.  `SameAt` says that two stores agree on one target, and
`SameAt.perform` which requests give such stores.  What a commit does to its own target is said by
`target?_written` and `actionsOf_written`.
-/

namespace FleetUpdate

/-- A request is about a target: it registers, changes or deletes it. -/
def Request.Concerns (ctx : Context) (x c : String) : Request → Prop
  | createTarget n => (ctx.tenantId, n.controllerId) = (x, c)
  | updateTarget d _ | markContacted d _ | deleteTarget d => (ctx.tenantId, d) = (x, c)
  | applyChanges cs => ∃ change ∈ cs, (ctx.tenantId, change.controllerId) = (x, c)
  | _ => False

namespace Store

/-- Two stores hold the same of a target: its row, its actions and their logs. -/
structure SameAt (x c : String) (s s' : Store) : Prop where
  target : s'.target? x c = s.target? x c
  history : s'.historyOf x c = s.historyOf x c

variable {s s' s'' : Store} {x c : String} {ctx : Context} {now : Instant}

namespace SameAt

theorem refl (s : Store) : SameAt x c s s := ⟨rfl, rfl⟩

theorem trans (h : SameAt x c s s') (h' : SameAt x c s' s'') : SameAt x c s s'' :=
  ⟨h'.target.trans h.target, h'.history.trans h.history⟩

theorem actionsOf_eq (h : SameAt x c s s') : s'.actionsOf x c = s.actionsOf x c :=
  (historyOf_eq_iff.mp h.history).1

theorem activeOf_eq (h : SameAt x c s s') : s'.activeOf x c = s.activeOf x c := by
  rw [activeOf, h.actionsOf_eq, activeOf]

/-- Stores with the same tables of actions and log entries agree wherever they agree on the
target. -/
theorem of_tables (ht : s'.target? x c = s.target? x c) (ha : s'.actions = s.actions)
    (hl : s'.log = s.log) : SameAt x c s s' :=
  ⟨ht, by simp only [historyOf, actionsOf, logOf, ha, hl]⟩

end SameAt

/-! ## Requests about targets -/

/-- Replacing the row of a target is seen under its key only. -/
theorem target?_putTarget (s : Store) (t : Target) (x c : String) :
    (s.putTarget t).target? x c =
      (s.target? x c).map fun u => if u.key = t.key then t else u :=
  find?_map_of_key Target.key (fun u => by by_cases h : u.key = t.key <;> simp [h]) _

theorem SameAt.changeTarget {d : String} (h : (ctx.tenantId, d) ≠ (x, c)) {f : Target → Target}
    (hf : ∀ t, (f t).key = t.key) : SameAt x c s (s.changeTarget ctx d f).2 := by
  unfold Store.changeTarget
  split
  · exact .refl s
  · rename_i t ht
    refine .of_tables ?_ rfl rfl
    rw [target?_putTarget]
    cases hu : s.target? x c with
    | none => rfl
    | some u =>
      have hne : u.key ≠ (f t).key := by
        rw [hf, key_of_target? hu, key_of_target? ht]
        exact h.symm
      rw [Option.map_some, if_neg hne]

theorem SameAt.createTarget {n : NewTarget} {t : Target}
    (h : (ctx.tenantId, n.controllerId) ≠ (x, c)) (hok : s.createTarget ctx now n = .ok (t, s')) :
    SameAt x c s s' := by
  obtain ⟨-, -, -, rfl⟩ := createTarget_eq_ok_iff.mp hok
  refine .of_tables ?_ rfl rfl
  rw [target?, List.find?_append, List.find?_cons_of_neg, List.find?_nil, Option.or_none, target?]
  rw [beq_iff_eq]
  exact h

/-- A target that has been deleted is not there. -/
theorem target?_deleteTarget (s : Store) (ctx : Context) (d : String) :
    (s.deleteTarget ctx d).2.target? ctx.tenantId d = none := by
  unfold Store.deleteTarget
  split
  · assumption
  · refine target?_eq_none_iff.mpr fun t ht => ?_
    exact bne_iff_ne.mp (List.mem_filter.mp ht).2

/-- Deleting a target leaves the logs of other targets alone, since an action is stored under one
target only. -/
theorem SameAt.deleteTarget (hs : s.Consistent) {d : String} (h : (ctx.tenantId, d) ≠ (x, c)) :
    SameAt x c s (s.deleteTarget ctx d).2 := by
  unfold Store.deleteTarget
  split
  · exact .refl s
  · refine ⟨?_, historyOf_eq_iff.mpr ⟨?_, ?_⟩⟩
    · rw [target?, List.find?_filter, target?]
      congr 1
      funext t
      by_cases ht : t.key = (x, c)
      · simp [ht, Ne.symm h]
      · simp [ht]
    · rw [actionsOf, List.filter_filter, actionsOf]
      apply List.filter_congr
      intro a _
      by_cases ha : a.owner = (x, c)
      · obtain ⟨rfl, rfl⟩ := Prod.mk.inj ha
        have : a.tenantId = ctx.tenantId → ¬a.controllerId = d := fun h₁ h₂ =>
          h (by rw [← h₁, ← h₂])
        simpa [← Decidable.imp_iff_not_or] using this
      · have : ¬(a.tenantId = x ∧ a.controllerId = c) := by
          rintro ⟨rfl, rfl⟩
          exact ha rfl
        simp [this]
    · intro a ha
      obtain ⟨hmem, howner⟩ := mem_actionsOf.mp ha
      rw [logOf, List.filter_filter, logOf]
      apply List.filter_congr
      intro e _
      by_cases he : e.actionId = a.id
      · -- an action of the deleted target with the id of `a` would be `a` itself
        have hkept : (s.actionsOf ctx.tenantId d).any (fun b => b.id == e.actionId) = false := by
          rw [List.any_eq_false]
          intro b hb hid
          obtain ⟨hb, hbowner⟩ := mem_actionsOf.mp hb
          have hba : b = a := hs.actions.eq_of_id_eq hb hmem ((beq_iff_eq.mp hid).trans he)
          exact h (hbowner.symm.trans (hba ▸ howner))
        simp [he] at hkept ⊢
        exact hkept
      · simp [he]

/-! ## Commits -/

theorem target?_written_of_ne {change : TargetChange}
    (h : (ctx.tenantId, change.controllerId) ≠ (x, c)) :
    (s.written ctx now change).target? x c = s.target? x c := by
  rw [target?_written]
  cases ht : s.target? x c with
  | none => rfl
  | some t =>
    rw [Option.map_some, TargetChange.writeTarget, if_neg]
    rw [key_of_target? ht]
    exact h.symm

/-- A change rewrites the actions of its target in place and adds those that it creates. -/
theorem actionsOf_written {change : TargetChange} :
    (s.written ctx now change).actionsOf ctx.tenantId change.controllerId =
      (s.actionsOf ctx.tenantId change.controllerId).map (change.writeAction ctx now) ++
        s.createdBy ctx now change := by
  show List.filter _ (s.actions.map (change.writeAction ctx now) ++ _) = _
  rw [List.filter_append]
  congr 1
  · rw [actionsOf, List.filter_map]
    congr 1
    apply List.filter_congr
    intro a _
    have howner : (change.writeAction ctx now a).owner = a.owner := by simp
    obtain ⟨hx, hc⟩ := Prod.mk.inj howner
    simp [hx, hc]
  · apply List.filter_eq_self.mpr
    intro a ha
    obtain ⟨i, hi, rfl⟩ := List.mem_mapIdx.mp ha
    simp [NewAction.row]

/-- An accepted change updates actions of its own target only. -/
theorem Accepts.writeAction_of_ne (hs : s.Consistent) {change : TargetChange}
    (hacc : s.Accepts ctx change) {a : Action} (ha : a ∈ s.actions)
    (h : (ctx.tenantId, change.controllerId) ≠ a.owner) : change.writeAction ctx now a = a := by
  apply TargetChange.writeAction_of_forall_ne
  intro u hu hid
  obtain ⟨b, hb, hbid, -⟩ := hacc.updates u hu
  obtain ⟨hbmem, hbowner⟩ := mem_actionsOf.mp hb
  have hba : b = a := hs.actions.eq_of_id_eq hbmem ha (hbid.trans hid)
  exact h (hbowner.symm.trans (hba ▸ rfl))

/-- A change appends to the log of an action the entries that are for it. -/
theorem logOf_written {change : TargetChange} (i : Int) :
    (s.written ctx now change).logOf i =
      s.logOf i ++ (s.entriesBy ctx change).filter fun e => e.actionId == i :=
  List.filter_append ..

/-- The log of an action that no entry of a change is for stays as it is. -/
theorem logOf_written_of_forall_ne (hs : s.Consistent) {change : TargetChange} {a : Action}
    (ha : a ∈ s.actions) (h : ∀ e ∈ change.entries, e.action ≠ .existing a.id) :
    (s.written ctx now change).logOf a.id = s.logOf a.id := by
  suffices hnew : (s.entriesBy ctx change).filter (fun e => e.actionId == a.id) = [] by
    rw [logOf_written, hnew, List.append_nil]
  rw [List.filter_eq_nil_iff]
  intro e he hid
  obtain ⟨i, hi, rfl⟩ := List.mem_mapIdx.mp he
  cases haction : change.entries[i].action with
  | existing j =>
    have hj : j = a.id := by simpa [NewStatusEntry.row, haction, ActionRef.resolve] using hid
    exact h _ (List.getElem_mem hi) (hj ▸ haction)
  | created j =>
    have hle := hs.actions.le_last a ha
    have hj : s.lastActionId + 1 + (j : Int) = a.id := by
      simpa [NewStatusEntry.row, haction, ActionRef.resolve] using hid
    omega

/-- An accepted change appends to the logs of its own target only. -/
theorem Accepts.logOf_written_of_ne (hs : s.Consistent) {change : TargetChange}
    (hacc : s.Accepts ctx change) {a : Action} (ha : a ∈ s.actions)
    (h : (ctx.tenantId, change.controllerId) ≠ a.owner) :
    (s.written ctx now change).logOf a.id = s.logOf a.id := by
  refine logOf_written_of_forall_ne hs ha fun e he haction => ?_
  have haccepted := hacc.entries e he
  rw [haction] at haccepted
  obtain ⟨b, hb, hbid⟩ := haccepted
  obtain ⟨hbmem, hbowner⟩ := mem_actionsOf.mp hb
  have hba : b = a := hs.actions.eq_of_id_eq hbmem ha hbid
  exact h (hbowner.symm.trans (hba ▸ rfl))

theorem SameAt.written (hs : s.Consistent) {change : TargetChange} (hacc : s.Accepts ctx change)
    (h : (ctx.tenantId, change.controllerId) ≠ (x, c)) :
    SameAt x c s (s.written ctx now change) := by
  refine ⟨target?_written_of_ne h, historyOf_eq_iff.mpr ⟨?_, ?_⟩⟩
  · show List.filter _ (s.actions.map (change.writeAction ctx now) ++ _) = _
    have hnew : (s.createdBy ctx now change).filter
        (fun a => a.tenantId == x && a.controllerId == c) = [] := by
      rw [List.filter_eq_nil_iff]
      intro a ha hown
      obtain ⟨i, hi, rfl⟩ := List.mem_mapIdx.mp ha
      exact h (by simpa [NewAction.row] using hown)
    rw [List.filter_append, hnew, List.append_nil, actionsOf, List.filter_map]
    have hkept : s.actions.filter
        ((fun a => a.tenantId == x && a.controllerId == c) ∘ change.writeAction ctx now) =
          s.actions.filter fun a => a.tenantId == x && a.controllerId == c := by
      apply List.filter_congr
      intro a _
      have howner : (change.writeAction ctx now a).owner = a.owner := by simp
      obtain ⟨hx, hc⟩ := Prod.mk.inj howner
      simp [hx, hc]
    rw [hkept]
    conv_rhs => rw [← List.map_id (s.actions.filter _)]
    apply List.map_congr_left
    intro a ha
    obtain ⟨hmem, howner⟩ := mem_actionsOf.mp ha
    exact hacc.writeAction_of_ne hs hmem (howner ▸ h)
  · intro a ha
    obtain ⟨hmem, howner⟩ := mem_actionsOf.mp ha
    exact hacc.logOf_written_of_ne hs hmem (howner ▸ h)

theorem SameAt.commit (hs : s.Consistent) {change : TargetChange}
    (h : (ctx.tenantId, change.controllerId) ≠ (x, c)) :
    SameAt x c s (s.commit ctx now change).2 := by
  rcases commit_cases hs ctx now change with ⟨k, hacc, hcommit, -⟩ | ⟨e, -, hcommit⟩
  · rw [hcommit]
    exact .written hs hacc h
  · rw [hcommit]
    exact .refl s

theorem SameAt.commitAll (hs : s.Consistent) {cs : List TargetChange}
    (h : ∀ change ∈ cs, (ctx.tenantId, change.controllerId) ≠ (x, c)) :
    SameAt x c s (s.commitAll ctx now cs).2 := by
  induction cs generalizing s with
  | nil => exact .refl s
  | cons change cs ih =>
    have hfirst : SameAt x c s (s.commit ctx now change).2 := .commit hs (h change (by simp))
    exact hfirst.trans (ih (hs.commit ctx now change) fun d hd => h d (List.mem_cons_of_mem _ hd))

/-! ## All requests -/

/-- A request that is not about a target leaves it, its actions and their logs as they are. -/
theorem SameAt.perform (hs : s.Consistent) {r : Request} (h : ¬ r.Concerns ctx x c) :
    SameAt x c s (s.perform ctx now r).2 := by
  have heffect := s.perform_effect ctx now r
  generalize (s.perform ctx now r).2 = s' at heffect ⊢
  cases heffect with
  | none => exact .refl s
  | register hok => exact .createTarget h hok
  | describe d _ => exact .changeTarget h fun _ => rfl
  | contact d _ => exact .changeTarget h fun _ => rfl
  | delete d => exact .deleteTarget hs h
  | sets sets last => exact .of_tables rfl rfl rfl
  | commit cs => exact .commitAll hs fun change hc hk => h ⟨change, hc, hk⟩

end Store

end FleetUpdate
