import FleetUpdate.Proofs.Store.Frame
import FleetUpdate.Proofs.Store.Growth

/-!
# What becomes of actions, deletions included

Targets may be deleted and registered again, so a revision of a target says little about what was
there before.  Actions are different: their ids are used once.  `Ages` relates a store to a later
one by what must have become of an action that both hold: its revision has not fallen, its log has
only been added to, and where its revision stands still, or the action had ended, nothing about it
has changed.  Whatever does not commit lets actions age, and so does every commit that updates
active actions only and logs nothing but what it writes.
-/

namespace FleetUpdate

namespace Store

/-- What has become of an action `a` of one store if a later store holds it as `a'`. -/
structure AgesAs (s s' : Store) (a a' : Action) : Prop where
  revision : a.revision ≤ a'.revision
  log : s.logOf a.id <+: s'.logOf a.id
  rests : a'.revision = a.revision ∨ a.active = false → a' = a ∧ s'.logOf a.id = s.logOf a.id

/-- A later store: no id has been used twice, and the actions that both stores hold have aged. -/
structure Ages (s s' : Store) : Prop where
  before : s.Consistent
  consistent : s'.Consistent
  grows : s.Grows s'
  action : ∀ a ∈ s.actions, ∀ a' ∈ s'.actions, a'.id = a.id → s.AgesAs s' a a'

variable {s s' s'' : Store} {ctx : Context} {now : Instant}

/-! ## Requests that commit nothing -/

/-- Deleting a target takes actions with their logs and leaves the others alone. -/
theorem kept_deleteTarget (hs : s.Consistent) {c : String} :
    ∀ a ∈ (s.deleteTarget ctx c).2.actions,
      a ∈ s.actions ∧ (s.deleteTarget ctx c).2.logOf a.id = s.logOf a.id := by
  intro a ha
  have hstays : a ∈ s.actions ∧ ((ctx.tenantId, c) = a.owner →
      (s.deleteTarget ctx c).2 = s) := by
    unfold Store.deleteTarget at ha ⊢
    split at ha
    · exact ⟨ha, fun _ => rfl⟩
    · obtain ⟨hmem, hother⟩ := List.mem_filter.mp ha
      refine ⟨hmem, fun howner => ?_⟩
      obtain ⟨hx, hc⟩ := Prod.mk.inj howner
      simp [hx, hc] at hother
  refine ⟨hstays.1, ?_⟩
  by_cases howner : (ctx.tenantId, c) = a.owner
  · rw [hstays.2 howner]
  · have hsame : SameAt a.tenantId a.controllerId s (s.deleteTarget ctx c).2 :=
      .deleteTarget hs howner
    exact (historyOf_eq_iff.mp hsame.history).2 a (mem_actionsOf.mpr ⟨hstays.1, rfl⟩)

/-- What is there after a request that commits nothing was there before, and its log is the same. -/
theorem kept_after (hs : s.Consistent) {o : Op} (ho : ∀ cs, o.request ≠ .applyChanges cs) :
    ∀ a ∈ (s.after o).actions, a ∈ s.actions ∧ (s.after o).logOf a.id = s.logOf a.id := by
  obtain ⟨ctx, now, q⟩ := o
  have heffect := s.perform_effect ctx now q
  show ∀ a ∈ (s.perform ctx now q).2.actions, _ ∧ (s.perform ctx now q).2.logOf a.id = _
  generalize (s.perform ctx now q).2 = s' at heffect ⊢
  have hrow (c : String) (f : Target → Target) : ∀ a ∈ (s.changeTarget ctx c f).2.actions,
      a ∈ s.actions ∧ (s.changeTarget ctx c f).2.logOf a.id = s.logOf a.id := by
    unfold changeTarget
    split <;> exact fun a ha => ⟨ha, rfl⟩
  cases heffect with
  | none => exact fun a ha => ⟨ha, rfl⟩
  | register hok =>
    obtain ⟨-, -, -, rfl⟩ := createTarget_eq_ok_iff.mp hok
    exact fun a ha => ⟨ha, rfl⟩
  | describe c desc => exact hrow c _
  | contact c time => exact hrow c _
  | delete c => exact kept_deleteTarget hs
  | sets sets last => exact fun a ha => ⟨ha, rfl⟩
  | commit cs => exact absurd rfl (ho cs)

/-! ## Aging -/

theorem AgesAs.trans {a a' a'' : Action} (hid : a'.id = a.id) (h : s.AgesAs s' a a')
    (h' : s'.AgesAs s'' a' a'') : s.AgesAs s'' a a'' := by
  have hlog := h'.log
  have hrests := h'.rests
  rw [hid] at hlog hrests
  refine ⟨Int.le_trans h.revision h'.revision, h.log.trans hlog, fun hstill => ?_⟩
  -- whatever holds the action still does so on both stretches
  have hle := h.revision
  have hle' := h'.revision
  obtain ⟨rfl, hfirst⟩ := h.rests (hstill.imp_left fun hrev => by omega)
  obtain ⟨rfl, hsecond⟩ := hrests hstill
  exact ⟨rfl, hsecond.trans hfirst⟩

namespace Ages

/-- An action that two stores hold, all stores in between hold. -/
theorem exists_between (h : s.Ages s') (h' : s'.Ages s'') {a a'' : Action} (ha : a ∈ s.actions)
    (ha'' : a'' ∈ s''.actions) (hid : a''.id = a.id) : ∃ a' ∈ s'.actions, a'.id = a.id := by
  -- the id had been issued by then
  have hle : a''.id ≤ s'.lastActionId := by
    rw [hid]
    exact Int.le_trans (h.before.actions.le_last a ha) h.grows.last_le
  obtain ⟨a', ha', hid', -⟩ := h'.grows.old a'' ha'' hle
  exact ⟨a', ha', hid'.trans hid⟩

theorem trans (h : s.Ages s') (h' : s'.Ages s'') : s.Ages s'' := by
  refine ⟨h.before, h'.consistent, h.grows.trans h'.grows, fun a ha a'' ha'' hid => ?_⟩
  obtain ⟨a', ha', hid'⟩ := h.exists_between h' ha ha'' hid
  exact (h.action a ha a' ha' hid').trans hid' (h'.action a' ha' a'' ha'' (hid.trans hid'.symm))

/-- A store that holds some of the actions, with the logs they had. -/
theorem of_kept (hs : s.Consistent) (hs' : s'.Consistent) (hgrows : s.Grows s')
    (hkept : ∀ a ∈ s'.actions, a ∈ s.actions ∧ s'.logOf a.id = s.logOf a.id) : s.Ages s' := by
  refine ⟨hs, hs', hgrows, fun a ha a' ha' hid => ?_⟩
  obtain ⟨hmem, hlog⟩ := hkept a' ha'
  obtain rfl : a' = a := hs.actions.eq_of_id_eq hmem ha hid
  exact ⟨Int.le_refl _, hlog ▸ List.prefix_refl _, fun _ => ⟨rfl, hlog⟩⟩

theorem refl (hs : s.Consistent) : s.Ages s := of_kept hs hs (.refl s) fun _ ha => ⟨ha, rfl⟩

/-- Whatever a client asks for but a commit lets the actions age. -/
theorem after (hs : s.Consistent) {o : Op} (ho : ∀ cs, o.request ≠ .applyChanges cs) :
    s.Ages (s.after o) :=
  of_kept hs (hs.after o) (.after hs o) (kept_after hs ho)

/-- A commit lets the actions age if it updates active actions only and logs what it writes. -/
theorem written (hs : s.Consistent) {change : TargetChange} (hacc : s.Accepts ctx change)
    (hactive : ∀ u ∈ change.actionUpdates, ∃ a ∈ s.actions, a.id = u.actionId ∧ a.active = true)
    (hentries : ∀ e ∈ change.entries, ∀ i, e.action = .existing i →
      ∃ u ∈ change.actionUpdates, u.actionId = i) :
    s.Ages (s.written ctx now change) := by
  refine ⟨hs, hs.written hacc now, .written change, fun a ha a' ha' hid => ?_⟩
  obtain rfl : change.writeAction ctx now a = a' := by
    have hmem : change.writeAction ctx now a ∈ (s.written ctx now change).actions :=
      List.mem_append_left _ (List.mem_map_of_mem ha)
    exact (hs.written hacc now).actions.eq_of_id_eq hmem ha' (by simp [hid])
  by_cases hu : ∃ u ∈ change.actionUpdates, u.actionId = a.id
  · have hlt : a.revision < (change.writeAction ctx now a).revision :=
      TargetChange.revision_lt_writeAction hu
    refine ⟨Int.le_of_lt hlt, ?_, fun hstill => ?_⟩
    · rw [logOf_written]
      exact List.prefix_append _ _
    · -- neither has the revision stood still, nor had the action ended
      exfalso
      obtain ⟨u, hu, huid⟩ := hu
      obtain ⟨b, hb, hbid, hbactive⟩ := hactive u hu
      obtain rfl : b = a := hs.actions.eq_of_id_eq hb ha (hbid.trans huid)
      rcases hstill with hrev | hended
      · omega
      · rw [hbactive] at hended
        cases hended
  · have hkept : change.writeAction ctx now a = a :=
      TargetChange.writeAction_of_forall_ne fun u hmem huid => hu ⟨u, hmem, huid⟩
    have hlog : (s.written ctx now change).logOf a.id = s.logOf a.id :=
      logOf_written_of_forall_ne hs ha fun e he haction => hu (hentries e he a.id haction)
    rw [hkept]
    exact ⟨Int.le_refl _, hlog ▸ List.prefix_refl _, fun _ => ⟨rfl, hlog⟩⟩

end Ages

end Store

end FleetUpdate
