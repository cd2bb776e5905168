import FleetUpdate.Proofs.Store.Consistent
import FleetUpdate.Proofs.Store.Written

/-!
# Commits

A change is accepted when the target is stored at the revision that the change names, the
distribution sets of the new actions are there, and every action that it updates or logs belongs to
the target, the updated ones at their revisions.  `checkChange_eq_ok_iff` says that the checks find
exactly this; `commit_of_accepts` that writing an accepted change then never fails.
-/

namespace FleetUpdate

/-! ## Checks of lists -/

section ForM

variable {α ε : Type} {f : α → Except ε Unit}

theorem forM_eq_ok_iff {l : List α} : l.forM f = .ok () ↔ ∀ a ∈ l, f a = .ok () := by
  induction l with
  | nil => exact ⟨fun _ => by simp, fun _ => rfl⟩
  | cons a l ih =>
    rw [List.forall_mem_cons, ← ih]
    show (f a >>= fun _ => l.forM f) = _ ↔ _
    cases f a <;> simp [bind, Except.bind]

/-- A check of a list fails with the error of one of its elements. -/
theorem exists_of_forM_eq_error {l : List α} {e : ε} (h : l.forM f = .error e) :
    ∃ a ∈ l, f a = .error e := by
  induction l with
  | nil => cases h
  | cons a l ih =>
    change (f a >>= fun _ => l.forM f) = _ at h
    cases ha : f a with
    | error e' =>
      rw [ha] at h
      exact ⟨a, List.mem_cons_self, h ▸ ha⟩
    | ok u =>
      rw [ha] at h
      obtain ⟨b, hb, hfb⟩ := ih h
      exact ⟨b, List.mem_cons_of_mem a hb, hfb⟩

end ForM

namespace Store

variable {s : Store} {ctx : Context} {now : Instant} {c : TargetChange}

/-! ## Which changes are accepted -/

/-- The store accepts a change. -/
structure Accepts (s : Store) (ctx : Context) (c : TargetChange) : Prop where
  target : ∃ t, s.target? ctx.tenantId c.controllerId = some t ∧ t.revision = c.expectedRevision
  sets : ∀ n ∈ c.newActions, (s.set? ctx.tenantId n.setId).isSome
  updates : ∀ u ∈ c.actionUpdates, ∃ a ∈ s.actionsOf ctx.tenantId c.controllerId,
    a.id = u.actionId ∧ a.revision = u.expectedRevision
  entries : ∀ e ∈ c.entries, match e.action with
    | .existing i => ∃ a ∈ s.actionsOf ctx.tenantId c.controllerId, a.id = i
    | .created i => i < c.newActions.length

theorem ownedAction_eq_ok_iff (hs : s.Consistent) {controllerId : String} {i : Int} {a : Action} :
    s.ownedAction ctx controllerId i = .ok a ↔
      a ∈ s.actionsOf ctx.tenantId controllerId ∧ a.id = i := by
  have hfind : (s.action? ctx.tenantId i).filter (fun a => a.controllerId == controllerId) = some a ↔
      a ∈ s.actionsOf ctx.tenantId controllerId ∧ a.id = i := by
    rw [Option.filter_eq_some_iff, action?_eq_some_iff hs, mem_actionsOf, Action.owner]
    simp only [beq_iff_eq, Prod.mk.injEq]
    constructor
    · rintro ⟨⟨hmem, hid, htenant⟩, hcontroller⟩
      exact ⟨⟨hmem, htenant, hcontroller⟩, hid⟩
    · rintro ⟨⟨hmem, htenant, hcontroller⟩, hid⟩
      exact ⟨⟨hmem, hid, htenant⟩, hcontroller⟩
  rw [← hfind, ownedAction]
  split
  · rename_i b hb
    rw [hb, Except.ok.injEq, Option.some.injEq]
  · rename_i hb
    simp [hb]

theorem checkUpdate_eq_ok_iff (hs : s.Consistent) {controllerId : String} {u : ActionUpdate} :
    s.checkUpdate ctx controllerId u = .ok () ↔
      ∃ a ∈ s.actionsOf ctx.tenantId controllerId,
        a.id = u.actionId ∧ a.revision = u.expectedRevision := by
  rw [checkUpdate]
  cases h : s.ownedAction ctx controllerId u.actionId with
  | error e =>
    refine ⟨fun hok => (by cases hok), ?_⟩
    rintro ⟨a, ha, hid, -⟩
    rw [(ownedAction_eq_ok_iff hs).mpr ⟨ha, hid⟩] at h
    cases h
  | ok a =>
    obtain ⟨ha, hid⟩ := (ownedAction_eq_ok_iff hs).mp h
    show (if a.revision = u.expectedRevision then _ else _) = _ ↔ _
    constructor
    · intro hok
      split at hok
      · rename_i hrev
        exact ⟨a, ha, hid, hrev⟩
      · cases hok
    · rintro ⟨b, hb, hbid, hrev⟩
      obtain ⟨hbmem, -⟩ := mem_actionsOf.mp hb
      obtain ⟨hamem, -⟩ := mem_actionsOf.mp ha
      have hab : a = b := hs.actions.eq_of_id_eq hamem hbmem (hid.trans hbid.symm)
      rw [hab, if_pos hrev]

theorem checkEntry_eq_ok_iff (hs : s.Consistent) {controllerId : String} {created : Nat}
    {e : NewStatusEntry} :
    s.checkEntry ctx controllerId created e = .ok () ↔
      match e.action with
      | .existing i => ∃ a ∈ s.actionsOf ctx.tenantId controllerId, a.id = i
      | .created i => i < created := by
  rw [checkEntry]
  cases e.action with
  | existing i =>
    show (s.ownedAction ctx controllerId i).map _ = _ ↔ _
    cases h : s.ownedAction ctx controllerId i with
    | error e =>
      refine ⟨fun hok => (by cases hok), ?_⟩
      rintro ⟨a, ha, hid⟩
      rw [(ownedAction_eq_ok_iff hs).mpr ⟨ha, hid⟩] at h
      cases h
    | ok a => exact ⟨fun _ => ⟨a, (ownedAction_eq_ok_iff hs).mp h⟩, fun _ => rfl⟩
  | created i => simp

/-- The checks find exactly the changes that the store accepts. -/
theorem checkChange_eq_ok_iff (hs : s.Consistent) :
    s.checkChange ctx c = .ok () ↔ s.Accepts ctx c := by
  have hnew (n : NewAction) :
      s.checkNew ctx n = .ok () ↔ (s.set? ctx.tenantId n.setId).isSome := by
    rw [checkNew]
    split <;> simp_all
  rw [checkChange]
  cases ht : s.target? ctx.tenantId c.controllerId with
  | none =>
    refine ⟨fun h => (by cases h), fun h => ?_⟩
    obtain ⟨t, ht', -⟩ := h.target
    rw [ht] at ht'
    cases ht'
  | some t =>
    by_cases hrev : t.revision = c.expectedRevision
    · simp only [hrev, ne_eq, not_true_eq_false, if_false]
      have hseq (p q r : Except StorageError Unit) :
          (p >>= fun _ => q >>= fun _ => r) = .ok () ↔ p = .ok () ∧ q = .ok () ∧ r = .ok () := by
        cases p <;> cases q <;> simp [bind, Except.bind]
      rw [hseq, forM_eq_ok_iff, forM_eq_ok_iff, forM_eq_ok_iff]
      simp only [hnew, checkUpdate_eq_ok_iff hs, checkEntry_eq_ok_iff hs]
      constructor
      · rintro ⟨hsets, hupdates, hentries⟩
        exact ⟨⟨t, ht, hrev⟩, hsets, hupdates, hentries⟩
      · intro h
        exact ⟨h.sets, h.updates, h.entries⟩
    · simp only [ne_eq, hrev, not_false_eq_true, if_true]
      refine ⟨fun h => (by cases h), fun h => ?_⟩
      obtain ⟨t', ht', hrev'⟩ := h.target
      rw [ht] at ht'
      exact absurd ((Option.some.inj ht') ▸ hrev') hrev

/-- A change that names another revision than the stored one is refused for that. -/
theorem checkChange_of_revision_ne {t : Target}
    (ht : s.target? ctx.tenantId c.controllerId = some t) (h : t.revision ≠ c.expectedRevision) :
    s.checkChange ctx c =
      .error (.targetModified c.controllerId c.expectedRevision t.revision) := by
  rw [checkChange, ht]
  show (if t.revision ≠ c.expectedRevision then _ else _) = _
  rw [if_pos h]

theorem ownedAction_error {controllerId : String} {i : Int} {e : StorageError}
    (h : s.ownedAction ctx controllerId i = .error e) : e.kind = .notFound := by
  unfold ownedAction at h
  split at h
  · cases h
  · obtain rfl := Except.error.inj h
    rfl

/-- A change whose log entries name only actions that it creates or that are stored is refused since
somebody else was faster or something is missing, and for no other reason. -/
theorem kind_of_checkChange_error {e : StorageError} (h : s.checkChange ctx c = .error e)
    (hcreated : ∀ n ∈ c.entries, ∀ i, n.action = .created i → i < c.newActions.length) :
    e.kind = .conflict ∨ e.kind = .notFound := by
  unfold checkChange at h
  split at h
  · obtain rfl := Except.error.inj h
    exact .inr rfl
  · split at h
    · obtain rfl := Except.error.inj h
      exact .inl rfl
    · -- one of the three lists has an element that is refused
      have hseq (p q r : Except StorageError Unit) (hpqr : (p >>= fun _ => q >>= fun _ => r) = .error e) :
          p = .error e ∨ q = .error e ∨ r = .error e := by
        cases p <;> cases q <;> simp_all [bind, Except.bind]
      rcases hseq _ _ _ h with hnew | hupdate | hentry
      · obtain ⟨n, -, hn⟩ := exists_of_forM_eq_error hnew
        unfold checkNew at hn
        split at hn
        · cases hn
        · obtain rfl := Except.error.inj hn
          exact .inr rfl
      · obtain ⟨u, -, hu⟩ := exists_of_forM_eq_error hupdate
        unfold checkUpdate at hu
        cases howned : s.ownedAction ctx c.controllerId u.actionId with
        | error e' =>
          rw [howned] at hu
          obtain rfl := Except.error.inj hu
          exact .inr (ownedAction_error howned)
        | ok a =>
          rw [howned] at hu
          change (if a.revision = u.expectedRevision then _ else _) = _ at hu
          split at hu
          · cases hu
          · obtain rfl := Except.error.inj hu
            exact .inl rfl
      · obtain ⟨n, hn, hcheck⟩ := exists_of_forM_eq_error hentry
        unfold checkEntry at hcheck
        split at hcheck
        · rename_i i hi
          cases howned : s.ownedAction ctx c.controllerId i with
          | error e' =>
            rw [howned] at hcheck
            obtain rfl := Except.error.inj hcheck
            exact .inr (ownedAction_error howned)
          | ok a =>
            rw [howned] at hcheck
            cases hcheck
        · rename_i i hi
          rw [if_pos (hcreated n hn i hi)] at hcheck
          cases hcheck

/-! ## Writing never fails -/

theorem createActions_eq (s : Store) (controllerId : String) (ns : List NewAction) :
    s.createActions ctx now controllerId ns =
      (ns.mapIdx fun i n => n.row ctx now controllerId (s.lastActionId + 1 + i),
        { s with
          actions := s.actions ++
            ns.mapIdx fun i n => n.row ctx now controllerId (s.lastActionId + 1 + i)
          lastActionId := s.lastActionId + ns.length }) := by
  induction ns generalizing s with
  | nil => simp [createActions]
  | cons n ns ih =>
    have hids (i : Nat) : s.lastActionId + 1 + 1 + (i : Int) = s.lastActionId + 1 + ((i + 1 : Nat) : Int) := by
      omega
    simp only [createActions, createAction, ih, List.mapIdx_cons, hids]
    refine Prod.ext ?_ ?_
    · simp [NewAction.row]
    · simp only [NewAction.row, List.append_assoc, List.cons_append, List.nil_append,
        List.length_cons, Int.natCast_zero, Int.add_zero]
      congr 1
      omega

/-- An update of a stored action rewrites its row in place. -/
theorem updateAction_eq (hids : (s.actions.map Action.id).Nodup) {u : ActionUpdate} {a : Action}
    (ha : a ∈ s.actions) (hid : a.id = u.actionId) :
    s.updateAction ctx now u =
      .ok (u.writeTo ctx now a, { s with actions := s.actions.map (u.writeTo ctx now) }) := by
  have hfind : s.actionById? u.actionId = some a := (find?_key_eq_some_iff hids).mpr ⟨ha, hid⟩
  have hmap : s.actions.map (fun b => if b.id = a.id then u.writeTo ctx now a else b) =
      s.actions.map (u.writeTo ctx now) := by
    apply List.map_congr_left
    intro b hb
    by_cases hba : b.id = a.id
    · rw [if_pos hba, List.inj_on_of_nodup_map hids hb ha hba]
    · rw [if_neg hba, ActionUpdate.writeTo, if_neg (fun h => hba (h.trans hid.symm))]
  rw [updateAction, hfind, ← hmap]
  simp [ActionUpdate.writeTo, hid, putAction]

/-- Updates of stored actions rewrite their rows in place.  The rows that are handed back have the
ids of the updates, and are the stored ones unless an action is updated twice. -/
theorem updateActions_eq (hids : (s.actions.map Action.id).Nodup) {us : List ActionUpdate}
    (hus : ∀ u ∈ us, ∃ a ∈ s.actions, a.id = u.actionId) :
    ∃ rows : List Action,
      s.updateActions ctx now us = .ok (rows,
        { s with actions := s.actions.map fun a => us.foldl (fun a u => u.writeTo ctx now a) a }) ∧
      rows.map Action.id = us.map ActionUpdate.actionId ∧
      ((us.map ActionUpdate.actionId).Nodup → ∀ r ∈ rows, ∃ a ∈ s.actions,
        us.foldl (fun a u => u.writeTo ctx now a) a = r) := by
  induction us generalizing s with
  | nil => exact ⟨[], by simp [updateActions], rfl, by simp⟩
  | cons u us ih =>
    obtain ⟨a, ha, hid⟩ := hus u List.mem_cons_self
    set s₁ : Store := { s with actions := s.actions.map (u.writeTo ctx now) } with hs₁
    have hids₁ : (s₁.actions.map Action.id).Nodup := by
      simpa [hs₁, List.map_map, Function.comp_def] using hids
    have hus₁ : ∀ v ∈ us, ∃ b ∈ s₁.actions, b.id = v.actionId := by
      intro v hv
      obtain ⟨b, hb, hbid⟩ := hus v (List.mem_cons_of_mem u hv)
      exact ⟨_, List.mem_map_of_mem hb, by simpa using hbid⟩
    obtain ⟨rows, hrun, hrows, hstored⟩ := ih hids₁ hus₁
    refine ⟨u.writeTo ctx now a :: rows, ?_, ?_, ?_⟩
    · rw [updateActions, updateAction_eq hids ha hid]
      show (s₁.updateActions ctx now us >>= fun r => Except.ok (u.writeTo ctx now a :: r.1, r.2)) = _
      rw [hrun]
      show Except.ok _ = Except.ok _
      simp [hs₁, List.map_map, Function.comp_def]
    · simp [hrows, hid]
    · intro hnodup r hr
      rw [List.map_cons, List.nodup_cons] at hnodup
      rcases List.mem_cons.mp hr with rfl | hr
      · refine ⟨a, ha, ?_⟩
        -- no later update is about the same action
        rw [List.foldl_cons]
        refine TargetChange.writeAction_of_forall_ne (c := ⟨"", 0, none, [], us, []⟩) ?_
        intro v hv hva
        apply hnodup.1
        rw [List.mem_map]
        exact ⟨v, hv, by rw [hva, ActionUpdate.writeTo_id, hid]⟩
      · obtain ⟨b, hb, rfl⟩ := hstored hnodup.2 r hr
        obtain ⟨b', hb', rfl⟩ := List.mem_map.mp hb
        exact ⟨b', hb', rfl⟩

/-- Log entries for existing actions, or for those just created, are appended in order. -/
theorem appendEntries_eq (s : Store) {created : List Action} (last : Int)
    (hcreated : ∀ i (h : i < created.length), created[i].id = last + 1 + i)
    {es : List NewStatusEntry}
    (hes : ∀ e ∈ es, ∀ i, e.action = .created i → i < created.length) :
    s.appendEntries ctx created es =
      .ok { s with
        log := s.log ++ es.mapIdx fun i e => e.row ctx last (s.lastEntryId + 1 + i)
        lastEntryId := s.lastEntryId + es.length } := by
  induction es generalizing s with
  | nil => simp [appendEntries]
  | cons e es ih =>
    have howner : entryOwner created e.action = .ok (e.action.resolve last) := by
      have he := hes e List.mem_cons_self
      cases haction : e.action with
      | existing a => rfl
      | created i =>
        have hi := he i haction
        rw [entryOwner, List.getElem?_eq_getElem hi]
        show Except.ok created[i].id = _
        rw [hcreated i hi, ActionRef.resolve]
    have hids (i : Nat) : s.lastEntryId + 1 + 1 + (i : Int) = s.lastEntryId + 1 + ((i + 1 : Nat) : Int) := by
      omega
    have hstep : s.appendEntry ctx created e =
        .ok { s with
          log := s.log ++ [e.row ctx last (s.lastEntryId + 1)]
          lastEntryId := s.lastEntryId + 1 } := by
      rw [appendEntry, howner]
      rfl
    rw [appendEntries, hstep]
    show Store.appendEntries _ ctx created es = _
    rw [ih _ fun e' he' => hes e' (List.mem_cons_of_mem e he')]
    simp only [List.mapIdx_cons, hids, List.append_assoc, List.cons_append, List.nil_append,
      List.length_cons, Int.natCast_zero, Int.add_zero]
    congr 2
    omega

theorem advanceTarget_eq (hkeys : (s.targets.map Target.key).Nodup) {t : Target}
    (ht : s.target? ctx.tenantId c.controllerId = some t) :
    s.advanceTarget ctx now c.controllerId c.targetState =
      .ok (c.writeTarget ctx now t,
        { s with targets := s.targets.map (c.writeTarget ctx now) }) := by
  have hkey : t.key = (ctx.tenantId, c.controllerId) := key_of_target? ht
  have hrow : c.writeTarget ctx now t =
      { t.withState (c.targetState.getD t.state) with
        revision := t.revision + 1
        audit := t.audit.touch ctx.userId now } := if_pos hkey
  have hmap : s.targets.map (fun u => if u.key = t.key then c.writeTarget ctx now t else u) =
      s.targets.map (c.writeTarget ctx now) := by
    apply List.map_congr_left
    intro u hu
    by_cases hut : u.key = t.key
    · rw [if_pos hut, List.inj_on_of_nodup_map hkeys hu (mem_of_target? ht) hut]
    · rw [if_neg hut, TargetChange.writeTarget, if_neg (fun h => hut (h.trans hkey.symm))]
  rw [advanceTarget, ht, ← hmap, hrow]
  rfl

/-- What the commit of an accepted change hands back: the target as stored, the created actions, and
a row for each update. -/
structure Receipt (s : Store) (ctx : Context) (now : Instant) (c : TargetChange) (k : Committed) :
    Prop where
  target : (s.written ctx now c).target? ctx.tenantId c.controllerId = some k.target
  created : k.created = s.createdBy ctx now c
  updated : k.updated.map Action.id = c.actionUpdates.map ActionUpdate.actionId
  /-- Unless the change updates an action twice, the rows are those that are stored. -/
  stored : (c.actionUpdates.map ActionUpdate.actionId).Nodup →
    ∀ r ∈ k.updated, r ∈ (s.written ctx now c).actions

theorem createdBy_id {a : Action} (h : a ∈ s.createdBy ctx now c) : s.lastActionId < a.id := by
  obtain ⟨i, hi, rfl⟩ := List.mem_mapIdx.mp h
  show s.lastActionId < s.lastActionId + 1 + (i : Int)
  omega

/-- An accepted change leaves the actions that it creates as they were created. -/
theorem writeAction_of_createdBy (hs : s.Consistent) (h : s.Accepts ctx c) {a : Action}
    (ha : a ∈ s.createdBy ctx now c) : c.writeAction ctx now a = a := by
  apply TargetChange.writeAction_of_forall_ne
  intro u hu hid
  obtain ⟨b, hb, hbid, -⟩ := h.updates u hu
  have hle := hs.actions.le_last b (mem_actionsOf.mp hb).1
  have hlt := createdBy_id ha
  omega

theorem target?_written {x d : String} :
    (s.written ctx now c).target? x d = (s.target? x d).map (c.writeTarget ctx now) :=
  find?_map_of_key Target.key (fun t => TargetChange.writeTarget_key ctx now c t) _

/-- The commit of an accepted change writes it. -/
theorem commit_of_accepts (hs : s.Consistent) (h : s.Accepts ctx c) (now : Instant) :
    ∃ k, s.commit ctx now c = (.ok k, s.written ctx now c) ∧ s.Receipt ctx now c k := by
  obtain ⟨t, ht, hrev⟩ := h.target
  -- the store after each of the four parts of the change
  set s₁ : Store :=
    { s with
      actions := s.actions ++ s.createdBy ctx now c
      lastActionId := s.lastActionId + c.newActions.length } with hs₁
  have hids : (s₁.actions.map Action.id).Nodup :=
    (hs.actions.append_mapIdx c.newActions _ fun i n => rfl).nodup
  have hus : ∀ u ∈ c.actionUpdates, ∃ a ∈ s₁.actions, a.id = u.actionId := by
    intro u hu
    obtain ⟨a, ha, hid, -⟩ := h.updates u hu
    exact ⟨a, List.mem_append_left _ (mem_actionsOf.mp ha).1, hid⟩
  have hcreate : s.createActions ctx now c.controllerId c.newActions =
      (s.createdBy ctx now c, s₁) := createActions_eq s c.controllerId c.newActions
  set s₂ : Store := { s₁ with actions := s₁.actions.map (c.writeAction ctx now) } with hs₂
  obtain ⟨rows, hupdate, hrows, hstored⟩ :
      ∃ rows : List Action, s₁.updateActions ctx now c.actionUpdates = .ok (rows, s₂) ∧
        rows.map Action.id = c.actionUpdates.map ActionUpdate.actionId ∧
        ((c.actionUpdates.map ActionUpdate.actionId).Nodup →
          ∀ r ∈ rows, ∃ a ∈ s₁.actions, c.writeAction ctx now a = r) :=
    updateActions_eq hids hus
  have hactions : s₁.actions.map (c.writeAction ctx now) =
      s.actions.map (c.writeAction ctx now) ++ s.createdBy ctx now c := by
    rw [hs₁, List.map_append, List.append_cancel_left_eq]
    conv_rhs => rw [← List.map_id (s.createdBy ctx now c)]
    exact List.map_congr_left fun a ha => writeAction_of_createdBy hs h ha
  have hentries : s₂.appendEntries ctx (s.createdBy ctx now c) c.entries =
      .ok { s₂ with
        log := s.log ++ s.entriesBy ctx c
        lastEntryId := s.lastEntryId + c.entries.length } := by
    refine appendEntries_eq s₂ s.lastActionId ?_ ?_
    · intro i hi
      simp [createdBy, NewAction.row]
    · intro e he i hi
      have := h.entries e he
      rw [hi] at this
      simpa [createdBy] using this
  set s₃ : Store :=
    { s₂ with
      log := s.log ++ s.entriesBy ctx c
      lastEntryId := s.lastEntryId + c.entries.length } with hs₃
  have hwritten : { s₃ with targets := s₃.targets.map (c.writeTarget ctx now) } =
      s.written ctx now c := by
    simp only [hs₃, hs₂, hactions]
    rfl
  have hadvance : s₃.advanceTarget ctx now c.controllerId c.targetState =
      .ok (c.writeTarget ctx now t, s.written ctx now c) := by
    rw [← hwritten]
    exact advanceTarget_eq (s := s₃) hs.targets ht
  have hwrite : s.writeChange ctx now c =
      .ok (⟨c.writeTarget ctx now t, s.createdBy ctx now c, rows⟩, s.written ctx now c) := by
    simp only [writeChange, hcreate, hupdate, hentries, hadvance, bind, Except.bind]
  refine ⟨⟨c.writeTarget ctx now t, s.createdBy ctx now c, rows⟩, ?_, ?_⟩
  · rw [commit, (checkChange_eq_ok_iff hs).mpr h, hwrite]
  · refine ⟨?_, rfl, hrows, ?_⟩
    · rw [target?_written, ht]
      rfl
    · intro hnodup r hr
      obtain ⟨a, ha, rfl⟩ := hstored hnodup r hr
      show c.writeAction ctx now a ∈ s.actions.map (c.writeAction ctx now) ++ s.createdBy ctx now c
      rw [← hactions]
      exact List.mem_map_of_mem ha

/-- A change is accepted and written, or refused without a trace. -/
theorem commit_cases (hs : s.Consistent) (ctx : Context) (now : Instant) (c : TargetChange) :
    (∃ k, s.Accepts ctx c ∧ s.commit ctx now c = (.ok k, s.written ctx now c) ∧
      s.Receipt ctx now c k) ∨
    (∃ e, s.checkChange ctx c = .error e ∧ s.commit ctx now c = (.error e, s)) := by
  cases h : s.checkChange ctx c with
  | error e => exact .inr ⟨e, rfl, by rw [commit, h]⟩
  | ok u =>
    have haccepts := (checkChange_eq_ok_iff hs).mp h
    obtain ⟨k, hcommit, hreceipt⟩ := commit_of_accepts hs haccepts now
    exact .inl ⟨k, haccepts, hcommit, hreceipt⟩

/-! ## Commits keep the store consistent -/

theorem Consistent.written (hs : s.Consistent) (h : s.Accepts ctx c) (now : Instant) :
    (s.written ctx now c).Consistent where
  targets := by
    have hmap : (s.targets.map (c.writeTarget ctx now)).map Target.key = s.targets.map Target.key := by
      simp [List.map_map, Function.comp_def]
    show ((s.targets.map (c.writeTarget ctx now)).map Target.key).Nodup
    rw [hmap]
    exact hs.targets
  sets := hs.sets
  actions := (hs.actions.map fun a => by simp).append_mapIdx _ _ fun i n => rfl
  log := hs.log.append_mapIdx _ _ fun i e => rfl
  owner := by
    intro a ha
    obtain ⟨t, ht, -⟩ := h.target
    have htarget {u : Target} (hu : u ∈ s.targets) :
        ∃ v ∈ (s.written ctx now c).targets, v.key = u.key :=
      ⟨_, List.mem_map_of_mem hu, TargetChange.writeTarget_key ctx now c u⟩
    rcases List.mem_append.mp ha with ha | ha
    · obtain ⟨b, hb, rfl⟩ := List.mem_map.mp ha
      obtain ⟨u, hu, hk⟩ := hs.owner b hb
      rw [TargetChange.writeAction_owner, ← hk]
      exact htarget hu
    · obtain ⟨i, hi, rfl⟩ := List.mem_mapIdx.mp ha
      have hk : t.key = (ctx.tenantId, c.controllerId) := key_of_target? ht
      rw [show ∀ n : NewAction, (n.row ctx now c.controllerId (s.lastActionId + 1 + i)).owner = t.key
        from fun n => hk.symm]
      exact htarget (mem_of_target? ht)
  set := by
    intro a ha
    rcases List.mem_append.mp ha with ha | ha
    · obtain ⟨b, hb, rfl⟩ := List.mem_map.mp ha
      obtain ⟨d, hd, hid, hx⟩ := hs.set b hb
      have howner : (c.writeAction ctx now b).owner = b.owner := by simp
      refine ⟨d, hd, by simpa using hid, hx.trans ?_⟩
      exact (Prod.mk.inj howner).1.symm
    · obtain ⟨i, hi, rfl⟩ := List.mem_mapIdx.mp ha
      obtain ⟨d, hd⟩ := Option.isSome_iff_exists.mp (h.sets _ (List.getElem_mem hi))
      obtain ⟨hmem, hid, hx⟩ := (set?_eq_some_iff hs).mp hd
      exact ⟨d, hmem, hid, hx⟩
  entry := by
    intro e he
    have hkept {a : Action} (ha : a ∈ s.actions) :
        ∃ b ∈ (s.written ctx now c).actions, b.id = a.id ∧ b.tenantId = a.tenantId := by
      refine ⟨_, List.mem_append_left _ (List.mem_map_of_mem ha), by simp, ?_⟩
      have howner : (c.writeAction ctx now a).owner = a.owner := by simp
      exact (Prod.mk.inj howner).1
    rcases List.mem_append.mp he with he | he
    · obtain ⟨a, ha, hid, hx⟩ := hs.entry e he
      obtain ⟨b, hb, hbid, hbx⟩ := hkept ha
      exact ⟨b, hb, hbid.trans hid, hbx.trans hx⟩
    · obtain ⟨i, hi, rfl⟩ := List.mem_mapIdx.mp he
      have haccepted := h.entries _ (List.getElem_mem hi)
      simp only [NewStatusEntry.row]
      cases haction : c.entries[i].action with
      | existing j =>
        rw [haction] at haccepted
        obtain ⟨a, ha, hid⟩ := haccepted
        obtain ⟨hmem, howner⟩ := mem_actionsOf.mp ha
        obtain ⟨b, hb, hbid, hbx⟩ := hkept hmem
        exact ⟨b, hb, hbid.trans hid, hbx.trans (Prod.mk.inj howner).1⟩
      | created j =>
        rw [haction] at haccepted
        refine ⟨_, List.mem_append_right _ (List.mem_mapIdx.mpr ⟨j, haccepted, rfl⟩), rfl, rfl⟩

theorem Consistent.commit (hs : s.Consistent) (ctx : Context) (now : Instant) (c : TargetChange) :
    (s.commit ctx now c).2.Consistent := by
  rcases commit_cases hs ctx now c with ⟨k, h, hcommit, -⟩ | ⟨e, -, hcommit⟩
  · rw [hcommit]
    exact hs.written h now
  · rw [hcommit]
    exact hs

theorem Consistent.commitAll (hs : s.Consistent) (ctx : Context) (now : Instant)
    (cs : List TargetChange) : (s.commitAll ctx now cs).2.Consistent := by
  induction cs generalizing s with
  | nil => exact hs
  | cons c cs ih => exact ih (hs.commit ctx now c)

/-- Every request keeps the store consistent. -/
theorem Consistent.perform (hs : s.Consistent) (ctx : Context) (now : Instant) (r : Request) :
    (s.perform ctx now r).2.Consistent := by
  unfold Store.perform
  split
  · exact hs
  · cases r with
    | createTarget n =>
      show (s.settle (s.createTarget ctx now n)).2.Consistent
      cases h : s.createTarget ctx now n with
      | error e => exact hs
      | ok r => exact hs.createTarget h
    | updateTarget c d => exact hs.changeTarget ctx _
    | markContacted c t => exact hs.changeTarget ctx _
    | deleteTarget c => exact hs.deleteTarget ctx
    | createSet n =>
      show (s.settle (s.createSet ctx now n)).2.Consistent
      cases h : s.createSet ctx now n with
      | error e => exact hs
      | ok r => exact hs.createSet h
    | setModules d ms =>
      show (s.settle (s.setModules ctx now d ms)).2.Consistent
      cases h : s.setModules ctx now d ms with
      | error e => exact hs
      | ok r => exact hs.setModules h
    | deleteSet d => exact hs.deleteSet ctx now d
    | applyChanges cs => exact hs.commitAll ctx now cs
    | findTarget _ | findTargets _ | findSet _ | findSets _ | findAction _ | findActions _
    | findActive _ | findActiveOfAll _ | countActions _ | findSummaries _ | findLog _
    | findLastEnded _ => exact hs

end Store

end FleetUpdate
