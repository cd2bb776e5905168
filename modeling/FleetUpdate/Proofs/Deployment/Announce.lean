import FleetUpdate.Proofs.Deployment.UpToDate

/-!
# What calls announce

A call publishes the events of its changes when these have been committed.  `Call.Publishes` says
what is to be published of a single action, given how it is stored before and after: nothing if the
call leaves it alone, that it was created and assigned if it is new, and that it was updated if it
has changed, with a request to the device to give it up where the call recalls it.  What an event
says of an action is compared with the stored row field by field (`ActionEvent.Tells`,
`AssignmentEvent.Tells`).

`Call.story` computes these events.  A change that is planned from the store as it is announces the
story of each action, in the order in which the actions stand in the plan
(`FreshCommit.resolve_eq`); nothing that was planned to be published is lost on the way
(`Receipt.resolve_ne_nil`).
-/

namespace FleetUpdate

/-! ## What events say -/

/-- The event says of an action how it is stored. -/
structure ActionEvent.Tells (e : ActionEvent) (a : Action) : Prop where
  tenantId : e.tenantId = a.tenantId
  actionId : e.actionId = a.id
  controllerId : e.controllerId = a.controllerId
  setId : e.setId = a.setId
  status : e.status = a.status
  actionType : e.actionType = a.actionType
  active : e.active = a.active
  rolloutId : e.rolloutId = a.rolloutId
  rolloutGroupId : e.rolloutGroupId = a.rolloutGroupId

/-- The event tells the device of the action what is stored. -/
structure AssignmentEvent.Tells (e : AssignmentEvent) (a : Action) : Prop where
  tenantId : e.tenantId = a.tenantId
  controllerId : e.controllerId = a.controllerId
  actionId : e.actionId = a.id
  setId : e.setId = a.setId
  actionType : e.actionType = a.actionType

theorem Action.tells_toEvent (a : Action) : a.toEvent.Tells a :=
  ⟨rfl, rfl, rfl, rfl, rfl, rfl, rfl, rfl, rfl⟩

theorem Action.tells_toAssignmentEvent (a : Action) : a.toAssignmentEvent.Tells a :=
  ⟨rfl, rfl, rfl, rfl, rfl⟩

/-- The device is told when a call has brought an existing action to a status. -/
def Call.recalls : Call → ActionStatus → Bool
  | .assign .., _ => true
  | .act _ .cancel, status => status == .canceling
  | _, _ => false

/-- What a call publishes of an action, by how the action is stored before the call and after it. -/
inductive Call.Publishes (call : Call) : Option Action → Option Action → List Event → Prop where
  | absent : Publishes call none none []
  | kept (a : Action) : Publishes call (some a) (some a) []
  | created {a : Action} {e : ActionEvent} {n : AssignmentEvent} (he : e.Tells a) (hn : n.Tells a) :
      Publishes call none (some a) [.actionCreated e, .targetAssigned n]
  | updated {a a' : Action} {e : ActionEvent} (changed : a'.revision ≠ a.revision)
      (stays : call.recalls a'.status = false) (he : e.Tells a') :
      Publishes call (some a) (some a') [.actionUpdated e]
  | recalled {a a' : Action} {e : ActionEvent} {n : AssignmentEvent}
      (changed : a'.revision ≠ a.revision) (recalls : call.recalls a'.status = true)
      (he : e.Tells a') (hn : n.Tells a') :
      Publishes call (some a) (some a') [.actionUpdated e, .cancelTargetAssignment n]

/-! ## The story of an action -/

/-- What a call publishes of an action that is stored like this before and like that afterwards. -/
def Call.story (call : Call) : Option Action → Option Action → List Event
  | _, none => []
  | none, some a => [.actionCreated a.toEvent, .targetAssigned a.toAssignmentEvent]
  | some a, some a' =>
    if a'.revision = a.revision then []
    else .actionUpdated a'.toEvent ::
      if call.recalls a'.status then [.cancelTargetAssignment a'.toAssignmentEvent] else []

section Story

variable {ctx : Context} {call : Call} {before : Option Action} {a' : Action}

theorem Call.Plans.recalls {tr : Transition} (h : call.Plans ctx tr) (status : ActionStatus) :
    tr.recalls status = call.recalls status := by
  cases h with
  | act h => cases h <;> rfl
  | _ => rfl

@[simp] theorem Call.story_self (call : Call) (x : Option Action) : call.story x x = [] := by
  cases x with
  | none => rfl
  | some a => exact if_pos rfl

/-- The story of an action is what is to be published of it, if the action is still there and has
another revision whenever it has changed. -/
theorem Call.publishes_story {after : Option Action} (hkept : ∀ a, before = some a →
      ∃ a', after = some a' ∧ (a'.revision = a.revision → a' = a)) :
    call.Publishes before after (call.story before after) := by
  cases before with
  | none =>
    cases after with
    | none => exact .absent
    | some a' => exact .created a'.tells_toEvent a'.tells_toAssignmentEvent
  | some a =>
    obtain ⟨a', rfl, hsame⟩ := hkept a rfl
    simp only [story]
    split
    · rename_i hrevision
      rw [hsame hrevision]
      exact .kept a
    · rename_i hchanged
      split
      · rename_i hrecalls
        exact .recalled hchanged hrecalls a'.tells_toEvent a'.tells_toAssignmentEvent
      · rename_i hstays
        exact .updated hchanged (Bool.eq_false_iff.mpr hstays) a'.tells_toEvent

/-- The story of an action is about this action and its target. -/
theorem Call.of_mem_story {e : Event} (he : e ∈ call.story before (some a')) :
    e.actionId = a'.id ∧ e.controllerId = a'.controllerId := by
  cases before with
  | none =>
    rcases List.mem_cons.mp he with rfl | he
    · exact ⟨rfl, rfl⟩
    · rw [List.mem_singleton.mp he]
      exact ⟨rfl, rfl⟩
  | some a =>
    simp only [story] at he
    split at he
    · cases he
    · rcases List.mem_cons.mp he with rfl | he
      · exact ⟨rfl, rfl⟩
      · split at he
        · rw [List.mem_singleton.mp he]
          exact ⟨rfl, rfl⟩
        · cases he

/-- Where events are the stories of different actions, those about one action are its story. -/
theorem filter_flatMap_story {f : Int → List Event} (hf : ∀ i, ∀ e ∈ f i, e.actionId = i)
    {ids : List Int} (hids : ids.Nodup) {i : Int} (hi : i ∉ ids → f i = []) :
    (ids.flatMap f).filter (fun e => e.actionId == i) = f i := by
  induction ids with
  | nil => simp [hi]
  | cons j ids ih =>
    rw [List.nodup_cons] at hids
    rw [List.flatMap_cons, List.filter_append]
    by_cases hj : j = i
    · subst hj
      have hself : (f j).filter (fun e => e.actionId == j) = f j :=
        List.filter_eq_self.mpr fun e he => by simp [hf j e he]
      have hothers : (ids.flatMap f).filter (fun e => e.actionId == j) = [] := by
        simp only [List.filter_eq_nil_iff, List.mem_flatMap]
        rintro e ⟨k, hk, he⟩ hid
        have hkj : k = j := (hf k e he).symm.trans (by simpa using hid)
        exact hids.1 (hkj ▸ hk)
      rw [hself, hothers, List.append_nil]
    · have hno : (f j).filter (fun e => e.actionId == i) = [] := by
        rw [List.filter_eq_nil_iff]
        intro e he
        simp [hf j e he, hj]
      rw [hno, List.nil_append]
      exact ih hids.2 fun hmem => hi (by simp [Ne.symm hj, hmem])

/-- All positions of a list, one after the other, make up the list. -/
theorem flatMap_range_getElem? {α : Type} (as : List α) :
    (List.range as.length).flatMap (fun i => as[i]?.toList) = as := by
  induction as with
  | nil => rfl
  | cons a as ih =>
    rw [List.length_cons, List.range_succ_eq_map, List.flatMap_cons, List.flatMap_map]
    simp [ih]

end Story

namespace Store

variable {s s' s'' : Store} {ctx : Context} {call : Call} {now : Instant} {c : TargetChange}
  {p : Plan} {k : Committed}

/-! ## Actions before and after a change -/

theorem actionById?_written (i : Int) :
    (s.written ctx now c).actionById? i =
      ((s.actionById? i).map (c.writeAction ctx now)).or
        ((s.createdBy ctx now c).find? fun a => a.id == i) := by
  show List.find? _ (s.actions.map (c.writeAction ctx now) ++ s.createdBy ctx now c) = _
  rw [List.find?_append, find?_map_of_key Action.id (fun a => c.writeAction_id a)]
  rfl

/-- An action that is updated is stored as it was written. -/
theorem actionById?_written_of_mem (ctx : Context) (now : Instant) (c : TargetChange)
    (hs : s.Consistent) {a : Action} (ha : a ∈ s.actions) :
    s.actionById? a.id = some a ∧
      (s.written ctx now c).actionById? a.id = some (c.writeAction ctx now a) := by
  have hbefore : s.actionById? a.id = some a := (actionById?_eq_some_iff hs).mpr ⟨ha, rfl⟩
  refine ⟨hbefore, ?_⟩
  rw [actionById?_written, hbefore]
  rfl

/-- An action that a change creates was not there before. -/
theorem actionById?_written_of_createdBy (hs : s.Consistent) (hacc : s.Accepts ctx c) {a : Action}
    (ha : a ∈ s.createdBy ctx now c) :
    s.actionById? a.id = none ∧ (s.written ctx now c).actionById? a.id = some a := by
  have hlt := createdBy_id ha
  constructor
  · rw [Option.eq_none_iff_forall_ne_some]
    intro b hb
    obtain ⟨hmem, hid⟩ := (actionById?_eq_some_iff hs).mp hb
    have hle := hs.actions.le_last b hmem
    omega
  · exact (actionById?_eq_some_iff (hs.written hacc now)).mpr ⟨List.mem_append_right _ ha, rfl⟩

/-- An action that a change neither updates nor creates stays as it is. -/
theorem actionById?_written_of_not_mem {i : Int}
    (hi : i ∉ c.actionUpdates.map ActionUpdate.actionId ++ (s.createdBy ctx now c).map Action.id) :
    (s.written ctx now c).actionById? i = s.actionById? i := by
  simp only [List.mem_append, List.mem_map, not_or, not_exists, not_and] at hi
  have hnew : ((s.createdBy ctx now c).find? fun a => a.id == i) = none := by
    simpa using hi.2
  rw [actionById?_written, hnew, Option.or_none]
  cases hb : s.actionById? i with
  | none => rfl
  | some b =>
    have hid : b.id = i := by simpa using List.find?_some hb
    rw [Option.map_some, TargetChange.writeAction_of_forall_ne fun u hu => hid ▸ hi.1 u hu]

/-! ## Nothing is lost -/

/-- The commit knows every action that the change has updated. -/
theorem Receipt.exists_action? (h : s.Receipt ctx now c k) {u : ActionUpdate}
    (hu : u ∈ c.actionUpdates) : ∃ a, k.action? u.actionId = some a := by
  have hmem : u.actionId ∈ k.updated.map Action.id := by
    rw [h.updated]
    exact List.mem_map_of_mem hu
  obtain ⟨r, hr, hid⟩ := List.mem_map.mp hmem
  apply Option.isSome_iff_exists.mp
  rw [Committed.action?, List.find?_isSome]
  exact ⟨r, List.mem_append_right _ hr, by simpa using hid⟩

/-- Every event that a transition has planned stands for some event after the commit. -/
theorem Receipt.resolve_ne_nil (h : s.Receipt ctx now p.change k) {tr : Transition} {v : TargetView}
    (hp : tr.plan? v = some p) {e : PlannedEvent} (he : e ∈ p.events) : e.resolve k ≠ [] := by
  rw [tr.events_eq hp, List.mem_append, List.mem_flatMap, List.mem_map] at he
  rcases he with ⟨u, hu, he⟩ | ⟨i, hi, rfl⟩
  · obtain ⟨a, ha⟩ := h.exists_action? hu
    have hcases : e = .updated u.actionId ∨ e = .cancelRequested u.actionId := by
      unfold Transition.announces at he
      split at he
      · simpa using he
      · exact .inl (by simpa using he)
    rcases hcases with rfl | rfl <;> simp [PlannedEvent.resolve, ha]
  · have hlt : i < k.created.length := by
      rw [h.created, createdBy, List.length_mapIdx]
      exact List.mem_range.mp hi
    simp [PlannedEvent.resolve, List.getElem?_eq_getElem hlt]

/-! ## Changes that are planned from the store as it is -/

/-- A change that was planned from the store as it is has been committed. -/
structure FreshCommit (s : Store) (ctx : Context) (call : Call) (now : Instant) (p : Plan)
    (k : Committed) : Prop where
  planned : ∃ tr v, call.Plans ctx tr ∧ tr.plan? v = some p ∧ s.Current ctx.tenantId v ∧
    ∀ a, tr.subject? = some a → a ∈ v.active
  accepts : s.Accepts ctx p.change
  receipt : s.Receipt ctx now p.change k

namespace FreshCommit

/-- No action is updated twice. -/
theorem nodup (hs : s.Consistent) (h : s.FreshCommit ctx call now p k) :
    (p.change.actionUpdates.map ActionUpdate.actionId).Nodup := by
  obtain ⟨tr, v, -, hp, hcurrent, -⟩ := h.planned
  apply tr.nodup_updates hp
  rw [hcurrent.active]
  exact ((hs.actions.filter _).filter _).nodup

/-- The commit hands back an updated action as it is stored now. -/
theorem action?_eq (hs : s.Consistent) (h : s.FreshCommit ctx call now p k) {u : ActionUpdate}
    (hu : u ∈ p.change.actionUpdates) {a : Action} (ha : a ∈ s.actions) (hid : a.id = u.actionId) :
    k.action? u.actionId = some (p.change.writeAction ctx now a) := by
  have hs' := hs.written h.accepts now
  obtain ⟨r, hr⟩ := h.receipt.exists_action? hu
  have hrid : r.id = u.actionId := by simpa using List.find?_some hr
  have hstored : r ∈ (s.written ctx now p.change).actions := by
    rcases List.mem_append.mp (List.mem_of_find?_eq_some hr) with hmem | hmem
    · rw [h.receipt.created] at hmem
      exact List.mem_append_right _ hmem
    · exact h.receipt.stored (h.nodup hs) r hmem
  have hsame : r = p.change.writeAction ctx now a := by
    apply hs'.actions.eq_of_id_eq hstored (List.mem_append_left _ (List.mem_map_of_mem ha))
    rw [hrid, ← hid, TargetChange.writeAction_id]
  rw [hr, hsame]

/-- The actions that the change updates, and then those that it creates. -/
def touched (s : Store) (ctx : Context) (now : Instant) (c : TargetChange) : List Int :=
  c.actionUpdates.map ActionUpdate.actionId ++ (s.createdBy ctx now c).map Action.id

theorem nodup_touched (hs : s.Consistent) (h : s.FreshCommit ctx call now p k) :
    (touched s ctx now p.change).Nodup := by
  have hcreated : ((s.createdBy ctx now p.change).map Action.id).Nodup := by
    have hall : ((s.written ctx now p.change).actions.map Action.id).Nodup :=
      (hs.written h.accepts now).actions.nodup
    exact hall.sublist ((List.sublist_append_right _ _).map _)
  refine List.nodup_append.mpr ⟨h.nodup hs, hcreated, ?_⟩
  rintro i hi j hj rfl
  -- an updated action is older than a created one
  obtain ⟨u, hu, rfl⟩ := List.mem_map.mp hi
  obtain ⟨b, hb, hbid⟩ := List.mem_map.mp hj
  obtain ⟨a, ha, hid, -⟩ := h.accepts.updates u hu
  have hle := hs.actions.le_last a (mem_actionsOf.mp ha).1
  have hlt := createdBy_id hb
  omega

/-- An updated action has another revision, and the status that it was updated to. -/
theorem writeAction_of_update (hs : s.Consistent) (h : s.FreshCommit ctx call now p k)
    {u : ActionUpdate} (hu : u ∈ p.change.actionUpdates) {a : Action} (hid : a.id = u.actionId) :
    (p.change.writeAction ctx now a).revision ≠ a.revision ∧
      (p.change.writeAction ctx now a).status = u.status := by
  constructor
  · have hlt : a.revision < (p.change.writeAction ctx now a).revision :=
      TargetChange.revision_lt_writeAction ⟨u, hu, hid.symm⟩
    omega
  · rw [TargetChange.writeAction_of_mem (h.nodup hs) hu hid.symm, ActionUpdate.writeTo, if_pos hid]

/-- What is published of an update is the story of the updated action. -/
theorem resolve_announces (hs : s.Consistent) (h : s.FreshCommit ctx call now p k) {tr : Transition}
    (hplans : call.Plans ctx tr) {u : ActionUpdate} (hu : u ∈ p.change.actionUpdates) :
    (tr.announces u).flatMap (PlannedEvent.resolve k) =
      call.story (s.actionById? u.actionId)
        ((s.written ctx now p.change).actionById? u.actionId) := by
  obtain ⟨a, ha, hid, -⟩ := h.accepts.updates u hu
  obtain ⟨ha, -⟩ := mem_actionsOf.mp ha
  obtain ⟨hbefore, hafter⟩ := actionById?_written_of_mem ctx now p.change hs ha
  obtain ⟨hrevision, hstatus⟩ := h.writeAction_of_update hs hu hid
  rw [hid] at hbefore hafter
  rw [hbefore, hafter, Transition.announces, hplans.recalls, Call.story, if_neg hrevision, hstatus]
  split <;> simp [PlannedEvent.resolve, h.action?_eq hs hu ha hid]

/-- What is published of a created action is its story. -/
theorem resolve_assigned (hs : s.Consistent) (h : s.FreshCommit ctx call now p k) :
    ((List.range p.change.newActions.length).map PlannedEvent.assigned).flatMap
        (PlannedEvent.resolve k) =
      ((s.createdBy ctx now p.change).map Action.id).flatMap fun i =>
        call.story (s.actionById? i) ((s.written ctx now p.change).actionById? i) := by
  have hlength : p.change.newActions.length = (s.createdBy ctx now p.change).length := by
    simp [createdBy]
  have hstory (a : Action) (ha : a ∈ s.createdBy ctx now p.change) :
      call.story (s.actionById? a.id) ((s.written ctx now p.change).actionById? a.id) =
        [.actionCreated a.toEvent, .targetAssigned a.toAssignmentEvent] := by
    obtain ⟨hbefore, hafter⟩ := actionById?_written_of_createdBy hs h.accepts ha
    rw [hbefore, hafter, Call.story]
  have hresolve (i : Nat) : (PlannedEvent.assigned i).resolve k =
      ((s.createdBy ctx now p.change)[i]?).toList.flatMap fun a =>
        [.actionCreated a.toEvent, .targetAssigned a.toAssignmentEvent] := by
    rw [PlannedEvent.resolve, h.receipt.created]
    cases (s.createdBy ctx now p.change)[i]? <;> rfl
  rw [List.flatMap_map, List.flatMap_map, List.flatMap_congr hstory, hlength]
  simp only [hresolve]
  rw [← List.flatMap_assoc, flatMap_range_getElem?]

/-- What is published are the stories of the actions that are updated and created. -/
theorem resolve_eq (hs : s.Consistent) (h : s.FreshCommit ctx call now p k) :
    k.resolve p.events = (touched s ctx now p.change).flatMap fun i =>
      call.story (s.actionById? i) ((s.written ctx now p.change).actionById? i) := by
  obtain ⟨tr, v, hplans, hp, -, -⟩ := h.planned
  have hupdates : (p.change.actionUpdates.flatMap tr.announces).flatMap (PlannedEvent.resolve k) =
      (p.change.actionUpdates.map ActionUpdate.actionId).flatMap fun i =>
        call.story (s.actionById? i) ((s.written ctx now p.change).actionById? i) := by
    rw [List.flatMap_assoc, List.flatMap_map]
    exact List.flatMap_congr fun u hu => h.resolve_announces hs hplans hu
  rw [Committed.resolve, tr.events_eq hp, touched, List.flatMap_append, List.flatMap_append,
    hupdates, h.resolve_assigned hs]

/-- The actions that the change updates or creates are those of its target. -/
theorem exists_mem_actionsOf (h : s.FreshCommit ctx call now p k) {i : Int}
    (hi : i ∈ touched s ctx now p.change) :
    ∃ a ∈ (s.written ctx now p.change).actionsOf ctx.tenantId p.change.controllerId, a.id = i := by
  rw [actionsOf_written]
  rcases List.mem_append.mp hi with hi | hi
  · obtain ⟨u, hu, rfl⟩ := List.mem_map.mp hi
    obtain ⟨a, ha, hid, -⟩ := h.accepts.updates u hu
    exact ⟨_, List.mem_append_left _ (List.mem_map_of_mem ha),
      (TargetChange.writeAction_id p.change a).trans hid⟩
  · obtain ⟨a, ha, rfl⟩ := List.mem_map.mp hi
    exact ⟨a, List.mem_append_right _ ha, rfl⟩

/-- What is published is about the target of the change. -/
theorem controllerId_eq (hs : s.Consistent) (h : s.FreshCommit ctx call now p k) {e : Event}
    (he : e ∈ k.resolve p.events) : e.controllerId = p.change.controllerId := by
  rw [h.resolve_eq hs, List.mem_flatMap] at he
  obtain ⟨i, hi, he⟩ := he
  obtain ⟨a, ha, rfl⟩ := h.exists_mem_actionsOf hi
  obtain ⟨hmem, howner⟩ := mem_actionsOf.mp ha
  rw [(actionById?_eq_some_iff (hs.written h.accepts now)).mpr ⟨hmem, rfl⟩] at he
  rw [(Call.of_mem_story he).2]
  exact (Prod.mk.inj howner).2

end FreshCommit

end Store

/-! ## What is announced between two stores -/

/-- A call that leads from one store to another has published the story of each action, no more and
no less, and has lost none; an action whose revision is the same is the same. -/
structure Call.Announces (call : Call) (s s' : Store) (es : List Event) : Prop where
  story : ∀ i, es.filter (fun e => e.actionId == i) =
    call.story (s.actionById? i) (s'.actionById? i)
  kept : ∀ i a, s.actionById? i = some a →
    ∃ a', s'.actionById? i = some a' ∧ (a'.revision = a.revision → a' = a)

namespace Call.Announces

open Store

variable {s s' s'' : Store} {ctx : Context} {call : Call} {es es' : List Event}

theorem publishes (h : call.Announces s s' es) (i : Int) :
    call.Publishes (s.actionById? i) (s'.actionById? i)
      (es.filter fun e => e.actionId == i) := by
  rw [h.story]
  exact Call.publishes_story (h.kept i)

/-- Nothing is to be announced where no action is created or changed. -/
theorem of_actions (h : s'.actions = s.actions) : call.Announces s s' [] := by
  have hsame (i : Int) : s'.actionById? i = s.actionById? i := by rw [actionById?, h, actionById?]
  refine ⟨fun i => ?_, fun i a ha => ⟨a, (hsame i).trans ha, fun _ => rfl⟩⟩
  rw [hsame, Call.story_self]
  rfl

/-- Announcements of two steps make up those of both together, if no action is changed in both. -/
theorem trans (h : call.Announces s s' es) (h' : call.Announces s' s'' es')
    (honce : ∀ i, s'.actionById? i = s.actionById? i ∨ s''.actionById? i = s'.actionById? i) :
    call.Announces s s'' (es ++ es') := by
  constructor
  · intro i
    rw [List.filter_append, h.story, h'.story]
    rcases honce i with hi | hi
    · rw [hi, Call.story_self, List.nil_append]
    · rw [hi, Call.story_self, List.append_nil]
  · intro i a ha
    obtain ⟨a', ha', hsame⟩ := h.kept i a ha
    obtain ⟨a'', ha'', hsame'⟩ := h'.kept i a' ha'
    refine ⟨a'', ha'', fun hrevision => ?_⟩
    rcases honce i with hi | hi
    · obtain rfl : a' = a := by simpa [ha, ha'] using hi
      exact hsame' hrevision
    · obtain rfl : a'' = a' := by simpa [ha', ha''] using hi
      exact hsame hrevision

end Call.Announces

/-- A commit of a change that is planned from the store as it is announces what it does. -/
theorem Store.FreshCommit.announces {s : Store} {ctx : Context} {call : Call} {now : Instant}
    {p : Plan} {k : Committed} (hs : s.Consistent) (h : s.FreshCommit ctx call now p k) :
    call.Announces s (s.written ctx now p.change) (k.resolve p.events) := by
  constructor
  · intro i
    rw [h.resolve_eq hs]
    apply filter_flatMap_story (f := fun i =>
      call.story (s.actionById? i) ((s.written ctx now p.change).actionById? i)) _
      (h.nodup_touched hs)
    · intro hi
      rw [actionById?_written_of_not_mem hi, Call.story_self]
    · intro j e he
      cases hj : (s.written ctx now p.change).actionById? j with
      | none =>
        rw [hj] at he
        cases he
      | some a =>
        rw [hj] at he
        rw [(Call.of_mem_story he).1]
        exact ((actionById?_eq_some_iff (hs.written h.accepts now)).mp hj).2
  · intro i a ha
    obtain ⟨hmem, rfl⟩ := (actionById?_eq_some_iff hs).mp ha
    refine ⟨_, (actionById?_written_of_mem ctx now p.change hs hmem).2, fun hrevision => ?_⟩
    apply TargetChange.writeAction_of_forall_ne
    intro u hu hid
    have hlt : a.revision < (p.change.writeAction ctx now a).revision :=
      TargetChange.revision_lt_writeAction ⟨u, hu, hid⟩
    omega

end FleetUpdate
