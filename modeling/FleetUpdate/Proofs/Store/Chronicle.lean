import FleetUpdate.Proofs.Store.Active
import FleetUpdate.Proofs.Store.Run

/-!
# Chronicles

The store does not say which of the actions of a target ended last, nor what became of a
distribution set that a device once had.  A chronicle does: it is kept beside the store, request by
request, and lists for each target the actions that have ended since the target was registered, in
the order of the commits that ended them.
-/

namespace FleetUpdate

/-- An action as it has ended, and the time of the report of success that ended it, if one did. -/
structure Ending where
  action : Action
  success : Option Instant

/-- The endings of every target of every tenant. -/
abbrev Chronicle := String → String → List Ending

/-- The distribution set of the last success among endings, with its time. -/
def lastSuccess (es : List Ending) : Option (Int × Instant) :=
  (es.filterMap fun e => e.success.map fun time => (e.action.setId, time)).getLast?

namespace Store

/-- The actions of a target that are active in one store and have ended in a later one. -/
def endedIn (s s' : Store) (x c : String) : List Action :=
  (s'.actionsOf x c).filter fun a' => !a'.active && (s.activeOf x c).any fun a => a.id == a'.id

end Store

namespace Chronicle

/-- What a request adds to the chronicle of a target: the endings that its changes have brought, one
change after the other.  A target that is not stored any more is forgotten. -/
def after (h : Chronicle) (success : Option Instant) (s : Store) (o : Op) : Chronicle := fun x c =>
  if ((s.after o).target? x c).isNone then []
  else h x c ++ (s.appliedIn o).flatMap fun p =>
    (p.before.endedIn p.after x c).map fun a => ⟨a, success⟩

/-- What a run of requests adds. -/
def afterAll (h : Chronicle) (success : Option Instant) (s : Store) : List Op → Chronicle
  | [] => h
  | o :: ops => (h.after success s o).afterAll success (s.after o) ops

end Chronicle

/-! ## The last of several endings -/

section Last

variable {es es' : List Ending}

/-- Elements that are all the same have this one as the last. -/
theorem getLast?_append_of_forall_eq {α : Type} {l l' : List α} {a : α} (hne : l' ≠ [])
    (h : ∀ b ∈ l', b = a) : (l ++ l').getLast? = some a := by
  rw [List.getLast?_append, List.getLast?_eq_some_getLast hne, Option.some_or]
  exact congrArg some (h _ (List.getLast_mem hne))

theorem lastSuccess_append_of_none (h : ∀ e ∈ es', e.success = none) :
    lastSuccess (es ++ es') = lastSuccess es := by
  have hnone : (es'.filterMap fun e => e.success.map fun time => (e.action.setId, time)) = [] := by
    rw [List.filterMap_eq_nil_iff]
    intro e he
    rw [h e he, Option.map_none]
  rw [lastSuccess, List.filterMap_append, hnone, List.append_nil, lastSuccess]

theorem lastSuccess_append_of_some {d : Int} {time : Instant} (hne : es' ≠ [])
    (h : ∀ e ∈ es', e.action.setId = d ∧ e.success = some time) :
    lastSuccess (es ++ es') = some (d, time) := by
  rw [lastSuccess, List.filterMap_append]
  apply getLast?_append_of_forall_eq
  · obtain ⟨e, es, rfl⟩ := List.exists_cons_of_ne_nil hne
    obtain ⟨-, hsuccess⟩ := h e List.mem_cons_self
    simp [hsuccess]
  · intro x hx
    obtain ⟨e, he, hmap⟩ := List.mem_filterMap.mp hx
    obtain ⟨hset, hsuccess⟩ := h e he
    rw [hsuccess, Option.map_some, hset] at hmap
    exact (Option.some.inj hmap).symm

end Last

/-! ## What ends in a commit -/

namespace Store

variable {s s' : Store} {x c : String} {ctx : Context} {now : Instant} {change : TargetChange}

/-- Where nothing happens to a target, none of its actions ends. -/
theorem endedIn_of_same (hs : s.Consistent) (h : SameAt x c s s') : s.endedIn s' x c = [] := by
  rw [endedIn, List.filter_eq_nil_iff, h.actionsOf_eq]
  intro a' ha' hended
  rw [Bool.and_eq_true, Bool.not_eq_true', List.any_eq_true] at hended
  obtain ⟨hinactive, a, ha, hid⟩ := hended
  obtain ⟨ha, hactive⟩ := mem_activeOf.mp ha
  obtain rfl := hs.actions.eq_of_id_eq (mem_actionsOf.mp ha).1 (mem_actionsOf.mp ha').1
    (beq_iff_eq.mp hid)
  rw [hinactive] at hactive
  cases hactive

/-- In a commit those active actions end that the change writes as inactive. -/
theorem mem_endedIn_written (hs : s.Consistent) {a' : Action} :
    a' ∈ s.endedIn (s.written ctx now change) ctx.tenantId change.controllerId ↔
      ∃ a ∈ s.activeOf ctx.tenantId change.controllerId,
        change.writeAction ctx now a = a' ∧ a'.active = false := by
  rw [endedIn, List.mem_filter, actionsOf_written, List.mem_append, Bool.and_eq_true,
    Bool.not_eq_true', List.any_eq_true]
  constructor
  · rintro ⟨hmem, hended, a, ha, hid⟩
    have hid := beq_iff_eq.mp hid
    have hstored := (mem_actionsOf.mp (mem_activeOf.mp ha).1).1
    rcases hmem with hold | hnew
    · obtain ⟨b, hb, rfl⟩ := List.mem_map.mp hold
      rw [TargetChange.writeAction_id] at hid
      obtain rfl := hs.actions.eq_of_id_eq hstored (mem_actionsOf.mp hb).1 hid
      exact ⟨a, ha, rfl, hended⟩
    · -- a new action has an id that no action had before
      have hlt := createdBy_id hnew
      have hle := hs.actions.le_last a hstored
      omega
  · rintro ⟨a, ha, rfl, hended⟩
    refine ⟨.inl (List.mem_map_of_mem (mem_activeOf.mp ha).1), hended, a, ha, ?_⟩
    rw [TargetChange.writeAction_id, beq_self_eq_true]

/-- After a commit that updates active actions only, those actions have ended that had ended before
or end in it. -/
theorem mem_ended_written (hs : s.Consistent)
    (hupdates : ∀ u ∈ change.actionUpdates,
      ∃ a ∈ s.activeOf ctx.tenantId change.controllerId, a.id = u.actionId) {a' : Action} :
    a' ∈ (s.written ctx now change).actionsOf ctx.tenantId change.controllerId ∧ a'.active = false ↔
      (a' ∈ s.actionsOf ctx.tenantId change.controllerId ∧ a'.active = false) ∨
        a' ∈ s.endedIn (s.written ctx now change) ctx.tenantId change.controllerId := by
  rw [mem_endedIn_written hs, actionsOf_written, List.mem_append]
  constructor
  · rintro ⟨hold | hnew, hended⟩
    · obtain ⟨a, ha, rfl⟩ := List.mem_map.mp hold
      cases hactive : a.active with
      | true => exact .inr ⟨a, mem_activeOf.mpr ⟨ha, hactive⟩, rfl, hended⟩
      | false =>
        rw [writeAction_of_ended hs hupdates ha hactive]
        exact .inl ⟨ha, hactive⟩
    · rw [active_of_mem_createdBy hnew] at hended
      cases hended
  · rintro (⟨ha, hended⟩ | ⟨a, ha, rfl, hended⟩)
    · have hwritten := List.mem_map_of_mem (f := change.writeAction ctx now) ha
      rw [writeAction_of_ended hs hupdates ha hended] at hwritten
      exact ⟨.inl hwritten, hended⟩
    · exact ⟨.inl (List.mem_map_of_mem (mem_activeOf.mp ha).1), hended⟩

end Store

end FleetUpdate
