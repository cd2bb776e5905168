import FleetUpdate.Proofs.Store.Tenants

/-!
# Stores that a tenant cannot tell apart

Two stores agree for a tenant when they hold the same part of it and have given out the same ids.
Whatever the tenant asks for, both then answer the same and agree again (`Agree.perform`), so what
other tenants have done shows in no answer, however many requests follow.
-/

namespace FleetUpdate

/-- Lists with the same selection have it also after both were filtered. -/
theorem filter_filter_of_eq {α : Type} {p : α → Bool} {l l' : List α}
    (h : l'.filter p = l.filter p) (q : α → Bool) :
    (l'.filter q).filter p = (l.filter q).filter p := by
  rw [List.filter_comm, h, List.filter_comm]

namespace Store

/-- Two outcomes with the same answer, which leave stores that agree. -/
structure Alike {α : Type} (x : String) (o o' : α × Store) : Prop where
  answer : o'.1 = o.1
  agree : Agree x o.2 o'.2

section Updates

variable {s s₁ : Store} {ctx : Context} {now : Instant} {change : TargetChange} {k : Committed}

/-- The store that the updates of a change are written to. -/
def afterCreating (s : Store) (ctx : Context) (now : Instant) (change : TargetChange) : Store :=
  { s with
    actions := s.actions ++ s.createdBy ctx now change
    lastActionId := s.lastActionId + change.newActions.length }

/-- What a change that has been written hands back about its updates. -/
theorem updated_of_writeChange (hwrite : s.writeChange ctx now change = .ok (k, s₁)) :
    ∃ s₂, (s.afterCreating ctx now change).updateActions ctx now change.actionUpdates =
      .ok (k.updated, s₂) := by
  rw [writeChange, createActions_eq] at hwrite
  simp only [bind, Except.bind, afterCreating, createdBy] at hwrite ⊢
  repeat' split at hwrite
  all_goals cases hwrite
  exact ⟨_, by assumption⟩

/-- Updates of actions of a tenant hand back the same rows from the same actions of the tenant. -/
theorem exists_updateActions (s s' : Store) (ctx : Context) (now : Instant) (x : String)
    (us : List ActionUpdate) (hids : (s.actions.map Action.id).Nodup)
    (hids' : (s'.actions.map Action.id).Nodup)
    (hactions : s'.actions.filter (fun a => a.tenantId == x) =
      s.actions.filter fun a => a.tenantId == x)
    (hus : ∀ u ∈ us, ∃ a ∈ s.actions, a.id = u.actionId ∧ a.tenantId = x) :
    ∃ rows t t', s.updateActions ctx now us = .ok (rows, t) ∧
      s'.updateActions ctx now us = .ok (rows, t') := by
  induction us generalizing s s' with
  | nil => exact ⟨[], s, s', rfl, rfl⟩
  | cons u us ih =>
    obtain ⟨a, ha, hid, hx⟩ := hus u List.mem_cons_self
    have ha' : a ∈ s'.actions := by
      have hmem : a ∈ s'.actions.filter fun a => a.tenantId == x := by
        rw [hactions]
        exact List.mem_filter.mpr ⟨ha, beq_iff_eq.mpr hx⟩
      exact (List.mem_filter.mp hmem).1
    have hkeeps : ∀ b : Action, (u.writeTo ctx now b).tenantId = b.tenantId := fun b =>
      (Prod.mk.inj (u.writeTo_owner ctx now b)).1
    have hrows (s : Store) : (s.actions.map (u.writeTo ctx now)).filter (fun a => a.tenantId == x) =
        (s.actions.filter fun a => a.tenantId == x).map (u.writeTo ctx now) :=
      filter_map_of_keeps fun b _ => by rw [hkeeps]
    obtain ⟨rows, t, t', hrun, hrun'⟩ :=
      ih { s with actions := s.actions.map (u.writeTo ctx now) }
        { s' with actions := s'.actions.map (u.writeTo ctx now) }
        (by simpa [List.map_map, Function.comp_def] using hids)
        (by simpa [List.map_map, Function.comp_def] using hids')
        (by rw [hrows, hrows, hactions])
        fun v hv => by
          obtain ⟨b, hb, hbid, hbx⟩ := hus v (List.mem_cons_of_mem u hv)
          exact ⟨_, List.mem_map_of_mem hb, by simpa using hbid, (hkeeps b).trans hbx⟩
    refine ⟨u.writeTo ctx now a :: rows, t, t', ?_, ?_⟩
    · rw [updateActions, updateAction_eq hids ha hid]
      show (updateActions _ ctx now us >>= fun r => Except.ok (u.writeTo ctx now a :: r.1, r.2)) = _
      rw [hrun]
      rfl
    · rw [updateActions, updateAction_eq hids' ha' hid]
      show (updateActions _ ctx now us >>= fun r => Except.ok (u.writeTo ctx now a :: r.1, r.2)) = _
      rw [hrun']
      rfl

end Updates

namespace Agree

variable {s s' : Store} {ctx : Context} {now : Instant}

section Rows

variable {x : String} (h : Agree x s s')

include h

theorem target : s'.target? x = s.target? x := congrArg Part.target h.part

theorem sets : s'.sets.filter (fun d => d.tenantId == x) = s.sets.filter fun d => d.tenantId == x :=
  congrArg Part.sets h.part

theorem actions :
    s'.actions.filter (fun a => a.tenantId == x) = s.actions.filter fun a => a.tenantId == x :=
  congrArg Part.actions h.part

theorem log : s'.log.filter (fun e => e.tenantId == x) = s.log.filter fun e => e.tenantId == x :=
  congrArg Part.log h.part

end Rows

variable (h : Agree ctx.tenantId s s') (hs : s.Consistent) (hs' : s'.Consistent)

/-! ## Requests about targets -/

section Targets

include h

theorem createTarget (now : Instant) (n : NewTarget) :
    Alike ctx.tenantId (s.settle (s.createTarget ctx now n))
      (s'.settle (s'.createTarget ctx now n)) := by
  unfold Store.createTarget
  rw [h.target?_eq]
  split
  · exact ⟨rfl, h⟩
  · split
    · exact ⟨rfl, h⟩
    · refine ⟨rfl, ⟨Part.ext (funext fun d => ?_) ?_ ?_ ?_, h.lastSet, h.lastAction, h.lastEntry⟩⟩
      · exact (target?_append s' _ _ d).trans
          ((congrArg (Option.or · _) (h.target?_eq d)).trans (target?_append s _ _ d).symm)
      · exact h.sets
      · exact h.actions
      · exact h.log

theorem changeTarget (d : String) (f : Target → Target) :
    Alike ctx.tenantId (s.changeTarget ctx d f) (s'.changeTarget ctx d f) := by
  unfold Store.changeTarget
  rw [h.target?_eq]
  cases s.target? ctx.tenantId d with
  | none => exact ⟨rfl, h⟩
  | some t =>
    refine ⟨rfl, ⟨Part.ext (funext fun e => ?_) ?_ ?_ ?_, h.lastSet, h.lastAction, h.lastEntry⟩⟩
    · show (s'.putTarget _).target? _ _ = (s.putTarget _).target? _ _
      rw [target?_putTarget, target?_putTarget, h.target?_eq]
    · exact h.sets
    · exact h.actions
    · exact h.log

theorem deleteTarget (d : String) :
    Alike ctx.tenantId (done (s.deleteTarget ctx d)) (done (s'.deleteTarget ctx d)) := by
  unfold Store.deleteTarget
  rw [h.target?_eq, h.actionsOf_eq]
  cases s.target? ctx.tenantId d with
  | none => exact ⟨rfl, h⟩
  | some t =>
    refine ⟨rfl, ⟨Part.ext (funext fun e => ?_) ?_ ?_ ?_, h.lastSet, h.lastAction, h.lastEntry⟩⟩
    · refine (target?_filter s' (ctx.tenantId, d) _ e).trans ?_
      rw [h.target?_eq]
      exact (target?_filter s (ctx.tenantId, d) _ e).symm
    · exact h.sets
    · exact filter_filter_of_eq h.actions _
    · exact filter_filter_of_eq h.log _

end Targets

/-! ## Requests about distribution sets -/

include h

/-- The sets of other tenants do not count when a name is taken. -/
theorem createSet (now : Instant) (n : NewDistributionSet) :
    Alike ctx.tenantId (s.settle (s.createSet ctx now n))
      (s'.settle (s'.createSet ctx now n)) := by
  have htaken (s : Store) :
      (s.sets.any fun d => d.tenantId == ctx.tenantId && d.name == n.name && d.version == n.version) =
        (s.partOf ctx.tenantId).sets.any fun d => d.name == n.name && d.version == n.version := by
    rw [partOf, List.any_filter]
    simp only [Bool.and_assoc]
  unfold Store.createSet
  rw [htaken s', htaken s, h.part, h.lastSet]
  split
  · exact ⟨rfl, h⟩
  · refine ⟨rfl, ⟨Part.ext ?_ ?_ ?_ ?_, rfl, h.lastAction, h.lastEntry⟩⟩
    · exact h.target
    · simp only [settle, partOf, List.filter_append, h.sets]
    · exact h.actions
    · exact h.log

theorem written (change : TargetChange) :
    Agree ctx.tenantId (s.written ctx now change) (s'.written ctx now change) := by
  have hcreated : s'.createdBy ctx now change = s.createdBy ctx now change := by
    rw [createdBy, h.lastAction, createdBy]
  have hentries : s'.entriesBy ctx change = s.entriesBy ctx change := by
    rw [entriesBy, h.lastAction, h.lastEntry, entriesBy]
  refine ⟨?_, h.lastSet, ?_, ?_⟩
  · rw [partOf_written, partOf_written, h.part, hcreated, hentries]
  · exact congrArg (· + (change.newActions.length : Int)) h.lastAction
  · exact congrArg (· + (change.entries.length : Int)) h.lastEntry

include hs hs'

theorem putSet {i : Int} {d d' : DistributionSet} (hd : s.set? ctx.tenantId i = some d)
    (hid : d'.id = d.id) (hx : d'.tenantId = d.tenantId) :
    Agree ctx.tenantId (s.putSet d') (s'.putSet d') := by
  -- in each store the row that is replaced is the one that was found
  have hrow {s : Store} (hs : s.Consistent) (hd : s.set? ctx.tenantId i = some d) :
      ∀ u ∈ s.sets, u.id = d'.id → u.tenantId = d'.tenantId := by
    intro u hu hui
    rw [hs.sets.eq_of_id_eq hu ((set?_eq_some_iff hs).mp hd).1 (hui.trans hid), hx]
  have hd' : s'.set? ctx.tenantId i = some d := (h.set?_eq hs hs' i).trans hd
  refine ⟨Part.ext ?_ ?_ ?_ ?_, h.lastSet, h.lastAction, h.lastEntry⟩
  · exact h.target
  · rw [setsOf_putSet (hrow hs' hd'), setsOf_putSet (hrow hs hd), h.part]
  · exact h.actions
  · exact h.log

theorem setModules (now : Instant) (i : Int) (modules : List String) :
    Alike ctx.tenantId (s.settle (s.setModules ctx now i modules))
      (s'.settle (s'.setModules ctx now i modules)) := by
  unfold Store.setModules
  rw [h.set?_eq hs hs']
  cases hd : s.set? ctx.tenantId i with
  | none => exact ⟨rfl, h⟩
  | some d =>
    rw [h.isReferenced_eq hs hs' hd]
    dsimp only
    split
    · exact ⟨rfl, h⟩
    · exact ⟨rfl, h.putSet hs hs' hd rfl rfl⟩

theorem deleteSet (now : Instant) (i : Int) :
    Alike ctx.tenantId (done (s.deleteSet ctx now i)) (done (s'.deleteSet ctx now i)) := by
  unfold Store.deleteSet
  rw [h.set?_eq hs hs']
  cases hd : s.set? ctx.tenantId i with
  | none => exact ⟨rfl, h⟩
  | some d =>
    rw [h.isReferenced_eq hs hs' hd]
    dsimp only
    split
    · exact ⟨rfl, h.putSet hs hs' hd rfl rfl⟩
    · refine ⟨rfl, ⟨Part.ext ?_ ?_ ?_ ?_, h.lastSet, h.lastAction, h.lastEntry⟩⟩
      · exact h.target
      · exact filter_filter_of_eq h.sets _
      · exact h.actions
      · exact h.log

/-! ## Commits -/

theorem checkChange_eq (change : TargetChange) :
    s'.checkChange ctx change = s.checkChange ctx change := by
  have howned (d : String) (i : Int) : s'.ownedAction ctx d i = s.ownedAction ctx d i := by
    rw [ownedAction, h.action?_eq hs hs', ownedAction]
  have hnew : s'.checkNew ctx = s.checkNew ctx := by
    funext n
    rw [checkNew, h.set?_eq hs hs', checkNew]
  have hupdate (d : String) : s'.checkUpdate ctx d = s.checkUpdate ctx d := by
    funext u
    rw [checkUpdate, howned, checkUpdate]
  have hentry (d : String) (n : Nat) : s'.checkEntry ctx d n = s.checkEntry ctx d n := by
    funext e
    simp only [checkEntry, howned]
  rw [checkChange, h.target?_eq, hnew, hupdate, hentry, checkChange]

theorem updated_eq {change : TargetChange} (hacc : s.Accepts ctx change) {k k' : Committed}
    {s₁ s₁' : Store} (hwrite : s.writeChange ctx now change = .ok (k, s₁))
    (hwrite' : s'.writeChange ctx now change = .ok (k', s₁')) : k'.updated = k.updated := by
  have hids {s : Store} (hs : s.Consistent) :
      ((s.afterCreating ctx now change).actions.map Action.id).Nodup :=
    (hs.actions.append_mapIdx change.newActions _ fun i n => rfl).nodup
  have hrows : (s'.afterCreating ctx now change).actions.filter
      (fun a => a.tenantId == ctx.tenantId) =
        (s.afterCreating ctx now change).actions.filter fun a => a.tenantId == ctx.tenantId := by
    simp only [afterCreating, createdBy, List.filter_append, h.actions, h.lastAction]
  obtain ⟨s₂, hrun⟩ := updated_of_writeChange hwrite
  obtain ⟨s₂', hrun'⟩ := updated_of_writeChange hwrite'
  obtain ⟨rows, t, t', hsame, hsame'⟩ := exists_updateActions (s.afterCreating ctx now change)
    (s'.afterCreating ctx now change) ctx now ctx.tenantId change.actionUpdates (hids hs) (hids hs')
    hrows fun u hu => by
      obtain ⟨a, ha, hid, -⟩ := hacc.updates u hu
      obtain ⟨hmem, howner⟩ := mem_actionsOf.mp ha
      exact ⟨a, List.mem_append_left _ hmem, hid, (Prod.mk.inj howner).1⟩
  rw [hsame] at hrun
  rw [hsame'] at hrun'
  exact (Prod.mk.inj (Except.ok.inj hrun')).1.symm.trans (Prod.mk.inj (Except.ok.inj hrun)).1

theorem commit (now : Instant) (change : TargetChange) :
    Alike ctx.tenantId (s.commit ctx now change) (s'.commit ctx now change) := by
  have hcheck := h.checkChange_eq hs hs' change
  rcases commit_cases hs ctx now change with ⟨k, hacc, hcommit, hreceipt⟩ | ⟨e, herror, hcommit⟩
  · have hok : s.checkChange ctx change = .ok () := (checkChange_eq_ok_iff hs).mpr hacc
    have hok' : s'.checkChange ctx change = .ok () := hcheck.trans hok
    obtain ⟨k', hcommit', hreceipt'⟩ :=
      commit_of_accepts hs' ((checkChange_eq_ok_iff hs').mp hok') now
    have hwritten : Agree ctx.tenantId (s.written ctx now change) (s'.written ctx now change) :=
      h.written change
    rw [hcommit, hcommit']
    refine ⟨?_, hwritten⟩
    have htarget : k'.target = k.target := by
      have hfound := hwritten.target?_eq change.controllerId
      rw [hreceipt.target, hreceipt'.target] at hfound
      exact Option.some.inj hfound
    have hcreated : k'.created = k.created := by
      rw [hreceipt.created, hreceipt'.created, createdBy, h.lastAction, createdBy]
    have hupdated : k'.updated = k.updated := by
      exact h.updated_eq hs hs' hacc (writeChange_of_commit hok hcommit)
        (writeChange_of_commit hok' hcommit')
    cases k
    cases k'
    simp_all
  · rw [hcommit]
    rw [Store.commit, hcheck, herror]
    exact ⟨rfl, h⟩

theorem commitAll (now : Instant) (cs : List TargetChange) :
    Alike ctx.tenantId (s.commitAll ctx now cs) (s'.commitAll ctx now cs) := by
  induction cs generalizing s s' with
  | nil => exact ⟨rfl, h⟩
  | cons change cs ih =>
    have hfirst := h.commit hs hs' now change
    have hrest := ih hfirst.agree (hs.commit ctx now change) (hs'.commit ctx now change)
    exact ⟨congrArg₂ List.cons hfirst.answer hrest.answer, hrest.agree⟩

/-! ## All requests -/

/-- A tenant is answered the same by stores that agree for it, and leaves stores that agree. -/
theorem perform (now : Instant) (r : Request) :
    Alike ctx.tenantId (s.perform ctx now r) (s'.perform ctx now r) := by
  unfold Store.perform
  split
  · exact ⟨rfl, h⟩
  · cases r with
    | createTarget n => exact h.createTarget now n
    | findTarget c => exact ⟨congrArg Except.ok (h.target?_eq c), h⟩
    | findTargets cs =>
      refine ⟨congrArg Except.ok ?_, h⟩
      show cs.filterMap _ = cs.filterMap _
      rw [h.target]
    | updateTarget c d =>
      have hchange := h.changeTarget c fun t =>
        { t with
          name := d.name.getD t.name
          description := d.description.or t.description
          audit := t.audit.touch ctx.userId now }
      exact ⟨congrArg Except.ok hchange.answer, hchange.agree⟩
    | markContacted c time =>
      have hchange := h.changeTarget c fun t =>
        { t with
          lastContact := some time
          updateStatus := if t.updateStatus = .unknown then .registered else t.updateStatus }
      exact ⟨congrArg Except.ok hchange.answer, hchange.agree⟩
    | deleteTarget c => exact h.deleteTarget c
    | createSet n => exact h.createSet now n
    | findSet i => exact ⟨congrArg Except.ok (h.set?_eq hs hs' i), h⟩
    | findSets is =>
      refine ⟨congrArg Except.ok ?_, h⟩
      show is.filterMap _ = is.filterMap _
      exact List.filterMap_congr fun i _ => h.set?_eq hs hs' i
    | setModules i modules => exact h.setModules hs hs' now i modules
    | deleteSet i => exact h.deleteSet hs hs' now i
    | findAction i => exact ⟨congrArg Except.ok (h.action?_eq hs hs' i), h⟩
    | findActions c =>
      exact ⟨congrArg Except.ok (congrArg List.reverse (h.actionsOf_eq c)), h⟩
    | findActive c => exact ⟨congrArg Except.ok (h.activeOf_eq c), h⟩
    | findActiveOfAll cs => exact ⟨congrArg Except.ok (h.activeOfAll_eq cs), h⟩
    | countActions cs => exact ⟨congrArg Except.ok (h.countsOf_eq cs), h⟩
    | findSummaries c =>
      refine ⟨congrArg Except.ok ?_, h⟩
      show (s'.actionsOf ctx.tenantId c).reverse.map _ = (s.actionsOf ctx.tenantId c).reverse.map _
      rw [h.actionsOf_eq]
      apply List.map_congr_left
      intro a ha
      obtain ⟨hmem, howner⟩ := mem_actionsOf.mp (List.mem_reverse.mp ha)
      exact h.summarize_eq hs hs' hmem (Prod.mk.inj howner).1
    | findLog i => exact ⟨congrArg Except.ok (h.findLog_eq hs hs' i), h⟩
    | findLastEnded c => exact ⟨congrArg Except.ok (h.lastEnded_eq c), h⟩
    | applyChanges cs =>
      have hall := h.commitAll hs hs' now cs
      exact ⟨congrArg Except.ok hall.answer, hall.agree⟩

end Agree

end Store

end FleetUpdate
