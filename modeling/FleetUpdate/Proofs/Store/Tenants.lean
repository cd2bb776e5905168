import FleetUpdate.Proofs.Store.Atomic
import FleetUpdate.Proofs.Store.Sets

/-!
# Tenants do not meet

What a store holds for one tenant is its part of the store (`Store.partOf`).  A request of a tenant
leaves the parts of all others alone (`partOf_perform_of_ne`), and what it is answered and does to
the tenant's own part is settled by that part and by the counters (`Agree.perform`).

The store looks rows up without asking for the tenant in a few places: it finds the actions to
update by their ids, names a distribution set in a summary by its id, reads a log by the id of its
action, and asks whether any action at all brings a set.  In a consistent store none of these looks
beyond the tenant, since ids are unique and references stay within it.
-/

namespace FleetUpdate

/-- A function that keeps a property of the elements commutes with picking them by it. -/
theorem filter_map_of_keeps {α : Type} {p : α → Bool} {f : α → α} {l : List α}
    (h : ∀ a ∈ l, p (f a) = p a) : (l.map f).filter p = (l.filter p).map f := by
  rw [List.filter_map]
  congr 1
  exact List.filter_congr h

/-- A request concerns targets of the tenant that makes it only. -/
theorem Request.tenantId_of_concerns {r : Request} {ctx : Context} {x c : String}
    (h : r.Concerns ctx x c) : ctx.tenantId = x := by
  cases r with
  | createTarget _ | updateTarget _ _ | markContacted _ _ | deleteTarget _ =>
    exact (Prod.mk.inj h).1
  | applyChanges _ =>
    obtain ⟨_, _, hkey⟩ := h
    exact (Prod.mk.inj hkey).1
  | _ => exact h.elim

namespace Store

/-- What a store holds for one tenant: the targets under their controller ids, and the rows of the
other tables in the order of their ids. -/
@[ext] structure Part where
  target : String → Option Target
  sets : List DistributionSet
  actions : List Action
  log : List StatusEntry

/-- The part of a tenant. -/
def partOf (s : Store) (x : String) : Part :=
  { target := s.target? x
    sets := s.sets.filter fun d => d.tenantId == x
    actions := s.actions.filter fun a => a.tenantId == x
    log := s.log.filter fun e => e.tenantId == x }

/-- Two stores with the same part of a tenant and the same counters. -/
structure Agree (x : String) (s s' : Store) : Prop where
  part : s'.partOf x = s.partOf x
  lastSet : s'.lastSetId = s.lastSetId
  lastAction : s'.lastActionId = s.lastActionId
  lastEntry : s'.lastEntryId = s.lastEntryId

variable {s s' s'' : Store} {x y c : String} {ctx : Context} {now : Instant}

/-! ## Lookups of a tenant see its part only -/

theorem target?_eq_find? (s : Store) (x c : String) :
    s.target? x c =
      (s.targets.filter fun t => t.tenantId == x).find? fun t => t.controllerId == c := by
  rw [target?, List.find?_filter]
  congr 1
  funext t
  rw [Bool.eq_iff_iff]
  simp [Target.key]

theorem set?_eq_find? (hs : s.Consistent) (x : String) (i : Int) :
    s.set? x i = (s.partOf x).sets.find? fun d => d.id == i := by
  apply Option.ext
  intro d
  have hnodup : ((s.partOf x).sets.map DistributionSet.id).Nodup := (hs.sets.filter _).nodup
  rw [set?_eq_some_iff hs, find?_key_eq_some_iff hnodup]
  simp only [partOf, List.mem_filter, beq_iff_eq]
  tauto

theorem action?_eq_find? (hs : s.Consistent) (x : String) (i : Int) :
    s.action? x i = (s.partOf x).actions.find? fun a => a.id == i := by
  apply Option.ext
  intro a
  have hnodup : ((s.partOf x).actions.map Action.id).Nodup := (hs.actions.filter _).nodup
  rw [action?_eq_some_iff hs, find?_key_eq_some_iff hnodup]
  simp only [partOf, List.mem_filter, beq_iff_eq]
  tauto

theorem actionsOf_eq_filter (s : Store) (x c : String) :
    s.actionsOf x c = (s.partOf x).actions.filter fun a => a.controllerId == c := by
  simp only [actionsOf, partOf, List.filter_filter]
  exact List.filter_congr fun a _ => Bool.and_comm _ _

theorem activeOfAll_eq_filter (s : Store) (x : String) (ids : List String) :
    s.activeOfAll x ids =
      (s.partOf x).actions.filter fun a => a.active && ids.contains a.controllerId := by
  simp only [activeOfAll, partOf, List.filter_filter]
  apply List.filter_congr
  intro a _
  cases a.active <;> simp [Bool.and_comm]

/-- The log of an action is in the part of the tenant of the action. -/
theorem logOf_eq_filter (hs : s.Consistent) {a : Action} (ha : a ∈ s.actions)
    (hx : a.tenantId = x) :
    s.logOf a.id = (s.partOf x).log.filter fun e => e.actionId == a.id := by
  simp only [logOf, partOf, List.filter_filter]
  apply List.filter_congr
  intro e he
  by_cases hid : e.actionId = a.id
  · obtain ⟨b, hb, hbid, hbx⟩ := hs.entry e he
    obtain rfl : b = a := hs.actions.eq_of_id_eq hb ha (hbid.trans hid)
    simp [← hbx, hx]
  · simp [hid]

/-- Only actions of its own tenant bring a distribution set. -/
theorem isReferenced_eq_any (hs : s.Consistent) {i : Int} {d : DistributionSet}
    (hd : s.set? x i = some d) :
    s.isReferenced i = (s.partOf x).actions.any fun a => a.setId == i := by
  obtain ⟨hmem, hid, hx⟩ := (set?_eq_some_iff hs).mp hd
  rw [Bool.eq_iff_iff, isReferenced, List.any_eq_true, List.any_eq_true]
  constructor
  · rintro ⟨a, ha, hai⟩
    obtain ⟨u, hu, hui, hux⟩ := hs.set a ha
    obtain rfl : u = d := hs.sets.eq_of_id_eq hu hmem (by rw [hui, hid]; simpa using hai)
    exact ⟨a, List.mem_filter.mpr ⟨ha, by simp [← hux, hx]⟩, hai⟩
  · rintro ⟨a, ha, hai⟩
    exact ⟨a, (List.mem_filter.mp ha).1, hai⟩

/-- The distribution set that an action brings is found within the tenant. -/
theorem setById?_setId (hs : s.Consistent) {a : Action} (ha : a ∈ s.actions)
    (hx : a.tenantId = x) : s.setById? a.setId = s.set? x a.setId := by
  obtain ⟨d, hd, hid, hdx⟩ := hs.set a ha
  rw [(set?_eq_some_iff hs).mpr ⟨hd, hid, hdx.trans hx⟩]
  exact (find?_key_eq_some_iff hs.sets.nodup).mpr ⟨hd, hid⟩

/-! ## What becomes of a part -/

/-- The target that is found after a row has been appended. -/
theorem target?_append (s : Store) (t : Target) (x c : String) :
    { s with targets := s.targets ++ [t] }.target? x c =
      (s.target? x c).or (if t.key = (x, c) then some t else none) := by
  rw [target?, List.find?_append, target?]
  congr 1
  by_cases h : t.key = (x, c) <;> simp [h]

/-- The target that is found after a row has been deleted. -/
theorem target?_filter (s : Store) (k : String × String) (x c : String) :
    { s with targets := s.targets.filter fun t => t.key != k }.target? x c =
      if k = (x, c) then none else s.target? x c := by
  rw [target?, List.find?_filter]
  split
  · rename_i hk
    rw [List.find?_eq_none]
    intro t _
    simp [hk]
  · rename_i hk
    rw [target?]
    congr 1
    funext t
    by_cases ht : t.key = (x, c)
    · simp [ht, Ne.symm hk]
    · simp [ht]

/-- Replacing the row of a distribution set replaces it in the part of its tenant. -/
theorem setsOf_putSet {d : DistributionSet}
    (hd : ∀ u ∈ s.sets, u.id = d.id → u.tenantId = d.tenantId) :
    ((s.putSet d).partOf x).sets = (s.partOf x).sets.map fun u => if u.id = d.id then d else u := by
  refine filter_map_of_keeps fun u hu => ?_
  by_cases h : u.id = d.id
  · rw [if_pos h, hd u hu h]
  · rw [if_neg h]

/-- A change writes to each part what is the part's. -/
theorem partOf_written (s : Store) (ctx : Context) (now : Instant) (change : TargetChange)
    (x : String) :
    (s.written ctx now change).partOf x =
      { target := fun d => ((s.partOf x).target d).map (change.writeTarget ctx now)
        sets := (s.partOf x).sets
        actions := (s.partOf x).actions.map (change.writeAction ctx now) ++
          (s.createdBy ctx now change).filter fun a => a.tenantId == x
        log := (s.partOf x).log ++ (s.entriesBy ctx change).filter fun e => e.tenantId == x } := by
  refine Part.ext ?_ rfl ?_ ?_
  · funext d
    exact target?_written
  · show ((s.actions.map (change.writeAction ctx now)) ++ _).filter _ = _
    rw [List.filter_append, filter_map_of_keeps]
    · rfl
    · intro a _
      have howner : (change.writeAction ctx now a).owner = a.owner := by simp
      rw [(Prod.mk.inj howner).1]
  · exact List.filter_append ..

/-! ## Requests leave the parts of other tenants alone -/

theorem sets_perform_of_ne (hs : s.Consistent) (hne : ctx.tenantId ≠ y) (now : Instant)
    (r : Request) : ((s.perform ctx now r).2.partOf y).sets = (s.partOf y).sets := by
  have heffect := perform_sets hs ctx now r
  generalize (s.perform ctx now r).2 = s' at heffect ⊢
  -- the row that is replaced is not in the part
  have hput {i : Int} {d d' : DistributionSet} (hd : s.set? ctx.tenantId i = some d)
      (hid : d'.id = d.id) (hx : d'.tenantId = d.tenantId) :
      ((s.putSet d').partOf y).sets = (s.partOf y).sets := by
    obtain ⟨hmem, -, hdx⟩ := (set?_eq_some_iff hs).mp hd
    have hrow : ∀ u ∈ s.sets, u.id = d'.id → u.tenantId = d'.tenantId := by
      intro u hu hui
      rw [hs.sets.eq_of_id_eq hu hmem (hui.trans hid), hx]
    rw [setsOf_putSet hrow]
    conv_rhs => rw [← List.map_id (s.partOf y).sets]
    apply List.map_congr_left
    intro u hu
    obtain ⟨hu, huy⟩ := List.mem_filter.mp hu
    refine if_neg fun hui => hne ?_
    rw [← hdx, ← hx, ← hrow u hu hui]
    exact beq_iff_eq.mp huy
  cases heffect with
  | keep hsets _ => rw [partOf, hsets, partOf]
  | create n _ => simp [partOf, NewDistributionSet.row, hne]
  | refill modules hd _ _ => exact hput hd rfl rfl
  | mark hd _ => exact hput hd rfl rfl
  | @drop i d hd _ =>
    obtain ⟨hmem, hid, hdx⟩ := (set?_eq_some_iff hs).mp hd
    simp only [partOf, List.filter_filter]
    apply List.filter_congr
    intro u hu
    by_cases hui : u.id = i
    · rw [hs.sets.eq_of_id_eq hu hmem (hui.trans hid.symm)]
      simp [hdx, hne]
    · simp [hui]

/-- A commit stays within the part of its tenant. -/
theorem partOf_written_of_ne (hs : s.Consistent) (hne : ctx.tenantId ≠ y) {change : TargetChange}
    (hacc : s.Accepts ctx change) : (s.written ctx now change).partOf y = s.partOf y := by
  have hnew : (s.createdBy ctx now change).filter (fun a => a.tenantId == y) = [] := by
    simp only [List.filter_eq_nil_iff, createdBy, List.mem_mapIdx]
    rintro a ⟨i, hi, rfl⟩
    simp [NewAction.row, hne]
  have hentries : (s.entriesBy ctx change).filter (fun e => e.tenantId == y) = [] := by
    simp only [List.filter_eq_nil_iff, entriesBy, List.mem_mapIdx]
    rintro e ⟨i, hi, rfl⟩
    simp [NewStatusEntry.row, hne]
  have hkept : (s.partOf y).actions.map (change.writeAction ctx now) = (s.partOf y).actions := by
    conv_rhs => rw [← List.map_id (s.partOf y).actions]
    apply List.map_congr_left
    intro a ha
    obtain ⟨ha, hay⟩ := List.mem_filter.mp ha
    refine hacc.writeAction_of_ne hs ha fun howner => hne ?_
    exact (Prod.mk.inj howner).1.trans (beq_iff_eq.mp hay)
  refine Part.ext ?_ rfl ?_ ?_
  · funext d
    exact target?_written_of_ne fun hkey => hne (Prod.mk.inj hkey).1
  · rw [partOf_written, hnew, hkept, List.append_nil]
  · rw [partOf_written, hentries, List.append_nil]

theorem partOf_commitAll_of_ne (hs : s.Consistent) (hne : ctx.tenantId ≠ y) (now : Instant)
    (cs : List TargetChange) : (s.commitAll ctx now cs).2.partOf y = s.partOf y := by
  induction cs generalizing s with
  | nil => rfl
  | cons change cs ih =>
    rw [commitAll, ih (hs.commit ctx now change)]
    rcases commit_cases hs ctx now change with ⟨k, hacc, hcommit, -⟩ | ⟨e, -, hcommit⟩
    · rw [hcommit]
      exact partOf_written_of_ne hs hne hacc
    · rw [hcommit]

/-- Only logs of its own tenant go with a target. -/
theorem partOf_deleteTarget_of_ne (hs : s.Consistent) (hne : ctx.tenantId ≠ y) (d : String) :
    (s.deleteTarget ctx d).2.partOf y = s.partOf y := by
  have htarget : ∀ c, (s.deleteTarget ctx d).2.target? y c = s.target? y c := fun c =>
    (SameAt.deleteTarget hs fun hkey => hne (Prod.mk.inj hkey).1).target
  refine Part.ext (funext htarget) ?_ ?_ ?_
  · rw [partOf, (sets_deleteTarget s ctx d).1, partOf]
  · unfold deleteTarget
    split
    · rfl
    · simp only [partOf, List.filter_filter]
      apply List.filter_congr
      intro a _
      by_cases hay : a.tenantId = y
      · simp [hay, Ne.symm hne]
      · simp [hay]
  · unfold deleteTarget
    split
    · rfl
    · simp only [partOf, List.filter_filter]
      apply List.filter_congr
      intro e he
      by_cases hey : e.tenantId = y
      · -- the action of the entry is of this tenant, so it stays
        obtain ⟨a, ha, hid, hax⟩ := hs.entry e he
        suffices hkept : (s.actionsOf ctx.tenantId d).any (fun b => b.id == e.actionId) = false by
          simp [hey, hkept]
        rw [List.any_eq_false]
        intro b hb hbid
        obtain ⟨hb, howner⟩ := mem_actionsOf.mp hb
        obtain rfl : b = a := hs.actions.eq_of_id_eq hb ha ((beq_iff_eq.mp hbid).trans hid.symm)
        exact hne ((Prod.mk.inj howner).1.symm.trans (hax.trans hey))
      · simp [hey]

/-- Whatever a tenant asks for, the parts of all others stay as they are. -/
theorem partOf_perform_of_ne (hs : s.Consistent) (hne : ctx.tenantId ≠ y) (now : Instant)
    (r : Request) : (s.perform ctx now r).2.partOf y = s.partOf y := by
  have htarget : ∀ c, (s.perform ctx now r).2.target? y c = s.target? y c := fun c =>
    (SameAt.perform hs fun hr => hne (Request.tenantId_of_concerns hr)).target
  have hsets := sets_perform_of_ne hs hne now r
  suffices hrows : ((s.perform ctx now r).2.partOf y).actions = (s.partOf y).actions ∧
      ((s.perform ctx now r).2.partOf y).log = (s.partOf y).log from
    Part.ext (funext htarget) hsets hrows.1 hrows.2
  clear htarget hsets
  have heffect := s.perform_effect ctx now r
  generalize (s.perform ctx now r).2 = s' at heffect ⊢
  have hchange (d : String) (f : Target → Target) :
      ((s.changeTarget ctx d f).2.partOf y).actions = (s.partOf y).actions ∧
        ((s.changeTarget ctx d f).2.partOf y).log = (s.partOf y).log := by
    unfold changeTarget
    split <;> exact ⟨rfl, rfl⟩
  cases heffect with
  | none => exact ⟨rfl, rfl⟩
  | register hok =>
    obtain ⟨-, -, -, rfl⟩ := createTarget_eq_ok_iff.mp hok
    exact ⟨rfl, rfl⟩
  | describe d _ => exact hchange d _
  | contact d _ => exact hchange d _
  | delete d => rw [partOf_deleteTarget_of_ne hs hne]; exact ⟨rfl, rfl⟩
  | sets sets last => exact ⟨rfl, rfl⟩
  | commit cs => rw [partOf_commitAll_of_ne hs hne]; exact ⟨rfl, rfl⟩

/-- Nothing is stored without a tenant, since the store refuses whatever comes without one. -/
theorem Reachable.tenantId_ne (hs : s.Reachable) {a : Action} (ha : a ∈ s.actions) :
    a.tenantId ≠ "" := by
  intro hx
  obtain ⟨ops, rfl⟩ := hs
  have hpart : (empty.afterAll ops).Consistent ∧
      (empty.afterAll ops).partOf "" = empty.partOf "" := by
    refine afterAll_induction (P := fun s => s.Consistent ∧ s.partOf "" = empty.partOf "")
      ⟨.empty, rfl⟩ fun o _ s hs => ⟨hs.1.after o, Eq.trans ?_ hs.2⟩
    by_cases htenant : o.ctx.tenantId = ""
    · rw [Store.after, perform, if_pos htenant]
    · exact partOf_perform_of_ne hs.1 htenant o.now o.request
  have hmem : a ∈ ((empty.afterAll ops).partOf "").actions :=
    List.mem_filter.mpr ⟨ha, beq_iff_eq.mpr hx⟩
  rw [hpart.2] at hmem
  cases hmem

/-! ## Requests see the part of their tenant only -/

namespace Agree

variable (h : Agree ctx.tenantId s s') (hs : s.Consistent) (hs' : s'.Consistent)

theorem refl (s : Store) : Agree x s s := ⟨rfl, rfl, rfl, rfl⟩

section Lookups

include h

theorem target?_eq (d : String) : s'.target? ctx.tenantId d = s.target? ctx.tenantId d :=
  congrFun (congrArg Part.target h.part) d

theorem actionsOf_eq (d : String) : s'.actionsOf ctx.tenantId d = s.actionsOf ctx.tenantId d := by
  rw [actionsOf_eq_filter, actionsOf_eq_filter, h.part]

theorem activeOf_eq (d : String) : s'.activeOf ctx.tenantId d = s.activeOf ctx.tenantId d := by
  rw [activeOf, h.actionsOf_eq, activeOf]

theorem activeOfAll_eq (ids : List String) :
    s'.activeOfAll ctx.tenantId ids = s.activeOfAll ctx.tenantId ids := by
  rw [activeOfAll_eq_filter, activeOfAll_eq_filter, h.part]

theorem countsOf_eq (ids : List String) :
    s'.countsOf ctx.tenantId ids = s.countsOf ctx.tenantId ids := by
  simp only [countsOf, h.actionsOf_eq]

theorem lastEnded_eq (d : String) :
    s'.lastEnded ctx.tenantId d = s.lastEnded ctx.tenantId d := by
  rw [lastEnded, h.actionsOf_eq, lastEnded]

/-- The actions of the tenant are in both stores. -/
theorem mem_actions {a : Action} (ha : a ∈ s.actions) (hx : a.tenantId = ctx.tenantId) :
    a ∈ s'.actions := by
  have hmem : a ∈ (s'.partOf ctx.tenantId).actions := by
    rw [h.part]
    exact List.mem_filter.mpr ⟨ha, beq_iff_eq.mpr hx⟩
  exact (List.mem_filter.mp hmem).1

include hs hs'

theorem set?_eq (i : Int) : s'.set? ctx.tenantId i = s.set? ctx.tenantId i := by
  rw [set?_eq_find? hs', set?_eq_find? hs, h.part]

theorem action?_eq (i : Int) : s'.action? ctx.tenantId i = s.action? ctx.tenantId i := by
  rw [action?_eq_find? hs', action?_eq_find? hs, h.part]

theorem logOf_eq {a : Action} (ha : a ∈ s.actions) (hx : a.tenantId = ctx.tenantId) :
    s'.logOf a.id = s.logOf a.id := by
  rw [logOf_eq_filter hs' (h.mem_actions ha hx) hx, logOf_eq_filter hs ha hx, h.part]

theorem findLog_eq (i : Int) : s'.findLog ctx.tenantId i = s.findLog ctx.tenantId i := by
  rw [findLog, h.action?_eq hs hs', findLog]
  cases ha : s.action? ctx.tenantId i with
  | none => rfl
  | some a =>
    obtain ⟨hmem, rfl, hx⟩ := (action?_eq_some_iff hs).mp ha
    exact h.logOf_eq hs hs' hmem hx

theorem summarize_eq {a : Action} (ha : a ∈ s.actions) (hx : a.tenantId = ctx.tenantId) :
    s'.summarize a = s.summarize a := by
  have hset : s'.setById? a.setId = s.setById? a.setId := by
    rw [setById?_setId hs' (h.mem_actions ha hx) hx, h.set?_eq hs hs',
      setById?_setId hs ha hx]
  rw [summarize, hset, h.logOf_eq hs hs' ha hx, summarize]

theorem isReferenced_eq {i : Int} {d : DistributionSet} (hd : s.set? ctx.tenantId i = some d) :
    s'.isReferenced i = s.isReferenced i := by
  have hd' : s'.set? ctx.tenantId i = some d := (h.set?_eq hs hs' i).trans hd
  rw [isReferenced_eq_any hs' hd', isReferenced_eq_any hs hd, h.part]

end Lookups

end Agree

end Store

end FleetUpdate
