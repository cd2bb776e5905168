import FleetUpdate.Proofs.Store.Frame

/-!
# The standing of a target

What commits write of a target, its assignment, its installation, its revision and its history, is
its standing (`Store.standing?`).  A target that is registered starts afresh
(`standing?_createTarget`), and whatever else is changed in its row, its standing stays
(`standing?_changeTarget`).  Of a request for several changes, the one for the target that is accepted
last leaves the target as it has written it (`commitAll_at`).
-/

namespace FleetUpdate

/-- What commits write of a target. -/
structure Standing where
  assigned : Option Int
  installed : Option Int
  installedAt : Option Instant
  revision : Int
  history : List (Action × List StatusEntry)

/-- The standing of a target that has just been registered. -/
def Standing.fresh : Standing := ⟨none, none, none, 1, []⟩

namespace Store

/-- The standing of a target, if it is stored. -/
def standing? (s : Store) (x c : String) : Option Standing :=
  (s.target? x c).map fun t =>
    ⟨t.assigned, t.installed, t.installedAt, t.revision, s.historyOf x c⟩

variable {s s' : Store} {x c : String} {ctx : Context} {now : Instant}

theorem SameAt.standing?_eq (h : SameAt x c s s') : s'.standing? x c = s.standing? x c := by
  rw [standing?, standing?, h.target, h.history]

/-- What a change to the row of a target means for the row of any target. -/
theorem target?_changeTarget_eq {d : String} {f : Target → Target} (hkey : ∀ t, (f t).key = t.key) :
    (s.changeTarget ctx d f).2.target? x c =
      (s.target? x c).map fun t => if (ctx.tenantId, d) = (x, c) then f t else t := by
  by_cases hd : (ctx.tenantId, d) = (x, c)
  · obtain ⟨rfl, rfl⟩ := Prod.mk.inj hd
    unfold Store.changeTarget
    split
    · rename_i hnone
      rw [hnone]
      rfl
    · rename_i t ht
      rw [target?_putTarget, ht, Option.map_some, Option.map_some, if_pos (hkey t).symm, if_pos rfl]
  · rw [(SameAt.changeTarget hd hkey).target]
    simp only [if_neg hd, Option.map_id']

/-- A row that is changed but for what commits write keeps its standing. -/
theorem standing?_changeTarget {d : String} {f : Target → Target} (hkey : ∀ t, (f t).key = t.key)
    (hf : ∀ t, (f t).assigned = t.assigned ∧ (f t).installed = t.installed ∧
      (f t).installedAt = t.installedAt ∧ (f t).revision = t.revision) :
    (s.changeTarget ctx d f).2.standing? x c = s.standing? x c := by
  have hhistory : (s.changeTarget ctx d f).2.historyOf x c = s.historyOf x c := by
    unfold Store.changeTarget
    split <;> rfl
  rw [standing?, standing?, target?_changeTarget_eq hkey, hhistory, Option.map_map]
  congr 1
  funext t
  obtain ⟨hassigned, hinstalled, hdate, hrevision⟩ := hf t
  by_cases hd : (ctx.tenantId, d) = (x, c)
  · simp only [Function.comp_apply, if_pos hd, hassigned, hinstalled, hdate, hrevision]
  · simp only [Function.comp_apply, if_neg hd]

/-- A target that is registered has a fresh standing. -/
theorem standing?_createTarget (hs : s.Consistent) {n : NewTarget} {t : Target}
    (hok : s.createTarget ctx now n = .ok (t, s')) (hs' : s'.Consistent) :
    s'.standing? ctx.tenantId n.controllerId = some .fresh := by
  obtain ⟨-, hfree, -, rfl⟩ := createTarget_eq_ok_iff.mp hok
  have hrow : n.row ctx now ∈ s.targets ++ [n.row ctx now] :=
    List.mem_append_right _ (List.mem_singleton_self _)
  have hhistory : s.historyOf ctx.tenantId n.controllerId = [] := by
    rw [historyOf, actionsOf_eq_nil hs hfree, List.map_nil]
  have hkey : (n.row ctx now).key = (ctx.tenantId, n.controllerId) := rfl
  rw [standing?, (target?_eq_some_iff hs').mpr ⟨hrow, hkey⟩, Option.map_some]
  show some (Standing.mk none none none 1 (s.historyOf ctx.tenantId n.controllerId)) = _
  rw [hhistory]
  rfl

/-- Of several changes, the last one for a target that is accepted leaves the target as it has
written it; without any, the target is as it was. -/
theorem commitAll_at (hs : s.Consistent) (ctx : Context) (now : Instant) (x c : String)
    (cs : List TargetChange) : SameAt x c s (s.commitAll ctx now cs).2 ∨
      ∃ before change after, cs = before ++ change :: after ∧
        (ctx.tenantId, change.controllerId) = (x, c) ∧
        (s.commitAll ctx now before).2.Accepts ctx change ∧
        SameAt x c ((s.commitAll ctx now before).2.written ctx now change)
          (s.commitAll ctx now cs).2 := by
  induction cs generalizing s with
  | nil => exact .inl (.refl s)
  | cons change cs ih =>
    rcases ih (hs.commit ctx now change) with hsame | ⟨before, last, after, rfl, hrest⟩
    · rcases commit_cases hs ctx now change with ⟨k, hacc, hcommit, -⟩ | ⟨e, -, hcommit⟩
      · simp only [commitAll, hcommit] at hsame ⊢
        by_cases hkey : (ctx.tenantId, change.controllerId) = (x, c)
        · exact .inr ⟨[], change, cs, rfl, hkey, hacc, hsame⟩
        · exact .inl ((SameAt.written hs hacc hkey).trans hsame)
      · simp only [commitAll, hcommit] at hsame ⊢
        exact .inl hsame
    · exact .inr ⟨change :: before, last, after, rfl, hrest⟩

end Store

end FleetUpdate
