import FleetUpdate.Deployment.Assignment
import FleetUpdate.Proofs.Store.Rows

/-!
# What an assignment decides

A batch reads its targets together: their rows, their active actions, and how many actions they
have.  For each of the targets this is what the store holds of it (`find?_findTargets`,
`filter_activeOfAll`, `lookup_countsOf`).  The plans of a batch are those of the targets that are to
be changed, in their order (`sortDecisions_plans`).
-/

namespace FleetUpdate

/-! ## Batches -/

section Split

variable {α : Type}

theorem batches.go_flatten {n : Nat} (hn : 0 < n) {fuel : Nat} {as : List α}
    (h : as.length ≤ fuel) : (batches.go n fuel as).flatten = as := by
  induction fuel generalizing as with
  | zero =>
    rw [List.length_eq_zero_iff.mp (Nat.le_zero.mp h)]
    rfl
  | succ fuel ih =>
    cases as with
    | nil => rfl
    | cons a as =>
      have hrest : ((a :: as).drop n).length ≤ fuel := by
        rw [List.length_drop]
        omega
      rw [batches.go, List.flatten_cons, ih hrest, List.take_append_drop]

/-- Batches leave nothing out and keep the order. -/
theorem batches_flatten {n : Nat} (hn : 0 < n) (as : List α) : (batches n as).flatten = as :=
  batches.go_flatten hn (Nat.le_refl _)

/-- What occurs again is left out. -/
theorem nodup_eraseDups [BEq α] [LawfulBEq α] (as : List α) : as.eraseDups.Nodup := by
  cases as with
  | nil => simp
  | cons a as =>
    have hshorter : (as.filter fun b => !b == a).length < (a :: as).length :=
      Nat.lt_succ_of_le (List.length_filter_le _ as)
    rw [List.eraseDups_cons, List.nodup_cons]
    refine ⟨?_, nodup_eraseDups _⟩
    simp
termination_by as.length
decreasing_by exact hshorter

end Split

/-! ## Readings -/

section Read

variable {s : Store} {ctx : Context} {ids : List String} {x c : String}

/-- Among the rows of several targets, the one of a target that was asked for is found. -/
theorem find?_findTargets (hc : c ∈ ids) :
    ((s.findTargets ctx ids).reverse.find? fun t => t.controllerId == c) =
      s.target? ctx.tenantId c := by
  rw [Store.findTargets, ← List.filterMap_reverse]
  refine find?_filterMap_of_key (fun d t ht => ?_) (List.mem_reverse.mpr hc)
  exact (Prod.mk.inj (Store.key_of_target? ht)).2

/-- Among the active actions of several targets are those of each target that was asked for. -/
theorem filter_activeOfAll (hc : c ∈ ids) :
    (s.activeOfAll x ids).filter (fun a => a.controllerId == c) = s.activeOf x c := by
  rw [Store.activeOfAll, Store.activeOf, Store.actionsOf, List.filter_filter, List.filter_filter]
  apply List.filter_congr
  intro a _
  by_cases ha : a.controllerId = c
  · simp [ha, hc, Bool.and_comm]
  · have hne : (a.controllerId == c) = false := beq_eq_false_iff_ne.mpr ha
    simp [hne]

/-- A table that leaves out what is zero still tells how much there is. -/
theorem lookup_filterMap_nonzero {f : String → Nat} {ds : List String} (hc : c ∈ ds) :
    ((ds.filterMap fun d => if f d = 0 then none else some (d, f d)).lookup c).getD 0 = f c := by
  induction ds with
  | nil => cases hc
  | cons d ds ih =>
    by_cases hd : c = d
    · subst hd
      by_cases hzero : f c = 0
      · simp only [List.filterMap_cons, if_pos hzero]
        by_cases hrest : c ∈ ds
        · exact ih hrest
        · -- the target is not counted anywhere else
          rw [List.lookup_eq_none_iff.mpr, hzero]
          · rfl
          · intro q hq
            obtain ⟨e, he, heq⟩ := List.mem_filterMap.mp hq
            split at heq
            · cases heq
            · obtain rfl := Option.some.inj heq
              rw [bne_iff_ne]
              rintro rfl
              exact hrest he
      · simp only [List.filterMap_cons, if_neg hzero, List.lookup_cons_self]
        rfl
    · have hrest := ih ((List.mem_cons.mp hc).resolve_left hd)
      by_cases hzero : f d = 0
      · simp only [List.filterMap_cons, if_pos hzero]
        exact hrest
      · have hne : (c == d) = false := beq_eq_false_iff_ne.mpr hd
        simp only [List.filterMap_cons, if_neg hzero, List.lookup_cons, hne]
        exact hrest

/-- The number of actions of each target that was asked for is found. -/
theorem lookup_countsOf (hc : c ∈ ids) :
    ((s.countsOf x ids).lookup c).getD 0 = (s.actionsOf x c).length := by
  exact lookup_filterMap_nonzero (List.mem_eraseDups.mpr hc)

end Read

/-! ## Decisions -/

section Decide

variable {ctx : Context} {p : Policy} {r : AssignmentRequest} {b : BatchView} {now : Instant}
  {c : String}

/-- A target is changed by the plan that its row and its active actions lead to. -/
theorem decideTarget_eq_change {plan : Plan} (h : decideTarget ctx p r b now c = .change plan) :
    ∃ t, b.target? c = some t ∧ t.assigned ≠ some r.setId ∧
      plan = planAssignment (.ofActions t (b.activeOf c)) (r.newAction ctx) p.supersede now := by
  unfold decideTarget at h
  split at h
  · cases h
  · rename_i t ht
    split at h
    · cases h
    · rename_i hassigned
      split at h
      · cases h
      · exact ⟨t, ht, hassigned, (Decision.change.inj h).symm⟩

/-- A target that is changed has room for one more action. -/
theorem count_lt_of_decideTarget {plan : Plan} (h : decideTarget ctx p r b now c = .change plan)
    (hlimit : 0 < p.maxActions) : b.count c + 1 ≤ p.maxActions := by
  unfold decideTarget at h
  split at h
  · cases h
  · split at h
    · cases h
    · split at h
      · cases h
      · rename_i hroom
        exact Nat.le_of_not_lt fun hfull => hroom ⟨hlimit, hfull⟩

/-- The plans of a batch, in the order of its targets. -/
theorem sortDecisions_plans (ds : List (String × Decision)) (acc : AssignmentResult) :
    (sortDecisions ds acc).2 = ds.filterMap fun d =>
      match d.2 with
      | .change plan => some plan
      | _ => none := by
  induction ds generalizing acc with
  | nil => rfl
  | cons d ds ih =>
    obtain ⟨c, d⟩ := d
    cases d with
    | left f => exact ih _
    | already => exact ih _
    | change plan =>
      rw [sortDecisions, List.filterMap_cons]
      exact congrArg (plan :: ·) (ih acc)

end Decide

end FleetUpdate
