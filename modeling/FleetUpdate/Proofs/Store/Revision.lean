import FleetUpdate.Proofs.Store.Frame
import FleetUpdate.Proofs.Store.Run

/-!
# What a revision vouches for

As long as a target is not deleted, its revision and those of its actions only grow, and while the
revision of the target stands still, so do its life cycle, its actions and their logs; of all that
requests can do to it, only its description and a first contact come without a new revision.
`AdvancesAt` says this of two moments.  So a change that is committed under a revision meets the
target as it was when that revision was read (`committed_change_meets_its_snapshot`).
-/

namespace FleetUpdate

/-- A target as it may look later at the same revision: its life cycle has rested, but for a first
contact. -/
structure Target.Rests (t t' : Target) : Prop where
  assigned : t'.assigned = t.assigned
  installed : t'.installed = t.installed
  installedAt : t'.installedAt = t.installedAt
  status : t'.updateStatus = t.updateStatus ∨
    t.updateStatus = .unknown ∧ t'.updateStatus = .registered

namespace Target.Rests

variable {t t' t'' : Target}

theorem refl (t : Target) : t.Rests t := ⟨rfl, rfl, rfl, .inl rfl⟩

theorem trans (h : t.Rests t') (h' : t'.Rests t'') : t.Rests t'' := by
  refine ⟨h'.assigned.trans h.assigned, h'.installed.trans h.installed,
    h'.installedAt.trans h.installedAt, ?_⟩
  rcases h.status with hst | ⟨hst, hst'⟩
  · rw [← hst]
    exact h'.status
  · rcases h'.status with hst'' | ⟨hst'', -⟩
    · exact .inr ⟨hst, hst''.trans hst'⟩
    · rw [hst'] at hst''
      cases hst''

end Target.Rests

namespace Store

/-- From one store to a later one, a target has not been deleted: its revision and those of its
actions have not fallen, and where a revision has not grown, nothing else has changed either. -/
structure AdvancesAt (x c : String) (s s' : Store) : Prop where
  target : ∀ t, s.target? x c = some t → ∃ t', s'.target? x c = some t' ∧
    t.revision ≤ t'.revision ∧
    (t'.revision = t.revision → t.Rests t' ∧ s'.historyOf x c = s.historyOf x c)
  action : ∀ a ∈ s.actionsOf x c, ∃ a' ∈ s'.actionsOf x c, a'.id = a.id ∧
    a.revision ≤ a'.revision ∧ (a'.revision = a.revision → a' = a)

variable {s s' s'' : Store} {x c : String} {ctx : Context} {now : Instant}

namespace AdvancesAt

theorem trans (h : AdvancesAt x c s s') (h' : AdvancesAt x c s' s'') : AdvancesAt x c s s'' := by
  refine ⟨?_, ?_⟩
  · intro t ht
    obtain ⟨t', ht', hle, hrest⟩ := h.target t ht
    obtain ⟨t'', ht'', hle', hrest'⟩ := h'.target t' ht'
    refine ⟨t'', ht'', Int.le_trans hle hle', fun heq => ?_⟩
    -- the revision has stood still on both stretches
    obtain ⟨hr, hh⟩ := hrest (by omega)
    obtain ⟨hr', hh'⟩ := hrest' (by omega)
    exact ⟨hr.trans hr', hh'.trans hh⟩
  · intro a ha
    obtain ⟨a', ha', hid, hle, hsame⟩ := h.action a ha
    obtain ⟨a'', ha'', hid', hle', hsame'⟩ := h'.action a' ha'
    refine ⟨a'', ha'', hid'.trans hid, Int.le_trans hle hle', fun heq => ?_⟩
    exact (hsame' (by omega)).trans (hsame (by omega))

/-- A target whose history is the same has advanced if its row has. -/
theorem of_history (hh : s'.historyOf x c = s.historyOf x c)
    (ht : ∀ t, s.target? x c = some t → ∃ t', s'.target? x c = some t' ∧
      t'.revision = t.revision ∧ t.Rests t') : AdvancesAt x c s s' := by
  refine ⟨?_, ?_⟩
  · intro t hst
    obtain ⟨t', ht', hrev, hrest⟩ := ht t hst
    exact ⟨t', ht', Int.le_of_eq hrev.symm, fun _ => ⟨hrest, hh⟩⟩
  · intro a ha
    exact ⟨a, (historyOf_eq_iff.mp hh).1 ▸ ha, rfl, Int.le_refl _, fun _ => rfl⟩

theorem of_same (h : SameAt x c s s') : AdvancesAt x c s s' :=
  of_history h.history fun t ht => ⟨t, h.target.trans ht, rfl, Target.Rests.refl t⟩

theorem refl (s : Store) : AdvancesAt x c s s := of_same (.refl s)

/-- A change of the row of a target that lets its life cycle rest. -/
theorem changeTarget {f : Target → Target} (hkey : ∀ t, (f t).key = t.key)
    (hrev : ∀ t, (f t).revision = t.revision) (hrest : ∀ t : Target, t.Rests (f t)) :
    AdvancesAt x c s (s.changeTarget ctx c f).2 := by
  by_cases hx : ctx.tenantId = x
  · subst hx
    unfold Store.changeTarget
    split
    · exact .refl s
    · rename_i u hu
      refine of_history rfl fun t ht => ⟨f t, ?_, hrev t, hrest t⟩
      obtain rfl : u = t := Option.some.inj (hu.symm.trans ht)
      rw [target?_putTarget, ht, Option.map_some, if_pos (hkey u).symm]
  · exact of_same (.changeTarget (fun h => hx (Prod.mk.inj h).1) hkey)

/-- Registering a target leaves those alone that are registered. -/
theorem createTarget {n : NewTarget} {t : Target} (hs : s.Consistent)
    (hok : s.createTarget ctx now n = .ok (t, s')) : AdvancesAt x c s s' := by
  by_cases h : (ctx.tenantId, n.controllerId) = (x, c)
  · obtain ⟨-, hfree, -, rfl⟩ := createTarget_eq_ok_iff.mp hok
    obtain ⟨rfl, rfl⟩ := Prod.mk.inj h
    have hnil := actionsOf_eq_nil hs hfree
    refine ⟨fun u hu => ?_, fun a ha => ?_⟩
    · rw [hfree] at hu
      cases hu
    · rw [hnil] at ha
      cases ha
  · exact of_same (.createTarget h hok)

/-- A committed change gives its target a new revision, and every action that it updates. -/
theorem written {change : TargetChange} (hs : s.Consistent) (hacc : s.Accepts ctx change) :
    AdvancesAt x c s (s.written ctx now change) := by
  by_cases h : (ctx.tenantId, change.controllerId) = (x, c)
  · obtain ⟨rfl, rfl⟩ := Prod.mk.inj h
    refine ⟨?_, ?_⟩
    · intro t ht
      have hkey : t.key = (ctx.tenantId, change.controllerId) := key_of_target? ht
      have hrev : (change.writeTarget ctx now t).revision = t.revision + 1 := by
        rw [TargetChange.writeTarget, if_pos hkey]
      refine ⟨change.writeTarget ctx now t, ?_, ?_, ?_⟩
      · rw [target?_written, ht, Option.map_some]
      · omega
      · intro heq
        omega
    · intro a ha
      refine ⟨change.writeAction ctx now a, ?_, by simp, ?_, ?_⟩
      · rw [actionsOf_written]
        exact List.mem_append_left _ (List.mem_map_of_mem ha)
      · by_cases hu : ∃ u ∈ change.actionUpdates, u.actionId = a.id
        · exact Int.le_of_lt (TargetChange.revision_lt_writeAction hu)
        · have hkept : change.writeAction ctx now a = a :=
            TargetChange.writeAction_of_forall_ne fun u hmem hid => hu ⟨u, hmem, hid⟩
          exact Int.le_of_eq (congrArg Action.revision hkept.symm)
      · intro heq
        apply TargetChange.writeAction_of_forall_ne
        intro u hu hid
        have hlt : a.revision < (change.writeAction ctx now a).revision :=
          TargetChange.revision_lt_writeAction ⟨u, hu, hid⟩
        omega
  · exact of_same (.written hs hacc h)

theorem commit (hs : s.Consistent) (change : TargetChange) :
    AdvancesAt x c s (s.commit ctx now change).2 := by
  rcases commit_cases hs ctx now change with ⟨k, hacc, hcommit, -⟩ | ⟨e, -, hcommit⟩
  · rw [hcommit]
    exact written hs hacc
  · rw [hcommit]
    exact .refl s

theorem tracks (x c : String) : Tracks (AdvancesAt x c) :=
  ⟨refl, trans, fun hs _ _ change => commit hs change⟩

/-- A target advances with every request that does not delete it. -/
theorem after (hs : s.Consistent) {o : Op} (ho : ¬ o.Deletes x c) : AdvancesAt x c s (s.after o) := by
  obtain ⟨ctx, now, r⟩ := o
  by_cases hconcerns : r.Concerns ctx x c
  · have heffect := s.perform_effect ctx now r
    show AdvancesAt x c s (s.perform ctx now r).2
    generalize (s.perform ctx now r).2 = s' at heffect ⊢
    cases heffect with
    | none => exact .refl s
    | register hok => exact createTarget hs hok
    | describe d desc =>
      obtain ⟨rfl, rfl⟩ := Prod.mk.inj hconcerns
      exact changeTarget (fun _ => rfl) (fun _ => rfl) fun _ => ⟨rfl, rfl, rfl, .inl rfl⟩
    | contact d time =>
      obtain ⟨rfl, rfl⟩ := Prod.mk.inj hconcerns
      refine changeTarget (fun _ => rfl) (fun _ => rfl) fun t => ⟨rfl, rfl, rfl, ?_⟩
      by_cases hst : t.updateStatus = .unknown <;> simp [hst]
    | delete d =>
      obtain ⟨hx, rfl⟩ := Prod.mk.inj hconcerns
      exact absurd ⟨hx, rfl⟩ ho
    | sets sets last => exact of_same (.of_tables rfl rfl rfl)
    | commit cs => exact (tracks x c).commitAll hs cs
  · exact of_same (.perform hs hconcerns)

/-- A target advances along every run that does not delete it. -/
theorem afterAll (hs : s.Consistent) {ops : List Op} (hops : ∀ o ∈ ops, ¬ o.Deletes x c) :
    AdvancesAt x c s (s.afterAll ops) :=
  (tracks x c).afterAll hs fun o ho _ hs => after hs (hops o ho)

end AdvancesAt

/-! ## Changes that were planned on one revision -/

namespace Applied

/-- A change for a target that was planned on one of its revisions. -/
def Proposes (p : Applied) (x c : String) (r : Int) : Prop :=
  p.ctx.tenantId = x ∧ p.change.controllerId = c ∧ p.change.expectedRevision = r

instance {p : Applied} {r : Int} : Decidable (p.Proposes x c r) :=
  inferInstanceAs (Decidable (_ ∧ _ ∧ _))

/-- A change was refused because somebody else was faster, and left no trace. -/
def Conflicted (p : Applied) : Prop :=
  (∃ e, p.outcome = .error e ∧ e.kind = .conflict) ∧ p.after = p.before

variable {p : Applied} {R : Store → Store → Prop}

/-- A change that was committed met the revision it names, and leaves the next one. -/
theorem Follows.revision_of_isOk {r : Int} (h : p.Follows R s) (hp : p.Proposes x c r)
    (hok : p.outcome.isOk = true) :
    (∃ t, p.before.target? x c = some t ∧ t.revision = r) ∧
      ∃ t, p.after.target? x c = some t ∧ t.revision = r + 1 := by
  obtain ⟨rfl, rfl, rfl⟩ := hp
  obtain ⟨now, hcommit⟩ := h.commit
  rcases commit_cases h.consistent p.ctx now p.change with ⟨k, hacc, hk, -⟩ | ⟨e, -, he⟩
  · obtain ⟨t, ht, hrev⟩ := hacc.target
    have hafter : p.after = p.before.written p.ctx now p.change :=
      (Prod.mk.inj (hcommit.symm.trans hk)).2
    refine ⟨⟨t, ht, hrev⟩, p.change.writeTarget p.ctx now t, ?_, ?_⟩
    · rw [hafter, target?_written, ht, Option.map_some]
    · rw [TargetChange.writeTarget, if_pos (key_of_target? ht), ← hrev]
  · have hout : p.outcome = .error e := (Prod.mk.inj (hcommit.symm.trans he)).1
    rw [hout] at hok
    cases hok

/-- A change that finds another revision than the one it names is refused for that. -/
theorem Follows.conflicted_of_revision_ne {r : Int} (h : p.Follows R s)
    (hp : p.Proposes x c r) {t : Target} (ht : p.before.target? x c = some t)
    (hne : t.revision ≠ r) : p.Conflicted := by
  obtain ⟨rfl, rfl, rfl⟩ := hp
  obtain ⟨now, hcommit⟩ := h.commit
  have hrefused := checkChange_of_revision_ne ht hne
  rw [Store.commit, hrefused] at hcommit
  obtain ⟨hout, hafter⟩ := Prod.mk.inj hcommit
  exact ⟨⟨_, hout.symm, rfl⟩, hafter.symm⟩

end Applied

/-- While a target is not deleted, a change that was planned on one of its revisions is committed
only if the target still is as it was then: what it should have and has, its update state but for a
first contact, its actions and their logs.  Of the changes planned on one revision at most one is
ever committed, and every one that is applied after it conflicts. -/
theorem committed_change_meets_its_snapshot (hs : s.Reachable) {t : Target}
    (ht : s.target? x c = some t) {ops : List Op} (hops : ∀ o ∈ ops, ¬ o.Deletes x c) :
    (∀ p ∈ s.applied ops, p.Proposes x c t.revision → p.outcome.isOk = true →
      (∃ t', p.before.target? x c = some t' ∧ t.Rests t') ∧
      p.before.actionsOf x c = s.actionsOf x c ∧
      ∀ a ∈ s.actionsOf x c, p.before.logOf a.id = s.logOf a.id) ∧
    ((s.applied ops).Pairwise fun p q => p.Proposes x c t.revision → p.outcome.isOk = true →
      q.Proposes x c t.revision → q.Conflicted) ∧
    (s.applied ops).countP (fun p => p.Proposes x c t.revision ∧ p.outcome.isOk) ≤ 1 := by
  obtain ⟨hfollows, hpairs⟩ :=
    (AdvancesAt.tracks x c).applied hs.consistent fun o ho _ hs => .after hs (hops o ho)
  have hconflict : (s.applied ops).Pairwise fun p q => p.Proposes x c t.revision →
      p.outcome.isOk = true → q.Proposes x c t.revision → q.Conflicted := by
    refine hpairs.imp_of_mem ?_
    intro p q hp _ hpq hprop hok hqprop
    obtain ⟨-, u, hu, hrev⟩ := (hfollows p hp).revision_of_isOk hprop hok
    obtain ⟨u', hu', hle, -⟩ := hpq.reached.target u hu
    exact hpq.conflicted_of_revision_ne hqprop hu' (by omega)
  refine ⟨?_, hconflict, ?_⟩
  · intro p hp hprop hok
    obtain ⟨⟨t', ht', hrev⟩, -⟩ := (hfollows p hp).revision_of_isOk hprop hok
    obtain ⟨t'', ht'', -, hrest⟩ := (hfollows p hp).reached.target t ht
    obtain rfl : t' = t'' := Option.some.inj (ht'.symm.trans ht'')
    obtain ⟨hrests, hhistory⟩ := hrest hrev
    obtain ⟨hactions, hlogs⟩ := historyOf_eq_iff.mp hhistory
    exact ⟨⟨t', ht', hrests⟩, hactions, hlogs⟩
  · rw [List.countP_eq_length_filter]
    have hpairs := hconflict.filter fun p => decide (p.Proposes x c t.revision ∧ p.outcome.isOk)
    have hmem (p : Applied) (hp : p ∈ (s.applied ops).filter fun p =>
        decide (p.Proposes x c t.revision ∧ p.outcome.isOk)) :
        p.Proposes x c t.revision ∧ p.outcome.isOk = true := by
      simpa using (List.mem_filter.mp hp).2
    generalize (s.applied ops).filter (fun p =>
      decide (p.Proposes x c t.revision ∧ p.outcome.isOk)) = committed at hpairs hmem ⊢
    rcases committed with _ | ⟨p, _ | ⟨q, rest⟩⟩
    · exact Nat.zero_le 1
    · exact Nat.le_refl 1
    · -- the second one has conflicted, so it was not committed
      obtain ⟨hprop, hok⟩ := hmem p List.mem_cons_self
      obtain ⟨hqprop, hqok⟩ := hmem q (List.mem_cons_of_mem p List.mem_cons_self)
      obtain ⟨⟨e, he, -⟩, -⟩ :=
        (List.pairwise_cons.mp hpairs).1 q List.mem_cons_self hprop hok hqprop
      rw [he] at hqok
      cases hqok

/-- Two assignments of different distribution sets to a device, both planned when it was registered,
and a contact of the device in between. -/
def rivals : List Op :=
  [⟨sampleContext, 2, .markContacted "device" 2⟩,
    ⟨sampleContext, 3, .applyChanges [sampleAssignment 1]⟩,
    ⟨sampleContext, 4, .applyChanges [sampleAssignment 2]⟩]

/-- Of the two, the first one is committed, and the other one conflicts. -/
theorem rivals_conflict :
    (sample.applied rivals).map (fun p => p.outcome.isOk) = [true, false] ∧
    ((sample.applied rivals).Pairwise fun p q => p.Proposes "acme" "device" 1 →
      p.outcome.isOk = true → q.Proposes "acme" "device" 1 → q.Conflicted) ∧
    (sample.applied rivals).countP (fun p => p.Proposes "acme" "device" 1 ∧ p.outcome.isOk) ≤ 1 :=
  ⟨by decide +kernel,
    (committed_change_meets_its_snapshot sample_reachable sample_target?
      (by simp [rivals, Op.Deletes])).2⟩

end Store

end FleetUpdate
