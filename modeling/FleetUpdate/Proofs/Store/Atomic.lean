import FleetUpdate.Proofs.Store.Frame
import FleetUpdate.Proofs.Store.Run

/-!
# Changes are atomic

A request may ask for many changes, and each of them is an attempt of its own: it is checked against
what the changes before it have left, and then either written as a whole or refused without a trace.
What an accepted change writes stays with its target (`Store.besides`), and the checks cover every
way in which writing could fail, so a change that passes them is written.

Since nothing but the store is handed from one change to the next, a list of changes can be cut
anywhere and asked for in two requests of the same time.
-/

namespace FleetUpdate

namespace Store

variable {s s' s'' : Store} {ctx : Context} {now : Instant} {c : TargetChange}

/-! ## What a change leaves alone -/

/-- What a store holds besides one target: every other target, action and log entry, and all
distribution sets.  Of the counters it keeps the one of the distribution sets. -/
def besides (s : Store) (tenantId controllerId : String) : Store :=
  { s with
    targets := s.targets.filter fun t => t.key != (tenantId, controllerId)
    actions := s.actions.filter fun a => a.owner != (tenantId, controllerId)
    log := s.log.filter fun e => (s.actionsOf tenantId controllerId).all fun a => a.id != e.actionId
    lastActionId := 0
    lastEntryId := 0 }

/-- Mapping a list changes nothing of what is picked from it, if it keeps what is picked and picks
nothing more. -/
theorem filter_map_eq_filter {α : Type} {p : α → Bool} {f : α → α} {l : List α}
    (hp : ∀ a ∈ l, p (f a) = p a) (hf : ∀ a ∈ l, p a = true → f a = a) :
    (l.map f).filter p = l.filter p := by
  induction l with
  | nil => rfl
  | cons a l ih =>
    have hl : (l.map f).filter p = l.filter p :=
      ih (fun b hb => hp b (by simp [hb])) fun b hb => hf b (by simp [hb])
    rw [List.map_cons, List.filter_cons, List.filter_cons, hl, hp a (by simp)]
    by_cases ha : p a = true
    · rw [if_pos ha, if_pos ha, hf a (by simp) ha]
    · rw [if_neg ha, if_neg ha]

theorem targets_written_besides :
    ((s.written ctx now c).targets.filter fun t => t.key != (ctx.tenantId, c.controllerId)) =
      s.targets.filter fun t => t.key != (ctx.tenantId, c.controllerId) := by
  apply filter_map_eq_filter
  · intro t _
    simp
  · intro t _ ht
    exact if_neg (by simpa using ht)

theorem Accepts.actions_written_besides (hs : s.Consistent) (h : s.Accepts ctx c) :
    ((s.written ctx now c).actions.filter fun a => a.owner != (ctx.tenantId, c.controllerId)) =
      s.actions.filter fun a => a.owner != (ctx.tenantId, c.controllerId) := by
  show List.filter _ (s.actions.map (c.writeAction ctx now) ++ s.createdBy ctx now c) = _
  have hnew : (s.createdBy ctx now c).filter
      (fun a => a.owner != (ctx.tenantId, c.controllerId)) = [] := by
    simp only [List.filter_eq_nil_iff, createdBy, List.mem_mapIdx]
    rintro a ⟨i, hi, rfl⟩
    simp [NewAction.row, Action.owner]
  rw [List.filter_append, hnew, List.append_nil]
  apply filter_map_eq_filter
  · intro a _
    simp
  · intro a ha hne
    exact h.writeAction_of_ne hs ha (Ne.symm (by simpa using hne))

/-- The entries that an accepted change appends are for actions of its target. -/
theorem Accepts.owner_of_mem_entriesBy (h : s.Accepts ctx c) {e : StatusEntry}
    (he : e ∈ s.entriesBy ctx c) :
    ∃ a ∈ (s.written ctx now c).actionsOf ctx.tenantId c.controllerId, a.id = e.actionId := by
  rw [actionsOf_written]
  obtain ⟨i, hi, rfl⟩ := List.mem_mapIdx.mp he
  have haccepted := h.entries _ (List.getElem_mem hi)
  simp only [NewStatusEntry.row]
  cases haction : c.entries[i].action with
  | existing j =>
    rw [haction] at haccepted
    obtain ⟨a, ha, hid⟩ := haccepted
    exact ⟨_, List.mem_append_left _ (List.mem_map_of_mem ha), (c.writeAction_id a).trans hid⟩
  | created j =>
    rw [haction] at haccepted
    exact ⟨_, List.mem_append_right _ (List.mem_mapIdx.mpr ⟨j, haccepted, rfl⟩), rfl⟩

/-- An entry that was stored before is for an action of the target afterwards only if it was
before: the actions that a change creates get ids that no stored entry names. -/
theorem all_actionsOf_written_ne (hs : s.Consistent) {e : StatusEntry} (he : e ∈ s.log) :
    ((s.written ctx now c).actionsOf ctx.tenantId c.controllerId).all
        (fun a => a.id != e.actionId) =
      (s.actionsOf ctx.tenantId c.controllerId).all fun a => a.id != e.actionId := by
  have hnew : (s.createdBy ctx now c).all (fun a => a.id != e.actionId) = true := by
    simp only [List.all_eq_true, bne_iff_ne]
    intro a ha hid
    obtain ⟨b, hb, hbid, -⟩ := hs.entry e he
    have hle := hs.actions.le_last b hb
    have hlt := createdBy_id ha
    omega
  rw [actionsOf_written, List.all_append, hnew, Bool.and_true, List.all_map]
  simp [Function.comp_def]

theorem Accepts.log_written_besides (hs : s.Consistent) (h : s.Accepts ctx c) :
    ((s.written ctx now c).log.filter fun e =>
        ((s.written ctx now c).actionsOf ctx.tenantId c.controllerId).all
          fun a => a.id != e.actionId) =
      s.log.filter fun e =>
        (s.actionsOf ctx.tenantId c.controllerId).all fun a => a.id != e.actionId := by
  have hnew : (s.entriesBy ctx c).filter (fun e =>
      ((s.written ctx now c).actionsOf ctx.tenantId c.controllerId).all
        fun a => a.id != e.actionId) = [] := by
    simp only [List.filter_eq_nil_iff, List.all_eq_true, bne_iff_ne]
    intro e he hall
    obtain ⟨a, ha, hid⟩ := h.owner_of_mem_entriesBy he
    exact hall a ha hid
  show List.filter _ (s.log ++ s.entriesBy ctx c) = _
  rw [List.filter_append, hnew, List.append_nil]
  exact List.filter_congr fun e he => all_actionsOf_written_ne hs he

/-- An accepted change writes to its own target only. -/
theorem Accepts.besides_written (hs : s.Consistent) (h : s.Accepts ctx c) :
    (s.written ctx now c).besides ctx.tenantId c.controllerId =
      s.besides ctx.tenantId c.controllerId := by
  simp only [besides, targets_written_besides, h.actions_written_besides hs,
    h.log_written_besides hs]
  rfl

/-- A change registers no target and deletes none. -/
theorem keys_written :
    (s.written ctx now c).targets.map Target.key = s.targets.map Target.key := by
  simp [written, List.map_map, Function.comp_def]

/-! ## One change -/

/-- A change that was applied at some time was one attempt, which could only fail in the checks. -/
structure Applied.IsAtomic (now : Instant) (p : Applied) : Prop where
  /-- A change that is refused has changed nothing. -/
  refused : ∀ e, p.outcome = .error e → p.after = p.before
  /-- A change is accepted if it passes the checks. -/
  accepted : (∃ k, p.outcome = .ok k) ↔ p.before.checkChange p.ctx p.change = .ok ()
  /-- Writing a change that passes the checks does not fail. -/
  writes : p.before.checkChange p.ctx p.change = .ok () →
    ∃ k, p.before.writeChange p.ctx now p.change = .ok (k, p.after)
  /-- A change that is accepted stays with its target. -/
  confined : ∀ k, p.outcome = .ok k →
    p.after.targets.map Target.key = p.before.targets.map Target.key ∧
    p.after.besides p.ctx.tenantId p.change.controllerId =
      p.before.besides p.ctx.tenantId p.change.controllerId

/-- A change that passes the checks is committed as it is written. -/
theorem writeChange_of_commit (hcheck : s.checkChange ctx c = .ok ()) {k : Committed}
    (h : s.commit ctx now c = (.ok k, s')) : s.writeChange ctx now c = .ok (k, s') := by
  rw [commit, hcheck] at h
  cases hwrite : s.writeChange ctx now c with
  | error e => simp [hwrite] at h
  | ok r => simpa [hwrite, Prod.ext_iff] using h

/-- The store applies every change in one step. -/
theorem applied_isAtomic (hs : s.Consistent) (ctx : Context) (now : Instant) (c : TargetChange) :
    Applied.IsAtomic now ⟨ctx, c, s, (s.commit ctx now c).1, (s.commit ctx now c).2⟩ := by
  rcases commit_cases hs ctx now c with ⟨k, hacc, hcommit, -⟩ | ⟨e, hcheck, hcommit⟩
  · have hcheck : s.checkChange ctx c = .ok () := (checkChange_eq_ok_iff hs).mpr hacc
    rw [hcommit]
    exact
      { refused := by simp
        accepted := by simp [hcheck]
        writes := fun _ => ⟨k, writeChange_of_commit hcheck hcommit⟩
        confined := fun _ _ => ⟨keys_written, hacc.besides_written hs⟩ }
  · rw [hcommit]
    exact
      { refused := fun _ _ => rfl
        accepted := by simp [hcheck]
        writes := by simp [hcheck]
        confined := by simp }

/-! ## A list of changes -/

/-- Changes that were applied one after the other, each to what the ones before it had left. -/
inductive AppliedInTurn (ctx : Context) (now : Instant) :
    Store → List TargetChange → List Applied → Store → Prop where
  | nil (s : Store) : AppliedInTurn ctx now s [] [] s
  | cons {p : Applied} {cs : List TargetChange} {ps : List Applied} {s' : Store}
      (ctx_eq : p.ctx = ctx) (atomic : p.IsAtomic now)
      (rest : AppliedInTurn ctx now p.after cs ps s') :
      AppliedInTurn ctx now p.before (p.change :: cs) (p :: ps) s'

/-- A request applies its changes in turn. -/
theorem appliedInTurn_appliedBy (hs : s.Consistent) (ctx : Context) (now : Instant)
    (cs : List TargetChange) :
    AppliedInTurn ctx now s cs (s.appliedBy ctx now cs) (s.commitAll ctx now cs).2 := by
  induction cs generalizing s with
  | nil => exact .nil s
  | cons c cs ih => exact .cons rfl (applied_isAtomic hs ctx now c) (ih (hs.commit ctx now c))

theorem commitAll_append (s : Store) (ctx : Context) (now : Instant) (cs ds : List TargetChange) :
    s.commitAll ctx now (cs ++ ds) =
      ((s.commitAll ctx now cs).1 ++ ((s.commitAll ctx now cs).2.commitAll ctx now ds).1,
        ((s.commitAll ctx now cs).2.commitAll ctx now ds).2) := by
  induction cs generalizing s with
  | nil => rfl
  | cons c cs ih => simp [commitAll, ih]

/-- A request of a tenant commits its changes. -/
theorem perform_applyChanges (hx : ctx.tenantId ≠ "") (s : Store) (now : Instant)
    (cs : List TargetChange) :
    s.perform ctx now (.applyChanges cs) =
      (.ok ((s.appliedBy ctx now cs).map Applied.outcome), (s.commitAll ctx now cs).2) := by
  have houtcomes : (s.commitAll ctx now cs).1 = (s.appliedBy ctx now cs).map Applied.outcome := by
    rw [commitAll_eq]
  rw [perform, if_neg hx, ← houtcomes]
  rfl

/-- Changes are answered one by one and in order: each is atomic, meets what the ones before it have
left, and if it is accepted it stays with its target.  Asking for more changes in a second request
of the same time makes no difference.  Without a tenant nothing is applied. -/
theorem applyChanges_atomic (hs : s.Reachable) (ctx : Context) (now : Instant)
    (cs ds : List TargetChange) :
    (ctx.tenantId = "" → s.perform ctx now (.applyChanges cs) = (.error .tenantRequired, s)) ∧
    (ctx.tenantId ≠ "" → ∃ ps qs s' s'',
      AppliedInTurn ctx now s cs ps s' ∧ AppliedInTurn ctx now s' ds qs s'' ∧
      s.perform ctx now (.applyChanges cs) = (.ok (ps.map Applied.outcome), s') ∧
      s'.perform ctx now (.applyChanges ds) = (.ok (qs.map Applied.outcome), s'') ∧
      s.perform ctx now (.applyChanges (cs ++ ds)) =
        (.ok (ps.map Applied.outcome ++ qs.map Applied.outcome), s'')) := by
  refine ⟨fun hx => if_pos hx, fun hx => ?_⟩
  have hcs := hs.consistent
  set s' := (s.commitAll ctx now cs).2 with hs'
  have hfirst := perform_applyChanges hx s now cs
  have hsecond := perform_applyChanges hx s' now ds
  refine ⟨s.appliedBy ctx now cs, s'.appliedBy ctx now ds, s', (s'.commitAll ctx now ds).2,
    appliedInTurn_appliedBy hcs ctx now cs,
    appliedInTurn_appliedBy (hcs.commitAll ctx now cs) ctx now ds, hfirst, hsecond, ?_⟩
  rw [perform, if_neg hx]
  show done (s.commitAll ctx now (cs ++ ds)) = _
  rw [commitAll_append, commitAll_eq s, commitAll_eq (((s.appliedBy ctx now cs).map _).getLastD s)]
  simp only [done, hs', commitAll_eq]

/-- Three changes of which the store refuses two: one that was planned before the first one was
committed, and one for a target that does not exist. -/
def sampleChanges : List TargetChange :=
  [sampleAssignment 1, sampleAssignment 2, { sampleAssignment 2 with controllerId := "unknown" }]

/-- Asked for in one request or in two, the changes meet the same stores. -/
theorem sample_changes_atomic :
    (sample.appliedBy sampleContext 2 sampleChanges).map (fun p => p.outcome.isOk) =
      [true, false, false] ∧
    ∃ ps qs s' s'',
      AppliedInTurn sampleContext 2 sample (sampleChanges.take 1) ps s' ∧
      AppliedInTurn sampleContext 2 s' (sampleChanges.drop 1) qs s'' ∧
      sample.perform sampleContext 2 (.applyChanges (sampleChanges.take 1)) =
        (.ok (ps.map Applied.outcome), s') ∧
      s'.perform sampleContext 2 (.applyChanges (sampleChanges.drop 1)) =
        (.ok (qs.map Applied.outcome), s'') ∧
      sample.perform sampleContext 2 (.applyChanges sampleChanges) =
        (.ok (ps.map Applied.outcome ++ qs.map Applied.outcome), s'') :=
  ⟨by decide +kernel,
    (applyChanges_atomic sample_reachable sampleContext 2 (sampleChanges.take 1)
      (sampleChanges.drop 1)).2 (by decide)⟩

end Store

end FleetUpdate
