import FleetUpdate.Proofs.Deployment.Chronicled
import FleetUpdate.Proofs.Deployment.Immediate
import FleetUpdate.Proofs.Store.LastEnded

/-!
# Actions end in the order of their ids

In the immediate mode a target has one active action at a time, and a new one has a greater id than
all actions before.  So the endings on record ascend by the ids of the actions, whatever the clock
does (`Store.Ascends`).
-/

namespace FleetUpdate

theorem Call.isImmediate_dated (call : Call) (h : call.IsImmediate) (readings : List Instant) :
    (call.dated readings).IsImmediate := by
  cases call with
  | act i what =>
    cases what with
    | report r => trivial
    | _ => exact h
  | _ => exact h

namespace Store

variable {s s' : Store} {x c : String} {es : List Ending} {ctx : Context} {now : Instant}
  {call : Call} {change : TargetChange} {tr : Transition} {v : TargetView} {t : Target}

/-! ## Requests without commits -/

/-- A target that is deleted has nothing to be settled. -/
theorem Settled.deleteTarget (hs : s.Consistent) (h : s.Settled x c) {d : String} :
    (s.deleteTarget ctx d).2.Settled x c := by
  by_cases hd : (ctx.tenantId, d) = (x, c)
  · obtain ⟨rfl, rfl⟩ := Prod.mk.inj hd
    have hgone := s.target?_deleteTarget ctx d
    have hnone : (s.deleteTarget ctx d).2.activeOf ctx.tenantId d = [] := by
      rw [activeOf, actionsOf_eq_nil (hs.deleteTarget ctx) hgone, List.filter_nil]
    refine ⟨?_, ?_, ?_⟩
    · rw [hnone]
      exact Nat.zero_le 1
    · intro t a ht
      cases hgone.symm.trans ht
    · intro t ht
      cases hgone.symm.trans ht
  · exact h.of_same (.deleteTarget hs hd)

theorem Settled.client (hs : s.Consistent) (h : s.Settled x c) {o : Op}
    (ho : o.request.CommitsNothing) : (s.after o).Settled x c := by
  by_cases hquiet : o.request.IsQuiet
  · exact h.quiet hs hquiet
  · obtain ⟨ctx, now, q⟩ := o
    cases q with
    | deleteTarget d =>
      unfold Store.after perform
      split
      · exact h
      · exact h.deleteTarget hs
    | applyChanges cs => exact ho.elim
    | _ => exact absurd trivial hquiet

/-! ## Endings that ascend -/

/-- The actions on record are stored and have ended, in the order of their ids; those that are still
active have greater ids, and there is one at most. -/
structure Ascends (s : Store) (x c : String) (es : List Ending) : Prop where
  settled : s.Settled x c
  stored : ∀ e ∈ es, e.action ∈ s.actionsOf x c ∧ e.action.active = false
  sorted : es.Pairwise fun e e' => e.action.id < e'.action.id
  below : ∀ e ∈ es, ∀ a ∈ s.activeOf x c, e.action.id < a.id

/-- The one that ended last has the greatest id, so none outranks it. -/
theorem Ascends.not_outranks (h : s.Ascends x c es) {a last : Action} : ¬ Outranks es a last := by
  intro houtranks
  obtain ⟨e, hlast, rfl⟩ := Option.map_eq_some_iff.mp houtranks.getLast?
  obtain ⟨before, rfl⟩ := List.getLast?_eq_some_iff.mp hlast
  obtain ⟨e', he', rfl⟩ := List.mem_map.mp houtranks.mem
  have hlt := houtranks.lt
  rcases List.mem_append.mp he' with he' | he'
  · have hgt := (List.pairwise_append.mp h.sorted).2.2 e' he' e (List.mem_singleton_self e)
    omega
  · rw [List.mem_singleton.mp he'] at hlt
    exact absurd hlt (Int.lt_irrefl _)

theorem Ascends.of_same (h : s.Ascends x c es) (hsame : SameAt x c s s') : s'.Ascends x c es := by
  refine ⟨h.settled.of_same hsame, ?_, h.sorted, ?_⟩
  · rw [hsame.actionsOf_eq]
    exact h.stored
  · rw [hsame.activeOf_eq]
    exact h.below

theorem Ascends.of_gone (h : s.Settled x c) : s.Ascends x c [] :=
  ⟨h, by simp, .nil, by simp⟩

/-- The commit of an immediate call. -/
theorem Ascends.written (hs : s.Consistent) (h : s.Ascends ctx.tenantId change.controllerId es)
    (hcall : call.IsImmediate) (hacc : s.Accepts ctx change)
    (hcommit : s.PlannedCommit ctx now call change tr v t) (success : Option Instant) :
    (s.written ctx now change).Ascends ctx.tenantId change.controllerId
      (es ++ (s.endedIn (s.written ctx now change) ctx.tenantId change.controllerId).map
        fun a => ⟨a, success⟩) := by
  have hs' := hs.written hacc now
  have hended (b : Action) :
      b ∈ (s.written ctx now change).actionsOf ctx.tenantId change.controllerId ∧ b.active = false ↔
        (b ∈ s.actionsOf ctx.tenantId change.controllerId ∧ b.active = false) ∨
          b ∈ s.endedIn (s.written ctx now change) ctx.tenantId change.controllerId :=
    mem_ended_written hs hcommit.updates
  refine ⟨h.settled.of_plannedCommit hs hcall hcommit, fun e he => ?_, ?_, fun e he b hb => ?_⟩
  · rcases List.mem_append.mp he with he | he
    · exact (hended e.action).mpr (.inl (h.stored e he))
    · obtain ⟨a, ha, rfl⟩ := List.mem_map.mp he
      exact (hended a).mpr (.inr ha)
  · refine List.pairwise_append.mpr ⟨h.sorted, ?_, fun e he e' he' => ?_⟩
    · exact List.pairwise_map.mpr ((actionsOf_ascending hs').filter _)
    · obtain ⟨a', ha', rfl⟩ := List.mem_map.mp he'
      obtain ⟨a, ha, rfl, -⟩ := (mem_endedIn_written hs).mp ha'
      rw [TargetChange.writeAction_id]
      exact h.below e he a ha
  · have hle : e.action.id ≤ s.lastActionId := by
      rcases List.mem_append.mp he with he | he
      · exact hs.actions.le_last _ (mem_actionsOf.mp (h.stored e he).1).1
      · obtain ⟨a', ha', rfl⟩ := List.mem_map.mp he
        obtain ⟨a, ha, rfl, -⟩ := (mem_endedIn_written hs).mp ha'
        rw [TargetChange.writeAction_id]
        exact hs.actions.le_last a (mem_actionsOf.mp (mem_activeOf.mp ha).1).1
    rw [hcommit.activeAfter, hcommit.active, List.mem_append, List.mem_filter] at hb
    rcases hb with ⟨hold, hactive⟩ | hnew
    · obtain ⟨a, ha, rfl⟩ := List.mem_map.mp hold
      rw [TargetChange.writeAction_id]
      rcases List.mem_append.mp he with he | he
      · exact h.below e he a ha
      · -- the only active action has either ended or gone on
        obtain ⟨a', ha', rfl⟩ := List.mem_map.mp he
        obtain ⟨b, hb, rfl, hinactive⟩ := (mem_endedIn_written hs).mp ha'
        have hsame : b = a := by
          have hsingle := h.settled.activeOf_eq ha
          rw [hsingle, List.mem_singleton] at hb
          exact hb
        rw [hsame, hactive] at hinactive
        cases hinactive
    · have hlt := createdBy_id hnew
      omega

theorem Ascends.client (hs : s.Consistent) {h : Chronicle} (ha : s.Ascends x c (h x c)) {o : Op}
    (ho : o.request.CommitsNothing) (success : Option Instant) :
    (s.after o).Ascends x c (h.after success s o x c) := by
  have hsettled := ha.settled.client hs ho
  rw [Chronicle.after_of_commitsNothing ho]
  split
  · exact .of_gone hsettled
  · rename_i hthere
    by_cases hquiet : o.request.IsQuiet
    · have hsame : (s.after o).actionsOf x c = s.actionsOf x c := by
        rw [actionsOf, actions_of_quiet s hquiet, actionsOf]
      refine ⟨hsettled, ?_, ha.sorted, ?_⟩
      · rw [hsame]
        exact ha.stored
      · rw [activeOf, hsame]
        exact ha.below
    · obtain ⟨ctx, now, q⟩ := o
      cases q with
      | deleteTarget d =>
        unfold Store.after perform at hthere ⊢
        split
        · exact ha
        · rename_i hx
          by_cases hd : (ctx.tenantId, d) = (x, c)
          · obtain ⟨rfl, rfl⟩ := Prod.mk.inj hd
            rw [if_neg hx] at hthere
            exact absurd (Option.isNone_iff_eq_none.mpr (s.target?_deleteTarget ctx d)) hthere
          · exact ha.of_same (.deleteTarget hs hd)
      | applyChanges cs => exact ho.elim
      | _ => exact absurd trivial hquiet

/-- Immediate calls keep the endings ascending. -/
theorem ascends_kept (hcall : call.IsImmediate) : KeptWith call Ascends where
  same := fun _ h hsame => h.of_same hsame
  gone := fun _ h _ => .of_gone h.settled
  client := fun hs ho h => h.client hs ho _
  commit := fun hs hread hacc h => by
    obtain ⟨t, hcommit, -⟩ := hread.commit_of_accepts hs _ hacc
    exact h.written hs hcall hacc hcommit _

end Store

end FleetUpdate
