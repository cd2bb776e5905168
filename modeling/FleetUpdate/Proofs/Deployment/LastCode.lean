import FleetUpdate.Proofs.Deployment.Ended
import FleetUpdate.Proofs.Lifecycle.Logged

/-!
# The last code of an action

A device may add a code to what it reports of an action.  The row of the action has the last code, and
the log has all of them; the two are written apart, for a transition writes the code that the action
is to have, and the log keeps the report as it was made.  They agree all the same
(`World.last_code_is_logged`): a transition overwrites the code of its action just with the code that
it logs (`Transition.Turns.lastCode_eq`, `Transition.Turns.codes`), and an accepted change updates
actions that are as they were read, so that no code that has come in between is written over.

The log has codes from reports only.  What the management does to an action is logged without a code.
-/

namespace FleetUpdate

/-- The code of the latest entry of a log that has one. -/
def latestCode (log : List StatusEntry) : Option Int :=
  log.reverse.findSome? StatusEntry.code

@[simp] theorem latestCode_append {log added : List StatusEntry} :
    latestCode (log ++ added) = (latestCode added).or (latestCode log) := by
  simp [latestCode, List.findSome?_append]

theorem latestCode_eq_none_iff {log : List StatusEntry} :
    latestCode log = none ↔ ∀ e ∈ log, e.code = none := by
  simp [latestCode]

theorem latestCode_cons {e : StatusEntry} {log : List StatusEntry} :
    latestCode (e :: log) = (latestCode log).or e.code := by
  rw [← List.singleton_append, latestCode_append]
  cases hcode : e.code <;> simp [latestCode, hcode]

/-- The latest entry is the one that was numbered last. -/
theorem latestCode_eq_some_iff {log : List StatusEntry}
    (hlog : log.Pairwise fun e e' => e.id < e'.id) {c : Int} :
    latestCode log = some c ↔
      ∃ e ∈ log, e.code = some c ∧ ∀ e' ∈ log, e.id < e'.id → e'.code = none := by
  induction log with
  | nil => simp [latestCode]
  | cons first log ih =>
    obtain ⟨hfirst, hlog⟩ := List.pairwise_cons.mp hlog
    rw [latestCode_cons, Option.or_eq_some_iff, ih hlog, latestCode_eq_none_iff]
    constructor
    · rintro (⟨e, he, hcode, hlater⟩ | ⟨hnone, hcode⟩)
      · refine ⟨e, List.mem_cons_of_mem _ he, hcode, List.forall_mem_cons.mpr ⟨fun hlt => ?_, hlater⟩⟩
        have hlt' := hfirst e he
        omega
      · refine ⟨first, List.mem_cons_self, hcode, List.forall_mem_cons.mpr ⟨fun hlt => ?_, ?_⟩⟩
        · exact absurd hlt (Int.lt_irrefl _)
        · exact fun e' he' _ => hnone e' he'
    · rintro ⟨e, he, hcode, hlater⟩
      obtain ⟨-, hrest⟩ := List.forall_mem_cons.mp hlater
      rcases List.mem_cons.mp he with rfl | he
      · exact .inr ⟨fun e' he' => hrest e' he' (hfirst e' he'), hcode⟩
      · exact .inl ⟨e, he, hcode, hrest⟩

/-- The action has the code of the latest entry of a log that has one, and none if no entry has. -/
structure Action.HasLatestCode (a : Action) (log : List StatusEntry) : Prop where
  some : ∀ c, a.lastCode = some c ↔
    ∃ e ∈ log, e.code = some c ∧ ∀ e' ∈ log, e.id < e'.id → e'.code = none
  none : a.lastCode = none ↔ ∀ e ∈ log, e.code = none

/-- The code that a call brings: what it reports of an action may have one. -/
def Call.code? : Call → Option Int
  | act _ (.report r) | act _ (.reportCancel r) => r.code
  | _ => none

theorem Call.Plans.code?_eq {ctx : Context} {call : Call} {tr : Transition}
    (h : call.Plans ctx tr) : tr.code? = call.code? := by
  cases h with
  | act hact => cases hact <;> rfl
  | _ => rfl

namespace Store

variable {s s₁ : Store} {ctx : Context} {now : Instant} {call : Call} {change : TargetChange}
  {tr : Transition} {v : TargetView}

/-- Every action has the last code of its log. -/
def Coded (s : Store) : Prop :=
  ∀ a ∈ s.actions, a.lastCode = latestCode (s.logOf a.id)

theorem Coded.hasLatestCode (hs : s.Consistent) (h : s.Coded) {a : Action} (ha : a ∈ s.actions) :
    a.HasLatestCode (s.logOf a.id) := by
  have hlog : (s.logOf a.id).Pairwise fun e e' => e.id < e'.id := hs.log.ascending.filter _
  refine ⟨fun c => ?_, ?_⟩
  · rw [h a ha, latestCode_eq_some_iff hlog]
  · rw [h a ha, latestCode_eq_none_iff]

/-- Whoever commits nothing keeps that, for what remains of actions and logs is as it was. -/
theorem Coded.of_commitsNothing (hs : s.Consistent) (h : s.Coded) {o : Op}
    (ho : o.request.CommitsNothing) : (s.after o).Coded := by
  intro a ha
  obtain ⟨hmem, hlog⟩ := kept_of_commitsNothing hs ho ha
  rw [hlog]
  exact h a hmem

/-- The entries that the commit of a plan appends have the code that the call brings. -/
theorem ReadPlan.code_of_mem_entriesBy (h : s.ReadPlan Ages ctx call change tr v) :
    ∀ e ∈ s₁.entriesBy ctx change, e.code = tr.code? := by
  obtain ⟨events, hp⟩ := h.plan
  intro e he
  obtain ⟨i, hi, rfl⟩ := List.mem_mapIdx.mp he
  exact tr.code_of_mem_entries hp _ (List.getElem_mem hi)

/-- What the commit of a plan appends to the log of an action that it updates ends with the code that
the transition brings. -/
theorem ReadPlan.exists_added (h : s.ReadPlan Ages ctx call change tr v) (hs₁ : s₁.Consistent)
    (now : Instant) {a : Action} (ha : a ∈ s₁.actions) {u : ActionUpdate}
    (hu : u ∈ change.actionUpdates) (hid : u.actionId = a.id) : ∃ added,
      (s₁.written ctx now change).logOf a.id = s₁.logOf a.id ++ added ∧
        latestCode added = tr.code? := by
  obtain ⟨events, hp⟩ := h.plan
  obtain ⟨added, hlog, hadded⟩ : ∃ added,
      (s₁.written ctx now change).logOf a.id = s₁.logOf a.id ++ added ∧
        added.map StatusEntry.code = (change.entries.filter fun e =>
          e.action == .existing a.id).map NewStatusEntry.code :=
    exists_logOf_written_map hs₁ ctx now change ha fun _ _ _ => rfl
  obtain ⟨b, es, ending, hturns, hes⟩ := tr.entries_of_updates hp h.nodup_view hu
  rw [← hid, hes] at hadded
  refine ⟨added, hlog, ?_⟩
  rcases hturns.codes with hcodes | ⟨rfl, hnone⟩
  · obtain ⟨e, rfl, he⟩ := List.map_eq_singleton_iff.mp (hadded.trans hcodes)
    rw [← he]
    cases hcode : e.code <;> simp [latestCode, hcode]
  · obtain rfl := List.map_eq_nil_iff.mp hadded
    exact hnone.symm

/-- The commit of a plan keeps the codes of actions and logs in agreement. -/
theorem Coded.written (hages : s.Ages s₁) (h : s₁.Coded)
    (hread : s.ReadPlan Ages ctx call change tr v) (hacc : s₁.Accepts ctx change) :
    (s₁.written ctx now change).Coded := by
  have hs₁ := hages.consistent
  intro a' ha'
  rcases List.mem_append.mp ha' with ha' | hnew
  · obtain ⟨a, ha, rfl⟩ := List.mem_map.mp ha'
    rw [TargetChange.writeAction_id]
    by_cases hu : ∃ u ∈ change.actionUpdates, u.actionId = a.id
    · obtain ⟨u, hu, hid⟩ := hu
      obtain ⟨added, hlog, hadded⟩ := hread.exists_added hs₁ now ha hu hid
      -- the action that was read is the one that is overwritten
      obtain ⟨b, hbid, hturned⟩ := (hread.later rely_ages hages).turned_of_accepts hacc hu
      obtain rfl := hs₁.actions.eq_of_id_eq hturned.mem ha (hbid.symm.trans hid)
      obtain ⟨es, ending, hturns⟩ := hturned.turns
      rw [TargetChange.writeAction_of_mem hread.nodup_updates hu hid, hlog, latestCode_append,
        hadded, ← h b ha, ActionUpdate.writeTo, if_pos hid.symm]
      exact hturns.lastCode_eq
    · have hno : ∀ e ∈ change.entries, e.action ≠ .existing a.id := fun e he haction =>
        hu (hread.entries e he a.id haction)
      rw [TargetChange.writeAction_of_forall_ne fun u hmem hid => hu ⟨u, hmem, hid⟩,
        logOf_written_of_forall_ne hs₁ ha hno]
      exact h a ha
  · -- only an assignment creates actions, and it brings no code
    have hlt := createdBy_id hnew
    obtain ⟨i, hi, rfl⟩ := List.mem_mapIdx.mp hnew
    obtain ⟨events, hp⟩ := hread.plan
    obtain ⟨p, r, rfl, -⟩ := exists_assign_of_mem_newActions hread.plans hp (List.getElem_mem hi)
    have hnone : tr.code? = none := hread.plans.code?_eq
    rw [logOf_written, logOf_eq_nil hs₁ hlt, List.nil_append]
    refine (latestCode_eq_none_iff.mpr fun e he => ?_).symm
    rw [hread.code_of_mem_entriesBy e (List.mem_filter.mp he).1, hnone]

/-- A request that commits nothing logs nothing. -/
theorem mem_log_of_commitsNothing (hs : s.Consistent) {o : Op} (ho : o.request.CommitsNothing)
    {e : StatusEntry} (he : e ∈ (s.after o).log) : e ∈ s.log := by
  obtain ⟨a, ha, hid, -⟩ := (hs.after o).entry e he
  obtain ⟨-, hlog⟩ := kept_of_commitsNothing hs ho ha
  have hmem : e ∈ (s.after o).logOf a.id := List.mem_filter.mpr ⟨he, beq_iff_eq.mpr hid.symm⟩
  rw [hlog] at hmem
  exact (List.mem_filter.mp hmem).1

end Store

namespace World

open Store

variable {w w' : World} {ws : List World} {r : Running}

/-- Every step keeps the codes of actions and logs in agreement. -/
theorem Free.coded (h : w.Free) (hstep : w.FreeStep w') (hw : w.store.Coded) : w'.store.Coded :=
  h.step_induction hstep hw (fun _ ho => hw.of_commitsNothing h.consistent ho)
    fun _ _ _ _ _ _ _ hages hcoded hread hacc => hcoded.written hages hread hacc

theorem IsRun.coded (h : IsRun ws) : ∀ w ∈ ws, w.store.Coded := by
  have hsteps : ws.IsChain fun w w' => w.Free ∧ w.FreeStep w' :=
    h.isChain fun w w' hw hstep => ⟨hw, hstep⟩
  exact forall_mem_of_isChain h.start hsteps (fun a ha => by cases ha)
    fun w w' ⟨hw, hstep⟩ hcoded => hw.coded hstep hcoded

/-- When it is a call's turn, whatever is logged has the code that the call brings. -/
theorem Free.logs (h : w.Free) (ht : w.Takes w' r) :
    ∀ e ∈ w'.store.log, e ∈ w.store.log ∨ e.code = r.call.code? := by
  refine h.takes_induction (P := fun s' => ∀ e ∈ s'.log, e ∈ w.store.log ∨ e.code = r.call.code?)
    ht (fun _ he => .inl he) ?_ ?_
  · exact fun o ho e he => .inl (mem_log_of_commitsNothing h.consistent ho he)
  · intro s₁ ctx now change tr v _ hP hread _ e he
    rcases List.mem_append.mp he with he | he
    · exact hP e he
    · exact .inr ((hread.code_of_mem_entriesBy e he).trans hread.plans.code?_eq)

/-- Along every run, however the steps of calls follow each other: every action has the code of the
latest entry of its log that has one, and no code if there is no such entry; and whatever is logged
in a step is logged by a call, with the code that this call brings, so with none unless the call
reports what a device has said of an action. -/
theorem last_code_is_logged (h : IsRun ws) :
    (∀ w ∈ ws, ∀ a ∈ w.store.actions, a.HasLatestCode (w.store.logOf a.id)) ∧
    ws.IsChain fun w w' => ∀ e ∈ w'.store.log, e ∈ w.store.log ∨
      ∃ r, w.Takes w' r ∧ e.code = r.call.code? := by
  refine ⟨fun w hw a ha => (h.coded w hw).hasLatestCode (h.free w hw).consistent ha,
    h.isChain fun w w' hw hstep e he => ?_⟩
  rcases hstep.cases with hsame | ⟨o, ho, hafter⟩ | ⟨r, ht⟩
  · exact .inl (hsame ▸ he)
  · exact .inl (mem_log_of_commitsNothing hw.consistent ho (hafter ▸ he))
  · exact (hw.logs ht e he).imp_right fun hcode => ⟨r, ht, hcode⟩

end World

/-! ## Reports with codes and without -/

/-- A device reports a download with a code and then a run without one; it is asked to stop, goes on
with another code, and agrees without one. -/
def codedTasks : List Task :=
  Store.sampleOps.map .request ++
    [.call Store.sampleContext (.assign .standard (.forced 1 ["device"])) 2,
      .call Store.sampleContext (.act 1 (.report ⟨.download, [], some 200, none⟩)) 3,
      .call Store.sampleContext (.act 1 (.report ⟨.running, [], none, none⟩)) 4,
      .call Store.sampleContext (.act 1 .cancel) 5,
      .call Store.sampleContext (.act 1 (.report ⟨.running, [], some 409, none⟩)) 6,
      .call Store.sampleContext (.act 1 (.reportCancel ⟨.canceled, [], none, none⟩)) 7]

theorem codedTasks_not_raw : ∀ task ∈ codedTasks, ¬ task.IsRaw := by
  simp [codedTasks, Store.sampleOps, Task.IsRaw]

/-- The action ends with the second code, which the latest of the entries with a code has. -/
theorem coded_reports_logged : ∃ ws w a, World.IsRun ws ∧ w ∈ ws ∧ a ∈ w.store.actions ∧
    a.active = false ∧ a.lastCode = some 409 ∧
    (w.store.logOf a.id).map StatusEntry.code = [none, some 200, none, none, some 409, none] ∧
    (∃ e ∈ w.store.logOf a.id, e.code = some 409 ∧
      ∀ e' ∈ w.store.logOf a.id, e.id < e'.id → e'.code = none) ∧
    ws.IsChain fun w w' => ∀ e ∈ w'.store.log, e ∈ w.store.log ∨
      ∃ r, w.Takes w' r ∧ e.code = r.call.code? := by
  obtain ⟨ws, hrun, hpasses⟩ := World.exists_isRun codedTasks_not_raw
  obtain ⟨w, hw, hstore⟩ := World.exists_mem_of_scanl hpasses
  obtain ⟨hlatest, hlogged⟩ := World.last_code_is_logged hrun
  have hmem : (false, some 409, [none, some 200, none, none, some 409, none]) ∈
      w.store.actions.map fun a =>
        (a.active, a.lastCode, (w.store.logOf a.id).map StatusEntry.code) := by
    rw [hstore]
    decide +kernel
  obtain ⟨a, ha, heq⟩ := List.mem_map.mp hmem
  obtain ⟨hended, hrest⟩ := Prod.mk.inj heq
  obtain ⟨hcode, hcodes⟩ := Prod.mk.inj hrest
  exact ⟨ws, w, a, hrun, hw, ha, hended, hcode, hcodes, ((hlatest w hw a ha).some 409).mp hcode,
    hlogged⟩

end FleetUpdate
