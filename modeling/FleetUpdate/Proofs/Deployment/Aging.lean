import FleetUpdate.Proofs.Deployment.Tasks
import FleetUpdate.Proofs.Lifecycle.FreshPlan
import FleetUpdate.Proofs.Store.Ages
import FleetUpdate.Proofs.Store.Standing
import Mathlib.Data.List.Chain

/-!
# Runs with deletions

Here clients may do whatever they like, delete and register targets again, only that they have no
changes of their own committed; calls interleave in every possible way.  Nobody can rely on targets
then, but everybody on what has become of actions (`Store.Ages`): an action that an accepted change
updates is the one that the call has read, is still active, and has the log that the call has read
(`ReadPlan.turned_of_accepts`).  So every step of a run lets all actions age.
-/

namespace FleetUpdate

/-- The request has no changes committed. -/
def Request.CommitsNothing : Request → Prop
  | applyChanges _ => False
  | _ => True

theorem Request.IsLookup.commitsNothing {q : Request} (hq : q.IsLookup) : q.CommitsNothing := by
  cases q with
  | applyChanges cs => exact hq.elim
  | _ => trivial

theorem Request.CommitsNothing.ne_applyChanges {q : Request} (h : q.CommitsNothing)
    (cs : List TargetChange) : q ≠ .applyChanges cs := by
  rintro rfl
  exact h

theorem Task.commitsNothing {o : Op} (h : ¬ (Task.request o).IsRaw) : o.request.CommitsNothing := by
  cases hq : o.request with
  | applyChanges cs => exact h ⟨cs, hq⟩
  | _ => trivial

namespace Store

variable {s s₁ : Store} {ctx : Context} {call : Call} {change : TargetChange} {tr : Transition}
  {v : TargetView} {u : ActionUpdate}

theorem rely_ages : Rely Ages := ⟨Ages.refl, Ages.trans, Ages.consistent⟩

/-- What is there after a request without commits was there before, with the log that it has. -/
theorem kept_of_commitsNothing (hs : s.Consistent) {o : Op} (ho : o.request.CommitsNothing)
    {a : Action} (ha : a ∈ (s.after o).actions) :
    a ∈ s.actions ∧ (s.after o).logOf a.id = s.logOf a.id :=
  kept_after hs ho.ne_applyChanges a ha

theorem mem_of_commitsNothing (hs : s.Consistent) {o : Op} (ho : o.request.CommitsNothing)
    {a : Action} (ha : a ∈ (s.after o).actions) : a ∈ s.actions :=
  (kept_of_commitsNothing hs ho ha).1

theorem Ages.of_commitsNothing (hs : s.Consistent) {o : Op} (ho : o.request.CommitsNothing) :
    s.Ages (s.after o) :=
  .after hs ho.ne_applyChanges

/-- A request that neither deletes nor commits leaves all actions as they are. -/
theorem actions_of_quiet (s : Store) {o : Op} (ho : o.request.IsQuiet) :
    (s.after o).actions = s.actions := by
  obtain ⟨ctx, now, q⟩ := o
  have heffect := s.perform_effect ctx now q
  show (s.perform ctx now q).2.actions = _
  generalize (s.perform ctx now q).2 = s' at heffect ⊢
  cases heffect with
  | none => rfl
  | register hok =>
    obtain ⟨-, -, -, rfl⟩ := createTarget_eq_ok_iff.mp hok
    rfl
  | describe c desc => exact s.actions_changeTarget ctx c _
  | contact c time => exact s.actions_changeTarget ctx c _
  | delete c => exact ho.elim
  | sets sets last => rfl
  | commit cs => exact ho.elim

/-- A request without commits leaves the standing of a target alone, or registers the target. -/
theorem standing?_of_isQuiet {x c : String} {now : Instant} {q : Request} (hs : s.Consistent)
    (hq : q.IsQuiet) :
    (s.perform ctx now q).2.standing? x c = s.standing? x c ∨
      s.target? x c = none ∧ (s.perform ctx now q).2.standing? x c = some .fresh := by
  have heffect := s.perform_effect ctx now q
  have hs' := hs.perform ctx now q
  generalize (s.perform ctx now q).2 = s' at heffect hs' ⊢
  cases heffect with
  | none => exact .inl rfl
  | @register n t s' hok =>
    by_cases hn : (ctx.tenantId, n.controllerId) = (x, c)
    · obtain ⟨rfl, rfl⟩ := Prod.mk.inj hn
      exact .inr ⟨(createTarget_eq_ok_iff.mp hok).2.1, standing?_createTarget hs hok hs'⟩
    · exact .inl (SameAt.createTarget hn hok).standing?_eq
  | describe | contact =>
    exact .inl (standing?_changeTarget (fun _ => rfl) fun _ => ⟨rfl, rfl, rfl, rfl⟩)
  | delete d => exact hq.elim
  | sets sets last => exact .inl (SameAt.of_tables rfl rfl rfl).standing?_eq
  | commit cs => exact hq.elim

/-- The caller of a tenant finds the log of every action of the tenant. -/
theorem findLog_of_mem (hs : s.Consistent) {x c : String} {a : Action} (ha : a ∈ s.actionsOf x c) :
    s.findLog x a.id = s.logOf a.id := by
  obtain ⟨hmem, howner⟩ := mem_actionsOf.mp ha
  have hfind : s.action? x a.id = some a :=
    (action?_eq_some_iff hs).mpr ⟨hmem, rfl, (Prod.mk.inj howner).1⟩
  rw [findLog, hfind]

/-! ## What an accepted change does to actions -/

/-- A transition turns an action that the store holds, knowing its log if it answers. -/
structure Turned (s : Store) (tr : Transition) (a : Action) (u : ActionUpdate) : Prop where
  mem : a ∈ s.actions
  active : a.active = true
  turns : ∃ es ending, tr.Turns a u es ending
  log : ∀ r log, tr.Answers a r log → a.status = .canceling → log = s.logOf a.id

/-- Whatever a plan updates has been read before. -/
theorem ReadPlan.exists_read (h : s.ReadPlan Ages ctx call change tr v)
    (hu : u ∈ change.actionUpdates) :
    ∃ a es ending, (∃ s' : Store, s'.Ages s ∧ a ∈ s'.actions) ∧ a.active = true ∧
      tr.Turns a u es ending := by
  obtain ⟨events, hp⟩ := h.plan
  obtain ⟨a, es, ending, hread, hturns⟩ := tr.turns_of_mem_updates hp hu
  have hreadings := h.readings
  cases hreadings with
  | @intro s₀ s₁ s₂ s₃ t action h₁ target h₂ h₃ _ h₄ =>
    rcases hread with ⟨hsubject, hactive⟩ | hview
    · have hages : s₀.Ages s := h₁.trans (h₂.trans (h₃.trans h₄))
      exact ⟨a, es, ending, ⟨s₀, hages, (mem_actionsOf.mp (action a hsubject)).1⟩, hactive, hturns⟩
    · obtain ⟨hview, hactive⟩ := TargetView.mem_active_ofActions.mp hview
      obtain ⟨howned, -⟩ := mem_activeOf.mp hview
      exact ⟨a, es, ending, ⟨s₂, h₃.trans h₄, (mem_actionsOf.mp howned).1⟩, hactive, hturns⟩

/-- So its id has been issued before. -/
theorem ReadPlan.actionId_le (h : s.ReadPlan Ages ctx call change tr v)
    (hu : u ∈ change.actionUpdates) : u.actionId ≤ s.lastActionId := by
  obtain ⟨a, es, ending, ⟨s', hages, ha⟩, -, hturns⟩ := h.exists_read hu
  rw [hturns.action.1]
  exact Int.le_trans (hages.before.actions.le_last a ha) hages.grows.last_le

/-- The log that an answer is judged by is the log of the action, if this still is as it was read. -/
theorem ReadPlan.log_eq (h : s.ReadPlan Ages ctx call change tr v) {a : Action} (ha : a ∈ s.actions)
    {r : StatusReport} {log : List StatusEntry} (htr : tr.Answers a r log)
    (hcanceling : a.status = .canceling) : log = s.logOf a.id := by
  have hreadings := h.readings
  cases hreadings with
  | @intro s₀ s₁ s₂ s₃ t action h₁ _ h₂ h₃ consults h₄ =>
    have hages : s₀.Ages s₃ := h₁.trans (h₂.trans h₃)
    have hread : a ∈ s₀.actionsOf ctx.tenantId change.controllerId := by
      cases htr <;> exact action a rfl
    have hlog : log = s₃.findLog ctx.tenantId a.id := by
      cases htr <;> exact consults hcanceling
    obtain ⟨hmem, howner⟩ := mem_actionsOf.mp hread
    -- the action was there when its log was read, and has rested before and since
    have hissued : a.id ≤ s₃.lastActionId :=
      Int.le_trans (hages.before.actions.le_last a hmem) hages.grows.last_le
    obtain ⟨b, hb, hid, -⟩ := h₄.grows.old a ha hissued
    have hbefore := hages.action a hmem b hb hid
    have hsince := h₄.action b hb a ha hid.symm
    have hle := hbefore.revision
    have hle' := hsince.revision
    obtain ⟨rfl, -⟩ := hbefore.rests (.inl (by omega))
    obtain ⟨-, hsame⟩ := hsince.rests (.inl rfl)
    rw [hlog, findLog_of_mem hages.consistent (mem_actionsOf.mpr ⟨hb, howner⟩), hsame]

/-- If the store accepts a change, what the change updates is as it was read. -/
theorem ReadPlan.turned_of_accepts (h : s.ReadPlan Ages ctx call change tr v)
    (hacc : s.Accepts ctx change) (hu : u ∈ change.actionUpdates) :
    ∃ a, u.actionId = a.id ∧ s.Turned tr a u := by
  obtain ⟨a, es, ending, ⟨s', hages, ha⟩, hactive, hturns⟩ := h.exists_read hu
  obtain ⟨hid, hrev⟩ := hturns.action
  obtain ⟨b, hb, hbid, hbrev⟩ := hacc.updates u hu
  have hbmem := (mem_actionsOf.mp hb).1
  obtain ⟨rfl, -⟩ := (hages.action a ha b hbmem (hbid.trans hid)).rests (.inl (hbrev.trans hrev))
  exact ⟨b, hid, hbmem, hactive, ⟨es, ending, hturns⟩, fun r log htr hc => h.log_eq hbmem htr hc⟩

/-- The same holds of a store on the way from the readings to the commit, if it holds the action. -/
theorem ReadPlan.turned_of_accepts_later (h : s.ReadPlan Ages ctx call change tr v)
    (hages : s.Ages s₁) (hacc : s₁.Accepts ctx change) (hu : u ∈ change.actionUpdates) {a : Action}
    (ha : a ∈ s.actions) (hid : u.actionId = a.id) : a ∈ s₁.actions ∧ s.Turned tr a u := by
  obtain ⟨b, hbid, hturned⟩ := (h.later rely_ages hages).turned_of_accepts hacc hu
  obtain ⟨a₀, es, ending, ⟨s₀, hages₀, ha₀⟩, -, hread⟩ := h.exists_read hu
  have hbefore := (hages₀.action a₀ ha₀ a ha (hid.symm.trans hread.action.1)).revision
  have hsince := hages.action a ha b hturned.mem (hbid.symm.trans hid)
  have hle := hsince.revision
  obtain ⟨es', ending', hturns⟩ := hturned.turns
  have hrev : b.revision = a₀.revision := hturns.action.2.symm.trans hread.action.2
  obtain ⟨rfl, -⟩ := hsince.rests (.inl (by omega))
  exact ⟨hturned.mem, ha, hturned.active, hturned.turns, fun r log htr hc => h.log_eq ha htr hc⟩

/-- No action has been read twice. -/
theorem ReadPlan.nodup_view (h : s.ReadPlan Ages ctx call change tr v) :
    (v.active.map Action.id).Nodup := by
  have hreadings := h.readings
  cases hreadings with
  | @intro s₀ s₁ s₂ s₃ t _ _ _ h₂ _ _ _ =>
    rw [active_ofActions_activeOf h₂.consistent]
    exact ((h₂.consistent.actions.filter _).filter _).nodup

theorem ReadPlan.nodup_updates (h : s.ReadPlan Ages ctx call change tr v) :
    (change.actionUpdates.map ActionUpdate.actionId).Nodup := by
  obtain ⟨events, hp⟩ := h.plan
  exact tr.nodup_updates hp h.nodup_view

/-- The log entries of a plan for actions that exist are for those that it updates. -/
theorem ReadPlan.entries (h : s.ReadPlan Ages ctx call change tr v) :
    ∀ e ∈ change.entries, ∀ i, e.action = .existing i →
      ∃ u ∈ change.actionUpdates, u.actionId = i := by
  obtain ⟨events, hp⟩ := h.plan
  intro e he i hi
  rcases tr.plan?_entries hp e he with ⟨j, hj, -⟩ | ⟨u, hu, hui⟩
  · rw [hi] at hj
    cases hj
  · rw [hi] at hui
    exact ⟨u, hu, (ActionRef.existing.inj hui).symm⟩

theorem Ages.of_readPlan {now : Instant} (hs : s.Consistent)
    (h : s.ReadPlan Ages ctx call change tr v) (hacc : s.Accepts ctx change) :
    s.Ages (s.written ctx now change) := by
  refine .written hs hacc (fun u hu => ?_) h.entries
  obtain ⟨a, hid, hturned⟩ := h.turned_of_accepts hacc hu
  exact ⟨a, hturned.mem, hid.symm, hturned.active⟩

/-- What the commit of each accepted change keeps, the commit of several changes keeps that have
been planned at once. -/
theorem commitAll_induction {P : Store → Prop} {now : Instant} {cs : List TargetChange}
    (hs : s.Consistent) (h : P s)
    (hcs : ∀ change ∈ cs, ∃ tr v, s.ReadPlan Ages ctx call change tr v)
    (hcommit : ∀ s₁ change tr v, s.Ages s₁ → P s₁ → s.ReadPlan Ages ctx call change tr v →
      s₁.Accepts ctx change → P (s₁.written ctx now change)) :
    P (s.commitAll ctx now cs).2 := by
  suffices hmid : ∀ s₁, s.Ages s₁ → P s₁ → ∀ cs', (∀ change ∈ cs', change ∈ cs) →
      P (s₁.commitAll ctx now cs').2 from hmid s (.refl hs) h cs fun _ hmem => hmem
  intro s₁ hages hP cs' hsub
  induction cs' generalizing s₁ with
  | nil => exact hP
  | cons change cs' ih =>
    have hrest : ∀ c ∈ cs', c ∈ cs := fun c hc => hsub c (List.mem_cons_of_mem _ hc)
    obtain ⟨tr, v, hread⟩ := hcs change (hsub change List.mem_cons_self)
    rcases commit_cases hages.consistent ctx now change with ⟨k, hacc, hwritten, -⟩ | ⟨e, -, hrefused⟩
    · rw [commitAll, hwritten]
      have hstep : s₁.Ages (s₁.written ctx now change) :=
        .of_readPlan hages.consistent (hread.later rely_ages hages) hacc
      exact ih _ (hages.trans hstep) (hcommit s₁ change tr v hages hP hread hacc) hrest
    · rw [commitAll, hrefused]
      exact ih _ hages hP hrest

end Store

/-! ## Runs -/

namespace World

open Store

variable {w w' : World} {ws : List World} {r : Running}

/-- A step in which clients have no changes of their own committed. -/
abbrev FreeStep : World → World → Prop := Step (fun _ => True) Request.CommitsNothing

/-- The worlds that follow each other, starting without targets and without calls. -/
structure IsRun (ws : List World) : Prop where
  start : ws.head? = some ⟨.empty, []⟩
  steps : ws.IsChain FreeStep

/-- A world with deletions, whose calls go by what they have read. -/
abbrev Free (w : World) : Prop := w.Sure Ages (Asks Ages) fun _ => True

/-- What clients keep, and what the commit of each accepted change keeps that the call has planned
from what it has read, is kept when it is the call's turn. -/
theorem Free.takes_induction {P : Store → Prop} (h : w.Free) (ht : w.Takes w' r) (hP : P w.store)
    (hclient : ∀ o : Op, o.request.CommitsNothing → P (w.store.after o))
    (hcommit : ∀ s₁ ctx now change tr v, w.store.Ages s₁ → P s₁ →
      w.store.ReadPlan Ages ctx r.call change tr v → s₁.Accepts ctx change →
      P (s₁.written ctx now change)) : P w'.store := by
  rcases h.takes rely_ages ht with hsame | ⟨ctx, q, now, hq, hafter⟩
  · rw [hsame]
    exact hP
  · rw [hafter]
    cases q with
    | applyChanges cs =>
      unfold Store.perform
      split
      · exact hP
      · exact commitAll_induction h.consistent hP hq.2 fun s₁ => hcommit s₁ ctx now
    | deleteTarget c => exact hq.elim
    | _ => exact hclient ⟨ctx, now, _⟩ trivial

/-- The same for any step of a world. -/
theorem Free.step_induction {P : Store → Prop} (h : w.Free) (hstep : w.FreeStep w') (hP : P w.store)
    (hclient : ∀ o : Op, o.request.CommitsNothing → P (w.store.after o))
    (hcommit : ∀ s₁ ctx now call change tr v, w.store.Ages s₁ → P s₁ →
      w.store.ReadPlan Ages ctx call change tr v → s₁.Accepts ctx change →
      P (s₁.written ctx now change)) : P w'.store := by
  rcases hstep.cases with hsame | ⟨o, ho, hafter⟩ | ⟨r, hr⟩
  · rw [hsame]
    exact hP
  · rw [hafter]
    exact hclient o ho
  · exact h.takes_induction hr hP hclient fun s₁ ctx now => hcommit s₁ ctx now r.call

/-- Every step lets the actions age. -/
theorem Free.ages (h : w.Free) (hstep : w.FreeStep w') : w.store.Ages w'.store :=
  h.step_induction hstep (.refl h.consistent) (fun _ ho => .of_commitsNothing h.consistent ho)
    fun _ _ _ _ _ _ _ hages _ hread hacc =>
      hages.trans (.of_readPlan hages.consistent (hread.later rely_ages hages) hacc)

/-- When it is a call's turn, an action stays as it is, or a transition of the call turns it. -/
theorem Free.becomes (h : w.Free) (ht : w.Takes w' r) :
    ∀ a ∈ w.store.actions, ∀ a' ∈ w'.store.actions, a'.id = a.id → a' = a ∨
      ∃ ctx tr u now, r.call.Plans ctx tr ∧ w.store.Turned tr a u ∧ a' = u.writeTo ctx now a := by
  intro a ha
  refine h.takes_induction (P := fun s' => ∀ a' ∈ s'.actions, a'.id = a.id → a' = a ∨
    ∃ ctx tr u now, r.call.Plans ctx tr ∧ w.store.Turned tr a u ∧ a' = u.writeTo ctx now a) ht ?_ ?_ ?_
  · exact fun a' ha' hid => .inl (h.consistent.actions.eq_of_id_eq ha' ha hid)
  · intro o ho a' ha' hid
    exact .inl (h.consistent.actions.eq_of_id_eq (mem_of_commitsNothing h.consistent ho ha') ha hid)
  · intro s₁ ctx now change tr v hages hP hread hacc a' ha' hid
    rcases List.mem_append.mp ha' with ha' | hnew
    · obtain ⟨b, hb, rfl⟩ := List.mem_map.mp ha'
      rw [TargetChange.writeAction_id] at hid
      by_cases hu : ∃ u ∈ change.actionUpdates, u.actionId = b.id
      · obtain ⟨u, hu, hub⟩ := hu
        obtain ⟨hmem, hturned⟩ :=
          hread.turned_of_accepts_later hages hacc hu ha (hub.trans hid)
        obtain rfl : b = a := hages.consistent.actions.eq_of_id_eq hb hmem hid
        rw [TargetChange.writeAction_of_mem hread.nodup_updates hu hub]
        exact .inr ⟨ctx, tr, u, now, hread.plans, hturned, rfl⟩
      · rw [TargetChange.writeAction_of_forall_ne fun u hmem hid => hu ⟨u, hmem, hid⟩]
        exact hP b hb hid
    · -- a new action has an id that no action had before
      have hlt := createdBy_id hnew
      have hle := h.consistent.actions.le_last a ha
      have hgrows := hages.grows.last_le
      omega

theorem Free.step (h : w.Free) (hstep : w.FreeStep w') : w'.Free :=
  Sure.step rely_ages (Call.program_asks rely_ages) h hstep (h.ages hstep)

/-- What holds of the empty world, and what every step keeps, holds of all worlds of the list. -/
theorem forall_mem_of_isChain {T : World → World → Prop} {P : World → Prop}
    (hstart : ws.head? = some ⟨.empty, []⟩) (hT : ws.IsChain T) (hempty : P ⟨.empty, []⟩)
    (hkeep : ∀ w w', T w w' → P w → P w') : ∀ w ∈ ws, P w := by
  refine hT.induction _ _ hkeep fun hne => ?_
  rw [List.head?_eq_some_head hne] at hstart
  rw [Option.some.inj hstart]
  exact hempty

theorem IsRun.free (h : IsRun ws) : ∀ w ∈ ws, w.Free :=
  forall_mem_of_isChain h.start h.steps ⟨.empty, by simp⟩ fun _ _ hstep hw => hw.step hstep

/-- What holds of every step holds along a run. -/
theorem IsRun.isChain {T : World → World → Prop} (h : IsRun ws)
    (hstep : ∀ w w', w.Free → w.FreeStep w' → T w w') : ws.IsChain T :=
  h.steps.imp_of_mem_imp fun w w' hw _ hww' => hstep w w' (h.free w hw) hww'

/-- Of any two worlds of a run, the later one holds what the actions of the earlier one have become. -/
theorem IsRun.pairwise_ages (h : IsRun ws) : ws.Pairwise fun w w' => w.store.Ages w'.store := by
  have htrans : IsTrans World fun w w' => w.store.Ages w'.store := ⟨fun _ _ _ => Ages.trans⟩
  exact (h.isChain fun w w' hw hstep => hw.ages hstep).pairwise

/-! ## Tasks are runs -/

/-- A call that has just been started may take all its steps with nobody in between. -/
theorem steps_runOn (ctx : Context) (call : Call) (p : Program call.Reply) (time : Instant)
    (s : Store) (rs : List Running) :
    ∃ p', Relation.ReflTransGen FreeStep ⟨s, rs ++ [⟨ctx, call, p⟩]⟩
      ⟨(p.runOn time s).state, rs ++ [⟨ctx, call, p'⟩]⟩ := by
  unfold Program.runOn
  induction p generalizing s with
  | done a => exact ⟨_, .refl⟩
  | fail e => exact ⟨_, .refl⟩
  | ask cx q next ih =>
    obtain ⟨p', hrest⟩ := ih _ (s.perform cx (epochMillis time) q).2
    exact ⟨p', hrest.head (.run (epochMillis time))⟩
  | clock next ih =>
    obtain ⟨p', hrest⟩ := ih time s
    exact ⟨p', hrest.head (.run time)⟩
  | note n next ih =>
    obtain ⟨p', hrest⟩ := ih s
    exact ⟨p', hrest.head (.run time)⟩

theorem steps_afterTask {task : Task} (hraw : ¬ task.IsRaw) (s : Store) (rs : List Running) :
    ∃ w rs', FreeStep ⟨s, rs⟩ w ∧ Relation.ReflTransGen FreeStep w ⟨s.afterTask task, rs'⟩ := by
  cases task with
  | call ctx call time =>
    obtain ⟨p', hsteps⟩ := steps_runOn ctx call (call.program ctx) time s rs
    exact ⟨_, _, .start ctx trivial, hsteps⟩
  | request o => exact ⟨_, rs, .client o (Task.commitsNothing hraw), .refl⟩

/-- What leads to the first element of a chain can be put in front of it. -/
theorem exists_isChain_of_reflTransGen {α : Type} {R : α → α → Prop} {a b : α} {l : List α}
    (h : Relation.ReflTransGen R a b) (hl : (b :: l).IsChain R) :
    ∃ l', (a :: l').IsChain R ∧ b :: l <:+ a :: l' := by
  induction h using Relation.ReflTransGen.head_induction_on with
  | refl => exact ⟨l, hl, List.suffix_refl _⟩
  | @head a c hstep _ ih =>
    obtain ⟨l', hchain, hsuffix⟩ := ih
    exact ⟨c :: l', List.isChain_cons_cons.mpr ⟨hstep, hchain⟩, hsuffix.trans (List.suffix_cons _ _)⟩

/-- Whatever tasks lead through one after the other, some run passes through in this order. -/
theorem exists_isRun {tasks : List Task} (hraw : ∀ task ∈ tasks, ¬ task.IsRaw) :
    ∃ ws, IsRun ws ∧ (tasks.scanl Store.afterTask .empty).Sublist (ws.map World.store) := by
  have hpass : ∀ s rs, ∃ ws, (⟨s, rs⟩ :: ws).IsChain FreeStep ∧
      (tasks.scanl Store.afterTask s).Sublist ((⟨s, rs⟩ :: ws).map World.store) := by
    induction tasks with
    | nil => exact fun s rs => ⟨[], List.isChain_singleton _, List.Sublist.refl [s]⟩
    | cons task tasks ih =>
      intro s rs
      obtain ⟨w, rs', hstep, hsteps⟩ := steps_afterTask (hraw task List.mem_cons_self) s rs
      obtain ⟨ws, hchain, hsub⟩ :=
        ih (fun t ht => hraw t (List.mem_cons_of_mem _ ht)) (s.afterTask task) rs'
      obtain ⟨ws', hchain', hsuffix⟩ := exists_isChain_of_reflTransGen hsteps hchain
      refine ⟨w :: ws', List.isChain_cons_cons.mpr ⟨hstep, hchain'⟩, ?_⟩
      rw [List.scanl_cons]
      exact (hsub.trans (hsuffix.sublist.map _)).cons_cons s
  obtain ⟨ws, hchain, hsub⟩ := hpass .empty []
  exact ⟨_, ⟨rfl, hchain⟩, hsub⟩

/-- In particular it reaches what they lead to. -/
theorem exists_mem_of_scanl {tasks : List Task} {ws : List World}
    (h : (tasks.scanl Store.afterTask .empty).Sublist (ws.map World.store)) :
    ∃ w ∈ ws, w.store = Store.empty.afterTasks tasks :=
  List.mem_map.mp (h.subset (afterTasks_mem_scanl .empty tasks))

end World

end FleetUpdate
