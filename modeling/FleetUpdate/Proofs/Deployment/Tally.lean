import FleetUpdate.Proofs.Deployment.Alone
import FleetUpdate.Proofs.Deployment.Tasks
import FleetUpdate.Proofs.Store.Chronicle

/-!
# Targets tally with their chronicles

A target does not recompute its state from what has happened to it: about ten transitions and the
contacts of the device patch it.  Yet after any sequence of completed calls it says what its active
actions and its chronicle say: the update state follows from the action that ended last, and what is
installed is what the last report of success has said (`Recorded.target_tallies`).  This needs that
calls run alone.  If a first contact comes between the reading of a target and the commit, the target
that an ending action leaves behind does not know of the contact.
-/

namespace FleetUpdate

/-! ## States and endings -/

/-- When the distribution set is installed, if the action ends so. -/
def Termination.time? : Termination → Option Instant
  | finished time => some time
  | _ => none

/-- The state of a target is what its active actions and its endings say. -/
structure Target.Tallies (t : Target) (hasActive : Bool) (es : List Ending) : Prop where
  status : t.updateStatus = deriveUpdateStatus hasActive (es.getLast?.map Ending.action) t.assigned
    t.installed t.lastContact.isSome
  installed : t.installed = (lastSuccess es).map Prod.fst
  installedAt : t.installedAt = (lastSuccess es).map Prod.snd

section State

variable {t t' : Target} {hasActive : Bool} {es : List Ending}

/-- The update state depends on the action that ended last by its status and its type only. -/
theorem deriveUpdateStatus_congr {a b : Action} (hstatus : a.status = b.status)
    (htype : a.actionType = b.actionType) {assigned installed : Option Int} {contacted : Bool} :
    deriveUpdateStatus hasActive (some a) assigned installed contacted =
      deriveUpdateStatus hasActive (some b) assigned installed contacted := by
  unfold deriveUpdateStatus Action.isDownloadDone
  simp only [Option.any_some, hstatus, htype]

theorem Target.Tallies.of_state_eq (h : t.Tallies hasActive es) (hstate : t'.state = t.state)
    (hcontact : t'.lastContact = t.lastContact) : t'.Tallies hasActive es := by
  obtain ⟨hassigned, hinstalled, hinstalledAt, hstatus⟩ :=
    TargetState.mk.inj (show TargetState.mk _ _ _ _ = TargetState.mk _ _ _ _ from hstate)
  refine ⟨?_, hinstalled.trans h.installed, hinstalledAt.trans h.installedAt⟩
  rw [hstatus, hassigned, hinstalled, hcontact]
  exact h.status

/-- That there was a contact makes a difference only while the update state is unknown. -/
theorem deriveUpdateStatus_contacted (ended : Option Action) (assigned installed : Option Int)
    (contacted : Bool) : deriveUpdateStatus hasActive ended assigned installed true =
      if deriveUpdateStatus hasActive ended assigned installed contacted = .unknown then .registered
      else deriveUpdateStatus hasActive ended assigned installed contacted := by
  unfold deriveUpdateStatus
  split_ifs <;> first | rfl | contradiction

/-- A contact makes a target known, and changes nothing else. -/
theorem Target.Tallies.contacted (h : t.Tallies hasActive es) (time : Instant) :
    Target.Tallies
      { t with
        lastContact := some time
        updateStatus := if t.updateStatus = .unknown then .registered else t.updateStatus }
      hasActive es := by
  refine ⟨?_, h.installed, h.installedAt⟩
  rw [h.status]
  exact (deriveUpdateStatus_contacted _ _ _ _).symm

theorem Target.updateStatus_stateAfter (t : Target) (a : Action) (remaining : List Action)
    (termination : Termination) :
    (t.stateAfter a remaining termination).updateStatus =
      deriveUpdateStatus (!remaining.isEmpty) (some a) (t.stateAfter a remaining termination).assigned
        (t.stateAfter a remaining termination).installed t.lastContact.isSome := rfl

/-- The state that an ending action leaves behind tallies, with this ending added. -/
theorem Target.Tallies.ended (h : t.Tallies hasActive es) {a a' : Action} {remaining : List Action}
    {termination : Termination} {ended : List Action} {v : Target}
    (hinstalled : v.installed = t.installed) (hinstalledAt : v.installedAt = t.installedAt)
    (hcontact : t'.lastContact = v.lastContact) (ht' : t'.state = v.stateAfter a remaining termination)
    (hstatus : a'.status = a.status) (htype : a'.actionType = a.actionType)
    (hset : a'.setId = a.setId) (hne : ended ≠ []) (hended : ∀ b ∈ ended, b = a') :
    t'.Tallies (!remaining.isEmpty) (es ++ ended.map fun b => ⟨b, termination.time?⟩) := by
  have hne' : (ended.map fun b => (⟨b, termination.time?⟩ : Ending)) ≠ [] := by simpa using hne
  have hall : ∀ e ∈ ended.map fun b => (⟨b, termination.time?⟩ : Ending),
      e = ⟨a', termination.time?⟩ := by
    intro e he
    obtain ⟨b, hb, rfl⟩ := List.mem_map.mp he
    rw [hended b hb]
  have hstate : t'.updateStatus = _ ∧ t'.assigned = _ ∧ t'.installed = _ ∧ t'.installedAt = _ :=
    ⟨congrArg TargetState.updateStatus ht', congrArg TargetState.assigned ht',
      congrArg TargetState.installed ht', congrArg TargetState.installedAt ht'⟩
  obtain ⟨hstatus', hassigned', hinstalled', hinstalledAt'⟩ := hstate
  have hinstall : t'.installed = (lastSuccess (es ++ ended.map fun b =>
        ⟨b, termination.time?⟩)).map Prod.fst ∧
      t'.installedAt = (lastSuccess (es ++ ended.map fun b =>
        ⟨b, termination.time?⟩)).map Prod.snd := by
    rw [hinstalled', hinstalledAt']
    cases termination with
    | finished time =>
      rw [lastSuccess_append_of_some hne' fun e he => by rw [hall e he]; exact ⟨hset, rfl⟩]
      exact ⟨rfl, rfl⟩
    | failed | released =>
      rw [lastSuccess_append_of_none fun e he => by rw [hall e he]; rfl]
      exact ⟨hinstalled.trans h.installed, hinstalledAt.trans h.installedAt⟩
  refine ⟨?_, hinstall.1, hinstall.2⟩
  rw [getLast?_append_of_forall_eq hne' hall, Option.map_some,
    deriveUpdateStatus_congr hstatus htype, hassigned', hinstalled', hcontact, hstatus']
  exact v.updateStatus_stateAfter a remaining termination

end State

/-! ## What a commit leaves -/

namespace Transition.Turns

variable {a : Action} {tr : Transition} {u : ActionUpdate} {es : List NewStatusEntry}
  {termination : Termination}

/-- A turn that ends an action writes it with its type. -/
theorem actionType_eq (h : tr.Turns a u es (some termination)) : u.actionType = a.actionType := by
  generalize hending : some termination = ending at h
  cases h with
  | force => cases hending
  | _ => rfl

/-- Only reports of success bring a time of installation. -/
theorem time?_eq_none (h : tr.Turns a u es (some termination))
    (hno : ∀ r log, tr = .report a r log → r.status ≠ .finished) : termination.time? = none := by
  generalize hending : some termination = ending at h
  cases h with
  | @supersede _ _ _ _ active _ _ =>
    cases active with
    | true => cases hending
    | false =>
      obtain rfl := Option.some.inj hending
      rfl
  | @reportEnd r log _ hr =>
    obtain rfl := Option.some.inj hending
    have hstatus := hno r log rfl
    unfold StatusReport.termination? at hr
    split at hr
    · rename_i hfinished
      exact absurd hfinished hstatus
    · obtain rfl := Option.some.inj hr
      rfl
    · split at hr
      · obtain rfl := Option.some.inj hr
        rfl
      · cases hr
    · cases hr
  | cancelNow | forceQuit | agree =>
    obtain rfl := Option.some.inj hending
    rfl
  | askToStop | force | reportProgress | refuse | goOn | confirm | deny => cases hending

/-- A call with a dated report knows the time of the success that it brings. -/
theorem success?_eq {ctx : Context} {call : Call} (h : tr.Turns a u es (some termination))
    (hplans : call.Plans ctx tr) (hdates : call.Dates tr) (hdated : call.IsDated) :
    call.success? = termination.time? := by
  have hnone (hno : ∀ r log, tr = .report a r log → r.status ≠ .finished) :
      none = termination.time? := (h.time?_eq_none hno).symm
  cases hplans with
  | assign => exact hnone fun r log heq => by cases heq
  | recalculate => exact hnone fun r log heq => by cases heq
  | act hact =>
    cases hact with
    | @report r time log =>
      by_cases hfinished : r.status = .finished
      · obtain ⟨reported, hreported⟩ := Option.isSome_iff_exists.mp hdated
        obtain rfl := h.eq_of_subject? rfl
        obtain ⟨-, hending⟩ := h.of_finished hfinished
        obtain rfl := Option.some.inj hending
        rw [Call.success?, if_pos hfinished, hreported]
        exact congrArg some (hdates reported hreported).symm
      · rw [Call.success?, if_neg hfinished]
        refine hnone fun r' log' heq => ?_
        cases heq
        exact hfinished
    | _ => exact hnone fun r log heq => by cases heq

end Transition.Turns

section Commit

open Store

variable {s : Store} {ctx : Context} {now : Instant} {call : Call} {change : TargetChange}
  {tr : Transition} {v : TargetView} {t : Target} {es : List Ending}

/-- After the commit of a change, its target tallies with the endings that there were before and
those that the commit has brought. -/
abbrev Store.TalliesAfter (s : Store) (ctx : Context) (now : Instant) (change : TargetChange)
    (t : Target) (success : Option Instant) (es : List Ending) : Prop :=
  (change.writeTarget ctx now t).Tallies
    (!((s.written ctx now change).activeOf ctx.tenantId change.controllerId).isEmpty)
    (es ++ (s.endedIn (s.written ctx now change) ctx.tenantId change.controllerId).map
      fun a => ⟨a, success⟩)

theorem TargetChange.lastContact_writeTarget (c : TargetChange) (t : Target) :
    (c.writeTarget ctx now t).lastContact = t.lastContact := by
  unfold writeTarget
  split <;> rfl

/-- A list with an element is not empty. -/
theorem not_isEmpty_of_mem {α : Type} {l : List α} {a : α} (h : a ∈ l) : (!l.isEmpty) = true := by
  cases l with
  | nil => cases h
  | cons b l => rfl

/-- An assignment leaves a target pending and ends actions without success. -/
theorem Store.PlannedCommit.tallies_of_assign {n : NewAction} {mode : SupersedeMode}
    {time : Instant} (h : s.PlannedCommit ctx now call change (.assign n mode time) v t)
    (ht : t.Tallies (!v.active.isEmpty) es) : s.TalliesAfter ctx now change t none es := by
  obtain ⟨events, hp⟩ := h.plan
  have hchange : (planAssignment v n mode time).change = change :=
    congrArg Plan.change (Option.some.inj hp)
  have hcreated : n.row ctx now change.controllerId (s.lastActionId + 1 + 0) ∈
      (s.written ctx now change).activeOf ctx.tenantId change.controllerId := by
    rw [h.activeAfter, createdBy, ← hchange]
    exact List.mem_append_right _ (List.mem_singleton_self _)
  have hstate := h.state
  rw [show change.targetState = some { v.target.state with
    assigned := some n.setId, updateStatus := .pending } by rw [← hchange]; rfl,
    Option.getD_some] at hstate
  unfold TalliesAfter
  rw [not_isEmpty_of_mem hcreated]
  refine ⟨congrArg TargetState.updateStatus hstate, ?_, ?_⟩
  · rw [lastSuccess_append_of_none (by simp), ← ht.installed, h.rests.installed]
    exact congrArg TargetState.installed hstate
  · rw [lastSuccess_append_of_none (by simp), ← ht.installedAt, h.rests.installedAt]
    exact congrArg TargetState.installedAt hstate

/-- A commit that turns one action of its target: the action is written as the turn says, the other
active actions stay as they are, and the target is left as it is unless the action ends. -/
structure Store.TurningCommit (s : Store) (ctx : Context) (now : Instant) (change : TargetChange)
    (tr : Transition) (v : TargetView) (a : Action) (u : ActionUpdate)
    (ending : Option Termination) : Prop where
  turns : ∃ entries, tr.Turns a u entries ending
  mem : a ∈ v.active
  written : change.writeAction ctx now a = u.writeTo ctx now a
  others : ∀ b ∈ v.active, b.id ≠ a.id → change.writeAction ctx now b = b
  created : s.createdBy ctx now change = []
  state : change.targetState = ending.map (v.stateAfter a u.status)

theorem Store.PlannedCommit.turning (h : s.PlannedCommit ctx now call change tr v t) {a : Action}
    (hsubject : tr.subject? = some a) :
    ∃ u ending, s.TurningCommit ctx now change tr v a u ending := by
  obtain ⟨events, hp⟩ := h.plan
  obtain ⟨-, u, entries, ending, hturns, hplan⟩ := tr.plan?_turns hp hsubject
  obtain rfl : change = _ := congrArg Plan.change hplan
  refine ⟨u, ending, ⟨entries, hturns⟩, h.subject a hsubject, rfl, fun b _ hid => ?_, rfl, rfl⟩
  refine TargetChange.writeAction_of_forall_ne fun w hw hwb => hid ?_
  rw [← hwb, List.mem_singleton.mp hw, hturns.action.1]

namespace Store.TurningCommit

variable {a : Action} {u : ActionUpdate} {ending : Option Termination}

/-- The action stays active unless the turn ends it. -/
theorem active_eq (h : s.TurningCommit ctx now change tr v a u ending) :
    (change.writeAction ctx now a).active = ending.isNone := by
  obtain ⟨entries, hturns⟩ := h.turns
  rw [h.written, ActionUpdate.writeTo_active hturns.action.1, hturns.active_eq]

/-- The action gets the status of the turn. -/
theorem status_eq (h : s.TurningCommit ctx now change tr v a u ending) :
    (change.writeAction ctx now a).status = u.status := by
  obtain ⟨entries, hturns⟩ := h.turns
  rw [h.written, ActionUpdate.writeTo, if_pos hturns.action.1.symm]

/-- An action of the same id is the action. -/
theorem eq_of_id_eq (hs : s.Consistent) (hp : s.PlannedCommit ctx now call change tr v t)
    (h : s.TurningCommit ctx now change tr v a u ending) {b : Action} (hb : b ∈ v.active)
    (hid : b.id = a.id) : b = a :=
  List.inj_on_of_nodup_map (hp.nodup hs) hb h.mem hid

/-- At most this action ends in the commit. -/
theorem mem_endedIn (hs : s.Consistent) (hp : s.PlannedCommit ctx now call change tr v t)
    (h : s.TurningCommit ctx now change tr v a u ending) {b : Action} :
    b ∈ s.endedIn (s.written ctx now change) ctx.tenantId change.controllerId ↔
      b = change.writeAction ctx now a ∧ ending.isNone = false := by
  rw [mem_endedIn_written hs, ← hp.active]
  constructor
  · rintro ⟨b, hb, rfl, hinactive⟩
    by_cases hid : b.id = a.id
    · obtain rfl := h.eq_of_id_eq hs hp hb hid
      exact ⟨rfl, h.active_eq.symm.trans hinactive⟩
    · rw [h.others b hb hid, hp.all_active b hb] at hinactive
      cases hinactive
  · rintro ⟨rfl, hsome⟩
    exact ⟨a, h.mem, rfl, h.active_eq.trans hsome⟩

/-- If the action goes on, it is among the active actions after the commit. -/
theorem mem_activeAfter (hp : s.PlannedCommit ctx now call change tr v t)
    (h : s.TurningCommit ctx now change tr v a u none) : change.writeAction ctx now a ∈
      (s.written ctx now change).activeOf ctx.tenantId change.controllerId := by
  rw [hp.activeAfter]
  exact List.mem_append_left _ (List.mem_filter.mpr ⟨List.mem_map_of_mem h.mem, h.active_eq⟩)

/-- If the action ends, the others are active after the commit. -/
theorem activeAfter (hs : s.Consistent) (hp : s.PlannedCommit ctx now call change tr v t)
    {termination : Termination}
    (h : s.TurningCommit ctx now change tr v a u (some termination)) :
    (s.written ctx now change).activeOf ctx.tenantId change.controllerId = v.others a.id := by
  rw [hp.activeAfter, h.created, List.append_nil, List.filter_map, TargetView.others]
  have hstay : v.active.filter ((fun b => b.active) ∘ change.writeAction ctx now) =
      v.active.filter fun b => b.id != a.id := by
    apply List.filter_congr
    intro b hb
    by_cases hid : b.id = a.id
    · simp [h.eq_of_id_eq hs hp hb hid, h.active_eq]
    · simp [hid, h.others b hb hid, hp.all_active b hb]
  rw [hstay]
  conv_rhs => rw [← List.map_id (v.active.filter _)]
  apply List.map_congr_left
  intro b hb
  obtain ⟨hb, hid⟩ := List.mem_filter.mp hb
  exact h.others b hb (bne_iff_ne.mp hid)

end Store.TurningCommit

/-- A transition of one action leaves its target as it is, or in the state that an ending leaves. -/
theorem Store.PlannedCommit.tallies_of_subject (hs : s.Consistent)
    (h : s.PlannedCommit ctx now call change tr v t) {a : Action} (hsubject : tr.subject? = some a)
    (hcontact : v.target.lastContact = t.lastContact) (hdates : call.Dates tr)
    (hdated : call.IsDated) (ht : t.Tallies (!v.active.isEmpty) es) :
    s.TalliesAfter ctx now change t call.success? es := by
  obtain ⟨u, ending, hcommit⟩ := h.turning hsubject
  have hstate := h.state
  rw [hcommit.state] at hstate
  unfold TalliesAfter
  cases ending with
  | none =>
    -- the action goes on, before and after, and nothing else has happened
    have hnone : s.endedIn (s.written ctx now change) ctx.tenantId change.controllerId = [] :=
      List.eq_nil_iff_forall_not_mem.mpr fun b hb => by cases ((hcommit.mem_endedIn hs h).mp hb).2
    rw [hnone, List.map_nil, List.append_nil, not_isEmpty_of_mem (hcommit.mem_activeAfter h),
      ← not_isEmpty_of_mem hcommit.mem]
    exact ht.of_state_eq hstate (change.lastContact_writeTarget t)
  | some termination =>
    obtain ⟨entries, hturns⟩ := hcommit.turns
    have htype : (change.writeAction ctx now a).actionType = a.actionType := by
      rw [hcommit.written, ActionUpdate.writeTo, if_pos hturns.action.1.symm]
      exact hturns.actionType_eq
    rw [hcommit.activeAfter hs h, hturns.success?_eq h.plans hdates hdated]
    refine ht.ended h.rests.installed.symm h.rests.installedAt.symm
      ((change.lastContact_writeTarget t).trans hcontact.symm) hstate hcommit.status_eq htype
      (change.writeAction_setId a) ?_ fun b hb => ((hcommit.mem_endedIn hs h).mp hb).1
    exact List.ne_nil_of_mem ((hcommit.mem_endedIn hs h).mpr ⟨rfl, rfl⟩)

end Commit

/-! ## Stores and chronicles -/

namespace Store

variable {s s' s'' : Store} {x c : String} {es : List Ending} {ctx : Context} {now : Instant}
  {call : Call} {change : TargetChange} {tr : Transition} {v : TargetView}

/-- The endings of a target are those of its actions that have ended, and it tallies with them. -/
structure TalliesAt (s : Store) (x c : String) (es : List Ending) : Prop where
  ended : ∀ a, a ∈ es.map Ending.action ↔ a ∈ s.actionsOf x c ∧ a.active = false
  target : ∀ t, s.target? x c = some t → t.Tallies (!(s.activeOf x c).isEmpty) es

theorem TalliesAt.of_same (h : s.TalliesAt x c es) (hsame : SameAt x c s s') :
    s'.TalliesAt x c es := by
  refine ⟨fun a => ?_, fun t ht => ?_⟩
  · rw [hsame.actionsOf_eq]
    exact h.ended a
  · rw [hsame.activeOf_eq]
    exact h.target t (hsame.target ▸ ht)

/-- A later store, when nothing but commits came in between. -/
structure Continues (s s' : Store) : Prop where
  advances : s.Advances s'
  contact : ∀ x c t, s.target? x c = some t →
    ∃ t', s'.target? x c = some t' ∧ t'.lastContact = t.lastContact

namespace Continues

theorem refl (hs : s.Consistent) : s.Continues s := ⟨.refl hs, fun _ _ t ht => ⟨t, ht, rfl⟩⟩

theorem trans (h : s.Continues s') (h' : s'.Continues s'') : s.Continues s'' := by
  refine ⟨h.advances.trans h'.advances, fun x c t ht => ?_⟩
  obtain ⟨t', ht', hcontact⟩ := h.contact x c t ht
  obtain ⟨t'', ht'', hcontact'⟩ := h'.contact x c t' ht'
  exact ⟨t'', ht'', hcontact'.trans hcontact⟩

theorem rely : Rely Continues := ⟨refl, trans, fun h => h.advances.consistent⟩

theorem commit (hs : s.Consistent) (change : TargetChange) :
    s.Continues (s.commit ctx now change).2 := by
  refine ⟨⟨hs.commit ctx now change, fun _ _ => .commit hs change⟩, fun x c t ht => ?_⟩
  rcases commit_cases hs ctx now change with ⟨k, -, hcommit, -⟩ | ⟨e, -, hcommit⟩
  · rw [hcommit]
    refine ⟨change.writeTarget ctx now t, ?_, change.lastContact_writeTarget t⟩
    show (s.written ctx now change).target? x c = _
    rw [target?_written, ht, Option.map_some]
  · rw [hcommit]
    exact ⟨t, ht, rfl⟩

end Continues

/-- What a call plans and the store accepts is a commit for the target as it stands, contacts
included. -/
theorem ReadPlan.commit_of_accepts (hs : s.Consistent)
    (h : s.ReadPlan Continues ctx call change tr v) (now : Instant) (hacc : s.Accepts ctx change) :
    ∃ t, s.PlannedCommit ctx now call change tr v t ∧ v.target.lastContact = t.lastContact := by
  have hreadings := h.readings
  obtain ⟨events, hp⟩ := h.plan
  obtain ⟨hcurrent, hsubject⟩ := (h.mono fun _ _ h => h.advances).current_of_accepts hacc
  obtain ⟨t, hcommit⟩ := hcurrent.commit hs now h.plans hp hsubject
  dsimp only at hcommit
  refine ⟨t, hcommit, ?_⟩
  cases hreadings with
  | @intro s₀ s₁ s₂ s₃ u _ _ htarget h₂ h₃ _ h₄ =>
    obtain ⟨u', hu', hcontact⟩ := (h₂.trans (h₃.trans h₄)).contact _ _ u htarget
    obtain rfl := Option.some.inj (hcommit.stored.symm.trans hu')
    exact hcontact.symm

/-- What a call plans and the store accepts leaves the target tallying. -/
theorem ReadPlan.tallies (hs : s.Consistent) (h : s.ReadPlan Continues ctx call change tr v)
    (hacc : s.Accepts ctx change) (hcall : ∀ d, call ≠ .recalculate d) (hdated : call.IsDated)
    (ht : s.TalliesAt ctx.tenantId change.controllerId es) :
    (s.written ctx now change).TalliesAt ctx.tenantId change.controllerId
      (es ++ (s.endedIn (s.written ctx now change) ctx.tenantId change.controllerId).map
        fun a => ⟨a, call.success?⟩) := by
  obtain ⟨t, hcommit, hcontact⟩ := h.commit_of_accepts hs now hacc
  have hbefore := ht.target t hcommit.stored
  rw [← hcommit.active] at hbefore
  refine ⟨fun a => ?_, fun t' ht' => ?_⟩
  · rw [mem_ended_written hs hcommit.updates, List.map_append, List.mem_append, ht.ended]
    simp only [List.map_map, List.mem_map, Function.comp_apply, exists_eq_right]
  · obtain rfl := Option.some.inj (hcommit.row.symm.trans ht')
    cases hsub : tr.subject? with
    | some a => exact hcommit.tallies_of_subject hs hsub hcontact h.dates hdated hbefore
    | none =>
      cases h.plans with
      | assign => exact hcommit.tallies_of_assign hbefore
      | act hact =>
        rw [hact.subject?] at hsub
        cases hsub
      | recalculate => exact absurd rfl (hcall _)

end Store

end FleetUpdate
