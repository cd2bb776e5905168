import FleetUpdate.Proofs.Deployment.Chronicled
import FleetUpdate.Proofs.Deployment.Ended

/-!
# What has been recorded

Calls are completed one after the other and clients have no changes of their own committed; the
chronicle is kept along the way (`Recorded`).  No target is ever recalculated, and yet every target
tallies with its chronicle at the end of each call (`Recorded.target_tallies`): what its state says
is what has become of its actions since it was registered.
-/

namespace FleetUpdate

namespace Store

variable {s s' : Store} {x c : String} {es : List Ending} {h : Chronicle} {o : Op}

/-- A target that is not stored has no endings. -/
theorem TalliesAt.of_gone (hs : s.Consistent) (hgone : s.target? x c = none) :
    s.TalliesAt x c [] := by
  refine ⟨fun a => ?_, fun t ht => ?_⟩
  · rw [actionsOf_eq_nil hs hgone]
    simp
  · rw [hgone] at ht
    cases ht

theorem TalliesAt.eq_nil (hs : s.Consistent) (ht : s.TalliesAt x c es)
    (hgone : s.target? x c = none) : es = [] := by
  rw [List.eq_nil_iff_forall_not_mem]
  intro e he
  have hmem := ((ht.ended e.action).mp (List.mem_map_of_mem he)).1
  rw [actionsOf_eq_nil hs hgone] at hmem
  cases hmem

/-- So a chronicle may forget it. -/
theorem TalliesAt.forget (hs : s.Consistent) (ht : s.TalliesAt x c es) :
    s.TalliesAt x c (if (s.target? x c).isNone then [] else es) := by
  cases htarget : s.target? x c with
  | none => exact of_gone hs htarget
  | some t => exact ht

/-- Changing a row so that it goes on tallying. -/
theorem TalliesAt.changeTarget (ht : s.TalliesAt x c es) {ctx : Context} {d : String}
    {f : Target → Target} (hkey : ∀ t, (f t).key = t.key)
    (hf : ∀ t hasActive, t.Tallies hasActive es → (f t).Tallies hasActive es) :
    (s.changeTarget ctx d f).2.TalliesAt x c es := by
  by_cases hd : (ctx.tenantId, d) = (x, c)
  · obtain ⟨rfl, rfl⟩ := Prod.mk.inj hd
    unfold Store.changeTarget
    split
    · exact ht
    · rename_i t hstored
      refine ⟨ht.ended, fun t' ht' => ?_⟩
      have hrow : (s.putTarget (f t)).target? ctx.tenantId d = some (f t) := by
        rw [target?_putTarget, hstored, Option.map_some, if_pos (hkey t).symm]
      obtain rfl := Option.some.inj (hrow.symm.trans ht')
      exact hf t _ (ht.target t hstored)
  · exact ht.of_same (.changeTarget hd hkey)

/-- A target that has just been registered has no endings yet. -/
theorem TalliesAt.createTarget (hs : s.Consistent) (ht : s.TalliesAt x c es) {ctx : Context}
    {now : Instant} {n : NewTarget} {t : Target} (hok : s.createTarget ctx now n = .ok (t, s')) :
    s'.TalliesAt x c es := by
  by_cases hn : (ctx.tenantId, n.controllerId) = (x, c)
  · obtain ⟨rfl, rfl⟩ := Prod.mk.inj hn
    have hs' := hs.createTarget hok
    obtain ⟨-, hfree, rfl, rfl⟩ := createTarget_eq_ok_iff.mp hok
    have hrow : ({ s with targets := s.targets ++ [n.row ctx now] } : Store).target? ctx.tenantId
        n.controllerId = some (n.row ctx now) :=
      (target?_eq_some_iff hs').mpr ⟨List.mem_append_right _ (List.mem_singleton_self _), rfl⟩
    have hnone : s.actionsOf ctx.tenantId n.controllerId = [] := actionsOf_eq_nil hs hfree
    obtain rfl := ht.eq_nil hs hfree
    refine ⟨ht.ended, fun t' ht' => ?_⟩
    obtain rfl := Option.some.inj (hrow.symm.trans ht')
    show Target.Tallies _ (!(s.activeOf ctx.tenantId n.controllerId).isEmpty) []
    rw [activeOf, hnone]
    exact ⟨rfl, rfl, rfl⟩
  · exact ht.of_same (.createTarget hn hok)

/-- A target that is deleted is forgotten. -/
theorem TalliesAt.deleteTarget (hs : s.Consistent) (ht : s.TalliesAt x c es) {ctx : Context}
    {d : String} : (s.deleteTarget ctx d).2.TalliesAt x c
      (if ((s.deleteTarget ctx d).2.target? x c).isNone then [] else es) := by
  have hs' := hs.deleteTarget (c := d) ctx
  by_cases hd : (ctx.tenantId, d) = (x, c)
  · obtain ⟨rfl, rfl⟩ := Prod.mk.inj hd
    have hgone := s.target?_deleteTarget ctx d
    rw [hgone]
    exact of_gone hs' hgone
  · exact (ht.of_same (.deleteTarget hs hd)).forget hs'

/-- What clients ask for leaves targets tallying. -/
theorem TalliesAt.client (hs : s.Consistent) (ho : o.request.CommitsNothing)
    (ht : s.TalliesAt x c (h x c)) (success : Option Instant) :
    (s.after o).TalliesAt x c (h.after success s o x c) := by
  rw [Chronicle.after_of_commitsNothing ho]
  obtain ⟨ctx, now, q⟩ := o
  have hs' := hs.perform ctx now q
  have heffect := s.perform_effect ctx now q
  show TalliesAt (s.perform ctx now q).2 x c
    (if ((s.perform ctx now q).2.target? x c).isNone then [] else h x c)
  generalize (s.perform ctx now q).2 = s' at heffect hs' ⊢
  cases heffect with
  | delete d => exact ht.deleteTarget hs
  | none => exact ht.forget hs'
  | register hok => exact (ht.createTarget hs hok).forget hs'
  | describe d desc =>
    refine TalliesAt.forget hs' (ht.changeTarget (fun _ => rfl) fun t hasActive ht => ?_)
    exact ht.of_state_eq rfl rfl
  | contact d time =>
    refine TalliesAt.forget hs' (ht.changeTarget (fun _ => rfl) fun t hasActive ht => ?_)
    exact ht.contacted time
  | sets sets last =>
    refine TalliesAt.forget hs' ?_
    exact ht.of_same (.of_tables rfl rfl rfl)
  | commit cs => exact ho.elim

/-- So do calls. -/
theorem talliesAt_kept {call : Call} (hcall : ∀ d, call ≠ .recalculate d) (hdated : call.IsDated) :
    KeptWith call TalliesAt where
  same := fun _ ht hsame => ht.of_same hsame
  gone := fun hs _ hgone => .of_gone hs hgone
  client := fun hs ho ht => ht.client hs ho _
  commit := fun hs hread hacc ht => hread.tallies hs hacc hcall hdated ht

/-- All targets tally with a chronicle. -/
structure TalliesWith (s : Store) (h : Chronicle) : Prop where
  consistent : s.Consistent
  target : ∀ x c, s.TalliesAt x c (h x c)

/-- They do so after a call that is no recalculation. -/
theorem TalliesWith.call (hs : s.TalliesWith h) {ctx : Context} {call : Call}
    (hcall : ∀ d, call ≠ .recalculate d) {readings : List Instant} {ops : List Op}
    (hmakes : (call.program ctx).Makes s readings ops) :
    (s.afterAll ops).TalliesWith (h.afterAll (call.dated readings).success? s ops) := by
  have hkept := talliesAt_kept (fun d => call.dated_ne_recalculate (hcall d))
    (call.isDated_dated readings)
  exact ⟨hs.consistent.afterAll ops, fun x c => hkept.completed ctx hs.consistent hmakes (hs.target x c)⟩

end Store

/-! ## Completed calls -/

/-- A store and the chronicle that was kept from the start, call by call.  No call recalculates a
target, and clients have no changes of their own committed; the clock is free. -/
inductive Recorded : Store → Chronicle → Prop where
  | empty : Recorded .empty fun _ _ => []
  | client {s : Store} {h : Chronicle} (before : Recorded s h) (o : Op)
      (quiet : o.request.CommitsNothing) : Recorded (s.after o) (h.after none s o)
  | call {s : Store} {h : Chronicle} (before : Recorded s h) (ctx : Context) {call : Call}
      (plain : ∀ c, call ≠ .recalculate c) {readings : List Instant} {ops : List Op}
      (makes : (call.program ctx).Makes s readings ops) :
      Recorded (s.afterAll ops) (h.afterAll (call.dated readings).success? s ops)

namespace Recorded

open Store

variable {s : Store} {h : Chronicle}

theorem talliesWith (hrec : Recorded s h) : s.TalliesWith h := by
  induction hrec with
  | empty => exact ⟨.empty, fun _ _ => .of_gone .empty rfl⟩
  | client _ o quiet ih =>
    exact ⟨ih.consistent.after o, fun x c => (ih.target x c).client ih.consistent quiet none⟩
  | call _ _ plain makes ih => exact ih.call plain makes

/-- After every sequence of completed calls, whatever the clock does, each target says what has
become of its actions since it was registered: its update state follows from whether an action is
active and from the action that ended last, with what is assigned and installed and whether there was
a contact; and what is installed, and since when, is what the last report of success has said.  The
actions in the chronicle are those that have ended, as the store holds them. -/
theorem target_tallies (hrec : Recorded s h) {x c : String} {t : Target}
    (ht : s.target? x c = some t) :
    t.updateStatus = deriveUpdateStatus (!(s.activeOf x c).isEmpty)
        ((h x c).getLast?.map Ending.action) t.assigned t.installed t.lastContact.isSome ∧
      t.installed = (lastSuccess (h x c)).map Prod.fst ∧
      t.installedAt = (lastSuccess (h x c)).map Prod.snd ∧
      ∀ a, a ∈ (h x c).map Ending.action ↔ a ∈ s.actionsOf x c ∧ a.active = false := by
  have htallies := hrec.talliesWith.target x c
  obtain ⟨hstatus, hinstalled, hinstalledAt⟩ := htallies.target t ht
  exact ⟨hstatus, hinstalled, hinstalledAt, htallies.ended⟩

end Recorded

/-- Every sequence of calls, done while the clock stands still, has a chronicle. -/
theorem exists_recorded {tasks : List Task} (hraw : ∀ task ∈ tasks, ¬ task.IsRaw)
    (hplain : ∀ ctx c time, .call ctx (.recalculate c) time ∉ tasks) :
    ∃ h, Recorded (Store.empty.afterTasks tasks) h := by
  induction tasks using List.reverseRecOn with
  | nil => exact ⟨_, .empty⟩
  | append_singleton tasks task ih =>
    obtain ⟨h, hrec⟩ := ih (fun task hmem => hraw task (List.mem_append_left _ hmem))
      fun ctx c time hmem => hplain ctx c time (List.mem_append_left _ hmem)
    rw [Store.afterTasks_concat]
    cases task with
    | request o =>
      have hmem : Task.request o ∈ tasks ++ [.request o] := by simp
      exact ⟨_, hrec.client o (Task.commitsNothing (hraw _ hmem))⟩
    | call ctx call time =>
      obtain ⟨readings, ops, hmakes, hstate⟩ := (call.program ctx).makes_runOn time
        (Store.empty.afterTasks tasks)
      rw [Store.afterTask, hstate]
      refine ⟨_, hrec.call ctx (fun c heq => ?_) hmakes⟩
      rw [heq] at hplain
      exact hplain ctx c time (List.mem_append_right _ (List.mem_singleton_self _))

theorem comeback_target : ((Store.empty.afterTasks comeback).target? "acme" "device").map
    (fun t => (t.updateStatus, t.installed, t.installedAt)) = some (.inSync, some 2, some 6) := by
  decide +kernel

/-- What the device has reported after it was registered again is the last success on record, and
the action that it had before is not on record. -/
theorem comeback_recorded : ∃ h, Recorded (Store.empty.afterTasks comeback) h ∧
    lastSuccess (h "acme" "device") = some (2, 6) ∧
    ∀ a ∈ (h "acme" "device").map Ending.action, a.id = 2 := by
  obtain ⟨h, hrec⟩ := exists_recorded comeback_not_raw (by simp [comeback, Store.sampleOps])
  obtain ⟨t, ht, hstate⟩ := Option.map_eq_some_iff.mp comeback_target
  obtain ⟨-, hinstalled, hinstalledAt⟩ : t.updateStatus = .inSync ∧ t.installed = some 2 ∧
      t.installedAt = some 6 := by simpa using hstate
  obtain ⟨-, hset, htime, hended⟩ := hrec.target_tallies ht
  refine ⟨h, hrec, ?_, fun a ha => ?_⟩
  · cases hlast : lastSuccess (h "acme" "device") with
    | none =>
      rw [hlast, hinstalled] at hset
      cases hset
    | some success =>
      rw [hlast, hinstalled] at hset
      rw [hlast, hinstalledAt] at htime
      exact congrArg some (Prod.ext (Option.some.inj hset).symm (Option.some.inj htime).symm)
  · have hmem := (Store.mem_actionsOf.mp ((hended a).mp ha).1).1
    have hid : (a.id, a.active) ∈ (Store.empty.afterTasks comeback).actions.map
        fun a => (a.id, a.active) := List.mem_map_of_mem hmem
    rw [comeback_actions] at hid
    exact (Prod.mk.inj (List.mem_singleton.mp hid)).1

end FleetUpdate
