import FleetUpdate.Proofs.Deployment.Books
import FleetUpdate.Proofs.Deployment.Coherent
import FleetUpdate.Proofs.Deployment.Recalculation
import FleetUpdate.Proofs.Deployment.Seen

/-!
# What a refusal restores

A device that refuses to stop an action, or fails to, puts it back to the last status in its log that
counts.  In each step of a run the log of an active action grows as one turn of it says
(`World.Free.goesOn`), so this status is the one that the action held before it was canceling, unless
the device has said something that counts while the action was canceling and that is still the last of
its kind (`World.LogsLate`).  `World.refusal_restores_iff` says that for all runs, and also that
nothing but another call can keep a refusal from being heard.

What has been logged late does mislead: `overheard_not_restored` is a device that runs an action, is
asked to stop it, reports a download, refuses, and finds the action downloaded.
-/

namespace FleetUpdate

open Program Store

/-! ## Steps and logs -/

/-- The action and its log are as they were, or a transition has turned the action and has logged
that. -/
def Store.KeepsOrTurns (s s' : Store) (a a' : Action) : Prop :=
  (a' = a ∧ s'.logOf a.id = s.logOf a.id) ∨
    ∃ ctx tr u now added, s.Turned tr a u ∧ a' = u.writeTo ctx now a ∧
      s'.logOf a.id = s.logOf a.id ++ added ∧ added.map StatusEntry.status = tr.logs u

/-- A turn gives an action a new revision. -/
theorem Store.Turned.writeTo_ne {s : Store} {tr : Transition} {a : Action} {u : ActionUpdate}
    (h : s.Turned tr a u) (ctx : Context) (now : Instant) : a ≠ u.writeTo ctx now a := by
  obtain ⟨es, ending, hturns⟩ := h.turns
  intro hsame
  have hrevision := congrArg Action.revision hsame
  rw [ActionUpdate.writeTo, if_pos hturns.action.1.symm] at hrevision
  exact absurd hrevision (Int.ne_of_lt (Int.lt_succ a.revision))

/-- A commit keeps an action and its log, or turns it and logs that. -/
theorem Store.KeepsOrTurns.written {s s₁ : Store} {a : Action} {ctx : Context} {now : Instant}
    {call : Call} {change : TargetChange} {tr : Transition} {v : TargetView} (ha : a ∈ s.actions)
    (hages : s.Ages s₁) (hP : ∀ a' ∈ s₁.actions, a'.id = a.id → s.KeepsOrTurns s₁ a a')
    (hread : s.ReadPlan Ages ctx call change tr v) (hacc : s₁.Accepts ctx change) :
    ∀ a' ∈ (s₁.written ctx now change).actions, a'.id = a.id →
      s.KeepsOrTurns (s₁.written ctx now change) a a' := by
  have hs₁ := hages.consistent
  intro a' ha' hid
  rcases List.mem_append.mp ha' with ha' | hnew
  · obtain ⟨b, hb, rfl⟩ := List.mem_map.mp ha'
    rw [TargetChange.writeAction_id] at hid
    by_cases hu : ∃ u ∈ change.actionUpdates, u.actionId = b.id
    · obtain ⟨u, hu, hub⟩ := hu
      obtain ⟨hmem, hturned⟩ := hread.turned_of_accepts_later hages hacc hu ha (hub.trans hid)
      obtain rfl : b = a := hs₁.actions.eq_of_id_eq hb hmem hid
      obtain ⟨events, hp⟩ := hread.plan
      obtain ⟨added, hlog, hadded⟩ := exists_logOf_written_eq hs₁ ctx now change hb
      -- nobody else has turned the action by then
      have hsame : s₁.logOf b.id = s.logOf b.id := by
        rcases hP b hb rfl with ⟨-, hsame⟩ | ⟨_, _, _, _, _, hturned', hwritten, -⟩
        · exact hsame
        · exact absurd hwritten (hturned'.writeTo_ne _ _)
      rw [TargetChange.writeAction_of_mem hread.nodup_updates hu hub]
      refine .inr ⟨ctx, tr, u, now, added, hturned, rfl, by rw [hlog, hsame], ?_⟩
      rw [hadded, ← hub]
      exact tr.statuses_of_updates hp hread.nodup_view hu
    · have hno : ∀ e ∈ change.entries, e.action ≠ .existing b.id := by
        intro e he haction
        exact hu (hread.entries e he b.id haction)
      rw [TargetChange.writeAction_of_forall_ne fun u hmem hid => hu ⟨u, hmem, hid⟩]
      have hlog : (s₁.written ctx now change).logOf b.id = s₁.logOf b.id :=
        logOf_written_of_forall_ne hs₁ hb hno
      rw [hid] at hlog
      rcases hP b hb hid with ⟨rfl, hsame⟩ | ⟨ctx', tr', u', now', added, hturned, hb', hadds, hlogs⟩
      · exact .inl ⟨rfl, hlog.trans hsame⟩
      · exact .inr ⟨ctx', tr', u', now', added, hturned, hb', hlog.trans hadds, hlogs⟩
  · -- a new action has an id that no action had before
    have hlt := createdBy_id hnew
    have hle := hages.before.actions.le_last a ha
    have hgrows := hages.grows.last_le
    omega

namespace World

variable {w w' : World} {ws : List World} {a a' : Action} {call : Call} {k : Nat}

/-- In every step an action and its log are kept, or the action is turned once. -/
theorem Free.keepsOrTurns (h : w.Free) (hstep : w.FreeStep w') (ha : a ∈ w.store.actions)
    (ha' : a' ∈ w'.store.actions) (hid : a'.id = a.id) : w.store.KeepsOrTurns w'.store a a' := by
  refine h.step_induction (P := fun s' => ∀ a' ∈ s'.actions, a'.id = a.id →
    w.store.KeepsOrTurns s' a a') hstep ?_ ?_ ?_ a' ha' hid
  · exact fun a' ha' hid => .inl ⟨h.consistent.actions.eq_of_id_eq ha' ha hid, rfl⟩
  · intro o ho a' ha' hid
    obtain ⟨hmem, hlog⟩ := kept_of_commitsNothing h.consistent ho ha'
    obtain rfl := h.consistent.actions.eq_of_id_eq hmem ha hid
    exact .inl ⟨rfl, hlog⟩
  · exact fun s₁ ctx now call change tr v hages hP hread hacc => .written ha hages hP hread hacc

/-- An action that is active after a step was active before, and has gone on. -/
theorem Free.goesOn (h : w.Free) (hstep : w.FreeStep w') (ha : a ∈ w.store.actions)
    (ha' : a' ∈ w'.store.actions) (hid : a'.id = a.id) (hactive : a'.active = true) :
    a.active = true ∧ ∃ added, w'.store.logOf a.id = w.store.logOf a.id ++ added ∧
      GoesOn (w.store.logOf a.id) a.status a'.status (added.map StatusEntry.status) := by
  rcases h.keepsOrTurns hstep ha ha' hid with ⟨rfl, hlog⟩ | ⟨ctx, tr, u, now, added, hturned, hwritten,
    hlog, hadded⟩
  · exact ⟨hactive, [], by rw [hlog, List.append_nil], .keeps⟩
  · obtain ⟨es, ending, hturns⟩ := hturned.turns
    have hu : a'.status = u.status ∧ a'.active = u.active := by
      rw [hwritten, ActionUpdate.writeTo, if_pos hturns.action.1.symm]
      exact ⟨rfl, rfl⟩
    refine ⟨hturned.active, added, hlog, ?_⟩
    rw [hadded, hu.1]
    exact hturns.goesOn (hu.2.symm.trans hactive) hturned.log

/-! ## Along a run -/

/-- The statuses that the action with an id has had along a run. -/
def statusesOf (ws : List World) (i : Int) : List ActionStatus :=
  ws.filterMap fun w => (w.store.actionById? i).map Action.status

theorem statusesOf_take_succ (hk : ws[k]? = some w) (hs : w.store.Consistent)
    (ha : a ∈ w.store.actions) :
    statusesOf (ws.take (k + 1)) a.id = statusesOf (ws.take k) a.id ++ [a.status] := by
  have hfound := (actionById?_eq_some_iff hs).mpr ⟨ha, rfl⟩
  rw [statusesOf, List.take_add_one, hk, List.filterMap_append]
  simp [statusesOf, hfound]

/-- What counts last in the log of the action in the `k`-th world was logged in the `j`-th step, which
found the action canceling. -/
structure LogsLate (ws : List World) (j k : Nat) (i : Int) (status : ActionStatus) : Prop where
  order : j < k
  counts : status.isPassing = false
  logged : ∃ w w' a e, StepAt ws j w w' ∧ a ∈ w.store.actions ∧ a.id = i ∧ a.status = .canceling ∧
    w'.store.logOf i = w.store.logOf i ++ [e] ∧ e.status = status
  last : ∃ w w' rest, ws[j + 1]? = some w ∧ ws[k]? = some w' ∧
    w'.store.logOf i = w.store.logOf i ++ rest ∧ ∀ e ∈ rest, e.status.isPassing = true

theorem LogsLate.status_eq {j : Nat} {i : Int} {status : ActionStatus}
    (h : LogsLate ws j k i status) (hk : ws[k]? = some w) :
    statusBeforeCanceling (w.store.logOf i) = status := by
  obtain ⟨v, v', b, e, hat, -, -, -, hlogged, rfl⟩ := h.logged
  obtain ⟨u, u', rest, hu, hu', hrest, hpassing⟩ := h.last
  obtain rfl := Option.some.inj (hat.after.symm.trans hu)
  obtain rfl := Option.some.inj (hk.symm.trans hu')
  rw [hrest, statusBeforeCanceling_append_of_passing hpassing, hlogged,
    statusBeforeCanceling_append_of_counts h.counts]

theorem LogsLate.later {j : Nat} {i : Int} {status : ActionStatus} (h : LogsLate ws j k i status)
    (hat : StepAt ws k w w') {added : List StatusEntry}
    (hlog : w'.store.logOf i = w.store.logOf i ++ added)
    (hpassing : ∀ e ∈ added, e.status.isPassing = true) : LogsLate ws j (k + 1) i status := by
  refine ⟨Nat.lt_succ_of_lt h.order, h.counts, h.logged, ?_⟩
  obtain ⟨v, v', rest, hv, hv', hrest, hrestPassing⟩ := h.last
  obtain rfl := Option.some.inj (hat.before.symm.trans hv')
  refine ⟨v, w', rest ++ added, hv, hat.after, by rw [hlog, hrest, List.append_assoc], ?_⟩
  exact fun e he => (List.mem_append.mp he).elim (hrestPassing e) (hpassing e)

namespace IsRun

/-- Active actions agree with their logs, unless something has been logged late. -/
theorem agreesOr (h : IsRun ws) (hk : ws[k]? = some w) (ha : a ∈ w.store.actions)
    (hactive : a.active = true) :
    AgreesOr (∃ j status, LogsLate ws j k a.id status) (statusesOf (ws.take (k + 1)) a.id)
      (w.store.logOf a.id) := by
  refine index_induction (P := fun k w => ∀ a ∈ w.store.actions, a.active = true →
    AgreesOr (∃ j status, LogsLate ws j k a.id status) (statusesOf (ws.take (k + 1)) a.id)
      (w.store.logOf a.id)) h.start (fun a ha => by cases ha)
    (fun k w w' hat ih a ha hactive => ?_) hk a ha hactive
  have hfree := h.free w hat.mem.1
  have hfree' := h.free w' hat.mem.2
  have hstep := hat.of_isChain h.steps
  rw [statusesOf_take_succ hat.after hfree'.consistent ha]
  by_cases hold : ∃ b ∈ w.store.actions, b.id = a.id
  · obtain ⟨b, hb, hid⟩ := hold
    obtain ⟨hbactive, added, hlog, hgoes⟩ := hfree.goesOn hstep hb ha hid.symm hactive
    have hbefore := ih b hb hbactive
    rw [statusesOf_take_succ hat.before hfree.consistent hb] at hbefore
    have hagrees := hgoes.agreesOr rfl hbefore
    rw [← statusesOf_take_succ hat.before hfree.consistent hb, ← hlog, hid] at hagrees
    rw [hid] at hlog
    refine AgreesOr.mono hagrees ?_
    rintro (⟨⟨j, status, hlate⟩, hpassing⟩ | ⟨hcanceling, e, rfl, hcounts⟩)
    · exact ⟨j, status, hlate.later hat hlog hpassing⟩
    · refine ⟨k, e.status, Nat.lt_succ_self k, hcounts, ?_, ?_⟩
      · exact ⟨w, w', b, e, hat, hb, hid, hcanceling, hlog, rfl⟩
      · exact ⟨w', w', [], hat.after, hat.after, by simp, by simp⟩
  · -- the action has just been created
    have hnew := hfree.newborn hstep a ha fun b hb hid => hold ⟨b, hb, hid⟩
    obtain ⟨e, hlog, he⟩ := hnew.log
    rw [hlog, ← he]
    exact .newborn (he ▸ hnew.undispatched)

/-- An action that is canceling is active. -/
theorem active_of_canceling (h : IsRun ws) (hw : w ∈ ws) (ha : a ∈ w.store.actions)
    (hcanceling : a.status = .canceling) : a.active = true := by
  have hended : ∀ w ∈ ws, ∀ a ∈ w.store.actions, a.active = false → a.status ≠ .canceling := by
    refine h.forall_actions (h.isChain fun _ _ _ _ => trivial) (fun s a hnew ha => ?_) ?_
    · rw [hnew.active] at ha
      cases ha
    · intro w w' call a a' hw _ hmoves _ ha' hcanceling
      have hend := hmoves.isEnd hw ha'
      rw [hcanceling] at hend
      cases hend
  by_contra hinactive
  exact hended w hw a ha (by simpa using hinactive) hcanceling

end IsRun

/-- An action goes on, and just in the status that it held before it was canceling, unless something
else that counts was logged last while the action was canceling. -/
structure GoesBack (ws : List World) (k : Nat) (held : ActionStatus) (a' : Action) : Prop where
  active : a'.active = true
  status : a'.status = held ↔ ∀ j status, LogsLate ws j k a'.id status → status = held

/-- Whoever goes back to what the log tells goes back to what was held, or to what has been logged
late. -/
theorem IsRun.exists_held (h : IsRun ws) (hk : ws[k]? = some w) (ha : a ∈ w.store.actions)
    (hcanceling : a.status = .canceling) :
    ∃ held, heldBeforeCanceling (statusesOf (ws.take (k + 1)) a.id) = some held ∧
      ∀ a' : Action, a'.id = a.id → a'.active = true →
        a'.status = statusBeforeCanceling (w.store.logOf a.id) → GoesBack ws k held a' := by
  have hactive := h.active_of_canceling (List.mem_of_getElem? hk) ha hcanceling
  obtain ⟨held, hheld, hlate⟩ := h.agreesOr hk ha hactive
  refine ⟨held, hheld, fun a' hid hactive' hstatus => ⟨hactive', ?_⟩⟩
  rw [hstatus, hid]
  constructor
  · intro hagrees j status hlogs
    exact (hlogs.status_eq hk).symm.trans hagrees
  · intro hno
    rcases hlate with hagrees | ⟨j, status, hlogs⟩
    · exact hagrees
    · exact (hlogs.status_eq hk).trans (hno j status hlogs)

end World

/-! ## Refusals that are made at once -/

section Refusal

variable {s : Store} {ctx : Context} {a : Action} {v : TargetView} {α β : Type}

/-- Alone at a store, the program returns as `Q` says. -/
def Program.Achieves (p : Program α) (Q : α → Store → Prop) (s : Store) : Prop :=
  p.Yields Still (fun _ => True) (fun a _ s' => Q a s') (fun _ _ _ => False) s

theorem achieves_bind {p : Program α} {f : α → Program β} {Q : β → Store → Prop}
    (h : p.Achieves (fun a s' => (f a).Achieves Q s') s) : (p.bind f).Achieves Q s :=
  yields_bind.mpr h

theorem achieves_lookup {r : Request} {find : Store → r.Answer} {Q : r.Answer → Store → Prop}
    (hx : ctx.tenantId ≠ "") (hr : ∀ (s : Store) now, s.answer ctx now r = (.ok (find s), s))
    (h : Q (find s) s) : (request ctx r).Achieves Q s := by
  refine yields_lookup hx hr ?_
  rintro s' ⟨rfl, -⟩ now
  exact h

/-- A call about an action of a tenant finds what it looks for. -/
theorem Store.Reads.achieves_load (hs : s.Consistent) (h : s.Reads ctx a v)
    {f : Action → TargetView → Program Action} {Q : Action → Store → Prop}
    (hf : (f a v).Achieves Q s) :
    ((loadAction ctx a.id).bind fun a => (loadView ctx a.controllerId).bind (f a)).Achieves Q s := by
  obtain ⟨hmem, howner⟩ := mem_actionsOf.mp h.action
  obtain ⟨t, ht, rfl⟩ := h.view
  have hfound : s.action? ctx.tenantId a.id = some a :=
    (action?_eq_some_iff hs).mpr ⟨hmem, rfl, (Prod.mk.inj howner).1⟩
  refine achieves_bind (achieves_bind (achieves_lookup h.tenant (fun _ _ => rfl) ?_))
  rw [hfound]
  refine achieves_bind (achieves_bind (achieves_lookup h.tenant (fun _ _ => rfl) ?_))
  rw [ht]
  exact achieves_bind (achieves_bind (achieves_lookup h.tenant (fun _ _ => rfl) hf))

theorem achieves_logIfCanceling (hs : s.Consistent) (h : s.Reads ctx a v)
    (hcanceling : a.status = .canceling) {Q : List StatusEntry → Store → Prop}
    (hQ : Q (s.logOf a.id) s) : (logIfCanceling ctx a).Achieves Q s := by
  rw [logIfCanceling, if_pos hcanceling]
  refine achieves_lookup h.tenant (fun _ _ => rfl) ?_
  rw [findLog_of_mem hs h.action]
  exact hQ

theorem achieves_date {r : IncomingReport} {Q : StatusReport → Store → Prop}
    (hQ : ∀ time, Q ⟨r.status, r.messages, r.code, time⟩ s) : r.date.Achieves Q s := by
  unfold IncomingReport.date
  split
  · exact hQ _
  · exact fun time _ => hQ _

/-- A refusal is planned for whatever action is canceling. -/
theorem planCancelFeedback_of_refuses {r : StatusReport} (hactive : a.active = true)
    (hcanceling : a.status = .canceling) (hr : r.status = .cancelRejected ∨ r.status = .error)
    (log : List StatusEntry) : ∃ p, planCancelFeedback v a r log = .ok p := by
  unfold planCancelFeedback
  rw [if_neg (by simp [hactive, hcanceling])]
  rcases hr with hr | hr
  · rw [hr]
    exact ⟨_, rfl⟩
  · rw [hr]
    exact ⟨_, rfl⟩

theorem planStatusUpdate_of_rejected {r : StatusReport} (hactive : a.active = true)
    (hcanceling : a.status = .canceling) (hr : r.status = .cancelRejected)
    (log : List StatusEntry) : ∃ p, planStatusUpdate v a r log = .ok p := by
  obtain ⟨p, hp⟩ := planCancelFeedback_of_refuses (v := v) hactive hcanceling (.inl hr) log
  refine ⟨p, ?_⟩
  simp [planStatusUpdate, hactive, hcanceling, hr, ActionStatus.isDeviceReportable, hp]

/-- What a refusal achieves: the action goes on, in the status that its log tells. -/
def Store.RefusedTo (s : Store) (a : Action) (u : Action) (s' : Store) : Prop :=
  s'.actionById? a.id = some u ∧ u.active = true ∧ u.status = statusBeforeCanceling (s.logOf a.id)

/-- When its plan is committed, a refusal takes the action back to what its log tells. -/
theorem Store.Reads.achieves_refusal (hs : s.Consistent) (h : s.Reads ctx a v) {what : ActionCall}
    (tr : Transition) (hplans : (Call.act a.id what).Plans ctx tr) (hsubject : tr.subject? = some a)
    {p : Plan} (hp : tr.plan? v = some p)
    (hlog : ∀ r log, tr.Answers a r log → log = s.logOf a.id)
    (hrefuses : (Call.act a.id what).Refuses a.id) {f : Action → Program Action}
    (hf : ∀ u s', (f u).Achieves (fun u' s'' => u' = u ∧ s'' = s') s') :
    ((commitAction ctx p a.id).bind f).Achieves (s.RefusedTo a) s := by
  refine achieves_bind ((h.yields_commitAction hs tr hplans hsubject hp).mono ?_ fun _ _ _ hno => hno)
  rintro u ds s' ⟨w, now, hone, -, rfl⟩
  refine (hf u _).mono ?_ fun _ _ _ hno => hno
  rintro _ _ _ ⟨rfl, rfl⟩
  have hturned : s.Turned tr a w :=
    ⟨hone.mem, hone.active, hone.turns, fun r log hanswers _ => hlog r log hanswers⟩
  obtain ⟨-, hactive, hstatus, -⟩ := hturned.of_refuses hplans hrefuses
  obtain ⟨hsame, hsame'⟩ := hone.status_eq
  refine ⟨?_, hsame'.trans hactive, hsame.trans hstatus⟩
  rw [(actionById?_written_of_mem ctx now p.change hs hone.mem).2, hone.written]

theorem Store.Reads.achieves_reportStatus (hs : s.Consistent) (h : s.Reads ctx a v)
    (hactive : a.active = true) (hcanceling : a.status = .canceling) {r : IncomingReport}
    (hr : r.status = .cancelRejected) : (reportStatus ctx a.id r).Achieves (s.RefusedTo a) s := by
  refine h.achieves_load hs (achieves_bind (achieves_logIfCanceling hs h hcanceling ?_))
  refine achieves_bind (achieves_date fun time => ?_)
  obtain ⟨p, hp⟩ := planStatusUpdate_of_rejected (v := v) (r := ⟨r.status, r.messages, r.code, time⟩)
    hactive hcanceling hr (s.logOf a.id)
  rw [hp]
  refine h.achieves_refusal hs (.report a ⟨r.status, r.messages, r.code, time⟩ (s.logOf a.id))
    (.act .report) rfl (by rw [Transition.plan?, hp]; rfl) ?_ ⟨rfl, hr⟩ fun u s' => ?_
  · rintro r' log (⟨⟩ | _)
    rfl
  · refine achieves_bind ?_
    dsimp only
    split <;> exact ⟨rfl, rfl⟩

theorem Store.Reads.achieves_reportCancel (hs : s.Consistent) (h : s.Reads ctx a v)
    (hactive : a.active = true) (hcanceling : a.status = .canceling) {r : IncomingReport}
    (hr : r.status = .cancelRejected ∨ r.status = .error) :
    (reportCancel ctx a.id r).Achieves (s.RefusedTo a) s := by
  refine h.achieves_load hs (achieves_bind (achieves_logIfCanceling hs h hcanceling ?_))
  refine achieves_bind (achieves_date fun time => ?_)
  obtain ⟨p, hp⟩ := planCancelFeedback_of_refuses (v := v) (r := ⟨r.status, r.messages, r.code, time⟩)
    hactive hcanceling hr (s.logOf a.id)
  rw [hp]
  refine h.achieves_refusal hs (.reportCancel a ⟨r.status, r.messages, r.code, time⟩ (s.logOf a.id))
    (.act .reportCancel) rfl (by rw [Transition.plan?, hp]; rfl) ?_ ⟨rfl, hr⟩ fun u s' => ?_
  · rintro r' log (_ | ⟨⟩)
    rfl
  · refine achieves_bind ?_
    dsimp only
    split <;> exact ⟨rfl, rfl⟩

/-- Everybody of its tenant can read an action and its target. -/
theorem Store.Consistent.exists_reads (hs : s.Consistent) (hblank : ∀ c, s.target? "" c = none)
    (ha : a ∈ s.actions) (hx : ctx.tenantId = a.tenantId) : ∃ v, s.Reads ctx a v := by
  obtain ⟨t, ht, howner⟩ := hs.owner a ha
  have htarget : s.target? ctx.tenantId a.controllerId = some t := by
    rw [hx]
    exact (target?_eq_some_iff hs).mpr ⟨ht, howner⟩
  refine ⟨_, fun hempty => ?_, mem_actionsOf.mpr ⟨ha, by rw [hx]; rfl⟩, t, htarget, rfl⟩
  rw [hempty, hblank] at htarget
  cases htarget

/-- A refusal that is made at once succeeds. -/
theorem Store.Consistent.refused (hs : s.Consistent) (hblank : ∀ c, s.target? "" c = none)
    (ha : a ∈ s.actions) (hactive : a.active = true) (hcanceling : a.status = .canceling)
    (hx : ctx.tenantId = a.tenantId) {call : Call} (hrefuses : call.Refuses a.id) (time : Instant) :
    ((call.program ctx).runOn time s).result.isOk ∧
      ∃ u, s.RefusedTo a u ((call.program ctx).runOn time s).state := by
  obtain ⟨v, hreads⟩ := hs.exists_reads hblank ha hx
  have hruns {p : Program Action} (h : p.Achieves (s.RefusedTo a) s) :
      (p.runOn time s).result.isOk ∧ ∃ u, s.RefusedTo a u (p.runOn time s).state := by
    have hresult := @Yields.runOn _ _ _ _ _ _ s time h (fun s hs => ⟨rfl, hs⟩) hs trivial
    cases hout : (p.runOn time s).result with
    | ok u =>
      rw [hout] at hresult
      exact ⟨rfl, u, hresult⟩
    | error e =>
      rw [hout] at hresult
      exact hresult.elim
  cases call with
  | act i what =>
    cases what with
    | report r =>
      obtain ⟨rfl, hr⟩ := hrefuses
      exact hruns (hreads.achieves_reportStatus hs hactive hcanceling hr)
    | reportCancel r =>
      obtain ⟨rfl, hr⟩ := hrefuses
      exact hruns (hreads.achieves_reportCancel hs hactive hcanceling hr)
    | _ => exact hrefuses.elim
  | _ => exact hrefuses.elim

end Refusal

/-! ## What refusals restore -/

namespace World

variable {w w' : World} {ws : List World} {a a' : Action} {call : Call} {k : Nat}

/-- No target of a run belongs to the empty tenant. -/
theorem IsRun.target?_blank (h : IsRun ws) (hw : w ∈ ws) (c : String) :
    w.store.target? "" c = none := by
  have hsteps : ws.IsChain fun w w' => w.Free ∧ w.FreeStep w' :=
    h.isChain fun w w' hw hstep => ⟨hw, hstep⟩
  refine forall_mem_of_isChain (P := fun w => w.store.target? "" c = none) h.start hsteps rfl
    (fun w w' ⟨hfree, hstep⟩ hblank => ?_) w hw
  rcases hstep.cases_at with hsame | ⟨o, -, rfl⟩ | ⟨n, ctx, q, hasks⟩
  · rw [hsame]
    exact hblank
  · exact target?_blank_after hfree.consistent hblank o
  · obtain ⟨now, hstore⟩ := hasks.store_eq
    rw [hstore]
    exact target?_blank_after hfree.consistent hblank ⟨ctx, now, q⟩

/-- Along every run: an action that is canceling has held some status before.  Whenever its device
refuses to stop it, or fails to, the action stays active; and it goes back to just that status, unless
the device has said something else that counts while it was canceling, and nothing that counts has
been logged since.  The device is always heard if no other call comes in between. -/
theorem refusal_restores_iff (h : IsRun ws) (hk : ws[k]? = some w) (ha : a ∈ w.store.actions)
    (hcanceling : a.status = .canceling) :
    ∃ held, heldBeforeCanceling (statusesOf (ws.take (k + 1)) a.id) = some held ∧
      (∀ w' call a', StepAt ws k w w' → w.Moves w' call a a' → call.Refuses a.id →
        GoesBack ws k held a') ∧
      ∀ (ctx : Context) (call : Call) time, ctx.tenantId = a.tenantId → call.Refuses a.id →
        ((call.program ctx).runOn time w.store).result.isOk ∧
          ∃ a', ((call.program ctx).runOn time w.store).state.actionById? a.id = some a' ∧
            GoesBack ws k held a' := by
  have hw := List.mem_of_getElem? hk
  have hfree := h.free w hw
  have hs := hfree.consistent
  have hactive := h.active_of_canceling hw ha hcanceling
  obtain ⟨held, hheld, hback⟩ := h.exists_held hk ha hcanceling
  refine ⟨held, hheld, fun w' call a' _ hmoves hrefuses => ?_, fun ctx call time hx hrefuses => ?_⟩
  · obtain ⟨-, hactive', hstatus, -⟩ := hmoves.of_refuses hfree hrefuses
    exact hback a' hmoves.id_eq hactive' hstatus
  · obtain ⟨hok, u, hfound, hactive', hstatus⟩ :=
      hs.refused (h.target?_blank hw) ha hactive hcanceling hx hrefuses time
    have hs' := hs.runOn (call.program ctx) time
    have hid := ((actionById?_eq_some_iff hs').mp hfound).2
    exact ⟨hok, u, hfound, hback u hid hactive' hstatus⟩

end World

/-! ## A device that has gone on in the meantime -/

/-- A device that runs an action is asked to stop, and reports that it has downloaded the set. -/
def overheard : List Task :=
  Store.sampleOps.map .request ++
    [.call Store.sampleContext (.assign .standard (.forced 1 ["device"])) 2,
      .call Store.sampleContext (.act 1 (.report ⟨.running, [], none, some 3⟩)) 3,
      .call Store.sampleContext (.act 1 .cancel) 4,
      .call Store.sampleContext (.act 1 (.report ⟨.downloaded, [], none, some 5⟩)) 5]

/-- Then it refuses to stop. -/
def refusal : Call := .act 1 (.report ⟨.cancelRejected, [], none, some 6⟩)

theorem overheard_not_raw : ∀ task ∈ overheard, ¬ task.IsRaw := by
  simp [overheard, Store.sampleOps, Task.IsRaw]

/-- The action was running before it was canceling, but goes on as downloaded. -/
theorem overheard_not_restored :
    (∀ task ∈ overheard ++ [.call Store.sampleContext refusal 6], ¬ task.IsRaw) ∧
    heldBeforeCanceling ((overheard.scanl Store.afterTask .empty).filterMap fun s =>
      (s.actionById? 1).map Action.status) = some .running ∧
    ((Store.empty.afterTasks overheard).actionById? 1).map (fun a => (a.active, a.status)) =
      some (true, .canceling) ∧
    ((Store.empty.afterTasks (overheard ++ [.call Store.sampleContext refusal 6])).actionById? 1).map
      (fun a => (a.active, a.status)) = some (true, .downloaded) := by
  refine ⟨?_, by decide +kernel, by decide +kernel, by decide +kernel⟩
  simp [overheard, Store.sampleOps, Task.IsRaw]

/-- In a run with this refusal, the report that came in between decides. -/
theorem overheard_goes_back : ∃ ws k w a held, World.IsRun ws ∧ ws[k]? = some w ∧
    w.store = Store.empty.afterTasks overheard ∧ a ∈ w.store.actions ∧ a.status = .canceling ∧
    heldBeforeCanceling (World.statusesOf (ws.take (k + 1)) a.id) = some held ∧
    ∃ a', (w.store.afterTask (.call Store.sampleContext refusal 6)).actionById? a.id = some a' ∧
      a'.status = .downloaded ∧ World.GoesBack ws k held a' := by
  obtain ⟨ws, hrun, hpasses⟩ := World.exists_isRun overheard_not_raw
  obtain ⟨w, hw, hstore⟩ := World.exists_mem_of_scanl hpasses
  obtain ⟨k, hk⟩ := List.mem_iff_getElem?.mp hw
  obtain ⟨a, ha, hid, htenant, hcanceling⟩ : ∃ a ∈ w.store.actions, a.id = 1 ∧
      a.tenantId = "acme" ∧ a.status = .canceling := by
    have hmem : (1, "acme", ActionStatus.canceling) ∈
        w.store.actions.map fun a => (a.id, a.tenantId, a.status) := by
      rw [hstore]
      decide +kernel
    obtain ⟨a, ha, heq⟩ := List.mem_map.mp hmem
    obtain ⟨hid, heq⟩ := Prod.mk.inj heq
    exact ⟨a, ha, hid, Prod.mk.inj heq⟩
  obtain ⟨held, hheld, -, halone⟩ := World.refusal_restores_iff hrun hk ha hcanceling
  have hrefuses : refusal.Refuses a.id := ⟨hid.symm, rfl⟩
  obtain ⟨-, a', hfound, hback⟩ := halone Store.sampleContext refusal 6 htenant.symm hrefuses
  have hstatus : ((w.store.afterTask (.call Store.sampleContext refusal 6)).actionById? 1).map
      Action.status = some .downloaded := by
    rw [hstore]
    decide +kernel
  refine ⟨ws, k, w, a, held, hrun, hk, hstore, ha, hcanceling, hheld, a', hfound, ?_, hback⟩
  obtain ⟨b, hb, hdownloaded⟩ := Option.map_eq_some_iff.mp hstatus
  rw [hid] at hfound
  obtain rfl := Option.some.inj (hfound.symm.trans hb)
  exact hdownloaded

end FleetUpdate
