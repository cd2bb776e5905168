import FleetUpdate.Proofs.Deployment.Seen
import FleetUpdate.Proofs.Deployment.Tally

/-!
# Contacts that are overwritten

A first contact of a device makes its target known, without a new revision.  So a call that has read
the target before the contact may still commit what it has planned, and if that ends the last action
of the target or recalculates it, the plan knows of no contact: it makes the target unknown again
(`World.Overwrites`).

Nothing else does, in whatever order the steps of calls and clients come while no target is deleted: a
target that has been contacted and has no active action is known exactly as long as no contact is
overwritten in this way (`World.contacts_known_iff`).
-/

namespace FleetUpdate

/-! ## Plans that know of a contact -/

theorem deriveUpdateStatus_ne_unknown (hasActive : Bool) (ended : Option Action)
    (assigned installed : Option Int) :
    deriveUpdateStatus hasActive ended assigned installed true ≠ .unknown := by
  rw [deriveUpdateStatus_contacted ended assigned installed false]
  split
  · simp
  · assumption

/-- What is planned for a target that has been contacted does not make it unknown. -/
theorem Transition.plan?_ne_unknown {tr : Transition} {v : TargetView} {p : Plan}
    (hp : tr.plan? v = some p) (hv : v.target.lastContact.isSome = true) {st : TargetState}
    (hst : p.change.targetState = some st) : st.updateStatus ≠ .unknown := by
  cases hsub : tr.subject? with
  | some a =>
    obtain ⟨-, u, es, ending, -, rfl⟩ := tr.plan?_turns hp hsub
    obtain ⟨termination, -, rfl⟩ := Option.map_eq_some_iff.mp hst
    rw [TargetView.stateAfter, Target.updateStatus_stateAfter, hv]
    exact deriveUpdateStatus_ne_unknown _ _ _ _
  | none =>
    cases tr with
    | assign n mode now =>
      obtain rfl := Option.some.inj hp
      obtain rfl := Option.some.inj hst
      exact UpdateStatus.noConfusion
    | recalculate ended =>
      rw [planRecalculation_eq_some hp, hv] at hst
      obtain rfl := Option.some.inj hst
      exact deriveUpdateStatus_ne_unknown _ _ _ _
    | _ => cases hsub

/-- Only a transition of an action may leave the state of the target alone. -/
theorem Transition.exists_subject_of_targetState {tr : Transition} {v : TargetView} {p : Plan}
    (hp : tr.plan? v = some p) (hst : p.change.targetState = none) :
    ∃ a, tr.subject? = some a := by
  cases tr with
  | assign n mode now =>
    obtain rfl := Option.some.inj hp
    cases hst
  | recalculate ended =>
    rw [planRecalculation_eq_some hp] at hst
    cases hst
  | _ => exact ⟨_, rfl⟩

/-- The request has the target made unknown. -/
def Request.MakesUnknown (ctx : Context) (x c : String) : Request → Prop
  | applyChanges cs => ∃ change ∈ cs, (ctx.tenantId, change.controllerId) = (x, c) ∧
      ∃ st, change.targetState = some st ∧ st.updateStatus = .unknown
  | _ => False

theorem Request.MakesUnknown.exists_changes {q : Request} {ctx : Context} {x c : String}
    (h : q.MakesUnknown ctx x c) : ∃ cs, q = .applyChanges cs := by
  cases q with
  | applyChanges cs => exact ⟨cs, rfl⟩
  | _ => exact h.elim

theorem Request.IsQuiet.not_makesUnknown {q : Request} (hq : q.IsQuiet) {ctx : Context}
    {x c : String} : ¬ q.MakesUnknown ctx x c := by
  cases q with
  | applyChanges cs => exact hq.elim
  | _ => exact fun h => h

/-! ## Targets and their contacts -/

namespace Store

variable {s s' : Store} {x c : String} {ctx : Context} {now : Instant} {q : Request} {call : Call}
  {change : TargetChange}

/-- The target is stored, and its device has not made contact yet. -/
def Uncontacted (s : Store) (x c : String) : Prop :=
  ∃ t, s.target? x c = some t ∧ t.lastContact = none

/-- The target is stored, and its device has made contact. -/
def Contacted (s : Store) (x c : String) : Prop :=
  ∃ t, s.target? x c = some t ∧ t.lastContact.isSome = true

/-- A target without active actions whose device has made contact is not unknown. -/
def KnowsContact (s : Store) (x c : String) : Prop :=
  ∀ t, s.target? x c = some t → s.activeOf x c = [] → t.lastContact.isSome = true →
    t.updateStatus ≠ .unknown

theorem Contacted.not_uncontacted (h : s.Contacted x c) : ¬ s.Uncontacted x c := by
  rintro ⟨t, ht, hnone⟩
  obtain ⟨t', ht', hsome⟩ := h
  obtain rfl := Option.some.inj (ht.symm.trans ht')
  rw [hnone] at hsome
  cases hsome

/-- A stored target has been contacted or not. -/
theorem contacted_of_not_uncontacted {t : Target} (ht : s.target? x c = some t)
    (h : ¬ s.Uncontacted x c) : s.Contacted x c :=
  ⟨t, ht, Option.isSome_iff_ne_none.mpr fun hnone => h ⟨t, ht, hnone⟩⟩

theorem KnowsContact.of_same (h : s.KnowsContact x c) (hsame : SameAt x c s s') :
    s'.KnowsContact x c := by
  intro t ht hidle
  rw [hsame.target] at ht
  rw [hsame.activeOf_eq] at hidle
  exact h t ht hidle

/-- A target after its row was changed is the target as it was, or the changed one. -/
theorem target?_changeTarget {d : String} {f : Target → Target} {t' : Target}
    (ht' : (s.changeTarget ctx d f).2.target? x c = some t') (hkey : ∀ t, (f t).key = t.key) :
    ∃ t, s.target? x c = some t ∧ (t' = t ∨ t' = f t) := by
  by_cases hd : (ctx.tenantId, d) = (x, c)
  · obtain ⟨rfl, rfl⟩ := Prod.mk.inj hd
    unfold Store.changeTarget at ht'
    split at ht'
    · exact ⟨t', ht', .inl rfl⟩
    · rename_i t ht
      rw [target?_putTarget, ht, Option.map_some, if_pos (hkey t).symm] at ht'
      exact ⟨t, ht, .inr (Option.some.inj ht').symm⟩
  · rw [(SameAt.changeTarget hd hkey).target] at ht'
    exact ⟨t', ht', .inl rfl⟩

/-- After a request without commits, a target that is stored was stored before with the same contact
and update status, or has not been contacted, or is known. -/
theorem target?_of_quiet (hs : s.Consistent) (hq : q.IsQuiet) {t' : Target}
    (ht' : (s.perform ctx now q).2.target? x c = some t') :
    (∃ t, s.target? x c = some t ∧ t'.lastContact = t.lastContact ∧
      t'.updateStatus = t.updateStatus) ∨
    t'.lastContact = none ∨ t'.updateStatus ≠ .unknown := by
  have heffect := s.perform_effect ctx now q
  have hs' := hs.perform ctx now q
  generalize (s.perform ctx now q).2 = s' at heffect hs' ht'
  cases heffect with
  | none => exact .inl ⟨t', ht', rfl, rfl⟩
  | @register n t s' hok =>
    by_cases hn : (ctx.tenantId, n.controllerId) = (x, c)
    · obtain ⟨-, -, -, rfl⟩ := createTarget_eq_ok_iff.mp hok
      have hrow : n.row ctx now ∈ s.targets ++ [n.row ctx now] :=
        List.mem_append_right _ (List.mem_singleton_self _)
      rw [(target?_eq_some_iff hs').mpr ⟨hrow, hn⟩] at ht'
      obtain rfl := Option.some.inj ht'
      exact .inr (.inl rfl)
    · rw [(SameAt.createTarget hn hok).target] at ht'
      exact .inl ⟨t', ht', rfl, rfl⟩
  | describe d desc =>
    unfold Store.updateTarget at ht'
    obtain ⟨t, ht, rfl | rfl⟩ := target?_changeTarget ht' fun _ => rfl
    · exact .inl ⟨t', ht, rfl, rfl⟩
    · exact .inl ⟨t, ht, rfl, rfl⟩
  | contact d time =>
    unfold Store.markContacted at ht'
    obtain ⟨t, ht, rfl | rfl⟩ := target?_changeTarget ht' fun _ => rfl
    · exact .inl ⟨t', ht, rfl, rfl⟩
    · refine .inr (.inr ?_)
      dsimp only
      split
      · simp
      · assumption
  | delete d => exact hq.elim
  | sets sets last => exact .inl ⟨t', ht', rfl, rfl⟩
  | commit cs => exact hq.elim

theorem KnowsContact.quiet (hs : s.Consistent) (h : s.KnowsContact x c) (hq : q.IsQuiet) :
    (s.perform ctx now q).2.KnowsContact x c := by
  intro t' ht' hidle hcontact
  rcases target?_of_quiet hs hq ht' with ⟨t, ht, hsame, hstatus⟩ | hnone | hknown
  · have hactions : (s.perform ctx now q).2.actions = s.actions :=
      actions_of_quiet s (o := ⟨ctx, now, q⟩) hq
    rw [activeOf, actionsOf, hactions] at hidle
    rw [hstatus]
    exact h t ht hidle (hsame ▸ hcontact)
  · rw [hnone] at hcontact
    cases hcontact
  · exact hknown

/-- A planned change keeps a target known, unless it is made to make it unknown: if the change leaves
the state of the target alone, then some action goes on. -/
theorem KnowsContact.written (hs : s.Consistent) (h : s.KnowsContact x c)
    (hacc : s.Accepts ctx change) (hplanned : s.Planned ctx call change)
    (hno : (ctx.tenantId, change.controllerId) = (x, c) →
      ∀ st, change.targetState = some st → st.updateStatus ≠ .unknown) :
    (s.written ctx now change).KnowsContact x c := by
  by_cases hkey : (ctx.tenantId, change.controllerId) = (x, c)
  · obtain ⟨tr, v, t, hcommit⟩ := hplanned.commit hs now
    obtain ⟨rfl, rfl⟩ := Prod.mk.inj hkey
    intro t' ht' hidle _
    obtain rfl := Option.some.inj (hcommit.row.symm.trans ht')
    have hstate := hcommit.state
    cases hst : change.targetState with
    | some st =>
      rw [hst, Option.getD_some] at hstate
      have hstatus := congrArg TargetState.updateStatus hstate
      exact fun hunknown => hno rfl st hst (hstatus.symm.trans hunknown)
    | none =>
      exfalso
      obtain ⟨events, hp⟩ := hcommit.plan
      obtain ⟨a, hsubject⟩ := tr.exists_subject_of_targetState hp hst
      obtain ⟨u, ending, hturn⟩ := hcommit.turning hsubject
      cases ending with
      | none =>
        have hmem := hturn.mem_activeAfter hcommit
        rw [hidle] at hmem
        cases hmem
      | some termination =>
        have hsome := hturn.state
        rw [hst] at hsome
        cases hsome
  · exact h.of_same (.written hs hacc hkey)

theorem KnowsContact.commitAll (hs : s.Consistent) (h : s.KnowsContact x c)
    {cs : List TargetChange} (hplanned : ∀ change ∈ cs, ∀ s', s.Advances s' →
      s'.Accepts ctx change → s'.Planned ctx call change)
    (hno : ¬ (Request.applyChanges cs).MakesUnknown ctx x c) :
    (s.commitAll ctx now cs).2.KnowsContact x c := by
  induction cs generalizing s with
  | nil => exact h
  | cons change cs ih =>
    have hs₁ := hs.commit ctx now change
    have hadv : s.Advances (s.commit ctx now change).2 := ⟨hs₁, fun _ _ => .commit hs change⟩
    have hfirst : (s.commit ctx now change).2.KnowsContact x c := by
      rcases commit_cases hs ctx now change with ⟨k, hacc, hcommit, -⟩ | ⟨e, -, hcommit⟩
      · rw [hcommit]
        refine h.written hs hacc (hplanned change List.mem_cons_self s (.refl hs) hacc) ?_
        exact fun hkey st hst hunknown =>
          hno ⟨change, List.mem_cons_self, hkey, st, hst, hunknown⟩
      · rw [hcommit]
        exact h
    refine ih hs₁ hfirst (fun change' hmem s' hs' => ?_) ?_
    · exact hplanned change' (List.mem_cons_of_mem _ hmem) s' (hadv.trans hs')
    · rintro ⟨change', hmem, hunknown⟩
      exact hno ⟨change', List.mem_cons_of_mem _ hmem, hunknown⟩

/-- What a call asks for keeps a target known, unless it has the target made unknown. -/
theorem KnowsContact.perform (hs : s.Consistent) (h : s.KnowsContact x c)
    (hissues : Issues call ctx q s) (hno : ¬ q.MakesUnknown ctx x c) :
    (s.perform ctx now q).2.KnowsContact x c := by
  by_cases hq : q.IsQuiet
  · exact h.quiet hs hq
  · cases q with
    | applyChanges cs =>
      unfold Store.perform
      split
      · exact h
      · exact h.commitAll hs hissues.2 hno
    | deleteTarget d => exact hissues.elim
    | _ => exact absurd trivial hq

/-- Commits register no targets and make no contacts. -/
theorem contact_of_commitAll (hs : s.Consistent) {cs : List TargetChange} {t' : Target}
    (ht' : (s.commitAll ctx now cs).2.target? x c = some t') :
    ∃ t, s.target? x c = some t ∧ t'.lastContact = t.lastContact := by
  induction cs generalizing s with
  | nil => exact ⟨t', ht', rfl⟩
  | cons change cs ih =>
    obtain ⟨u, hu, hlast⟩ := ih (hs.commit ctx now change) ht'
    rcases commit_cases hs ctx now change with ⟨k, -, hcommit, -⟩ | ⟨e, -, hcommit⟩
    · rw [hcommit, target?_written] at hu
      obtain ⟨t, ht, rfl⟩ := Option.map_eq_some_iff.mp hu
      exact ⟨t, ht, hlast.trans (change.lastContact_writeTarget t)⟩
    · rw [hcommit] at hu
      exact ⟨u, hu, hlast⟩

/-- If a target is not known any more after a request, its device had made contact before. -/
theorem KnowsContact.contacted_of_makesUnknown (hs : s.Consistent) (h : s.KnowsContact x c)
    (hq : q.MakesUnknown ctx x c) (hno : ¬ (s.perform ctx now q).2.KnowsContact x c) :
    s.Contacted x c := by
  obtain ⟨cs, rfl⟩ := hq.exists_changes
  unfold Store.perform at hno
  split at hno
  · exact absurd h hno
  · simp only [KnowsContact, not_forall] at hno
    obtain ⟨t', ht', -, hcontact, -⟩ := hno
    obtain ⟨t, ht, hlast⟩ := contact_of_commitAll hs ht'
    exact ⟨t, ht, hlast ▸ hcontact⟩

/-- A lookup shows that the target has not been contacted. -/
def ShowsUncontacted (x c : String) (ctx : Context) (q : Request) (s : Store) : Prop :=
  ctx.tenantId = x ∧ q = .findTarget c ∧ s.Uncontacted x c

end Store

/-! ## What a call has seen before it makes a target unknown -/

section Calls

open Program Store

variable {ctx : Context} {x c : String}

theorem Request.IsLookup.isQuiet {q : Request} (hq : q.IsLookup) : q.IsQuiet := by
  cases q with
  | deleteTarget _ | applyChanges _ => exact hq.elim
  | _ => trivial

/-- A view of the target that shows no contact comes from a lookup that shows none. -/
theorem safeUntil_loadView_contacted {safe : Context → Request → Prop}
    (hlook : ∀ q, q.IsLookup → safe ctx q) (d : String) :
    (loadView ctx d).SafeUntil (ShowsUncontacted x c) safe fun v =>
      (ctx.tenantId, v.target.controllerId) = (x, c) → v.target.lastContact.isSome = true := by
  refine safeUntil_bind.mpr (safeUntil_lookup (fun _ _ => rfl) fun s _ => ?_)
  by_cases hshows : ShowsUncontacted x c ctx (.findTarget d) s
  · exact .inl hshows
  · refine .inr ⟨hlook _ trivial, safeUntil_bind.mpr (safeUntil_require.mpr fun t ht => ?_)⟩
    refine safeUntil_bind.mpr (safeUntil_request (hlook _ trivial) fun actions hkey => ?_)
    rw [TargetView.target_ofActions] at hkey ⊢
    obtain ⟨rfl, rfl⟩ := Prod.mk.inj hkey
    have hd : t.controllerId = d := (Prod.mk.inj (key_of_target? ht)).2
    refine Option.isSome_iff_ne_none.mpr fun hnone => hshows ⟨rfl, by rw [hd], t, ?_, hnone⟩
    rw [hd]
    exact ht

/-- Before a call has a target made unknown, it has found the target without a contact. -/
theorem Call.safeUntil_uncontacted (x c : String) (ctx : Context) (call : Call) :
    (call.program ctx).SafeUntil (ShowsUncontacted x c) (fun cx q => ¬ q.MakesUnknown cx x c)
      fun _ => True := by
  have hlook (q : Request) (hq : q.IsLookup) : ¬ q.MakesUnknown ctx x c := hq.isQuiet.not_makesUnknown
  have hplan {tr : Transition} {v : TargetView} {p : Plan}
      (hv : (ctx.tenantId, v.target.controllerId) = (x, c) → v.target.lastContact.isSome = true)
      (hp : tr.plan? v = some p) : ¬ (Request.applyChanges [p.change]).MakesUnknown ctx x c := by
    rintro ⟨change, hmem, hkey, st, hst, hunknown⟩
    obtain rfl := List.mem_singleton.mp hmem
    rw [(tr.plan?_target hp).1] at hkey
    exact tr.plan?_ne_unknown hp (hv hkey) hst hunknown
  cases call with
  | assign p r =>
    -- an assignment makes its targets pending
    refine (Call.only_plans ctx (.assign p r)).of_only.safe_mono fun cx q hplans hunknown => ?_
    obtain ⟨cs, rfl⟩ := hunknown.exists_changes
    obtain ⟨change, hmem, -, st, hst, hunknown⟩ := hunknown
    obtain ⟨tr, v, events, hplanned, hp⟩ := hplans cs rfl change hmem
    cases hplanned with
    | assign =>
      obtain rfl := congrArg Plan.change (Option.some.inj hp)
      obtain rfl := Option.some.inj hst
      cases hunknown
  | act i what =>
    exact ActionCall.safeUntil hlook (safeUntil_loadView_contacted hlook)
      (fun v tr p a hv _ hp => hplan hv hp) i what
  | recalculate d =>
    refine safeUntil_recalculateStatus hlook (safeUntil_loadView_contacted hlook d) ?_
    intro v ended p hv hp
    exact hplan hv (show (Transition.recalculate ended).plan? v = some p from hp)
  | register d =>
    exact safeUntil_findOrRegister hlook (fun _ hunknown => hunknown) fun _ _ hunknown => hunknown

end Calls

/-! ## Runs without deletions -/

namespace World

open Store

variable {w w' : World} {ws : List World} {x c : String} {i j k n : Nat}

/-- The worlds that follow each other while nobody deletes a target, starting without targets and
without calls; only calls have changes committed. -/
structure IsQuietRun (ws : List World) : Prop where
  start : ws.head? = some ⟨.empty, []⟩
  steps : ws.IsChain (Step (fun _ => True) Request.IsQuiet)

/-- The call at a place reads the target, and no contact with it. -/
def ReadsUncontacted (w w' : World) (n : Nat) (x c : String) : Prop :=
  ∃ ctx q, w.AsksAt w' n ctx q ∧ ShowsUncontacted x c ctx q w.store

/-- The device makes its first contact. -/
def MakesContact (w w' : World) (x c : String) : Prop :=
  w.store.Uncontacted x c ∧ w'.store.Contacted x c

/-- The call at a place has a change committed after which the contact is not known any more. -/
def ForgetsContact (w w' : World) (n : Nat) (x c : String) : Prop :=
  (∃ ctx cs, w.AsksAt w' n ctx (.applyChanges cs)) ∧ w.store.Contacted x c ∧
    w.store.KnowsContact x c ∧ ¬ w'.store.KnowsContact x c

/-- The call at place `n` overwrites the first contact of a device: it has read the target before the
contact, and has its change committed after it. -/
structure Overwrites (ws : List World) (n : Nat) (x c : String) (i j k : Nat) : Prop where
  order : i < j ∧ j < k
  reads : ∃ w w', StepAt ws i w w' ∧ w.ReadsUncontacted w' n x c
  contacts : ∃ w w', StepAt ws j w w' ∧ w.MakesContact w' x c
  forgets : ∃ w w', StepAt ws k w w' ∧ w.ForgetsContact w' n x c

/-- What a call is about to ask for is what it may ask for. -/
theorem Sound.issues {calls : Call → Prop} {I : Store → Prop} (h : w.Sound calls I) {ctx : Context}
    {q : Request} (hasks : w.AsksAt w' n ctx q) : ∃ call, calls call ∧ Issues call ctx q w.store := by
  obtain ⟨r, next, htakes, hrest⟩ := hasks
  obtain ⟨hcall, s₀, hs₀, hmeets⟩ := h.running r (List.mem_of_getElem? htakes.call)
  rw [hrest] at hmeets
  exact ⟨r.call, hcall, (hmeets w.store hs₀).1⟩

namespace IsQuietRun

/-- The worlds of a run are sound. -/
theorem sound (h : IsQuietRun ws) : ∀ w ∈ ws, w.Sound (fun _ => True) fun _ => True := by
  have hkept : Kept (fun _ => True) fun _ => True :=
    ⟨fun _ _ _ _ _ => trivial, fun _ _ _ _ _ _ _ _ _ _ => trivial⟩
  exact forall_mem_of_isChain h.start h.steps ⟨.empty, trivial, by simp⟩ fun w w' hstep hw =>
    hw.step hkept (fun _ hq => hq) hstep

theorem advances (h : IsQuietRun ws) (hat : StepAt ws k w w') : w.store.Advances w'.store := by
  have hsound := h.sound w hat.mem.1
  rcases (hat.of_isChain h.steps).cases_at with hsame | ⟨o, ho, rfl⟩ | ⟨n, ctx, q, hasks⟩
  · rw [hsame]
    exact .refl hsound.consistent
  · refine .after hsound.consistent fun d hd => ?_
    rw [hd] at ho
    exact ho
  · obtain ⟨now, hstore⟩ := hasks.store_eq
    obtain ⟨call, -, hissues⟩ := hsound.issues hasks
    rw [hstore]
    refine Advances.after (o := ⟨ctx, now, q⟩) hsound.consistent fun d hd => ?_
    obtain rfl : q = .deleteTarget d := hd
    exact hissues

/-- A contact that is not known any more has been overwritten. -/
theorem exists_overwrites (h : IsQuietRun ws) (hat : StepAt ws k w w')
    (hw : w.store.KnowsContact x c) (hw' : ¬ w'.store.KnowsContact x c) :
    ∃ n i j, Overwrites ws n x c i j k := by
  have hsound := h.sound w hat.mem.1
  have hs := hsound.consistent
  rcases (hat.of_isChain h.steps).cases_at with hsame | ⟨o, ho, rfl⟩ | ⟨n, ctx, q, hasks⟩
  · exact absurd (hsame ▸ hw) hw'
  · exact absurd (hw.quiet hs ho) hw'
  · obtain ⟨call, -, hissues⟩ := hsound.issues hasks
    obtain ⟨now, hstore⟩ := hasks.store_eq
    have hforgets : ¬ (w.store.perform ctx now q).2.KnowsContact x c := hstore ▸ hw'
    have hunknown : q.MakesUnknown ctx x c := by
      by_contra hno
      exact hforgets (hw.perform hs hissues hno)
    have hcontacted := hw.contacted_of_makesUnknown hs hunknown hforgets
    obtain ⟨cs, rfl⟩ := hunknown.exists_changes
    rcases asks_safe_or_seen h.steps h.start
      (fun ctx call _ => call.safeUntil_uncontacted x c ctx) hat hasks with
      hsafe | ⟨-, hno, -⟩ | ⟨i, u, u', ctx', q', hik, hreads, hasks', hsight⟩
    · exact absurd hunknown hsafe
    · cases hno
    · -- the target had no contact when the call read it, nor right after that
      obtain ⟨hx, rfl, hfirst⟩ := hsight
      have hfirst' : u'.store.Uncontacted x c := by
        rw [hasks'.store_of_isLookup trivial]
        exact hfirst
      obtain ⟨j, v, v', hij, hjk, hturn, hv, hv'⟩ :=
        exists_turning_point (P := fun w => w.store.Uncontacted x c) hik hreads.after hfirst'
          hat.before hcontacted.not_uncontacted
      obtain ⟨t, ht, -⟩ := id hv
      obtain ⟨t', ht', -⟩ := ((h.advances hturn).target x c).target t ht
      exact ⟨n, i, j, ⟨hij, hjk⟩, ⟨u, u', hreads, ctx', _, hasks', hx, rfl, hfirst⟩,
        ⟨v, v', hturn, hv, contacted_of_not_uncontacted ht' hv'⟩,
        ⟨w, w', hat, ⟨ctx, cs, hasks⟩, hcontacted, hw, hw'⟩⟩

end IsQuietRun

/-- However the steps of calls and the requests of clients follow each other, first contacts among
them, while no target is deleted: a target without active actions whose device has made contact is
never unknown, exactly as long as no call overwrites the first contact of a device. -/
theorem contacts_known_iff (h : IsQuietRun ws) :
    (∀ w ∈ ws, ∀ x c, w.store.KnowsContact x c) ↔ ∀ n x c i j k, ¬ Overwrites ws n x c i j k := by
  constructor
  · intro hknown n x c i j k hoverwrites
    obtain ⟨w, w', hat, -, -, -, hforgets⟩ := hoverwrites.forgets
    exact hforgets (hknown w' hat.mem.2 x c)
  · intro hno
    have hkeeps : ws.IsChain fun w w' => (∀ x c, w.store.KnowsContact x c) →
        ∀ x c, w'.store.KnowsContact x c := by
      refine isChain_of_stepAt fun k w w' hat hw x c => ?_
      by_contra hforgets
      obtain ⟨n, i, j, hoverwrites⟩ := h.exists_overwrites hat (hw x c) hforgets
      exact hno n x c i j k hoverwrites
    exact forall_mem_of_isChain h.start hkeeps (fun x c t ht => by cases ht) fun _ _ hkeeps => hkeeps

end World

/-! ## A cancellation that overwrites a contact -/

/-- The operator has assigned a distribution set to a device that has not made contact yet, -/
def uncontactedAssigned : Running × Store :=
  Running.advances 2 100
    (⟨Store.sampleContext, .assign .standard (.forced 1 ["device"]),
      Call.program Store.sampleContext (.assign .standard (.forced 1 ["device"]))⟩, Store.sample)

/-- and is about to have the action canceled; -/
def cancelPlanned : Running × Store :=
  Running.advances 3 4
    (⟨Store.sampleContext, .act 1 .cancel, Call.program Store.sampleContext (.act 1 .cancel)⟩,
      uncontactedAssigned.2)

/-- the device makes contact, -/
def contactMade : Store :=
  cancelPlanned.2.afterAll [⟨Store.sampleContext, 4, .markContacted "device" 4⟩]

/-- and the cancellation is committed. -/
def contactForgotten : World :=
  ⟨(cancelPlanned.1.advance 5 contactMade).2,
    [uncontactedAssigned.1, (cancelPlanned.1.advance 5 contactMade).1]⟩

theorem contactForgotten_reachable :
    contactForgotten.Reachable (fun _ => True) Request.IsQuiet := by
  have hsample : World.Reachable (fun _ => True) Request.IsQuiet ⟨Store.sample, []⟩ :=
    World.Reachable.requests .refl (by simp [Store.sampleOps, Request.IsQuiet])
  have hassigned : World.Reachable (fun _ => True) Request.IsQuiet
      ⟨uncontactedAssigned.2, [uncontactedAssigned.1]⟩ :=
    hsample.call Store.sampleContext trivial 2 100
  have hplanned : World.Reachable (fun _ => True) Request.IsQuiet
      ⟨cancelPlanned.2, [uncontactedAssigned.1] ++ [cancelPlanned.1]⟩ :=
    hassigned.call Store.sampleContext trivial 3 4
  have hcontact : World.Reachable (fun _ => True) Request.IsQuiet
      ⟨contactMade, [uncontactedAssigned.1] ++ [cancelPlanned.1]⟩ :=
    hplanned.requests (by simp [Request.IsQuiet])
  have hcommit : World.Step (fun _ => True) Request.IsQuiet
      ⟨contactMade, [uncontactedAssigned.1] ++ [cancelPlanned.1]⟩ contactForgotten := .run 5
  exact hcontact.tail hcommit

/-- The device has made contact and has no active action, but its target is unknown. -/
theorem contactForgotten_unknown : ¬ contactForgotten.store.KnowsContact "acme" "device" := by
  have hunknown : ((contactForgotten.store.target? "acme" "device").map fun t =>
      (t.lastContact, t.updateStatus)) = some (some 4, .unknown) := by
    decide +kernel
  obtain ⟨t, ht, hstate⟩ := Option.map_eq_some_iff.mp hunknown
  obtain ⟨hcontact, hstatus⟩ := Prod.mk.inj hstate
  exact fun hknows => hknows t ht (by decide +kernel) (by rw [hcontact]; rfl) hstatus

/-- So some run without deletions leads to an unknown target whose device has made contact. -/
theorem contactForgotten_in_run : ∃ ws, World.IsQuietRun ws ∧
    ∃ w ∈ ws, ¬ w.store.KnowsContact "acme" "device" := by
  obtain ⟨ws, hstart, hsteps, hmem⟩ := contactForgotten_reachable.exists_isChain
  exact ⟨ws, ⟨hstart, hsteps⟩, contactForgotten, hmem, contactForgotten_unknown⟩

/-- The cancellation has overwritten the contact in that run. -/
theorem contactForgotten_overwritten : ∃ ws, World.IsQuietRun ws ∧ contactForgotten ∈ ws ∧
    ∃ n x c i j k, World.Overwrites ws n x c i j k := by
  obtain ⟨ws, hstart, hsteps, hmem⟩ := contactForgotten_reachable.exists_isChain
  refine ⟨ws, ⟨hstart, hsteps⟩, hmem, ?_⟩
  by_contra hno
  simp only [not_exists] at hno
  have hknown := (World.contacts_known_iff ⟨hstart, hsteps⟩).mpr hno
  exact contactForgotten_unknown (hknown _ hmem "acme" "device")

end FleetUpdate
