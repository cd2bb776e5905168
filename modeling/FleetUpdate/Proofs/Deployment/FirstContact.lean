import FleetUpdate.Proofs.Deployment.Contacts
import FleetUpdate.Proofs.Store.Standing
import Mathlib.Data.Nat.Find

/-!
# First contacts of a device

A device whose target is not stored yet is registered when it makes contact.  It may do so several
times at once: any number of calls may look for the target before the first of them creates it, and
an assignment may come between one that creates it and another that notes its contact.

A call that finds or registers a target passes some stages on its way (`Contacting`).  From the
moment that it has seen the target it counts on it, which no step of others disturbs
(`Contacting.later`), and each turn brings it closer to its end (`Contacting.advance`).  So while no
target is deleted, all these calls return the one target that has been registered, which keeps what
commits have written of it (`World.first_contacts_register_once`).
-/

namespace FleetUpdate

open Program Store

/-- The contact with a stored target is noted in its row. -/
theorem Store.exists_markContacted_eq {s : Store} {ctx : Context} {c : String} {t : Target}
    (ht : s.target? ctx.tenantId c = some t) (time : Instant) :
    ∃ u : Target, u.key = (ctx.tenantId, c) ∧ u.lastContact = some time ∧
      s.markContacted ctx c time = (some u, s.putTarget u) := by
  refine ⟨{ t with
    lastContact := some time
    updateStatus := if t.updateStatus = .unknown then .registered else t.updateStatus },
    (key_of_target? ht :), rfl, ?_⟩
  rw [markContacted, changeTarget, ht]

namespace Store

variable {s : Store} {x c : String} {ctx : Context} {now : Instant} {q : Request}

/-- A request without commits that does not note a contact leaves the last contact alone. -/
theorem lastContact_of_isQuiet (hq : q.IsQuiet)
    (hno : ∀ time, q = .markContacted c time → ctx.tenantId ≠ x) {t : Target}
    (ht : s.target? x c = some t) :
    ∃ t', (s.perform ctx now q).2.target? x c = some t' ∧ t'.lastContact = t.lastContact := by
  have heffect := s.perform_effect ctx now q
  generalize (s.perform ctx now q).2 = s' at heffect ⊢
  cases heffect with
  | none => exact ⟨t, ht, rfl⟩
  | @register n u s' hok =>
    have hn : (ctx.tenantId, n.controllerId) ≠ (x, c) := by
      intro hn
      obtain ⟨rfl, rfl⟩ := Prod.mk.inj hn
      rw [(createTarget_eq_ok_iff.mp hok).2.1] at ht
      cases ht
    exact ⟨t, (SameAt.createTarget hn hok).target.trans ht, rfl⟩
  | describe d desc =>
    rw [Store.updateTarget, target?_changeTarget_eq, ht]
    · refine ⟨_, rfl, ?_⟩
      split <;> rfl
    · exact fun _ => rfl
  | contact d time =>
    have hd : (ctx.tenantId, d) ≠ (x, c) := by
      intro hd
      obtain ⟨hx, rfl⟩ := Prod.mk.inj hd
      exact hno time rfl hx
    have hsame : SameAt x c s (s.markContacted ctx d time).2 := .changeTarget hd fun _ => rfl
    exact ⟨t, hsame.target.trans ht, rfl⟩
  | delete d => exact hq.elim
  | sets sets last => exact ⟨t, ht, rfl⟩
  | commit cs => exact hq.elim

end Store

/-! ## The way of a call -/

/-- What concludes the first contact of a device: the contact is noted. -/
def noteContact (ctx : Context) (c : String) : Program Target := do
  let t ← recordedNow
  require .target c (← request ctx (.markContacted c t))

/-- The stages of a call that finds or registers a target, with the turns that it has left at most.
From the moment that it has found the target or has seen it registered, it counts on the target. -/
inductive Contacting (ctx : Context) (c : String) (s : Store) : Nat → Program Target → Prop where
  | looks : Contacting ctx c s 5 (findOrRegister ctx c)
  | registers : Contacting ctx c s 4 ((registerTarget ctx c).bind fun _ => noteContact ctx c)
  | tells (there : (s.target? ctx.tenantId c).isSome) : Contacting ctx c s 3
      (.note (.logged (.targetRegistered ctx.tenantId c)) (noteContact ctx c))
  | dates (there : (s.target? ctx.tenantId c).isSome) : Contacting ctx c s 2 (noteContact ctx c)
  | marks (there : (s.target? ctx.tenantId c).isSome) (time : Instant) :
      Contacting ctx c s 1 ((request ctx (.markContacted c time)).bind (require .target c))
  | returns (there : (s.target? ctx.tenantId c).isSome) {t : Target}
      (key : t.key = (ctx.tenantId, c)) : Contacting ctx c s 0 (.done t)

namespace Contacting

variable {ctx : Context} {c : String} {s s' : Store} {m : Nat} {rest : Program Target}

/-- As long as the target is not deleted, the others do not throw a call back. -/
theorem later (h : Contacting ctx c s m rest)
    (hkept : (s.target? ctx.tenantId c).isSome → (s'.target? ctx.tenantId c).isSome) :
    Contacting ctx c s' m rest := by
  cases h with
  | looks => exact .looks
  | registers => exact .registers
  | tells there => exact .tells (hkept there)
  | dates there => exact .dates (hkept there)
  | marks there time => exact .marks (hkept there) time
  | returns there key => exact .returns (hkept there) key

/-- A call has returned the target, or it has not come to an end yet. -/
theorem returned_or (h : Contacting ctx c s m rest) :
    (m = 0 ∧ (s.target? ctx.tenantId c).isSome ∧ ∃ t, rest = .done t ∧ t.key = (ctx.tenantId, c)) ∨
      0 < m ∧ (∀ t, rest ≠ .done t) ∧ ∀ e, rest ≠ .fail e := by
  cases h with
  | returns there key => exact .inl ⟨rfl, there, _, rfl, key⟩
  | _ => exact .inr ⟨by decide, fun t h => (nomatch h), fun e h => nomatch h⟩

/-- The last turn of a call is that in which it has the contact noted. -/
theorem marks_of_le_one (h : Contacting ctx c s m rest) (hm : m ≤ 1) (hno : ∀ t, rest ≠ .done t) :
    (s.target? ctx.tenantId c).isSome ∧
      ∃ time next, rest = .ask ctx (.markContacted c time) next := by
  cases h with
  | marks there time => exact ⟨there, time, _, rfl⟩
  | returns there key => exact absurd rfl (hno _)
  | _ => omega

/-- With each turn a call comes closer to its end. -/
theorem advance (hx : ctx.tenantId ≠ "") (hc : Text.allBlank c = false)
    (h : Contacting ctx c s m rest) (now : Instant) :
    ∃ m' rest', ((⟨ctx, .register c, rest⟩ : Running).advance now s).1 = ⟨ctx, .register c, rest'⟩ ∧
      Contacting ctx c ((⟨ctx, .register c, rest⟩ : Running).advance now s).2 m' rest' ∧
      m' ≤ m - 1 ∧ (1 < m → 0 < m') := by
  cases h with
  | looks =>
    have hperform : s.perform ctx now (.findTarget c) = (.ok (s.target? ctx.tenantId c), s) :=
      if_neg hx
    simp only [findOrRegister, bind_eq, request, Program.bind, Running.advance, hperform]
    cases hfound : s.target? ctx.tenantId c with
    | none => exact ⟨4, _, rfl, .registers, by decide, by decide⟩
    | some t => exact ⟨2, _, rfl, .dates (by rw [hfound]; rfl), by decide, by decide⟩
  | registers =>
    have hperform : s.perform ctx now (.createTarget (.ofId c)) =
        s.settle (s.createTarget ctx now (.ofId c)) := if_neg hx
    simp only [registerTarget, bind_eq, attempt, Program.bind, Running.advance, hperform]
    cases hfound : s.target? ctx.tenantId c with
    | none =>
      have hcreate : s.createTarget ctx now (.ofId c) = .ok ((NewTarget.ofId c).row ctx now,
          { s with targets := s.targets ++ [(NewTarget.ofId c).row ctx now] }) :=
        createTarget_eq_ok_iff.mpr ⟨hc, hfound, rfl, rfl⟩
      have hthere : (Store.target? { s with
          targets := s.targets ++ [(NewTarget.ofId c).row ctx now] } ctx.tenantId c).isSome := by
        simp [target?, NewTarget.row, NewTarget.ofId, Target.key]
      rw [hcreate]
      exact ⟨3, _, rfl, .tells hthere, by decide, by decide⟩
    | some t =>
      -- somebody else has been faster
      have hcreate : s.createTarget ctx now (.ofId c) = .error (.targetExists c) := by
        simp [createTarget, NewTarget.ofId, hc, hfound]
      rw [hcreate]
      exact ⟨2, _, rfl, .dates (by rw [settle, hfound]; rfl), by decide, by decide⟩
  | tells there => exact ⟨2, _, rfl, .dates there, by decide, by decide⟩
  | dates there => exact ⟨1, _, rfl, .marks there (epochMillis now), by decide, by decide⟩
  | marks there time =>
    obtain ⟨t, ht⟩ := Option.isSome_iff_exists.mp there
    obtain ⟨u, hkey, -, hmark⟩ := exists_markContacted_eq ht time
    have hperform : s.perform ctx now (.markContacted c time) = (.ok (some u), s.putTarget u) := by
      rw [Store.perform, if_neg hx]
      show Store.done (s.markContacted ctx c time) = _
      rw [hmark]
      rfl
    have hthere : ((s.putTarget u).target? ctx.tenantId c).isSome := by
      rw [target?_putTarget, ht]
      rfl
    simp only [request, Program.bind, Running.advance, hperform]
    exact ⟨0, _, rfl, .returns hthere hkey, by decide, by decide⟩
  | returns there key => exact ⟨0, _, rfl, .returns there key, by decide, by decide⟩

end Contacting

/-! ## Along a run -/

/-- A turn leaves it whose call it is, and which. -/
theorem Running.exists_of_advance_eq {r : Running} {ctx : Context} {call : Call}
    {rest : Program call.Reply} {now : Instant} {s : Store}
    (h : (r.advance now s).1 = ⟨ctx, call, rest⟩) : ∃ rest₀, r = ⟨ctx, call, rest₀⟩ := by
  obtain ⟨ctx₀, call₀, rest₀⟩ := r
  cases rest₀ <;> cases h <;> exact ⟨_, rfl⟩

namespace World

variable {calls : Call → Prop} {clients : Request → Prop} {w w' : World} {ws : List World}
  {x c : String} {i j k n : Nat} {r : Running}

/-- In the `k`-th step it is the turn of the call at a place. -/
def TurnAt (ws : List World) (n k : Nat) : Prop :=
  ∃ w w' r, StepAt ws k w w' ∧ w.TakesAt w' n r

open Classical in
/-- How often it has been the turn of the call at a place, before the `k`-th world. -/
noncomputable def turns (ws : List World) (n k : Nat) : Nat :=
  (List.range k).countP fun i => TurnAt ws n i

theorem turns_succ (h : TurnAt ws n k) : turns ws n (k + 1) = turns ws n k + 1 := by
  simp [turns, List.range_succ, List.countP_append, h]

theorem turns_succ_of_not (h : ¬ TurnAt ws n k) : turns ws n (k + 1) = turns ws n k := by
  simp [turns, List.range_succ, List.countP_append, h]

theorem StepAt.not_turnAt (hat : StepAt ws k w w') (h : ∀ r, ¬ w.TakesAt w' n r) :
    ¬ TurnAt ws n k := by
  rintro ⟨u, u', r, hat', htakes⟩
  obtain rfl := Option.some.inj (hat.before.symm.trans hat'.before)
  obtain rfl := Option.some.inj (hat.after.symm.trans hat'.after)
  exact h r htakes

/-- A call stays as it is until it is its turn. -/
theorem Step.running_of_forall_not (hstep : Step calls clients w w') (hr : w.running[n]? = some r)
    (h : ∀ r, ¬ w.TakesAt w' n r) : w'.running[n]? = some r := by
  cases hstep with
  | start ctx hcall =>
    have hlt := (List.getElem?_eq_some_iff.mp hr).choose
    exact (List.getElem?_append_left hlt).trans hr
  | client o ho => exact hr
  | @run s before after r₀ now =>
    have hne : before.length ≠ n := by
      rintro rfl
      exact h r₀ ⟨by simp, now, by simp⟩
    have hset : before ++ (r₀.advance now s).1 :: after =
        (before ++ r₀ :: after).set before.length (r₀.advance now s).1 := by simp
    show (before ++ (r₀.advance now s).1 :: after)[n]? = some r
    rw [hset, List.getElem?_set_ne hne]
    exact hr

/-- There are no fewer calls after a step. -/
theorem Step.length_le (hstep : Step calls clients w w') :
    w.running.length ≤ w'.running.length := by
  cases hstep <;> simp

/-- A place that is still free has had no turn. -/
theorem turns_eq_zero (hsteps : ws.IsChain (Step calls clients)) (hk : ws[k]? = some w)
    (hn : w.running.length ≤ n) : turns ws n k = 0 := by
  induction k generalizing w with
  | zero => rfl
  | succ k ih =>
    obtain ⟨w₁, hat⟩ := StepAt.exists_of_succ hk
    have hfree : w₁.running.length ≤ n := (hat.of_isChain hsteps).length_le.trans hn
    rw [turns_succ_of_not, ih hat.before hfree]
    refine hat.not_turnAt fun r htakes => ?_
    have htaken := (List.getElem?_eq_some_iff.mp htakes.call).choose
    omega

namespace IsQuietRun

/-- A stored target stays stored. -/
theorem target?_step (h : IsQuietRun ws) (hat : StepAt ws k w w')
    (hthere : (w.store.target? x c).isSome) : (w'.store.target? x c).isSome := by
  obtain ⟨t, ht⟩ := Option.isSome_iff_exists.mp hthere
  obtain ⟨t', ht', -⟩ := ((h.advances hat).target x c).target t ht
  rw [ht']
  rfl

/-- Every call that finds or registers the target is on its way, and each of its turns has brought
it forward. -/
theorem contacting (h : IsQuietRun ws) (hx : x ≠ "") (hc : Text.allBlank c = false)
    {ctx : Context} (hctx : ctx.tenantId = x) {rest : Program Target} (hk : ws[k]? = some w)
    (hr : w.running[n]? = some ⟨ctx, .register c, rest⟩) :
    ∃ m, Contacting ctx c w.store m rest ∧ m ≤ 5 - turns ws n k := by
  refine index_induction (P := fun k w => ∀ rest, w.running[n]? = some ⟨ctx, .register c, rest⟩ →
    ∃ m, Contacting ctx c w.store m rest ∧ m ≤ 5 - turns ws n k) h.start (fun rest hr => ?_)
    (fun k w w' hat ih rest hr => ?_) hk rest hr
  · cases hr
  by_cases hturn : ∃ r, w.TakesAt w' n r
  · -- it has been the turn of this call
    obtain ⟨r, htakes⟩ := hturn
    have hcall := htakes.call
    have hsucc := turns_succ (n := n) ⟨w, w', r, hat, htakes⟩
    obtain ⟨-, now, rfl⟩ := htakes
    have hset := (List.getElem?_eq_some_iff.mp hcall).choose
    rw [List.getElem?_set_self hset] at hr
    have hadvance := Option.some.inj hr
    obtain ⟨rest₀, rfl⟩ := Running.exists_of_advance_eq hadvance
    obtain ⟨m, hm, hle⟩ := ih rest₀ hcall
    obtain ⟨m', rest', hadvance', hm', hless, -⟩ := hm.advance (hctx ▸ hx) hc now
    cases hadvance.symm.trans hadvance'
    exact ⟨m', hm', by omega⟩
  · -- it has been somebody else's turn, or the call has just been started
    have hno := not_exists.mp hturn
    rw [turns_succ_of_not (hat.not_turnAt hno)]
    have hstep := hat.of_isChain h.steps
    cases hprev : w.running[n]? with
    | some r₁ =>
      have hsame := (hstep.running_of_forall_not hprev hno).symm.trans hr
      obtain rfl := Option.some.inj hsame
      obtain ⟨m, hm, hle⟩ := ih rest hprev
      exact ⟨m, hm.later (h.target?_step hat), hle⟩
    | none =>
      have hzero := turns_eq_zero h.steps hat.before (List.getElem?_eq_none_iff.mp hprev)
      rcases hstep.running_cases hr with hr | ⟨ctx', call, -, hstart⟩ | ⟨r₀, now, htakes, -⟩
      · rw [hprev] at hr
        cases hr
      · cases hstart
        exact ⟨5, .looks, by omega⟩
      · exact absurd htakes (hno r₀)

end IsQuietRun

/-! ### Commits and contacts -/

/-- In the step a call has changes committed, and of those that are accepted, the given one is the
last for the target: it leaves the target as it has written it. -/
def Commits (w w' : World) (x c : String) (change : TargetChange) : Prop :=
  ∃ n ctx now before after, w.AsksAt w' n ctx (.applyChanges (before ++ change :: after)) ∧
    (ctx.tenantId, change.controllerId) = (x, c) ∧
    (w.store.commitAll ctx now before).2.Accepts ctx change ∧
    SameAt x c ((w.store.commitAll ctx now before).2.written ctx now change) w'.store

/-- In the step a contact with the target at a time is noted. -/
def Marks (w w' : World) (x c : String) (time : Instant) : Prop :=
  ∃ ctx, ctx.tenantId = x ∧ ((∃ n, w.AsksAt w' n ctx (.markContacted c time)) ∨
    ∃ now, w' = ⟨w.store.after ⟨ctx, now, .markContacted c time⟩, w.running⟩)

/-- The call at a place finds or registers the target, and this is left of it. -/
def Registers (w : World) (n : Nat) (x c : String) (rest : Program Target) : Prop :=
  ∃ ctx : Context, ctx.tenantId = x ∧ w.running[n]? = some ⟨ctx, .register c, rest⟩

/-- In the `k`-th step the target is registered. -/
def RegistersAt (ws : List World) (k : Nat) (x c : String) : Prop :=
  ∃ w w', StepAt ws k w w' ∧ w.store.target? x c = none ∧ (w'.store.target? x c).isSome

/-- Commits register no targets. -/
theorem Commits.target?_isSome (hs : w.store.Consistent) {change : TargetChange}
    (h : w.Commits w' x c change) : (w.store.target? x c).isSome := by
  obtain ⟨n, ctx, now, before, after, -, hkey, hacc, -⟩ := h
  obtain ⟨rfl, rfl⟩ := Prod.mk.inj hkey
  obtain ⟨t, ht, -⟩ := hacc.target
  obtain ⟨u, hu, -⟩ := contact_of_commitAll hs ht
  rw [hu]
  rfl

theorem Marks.lastContact {time : Instant} (hx : x ≠ "") (h : w.Marks w' x c time) {t : Target}
    (ht : w.store.target? x c = some t) :
    ∃ t', w'.store.target? x c = some t' ∧ t'.lastContact = some time := by
  obtain ⟨ctx, rfl, h⟩ := h
  have hafter (now : Instant) : ∃ t', (w.store.perform ctx now (.markContacted c time)).2.target?
      ctx.tenantId c = some t' ∧ t'.lastContact = some time := by
    obtain ⟨u, hkey, hlast, hmark⟩ := exists_markContacted_eq ht time
    have hperform : (w.store.perform ctx now (.markContacted c time)).2 = w.store.putTarget u := by
      rw [Store.perform, if_neg hx]
      show (w.store.markContacted ctx c time).2 = _
      rw [hmark]
    refine ⟨u, ?_, hlast⟩
    rw [hperform, target?_putTarget, ht, Option.map_some,
      if_pos ((key_of_target? ht).trans hkey.symm)]
  rcases h with ⟨n, hasks⟩ | ⟨now, rfl⟩
  · obtain ⟨now, hstore⟩ := hasks.store_eq
    rw [hstore]
    exact hafter now
  · exact hafter now

namespace IsQuietRun

/-- Only commits change the standing of a target once it is registered. -/
theorem standing?_step (h : IsQuietRun ws) (hat : StepAt ws k w w')
    (hno : ∀ change, ¬ w.Commits w' x c change) :
    w'.store.standing? x c = w.store.standing? x c ∨
      w.store.target? x c = none ∧ w'.store.standing? x c = some .fresh := by
  have hsound := h.sound w hat.mem.1
  have hs := hsound.consistent
  rcases (hat.of_isChain h.steps).cases_at with hsame | ⟨o, ho, rfl⟩ | ⟨n, ctx, q, hasks⟩
  · exact .inl (by rw [hsame])
  · exact standing?_of_isQuiet hs ho
  · obtain ⟨call, -, hissues⟩ := hsound.issues hasks
    obtain ⟨now, hstore⟩ := hasks.store_eq
    by_cases hq : q.IsQuiet
    · rw [hstore]
      exact standing?_of_isQuiet hs hq
    · cases q with
      | deleteTarget d => exact hissues.elim
      | applyChanges cs =>
        rw [Store.perform] at hstore
        split at hstore
        · exact .inl (by rw [hstore])
        · have hcommits : w'.store = (w.store.commitAll ctx now cs).2 := hstore
          rcases commitAll_at hs ctx now x c cs with
            hsame | ⟨before, change, after, rfl, hkey, hacc, hleft⟩
          · exact .inl (by rw [hcommits, hsame.standing?_eq])
          · rw [← hcommits] at hleft
            exact absurd ⟨n, ctx, now, before, after, hasks, hkey, hacc, hleft⟩ (hno change)
      | _ => exact absurd trivial hq

/-- Only a contact that is noted changes the last contact of a stored target. -/
theorem lastContact_step (h : IsQuietRun ws) (hat : StepAt ws k w w')
    (hno : ∀ time, ¬ w.Marks w' x c time) {t : Target} (ht : w.store.target? x c = some t) :
    ∃ t', w'.store.target? x c = some t' ∧ t'.lastContact = t.lastContact := by
  have hsound := h.sound w hat.mem.1
  have hs := hsound.consistent
  rcases (hat.of_isChain h.steps).cases_at with
    hsame | ⟨⟨ctx, now, q⟩, ho, rfl⟩ | ⟨n, ctx, q, hasks⟩
  · exact ⟨t, by rw [hsame, ht], rfl⟩
  · refine lastContact_of_isQuiet ho (fun time hq hx => ?_) ht
    obtain rfl : q = .markContacted c time := hq
    exact hno time ⟨ctx, hx, .inr ⟨now, rfl⟩⟩
  · obtain ⟨call, -, hissues⟩ := hsound.issues hasks
    obtain ⟨now, hstore⟩ := hasks.store_eq
    by_cases hq : q.IsQuiet
    · rw [hstore]
      refine lastContact_of_isQuiet hq (fun time hq hx => ?_) ht
      subst hq
      exact hno time ⟨ctx, hx, .inl ⟨n, hasks⟩⟩
    · cases q with
      | deleteTarget d => exact hissues.elim
      | applyChanges cs =>
        obtain ⟨t', ht'⟩ := Option.isSome_iff_exists.mp (h.target?_step hat (by rw [ht]; rfl))
        refine ⟨t', ht', ?_⟩
        rw [Store.perform] at hstore
        split at hstore
        · rw [hstore] at ht'
          obtain rfl := Option.some.inj (ht.symm.trans ht')
          rfl
        · have hcommits : w'.store = (w.store.commitAll ctx now cs).2 := hstore
          rw [hcommits] at ht'
          obtain ⟨u, hu, hlast⟩ := contact_of_commitAll hs ht'
          obtain rfl := Option.some.inj (ht.symm.trans hu)
          exact hlast
      | _ => exact absurd trivial hq

/-- A target that is stored at some time is stored from then on. -/
theorem target?_later (h : IsQuietRun ws) (hle : j ≤ k) (hj : ws[j]? = some w)
    (hk : ws[k]? = some w') (hthere : (w.store.target? x c).isSome) :
    (w'.store.target? x c).isSome := by
  by_contra hno
  obtain ⟨i, u, u', -, -, hat, hu, hu'⟩ := exists_turning_point
    (P := fun w => (w.store.target? x c).isSome) hle hj hthere hk hno
  exact hu' (h.target?_step hat hu)

/-- So it is registered once. -/
theorem registersAt_unique (h : IsQuietRun ws) (hj : RegistersAt ws j x c)
    (hk : RegistersAt ws k x c) : j = k := by
  wlog hlt : j < k generalizing j k
  · rcases Nat.lt_trichotomy j k with hlt' | heq | hgt
    · exact absurd hlt' hlt
    · exact heq
    · exact (this hk hj hgt).symm
  obtain ⟨w, w', hat, -, hthere⟩ := hj
  obtain ⟨u, u', hat', hmissing, -⟩ := hk
  have hstill := h.target?_later hlt hat.after hat'.before hthere
  rw [hmissing] at hstill
  cases hstill

/-- As long as nothing is committed for a stored target, its standing stays. -/
theorem standing?_later (h : IsQuietRun ws) (hle : j ≤ k) (hj : ws[j]? = some w)
    (hk : ws[k]? = some w') (hthere : (w.store.target? x c).isSome)
    (hno : ∀ i u u' change, j ≤ i → i < k → StepAt ws i u u' → ¬ u.Commits u' x c change) :
    w'.store.standing? x c = w.store.standing? x c := by
  by_contra hchanged
  obtain ⟨i, u, u', hji, hik, hat, hu, hu'⟩ := exists_turning_point
    (P := fun v => v.store.standing? x c = w.store.standing? x c) hle hj rfl hk hchanged
  rcases h.standing?_step hat fun change => hno i u u' change hji hik hat with hsame | ⟨hmissing, -⟩
  · exact hu' (hsame.trans hu)
  · have hstill := h.target?_later hji hj hat.before hthere
    rw [hmissing] at hstill
    cases hstill

/-- As long as no other contact is noted, the last contact is the one that has been noted. -/
theorem lastContact_later (h : IsQuietRun ws) (hx : x ≠ "") (hlt : j < k) (hat : StepAt ws j w w')
    (hthere : (w.store.target? x c).isSome) {time : Instant} (hmarks : w.Marks w' x c time)
    (hno : ∀ i u u' time', j < i → i < k → StepAt ws i u u' → ¬ u.Marks u' x c time') {v : World}
    (hk : ws[k]? = some v) : ∃ t, v.store.target? x c = some t ∧ t.lastContact = some time := by
  obtain ⟨t, ht⟩ := Option.isSome_iff_exists.mp hthere
  by_contra hchanged
  obtain ⟨i, u, u', hji, hik, hat', ⟨t', ht', hlast⟩, hu'⟩ := exists_turning_point
    (P := fun v => ∃ t, v.store.target? x c = some t ∧ t.lastContact = some time) hlt hat.after
    (hmarks.lastContact hx ht) hk hchanged
  have hquiet : ∀ time', ¬ u.Marks u' x c time' := fun time' => hno i u u' time' hji hik hat'
  obtain ⟨t'', ht'', hsame⟩ := h.lastContact_step hat' hquiet ht'
  exact hu' ⟨t'', ht'', hsame.trans hlast⟩

/-- A call that has returned has had the contact noted. -/
theorem exists_marks (h : IsQuietRun ws) {ctx : Context} (hx : ctx.tenantId ≠ "")
    (hc : Text.allBlank c = false) {t : Target} (hk : ws[k]? = some w)
    (hr : w.running[n]? = some ⟨ctx, .register c, .done t⟩) :
    ∃ j u u' time, j < k ∧ StepAt ws j u u' ∧ (u.store.target? ctx.tenantId c).isSome ∧
      u.Marks u' ctx.tenantId c time := by
  have hstart := h.start
  rw [List.head?_eq_getElem?] at hstart
  obtain ⟨j, u, u', -, hjk, hat, hu, hu'⟩ := exists_turning_point
    (P := fun v => ∀ t, v.running[n]? ≠ some ⟨ctx, .register c, .done t⟩) (Nat.zero_le k) hstart
    (by simp) hk fun hno => hno t hr
  simp only [not_forall, not_not] at hu'
  obtain ⟨t', ht'⟩ := hu'
  rcases (hat.of_isChain h.steps).running_cases ht' with hbefore | ⟨ctx', call, -, hstarted⟩ |
    ⟨r, now, htakes, hadvance⟩
  · exact absurd hbefore (hu t')
  · cases hstarted
  · obtain ⟨rest, rfl⟩ := Running.exists_of_advance_eq hadvance.symm
    obtain ⟨m, hm, -⟩ := h.contacting hx hc rfl hat.before htakes.call
    obtain ⟨m', rest', hadvance', hm', -, hlast⟩ := hm.advance hx hc now
    cases hadvance.trans hadvance'
    have hended : m' = 0 := by
      rcases hm'.returned_or with ⟨hzero, -⟩ | ⟨-, hno, -⟩
      · exact hzero
      · exact absurd rfl (hno t')
    have hrest : ∀ t, rest ≠ .done t := by
      rintro t rfl
      exact hu t htakes.call
    obtain ⟨hthere, time, next, rfl⟩ := hm.marks_of_le_one (by omega) hrest
    exact ⟨j, u, u', time, hjk, hat, hthere, ctx, rfl,
      .inl ⟨n, ⟨ctx, .register c, _⟩, next, htakes, rfl⟩⟩

end IsQuietRun

/-! ## One record -/

/-- However many calls find or register a target, they all succeed, and there is one target, which
keeps what has been committed for it. -/
structure RegistersOnce (ws : List World) (x c : String) : Prop where
  /-- No call fails, and after five turns each has returned. -/
  succeeds : ∀ (k : Nat) w n rest, ws[k]? = some w → w.Registers n x c rest →
    (∀ e, rest ≠ .fail e) ∧ (5 ≤ turns ws n k → ∃ t, rest = .done t)
  /-- A call that has returned has returned the target, of which there is one record. -/
  single : ∀ (k : Nat) w n t, ws[k]? = some w → w.Registers n x c (.done t) →
    t.key = (x, c) ∧ (w.store.targets.map Target.key).count (x, c) = 1
  /-- The record is created in one step only, -/
  once : ∀ j k, RegistersAt ws j x c → RegistersAt ws k x c → j = k
  /-- and it is created afresh. -/
  fresh : ∀ k w w', StepAt ws k w w' → w.store.target? x c = none →
    (w'.store.target? x c).isSome → w'.store.standing? x c = some .fresh
  /-- From then on the target is as the last commit has left it. -/
  keeps : ∀ (j k : Nat) w w', j ≤ k → ws[j]? = some w → ws[k]? = some w' →
    (w.store.target? x c).isSome →
    (∀ i u u' change, j ≤ i → i < k → StepAt ws i u u' → ¬ u.Commits u' x c change) →
    w'.store.standing? x c = w.store.standing? x c
  /-- When a call has returned, the last contact is the one that has been noted last. -/
  contact : ∀ (k : Nat) w n t, ws[k]? = some w → w.Registers n x c (.done t) →
    ∃ j u u' time, j < k ∧ StepAt ws j u u' ∧ u.Marks u' x c time ∧
      (∀ i v v' time', j < i → i < k → StepAt ws i v v' → ¬ v.Marks v' x c time') ∧
      ∃ t', w.store.target? x c = some t' ∧ t'.lastContact = some time

/-- What holds at some time before the `k`-th step held for the last time in some step. -/
theorem exists_latest {P : Nat → Prop} (hj : P j) (hlt : j < k) :
    ∃ i, i < k ∧ j ≤ i ∧ P i ∧ ∀ i', i < i' → i' < k → ¬ P i' := by
  classical
  refine ⟨Nat.findGreatest P (k - 1), ?_, Nat.le_findGreatest (by omega) hj,
    Nat.findGreatest_spec (m := j) (by omega) hj, fun i' hlt' hk' => ?_⟩
  · have := Nat.findGreatest_le (P := P) (k - 1)
    omega
  · exact Nat.findGreatest_is_greatest hlt' (by omega)

/-- However the steps of calls that find or register a target follow those of each other, of all
other calls and of clients, while no target is deleted: the target is registered once and the calls
all succeed. -/
theorem first_contacts_register_once (h : IsQuietRun ws) (hx : x ≠ "")
    (hc : Text.allBlank c = false) : RegistersOnce ws x c where
  succeeds k w n rest hk hr := by
    obtain ⟨ctx, hctx, hr⟩ := hr
    obtain ⟨m, hm, hle⟩ := h.contacting hx hc hctx hk hr
    rcases hm.returned_or with ⟨-, -, t, rfl, -⟩ | ⟨hpos, -, hfail⟩
    · exact ⟨fun e he => (nomatch he), fun _ => ⟨t, rfl⟩⟩
    · exact ⟨hfail, fun hturns => by omega⟩
  single k w n t hk hr := by
    obtain ⟨ctx, rfl, hr⟩ := hr
    obtain ⟨m, hm, -⟩ := h.contacting hx hc rfl hk hr
    rcases hm.returned_or with ⟨-, hthere, t', ht', hkey⟩ | ⟨-, hno, -⟩
    · cases ht'
      obtain ⟨u, hu⟩ := Option.isSome_iff_exists.mp hthere
      have hs := (h.sound w (List.mem_of_getElem? hk)).consistent
      obtain ⟨hmem, hukey⟩ := (target?_eq_some_iff hs).mp hu
      refine ⟨hkey, List.count_eq_one_of_mem hs.targets ?_⟩
      exact List.mem_map.mpr ⟨u, hmem, hukey⟩
    · exact absurd rfl (hno t)
  once j k hj hk := h.registersAt_unique hj hk
  fresh k w w' hat hmissing hthere := by
    have hs := (h.sound w hat.mem.1).consistent
    have hno : ∀ change, ¬ w.Commits w' x c change := by
      intro change hcommits
      have hstored := hcommits.target?_isSome hs
      rw [hmissing] at hstored
      cases hstored
    rcases h.standing?_step hat hno with hsame | ⟨-, hfresh⟩
    · rw [standing?, standing?, hmissing, Option.map_none, Option.map_eq_none_iff] at hsame
      rw [hsame] at hthere
      cases hthere
    · exact hfresh
  keeps j k w w' hle hj hk hthere hno := h.standing?_later hle hj hk hthere hno
  contact k w n t hk hr := by
    obtain ⟨ctx, rfl, hr⟩ := hr
    -- the call itself has had a contact noted, but others may have done so after it
    obtain ⟨j₀, u₀, u₀', time₀, hlt₀, hat₀, hthere₀, hmarks₀⟩ := h.exists_marks hx hc hk hr
    obtain ⟨j, hlt, hle, ⟨u, u', time, hat, hmarks⟩, hlast⟩ := exists_latest
      (P := fun j => ∃ u u' time, StepAt ws j u u' ∧ u.Marks u' ctx.tenantId c time)
      ⟨u₀, u₀', time₀, hat₀, hmarks₀⟩ hlt₀
    have hno : ∀ i v v' time', j < i → i < k → StepAt ws i v v' →
        ¬ v.Marks v' ctx.tenantId c time' :=
      fun i v v' time' hji hik hat' hmarks' => hlast i hji hik ⟨v, v', time', hat', hmarks'⟩
    have hthere := h.target?_later hle hat₀.before hat.before hthere₀
    have hleft := h.lastContact_later hx hlt hat hthere hmarks hno hk
    exact ⟨j, u, u', time, hlt, hat, hmarks, hno, hleft⟩

end World

/-! ## A race of first contacts -/

/-- A device makes its first contact: it has been looked for in vain. -/
def firstLooked : Running × Store :=
  Running.advances 2 1
    (⟨⟨"acme", "device"⟩, .register "device", Call.program ⟨"acme", "device"⟩ (.register "device")⟩,
      Store.empty.afterAll (Store.sampleOps.take 2))

/-- In the meantime it makes contact once more and is registered, -/
def secondReturned : Running × Store :=
  Running.advances 3 5
    (⟨⟨"acme", "device"⟩, .register "device", Call.program ⟨"acme", "device"⟩ (.register "device")⟩,
      firstLooked.2)

/-- the operator assigns a distribution set to it, -/
def racedAssigned : Running × Store :=
  Running.advances 4 100
    (⟨Store.sampleContext, .assign .standard (.forced 1 ["device"]),
      Call.program Store.sampleContext (.assign .standard (.forced 1 ["device"]))⟩,
      secondReturned.2)

/-- and the first call goes on, to find that another has been faster. -/
def raceOver : World :=
  ⟨(Running.advances 5 3 (firstLooked.1, racedAssigned.2)).2,
    [(Running.advances 5 3 (firstLooked.1, racedAssigned.2)).1, secondReturned.1, racedAssigned.1]⟩

theorem raceOver_reachable : raceOver.Reachable (fun _ => True) Request.IsQuiet := by
  have hsets : World.Reachable (fun _ => True) Request.IsQuiet
      ⟨Store.empty.afterAll (Store.sampleOps.take 2), []⟩ :=
    World.Reachable.requests .refl (by simp [Store.sampleOps, Request.IsQuiet])
  have hlooked : World.Reachable (fun _ => True) Request.IsQuiet
      ⟨firstLooked.2, [firstLooked.1]⟩ :=
    hsets.call ⟨"acme", "device"⟩ trivial 2 1
  have hreturned : World.Reachable (fun _ => True) Request.IsQuiet
      ⟨secondReturned.2, [firstLooked.1, secondReturned.1]⟩ :=
    hlooked.call ⟨"acme", "device"⟩ trivial 3 5
  have hassigned : World.Reachable (fun _ => True) Request.IsQuiet
      ⟨racedAssigned.2, [] ++ firstLooked.1 :: [secondReturned.1, racedAssigned.1]⟩ :=
    hreturned.call Store.sampleContext trivial 4 100
  exact hassigned.advances 5 3

/-- The device is registered once.  The calls have all returned, the assignment is kept, and the
contact is that of the call which has ended last. -/
theorem raceOver_registered_once :
    (∃ ws, World.IsQuietRun ws ∧ raceOver ∈ ws ∧ World.RegistersOnce ws "acme" "device") ∧
    (raceOver.running.all fun r => match r.rest with
      | .done _ => true
      | _ => false) ∧
    (raceOver.store.target? "acme" "device").map (fun t =>
      (t.assigned, t.revision, t.lastContact)) = some (some 1, 2, some 5) := by
  refine ⟨?_, by decide +kernel, by decide +kernel⟩
  obtain ⟨ws, hstart, hsteps, hmem⟩ := raceOver_reachable.exists_isChain
  have hrun : World.IsQuietRun ws := ⟨hstart, hsteps⟩
  exact ⟨ws, hrun, hmem, World.first_contacts_register_once hrun (by decide) (by decide +kernel)⟩

end FleetUpdate
