import FleetUpdate.Proofs.Deployment.Promises
import Mathlib.Logic.Relation

/-!
# Calls among each other

A world is a store with the calls that are on their way.  In each step a call is started, a client
asks the store for something on its own, or one of the calls takes its next step; which one it is,
and what the clock shows then, is open.  So the calls interleave in every possible way.

While every step of a world respects what its calls rely on, the calls only ask for what they have
promised (`World.Sure.step`).  So a property of stores that requests without commits keep, and that
commits of up-to-date plans keep, holds in every world that can be reached
(`World.Reachable.sound`).
-/

namespace FleetUpdate

/-- A request that neither deletes a target nor commits changes. -/
def Request.IsQuiet : Request → Prop
  | deleteTarget _ | applyChanges _ => False
  | _ => True

/-- A call on its way: whose it is, and what is left of its program. -/
structure Running where
  ctx : Context
  call : Call
  rest : Program call.Reply

/-- The next step of a call.  A call that has returned takes no more steps. -/
def Running.advance (r : Running) (now : Instant) (s : Store) : Running × Store :=
  match r.rest with
  | .ask ctx q next => ({ r with rest := next (s.perform ctx now q).1 }, (s.perform ctx now q).2)
  | .clock next => ({ r with rest := next now }, s)
  | .note _ next => ({ r with rest := next }, s)
  | .done _ | .fail _ => (r, s)

/-- The changes that a call is about to have committed, with the context it asks in. -/
def Running.commits? (r : Running) : Option (Context × List TargetChange) :=
  match r.rest with
  | .ask ctx (.applyChanges cs) _ => some (ctx, cs)
  | _ => none

/-- Several steps of a call, with no step of another in between. -/
def Running.advances (now : Instant) : Nat → Running × Store → Running × Store
  | 0, x => x
  | n + 1, x => advances now n (x.1.advance now x.2)

theorem Running.rest_of_commits? {r : Running} {ctx : Context} {cs : List TargetChange}
    (h : r.commits? = some (ctx, cs)) : ∃ next, r.rest = .ask ctx (.applyChanges cs) next := by
  unfold commits? at h
  split at h
  · rename_i next hrest
    obtain ⟨rfl, rfl⟩ := Prod.mk.inj (Option.some.inj h)
    exact ⟨next, hrest⟩
  · cases h

theorem Running.advance_of_commits? {r : Running} {ctx : Context} {cs : List TargetChange}
    (h : r.commits? = some (ctx, cs)) (now : Instant) (s : Store) :
    (r.advance now s).2 = (s.perform ctx now (.applyChanges cs)).2 := by
  obtain ⟨next, hrest⟩ := rest_of_commits? h
  unfold advance
  rw [hrest]

@[simp] theorem Running.call_advance (r : Running) (now : Instant) (s : Store) :
    (r.advance now s).1.call = r.call := by
  unfold advance
  split <;> rfl

@[simp] theorem Running.call_advances (now : Instant) (n : Nat) (x : Running × Store) :
    (advances now n x).1.call = x.1.call := by
  induction n generalizing x with
  | zero => rfl
  | succ n ih => rw [advances, ih, call_advance]

/-- A store and the calls that are on their way. -/
structure World where
  store : Store
  running : List Running

namespace World

/-- A step of a world in which only some calls are started and clients make only some requests. -/
inductive Step (calls : Call → Prop) (clients : Request → Prop) : World → World → Prop where
  | start {w : World} (ctx : Context) {call : Call} (h : calls call) :
      Step calls clients w ⟨w.store, w.running ++ [⟨ctx, call, call.program ctx⟩]⟩
  | client {w : World} (o : Op) (h : clients o.request) :
      Step calls clients w ⟨w.store.after o, w.running⟩
  | run {s : Store} {before after : List Running} {r : Running} (now : Instant) :
      Step calls clients ⟨s, before ++ r :: after⟩
        ⟨(r.advance now s).2, before ++ (r.advance now s).1 :: after⟩

/-- A world that some order of steps leads to, starting without targets and without calls. -/
def Reachable (calls : Call → Prop) (clients : Request → Prop) (w : World) : Prop :=
  Relation.ReflTransGen (Step calls clients) ⟨.empty, []⟩ w

namespace Reachable

variable {calls : Call → Prop} {clients : Request → Prop} {s : Store} {rs : List Running}

/-- Clients may make requests one after the other. -/
theorem requests (h : Reachable calls clients ⟨s, rs⟩) {ops : List Op}
    (hops : ∀ o ∈ ops, clients o.request) : Reachable calls clients ⟨s.afterAll ops, rs⟩ := by
  induction ops generalizing s with
  | nil => exact h
  | cons o ops ih =>
    exact ih (h.tail (.client o (hops o List.mem_cons_self))) fun o' ho' =>
      hops o' (List.mem_cons_of_mem o ho')

/-- A call on its way may take some steps at once. -/
theorem advances {before after : List Running} {r : Running}
    (h : Reachable calls clients ⟨s, before ++ r :: after⟩) (now : Instant) (n : Nat) :
    Reachable calls clients ⟨(Running.advances now n (r, s)).2,
      before ++ (Running.advances now n (r, s)).1 :: after⟩ := by
  induction n generalizing s r with
  | zero => exact h
  | succ n ih => exact ih (h.tail (.run now))

/-- A call may be started and take some steps at once. -/
theorem call (h : Reachable calls clients ⟨s, rs⟩) (ctx : Context) {call : Call} (hcall : calls call)
    (now : Instant) (n : Nat) :
    Reachable calls clients
      ⟨(Running.advances now n (⟨ctx, call, call.program ctx⟩, s)).2,
        rs ++ [(Running.advances now n (⟨ctx, call, call.program ctx⟩, s)).1]⟩ :=
  advances (h.tail (.start ctx hcall)) now n

end Reachable

end World

/-! ## What calls are sure of -/

section Sure

variable {R : Store → Store → Prop} {G : Call → Context → Request → Store → Prop}
  {calls : Call → Prop} {clients : Request → Prop} {s s' : Store} {r : Running} {w w' : World}

/-- What is left of a call is sure to ask only for what `G` promises, while others only do what `R`
allows. -/
def Running.Sure (R : Store → Store → Prop) (G : Call → Context → Request → Store → Prop)
    (r : Running) (s : Store) : Prop :=
  ∃ s₀, R s₀ s ∧ r.rest.Meets R (G r.call) (fun _ _ => True) s₀

theorem Running.Sure.later (hR : Rely R) (h : r.Sure R G s) (h' : R s s') : r.Sure R G s' := by
  obtain ⟨s₀, hs₀, hmeets⟩ := h
  exact ⟨s₀, hR.trans hs₀ h', hmeets⟩

/-- With its next step a call asks for something that it has promised, or leaves the store alone;
and it remains sure of the rest. -/
theorem Running.Sure.advance (hR : Rely R) (h : r.Sure R G s) (now : Instant) :
    (r.advance now s).1.Sure R G (r.advance now s).2 ∧
      ((r.advance now s).2 = s ∨
        ∃ cx q, G r.call cx q s ∧ (r.advance now s).2 = (s.perform cx now q).2) := by
  obtain ⟨s₀, hs₀, hmeets⟩ := h
  obtain ⟨ctx, call, rest⟩ := r
  cases rest with
  | done a => exact ⟨⟨s₀, hs₀, hmeets⟩, .inl rfl⟩
  | fail e => exact ⟨⟨s₀, hs₀, hmeets⟩, .inl rfl⟩
  | clock next => exact ⟨⟨s₀, hs₀, hmeets now⟩, .inl rfl⟩
  | note n next => exact ⟨⟨s₀, hs₀, hmeets⟩, .inl rfl⟩
  | ask cx q next =>
    obtain ⟨hq, hnext⟩ := hmeets s hs₀
    have hconsistent : (s.perform cx now q).2.Consistent := (hR.consistent hs₀).perform cx now q
    exact ⟨⟨_, hR.refl hconsistent, hnext now⟩, .inr ⟨cx, q, hq, rfl⟩⟩

namespace World

/-- The step from one world to the next is a step of this call. -/
def Takes (w w' : World) (r : Running) : Prop :=
  ∃ before after now, w.running = before ++ r :: after ∧
    w' = ⟨(r.advance now w.store).2, before ++ (r.advance now w.store).1 :: after⟩

theorem Takes.mem (h : w.Takes w' r) : r ∈ w.running := by
  obtain ⟨before, after, now, hrunning, -⟩ := h
  simp [hrunning]

/-- A world whose calls are sure to ask only for what they have promised. -/
structure Sure (R : Store → Store → Prop) (G : Call → Context → Request → Store → Prop)
    (calls : Call → Prop) (w : World) : Prop where
  consistent : w.store.Consistent
  running : ∀ r ∈ w.running, calls r.call ∧ r.Sure R G w.store

/-- When it is a call's turn, it leaves the store alone or asks for something that it has promised. -/
theorem Sure.takes (hR : Rely R) (h : w.Sure R G calls) (ht : w.Takes w' r) :
    w'.store = w.store ∨
      ∃ cx q now, G r.call cx q w.store ∧ w'.store = (w.store.perform cx now q).2 := by
  obtain ⟨before, after, now, hrunning, rfl⟩ := ht
  obtain ⟨-, hsure⟩ := h.running r (by simp [hrunning])
  rcases (hsure.advance hR now).2 with hsame | ⟨cx, q, hq, hstore⟩
  · exact .inl hsame
  · exact .inr ⟨cx, q, now, hq, hstore⟩

/-- In a step nothing happens to the store, or a client asks for something, or it is a call's turn. -/
theorem Step.cases (hstep : Step calls clients w w') :
    w'.store = w.store ∨ (∃ o, clients o.request ∧ w'.store = w.store.after o) ∨
      ∃ r, w.Takes w' r := by
  cases hstep with
  | start ctx hcall => exact .inl rfl
  | client o ho => exact .inr (.inl ⟨o, ho, rfl⟩)
  | @run s before after r now => exact .inr (.inr ⟨r, before, after, now, rfl, rfl⟩)

/-- A step that respects what the calls rely on leaves them sure of the rest. -/
theorem Sure.step (hR : Rely R)
    (hprogram : ∀ ctx (call : Call) s, (call.program ctx).Meets R (G call) (fun _ _ => True) s)
    (h : w.Sure R G calls) (hstep : Step calls clients w w') (hstore : R w.store w'.store) :
    w'.Sure R G calls := by
  refine ⟨hR.consistent hstore, fun q hq => ?_⟩
  cases hstep with
  | @start w ctx call hcall =>
    rcases List.mem_append.mp hq with hq | hq
    · exact h.running q hq
    · obtain rfl := List.mem_singleton.mp hq
      exact ⟨hcall, w.store, hstore, hprogram ctx call w.store⟩
  | client o ho =>
    obtain ⟨hcall, hsure⟩ := h.running q hq
    exact ⟨hcall, hsure.later hR hstore⟩
  | @run s before after r now =>
    -- the other calls have only seen that the store has changed
    have hothers (hmem : q ∈ before ++ r :: after) :
        calls q.call ∧ q.Sure R G (r.advance now s).2 := by
      obtain ⟨hcall, hsure⟩ := h.running q hmem
      exact ⟨hcall, hsure.later hR hstore⟩
    rcases List.mem_append.mp hq with hq | hq
    · exact hothers (List.mem_append_left _ hq)
    · rcases List.mem_cons.mp hq with rfl | hq
      · obtain ⟨hcall, hsure⟩ := h.running r (by simp)
        exact ⟨by simpa using hcall, (hsure.advance hR now).1⟩
      · exact hothers (List.mem_append_right _ (List.mem_cons_of_mem r hq))

end World

end Sure

/-! ## What steps keep -/

section Keep

open Store

variable {calls : Call → Prop} {clients : Request → Prop} {I : Store → Prop} {s : Store}

/-- A property of stores that calls and clients keep: requests that commit nothing keep it, and so
does every commit of a change that a call plans for a target as it stands. -/
structure Kept (calls : Call → Prop) (I : Store → Prop) : Prop where
  quiet : ∀ s o, s.Consistent → I s → o.request.IsQuiet → I (s.after o)
  commit : ∀ s ctx now call change, calls call → s.Consistent → I s → s.Accepts ctx change →
    s.Planned ctx call change → I (s.written ctx now change)

/-- What is left of a call is sure to ask only for what the call may ask for. -/
def Running.Sound (r : Running) (s : Store) : Prop :=
  ∃ s₀, s₀.Advances s ∧ r.rest.Meets Advances (Issues r.call) (fun _ _ => True) s₀

/-- What every commit keeps, the commits of one request keep together. -/
theorem Advances.commitAll_induction {ctx : Context} {now : Instant} (hs : s.Consistent) (h : I s)
    {cs : List TargetChange} (hcs : ∀ change ∈ cs, ∀ s', s.Advances s' → I s' →
      s'.Accepts ctx change → I (s'.written ctx now change)) : I (s.commitAll ctx now cs).2 := by
  induction cs generalizing s with
  | nil => exact h
  | cons change cs ih =>
    have hadv : s.Advances (s.commit ctx now change).2 :=
      ⟨hs.commit ctx now change, fun x c => .commit hs change⟩
    suffices hfirst : I (s.commit ctx now change).2 from
      ih (hs.commit ctx now change) hfirst fun change' hmem s' hs' =>
        hcs change' (List.mem_cons_of_mem _ hmem) s' (hadv.trans hs')
    rcases commit_cases hs ctx now change with ⟨k, hacc, hcommit, -⟩ | ⟨e, -, hcommit⟩
    · rw [hcommit]
      exact hcs change List.mem_cons_self s (.refl hs) h hacc
    · rw [hcommit]
      exact h

/-- The commits of a call keep what the call has to keep. -/
theorem Kept.commitAll (hI : Kept calls I) {call : Call} (hcall : calls call) {ctx : Context}
    {now : Instant} (hs : s.Consistent) (h : I s) {cs : List TargetChange}
    (hcs : ∀ change ∈ cs, ∀ s', s.Advances s' → s'.Accepts ctx change →
      s'.Planned ctx call change) : I (s.commitAll ctx now cs).2 :=
  Advances.commitAll_induction hs h fun change hchange s' hs' h' hacc =>
    hI.commit s' ctx now call change hcall hs'.consistent h' hacc (hcs change hchange s' hs' hacc)

/-- A request of a call keeps what the call has to keep, and deletes nothing. -/
theorem Kept.perform (hI : Kept calls I) (now : Instant) {call : Call} (hcall : calls call)
    {ctx : Context} (hs : s.Consistent) (h : I s) {q : Request} (hq : Issues call ctx q s) :
    s.Advances (s.perform ctx now q).2 ∧ I (s.perform ctx now q).2 := by
  refine ⟨.after (o := ⟨ctx, now, q⟩) hs ?_, ?_⟩
  · rintro c rfl
    exact hq
  · by_cases hquiet : q.IsQuiet
    · exact hI.quiet s ⟨ctx, now, q⟩ hs h hquiet
    · cases q with
      | deleteTarget c => exact hq.elim
      | applyChanges cs =>
        unfold Store.perform
        split
        · exact h
        · exact hI.commitAll hcall hs h hq.2
      | _ => exact absurd trivial hquiet

end Keep

namespace World

open Store

variable {calls : Call → Prop} {clients : Request → Prop} {I : Store → Prop} {w : World}

/-- A world whose store has a property, and whose calls are sure to ask only for what they may. -/
structure Sound (calls : Call → Prop) (I : Store → Prop) (w : World) : Prop where
  consistent : w.store.Consistent
  holds : I w.store
  running : ∀ r ∈ w.running, calls r.call ∧ r.Sound w.store

theorem Sound.step (hI : Kept calls I) (hclients : ∀ q, clients q → q.IsQuiet) {w' : World}
    (h : w.Sound calls I) (hstep : Step calls clients w w') : w'.Sound calls I := by
  have hsure : w.Sure Advances Issues calls := ⟨h.consistent, h.running⟩
  have hkept : w.store.Advances w'.store ∧ I w'.store := by
    have hsame : w'.store = w.store → w.store.Advances w'.store ∧ I w'.store := by
      intro hsame
      rw [hsame]
      exact ⟨.refl h.consistent, h.holds⟩
    rcases hstep.cases with hstore | ⟨o, ho, hafter⟩ | ⟨r, hr⟩
    · exact hsame hstore
    · rw [hafter]
      refine ⟨.after h.consistent fun c hc => ?_, hI.quiet _ o h.consistent h.holds (hclients _ ho)⟩
      have hquiet := hclients _ ho
      rw [hc] at hquiet
      exact hquiet
    · rcases hsure.takes rely_advances hr with hstore | ⟨cx, q, now, hq, hafter⟩
      · exact hsame hstore
      · rw [hafter]
        exact hI.perform now (h.running r hr.mem).1 h.consistent h.holds hq
  obtain ⟨hadv, hholds⟩ := hkept
  have hsure' := hsure.step rely_advances Call.program_issues hstep hadv
  exact ⟨hsure'.consistent, hholds, hsure'.running⟩

/-- What calls and clients keep holds in every world that can be reached. -/
theorem Reachable.sound (hI : Kept calls I) (hclients : ∀ q, clients q → q.IsQuiet)
    (hempty : I .empty) (hw : w.Reachable calls clients) : w.Sound calls I := by
  induction hw with
  | refl => exact ⟨.empty, hempty, by simp⟩
  | tail _ hstep ih => exact ih.step hI hclients hstep

end World

end FleetUpdate
