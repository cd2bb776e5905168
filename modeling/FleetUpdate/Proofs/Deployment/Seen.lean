import FleetUpdate.Proofs.Deployment.Aging
import FleetUpdate.Proofs.Deployment.Sights

/-!
# What calls have seen on the way

Worlds that follow each other are a list, and the calls of a world keep their places; so a call can
be followed by its place, and what it asks for now can be held against what it asked for before.

`asks_safe_or_seen` does so for all calls whose programs are safe until they have seen something
(`Program.SafeUntil`): when one of them asks for something that is not safe, it met such a sight in
an earlier step.  `exists_turning_point` finds the step that has since undone what was seen.
-/

namespace FleetUpdate

/-- In a step a call meets a sight, or it remains safe until it does. -/
theorem Program.SafeUntil.advance {sight : Context → Request → Store → Prop}
    {safe : Context → Request → Prop} {r : Running} {Q : r.call.Reply → Prop} {s : Store}
    (h : r.rest.SafeUntil sight safe Q) (hs : s.Consistent) (now : Instant) :
    (∃ ctx q next, r.rest = .ask ctx q next ∧ sight ctx q s) ∨
      (r.advance now s).1.rest.SafeUntil sight safe fun _ => True := by
  obtain ⟨ctx, call, rest⟩ := r
  cases rest with
  | done a => exact .inr trivial
  | fail e => exact .inr trivial
  | clock next => exact .inr ((h now).mono fun _ _ => trivial)
  | note m next => exact .inr (h.mono fun _ _ => trivial)
  | ask ctx q next =>
    rcases h s hs with hsight | ⟨-, hnext⟩
    · exact .inl ⟨ctx, q, next, rfl, hsight⟩
    · exact .inr ((hnext now).mono fun _ _ => trivial)

namespace World

variable {calls : Call → Prop} {clients : Request → Prop} {w w' : World} {ws : List World}
  {i k n : Nat} {r : Running} {ctx : Context} {q : Request}

/-! ## Steps of a list of worlds -/

/-- The `k`-th step leads from one world to the next. -/
structure StepAt (ws : List World) (k : Nat) (w w' : World) : Prop where
  before : ws[k]? = some w
  after : ws[k + 1]? = some w'

/-- What holds of every step holds of the `k`-th. -/
theorem StepAt.of_isChain {T : World → World → Prop} (h : StepAt ws k w w') (hT : ws.IsChain T) :
    T w w' := by
  obtain ⟨hk, rfl⟩ := List.getElem?_eq_some_iff.mp h.before
  obtain ⟨hk', rfl⟩ := List.getElem?_eq_some_iff.mp h.after
  exact List.isChain_iff_getElem.mp hT k hk'

theorem StepAt.mem (h : StepAt ws k w w') : w ∈ ws ∧ w' ∈ ws :=
  ⟨List.mem_of_getElem? h.before, List.mem_of_getElem? h.after⟩

/-- What holds of every step of the list, wherever it is, holds along the list. -/
theorem isChain_of_stepAt {T : World → World → Prop}
    (h : ∀ k w w', StepAt ws k w w' → T w w') : ws.IsChain T :=
  List.isChain_iff_getElem.mpr fun k hk =>
    h k _ _ ⟨List.getElem?_eq_getElem _, List.getElem?_eq_getElem hk⟩

/-- A world that is not the first has come about by a step. -/
theorem StepAt.exists_of_succ (hk : ws[k + 1]? = some w') : ∃ w, StepAt ws k w w' :=
  have hlt : k < ws.length := Nat.lt_of_succ_lt (List.getElem?_eq_some_iff.mp hk).choose
  ⟨ws[k], List.getElem?_eq_getElem hlt, hk⟩

/-- What holds of the first world, and is handed on in every step, holds all along. -/
theorem index_induction {w₀ : World} {P : Nat → World → Prop} (hstart : ws.head? = some w₀)
    (h₀ : P 0 w₀) (hstep : ∀ k w w', StepAt ws k w w' → P k w → P (k + 1) w')
    (hk : ws[k]? = some w) : P k w := by
  induction k generalizing w with
  | zero =>
    rw [List.head?_eq_getElem?, hk] at hstart
    obtain rfl := Option.some.inj hstart
    exact h₀
  | succ k ih =>
    obtain ⟨w₁, hat⟩ := StepAt.exists_of_succ hk
    exact hstep k w₁ w hat (ih hat.before)

/-- What held of a world and does not hold of a later one has come to an end in some step. -/
theorem exists_turning_point {P : World → Prop} (hle : i ≤ k) (hi : ws[i]? = some w) (hw : P w)
    (hk : ws[k]? = some w') (hw' : ¬ P w') :
    ∃ j u u', i ≤ j ∧ j < k ∧ StepAt ws j u u' ∧ P u ∧ ¬ P u' := by
  induction k, hle using Nat.le_induction generalizing w' with
  | base =>
    obtain rfl := Option.some.inj (hi.symm.trans hk)
    exact absurd hw hw'
  | succ k hle ih =>
    obtain ⟨v, hat⟩ := StepAt.exists_of_succ hk
    by_cases hP : P v
    · exact ⟨k, v, w', hle, Nat.lt_succ_self k, hat, hP, hw'⟩
    · obtain ⟨j, u, u', hij, hjk, hstep⟩ := ih hat.before hP
      exact ⟨j, u, u', hij, Nat.lt_succ_of_lt hjk, hstep⟩

/-- Some worlds follow each other up to every world that can be reached. -/
theorem Reachable.exists_isChain (h : w.Reachable calls clients) :
    ∃ ws : List World, ws.head? = some ⟨.empty, []⟩ ∧ ws.IsChain (Step calls clients) ∧ w ∈ ws := by
  obtain ⟨ws, hsteps, hsuffix⟩ := exists_isChain_of_reflTransGen h (List.isChain_singleton w)
  exact ⟨_, rfl, hsteps, hsuffix.subset List.mem_cons_self⟩

/-! ## Places of calls -/

/-- The step from one world to the next is a step of the call at a place. -/
structure TakesAt (w w' : World) (n : Nat) (r : Running) : Prop where
  call : w.running[n]? = some r
  step : ∃ now, w' = ⟨(r.advance now w.store).2, w.running.set n (r.advance now w.store).1⟩

/-- In the step from one world to the next the call at a place asks for something. -/
def AsksAt (w w' : World) (n : Nat) (ctx : Context) (q : Request) : Prop :=
  ∃ r next, w.TakesAt w' n r ∧ r.rest = .ask ctx q next

theorem AsksAt.store_eq (h : w.AsksAt w' n ctx q) :
    ∃ now, w'.store = (w.store.perform ctx now q).2 := by
  obtain ⟨r, next, ⟨-, now, rfl⟩, hrest⟩ := h
  exact ⟨now, by simp [Running.advance, hrest]⟩

/-- A call that looks something up leaves the store as it is. -/
theorem AsksAt.store_of_isLookup (h : w.AsksAt w' n ctx q) (hq : q.IsLookup) :
    w'.store = w.store := by
  obtain ⟨now, hstore⟩ := h.store_eq
  rw [hstore, Store.perform_of_isLookup w.store ctx now hq]

/-- A call that takes a step asks for something, or leaves the store alone. -/
theorem TakesAt.asksAt_or_same (h : w.TakesAt w' n r) :
    (∃ ctx q, w.AsksAt w' n ctx q) ∨ w'.store = w.store := by
  obtain ⟨hcall, now, rfl⟩ := h
  cases hrest : r.rest with
  | ask ctx q next => exact .inl ⟨ctx, q, r, next, ⟨hcall, now, rfl⟩, hrest⟩
  | done _ | fail _ | clock _ | note _ _ => exact .inr (by simp [Running.advance, hrest])

/-- In a step a client asks for something, or a call at some place does, or nothing happens to the
store. -/
theorem Step.cases_at (hstep : Step calls clients w w') :
    w'.store = w.store ∨ (∃ o, clients o.request ∧ w' = ⟨w.store.after o, w.running⟩) ∨
      ∃ n ctx q, w.AsksAt w' n ctx q := by
  cases hstep with
  | start ctx hcall => exact .inl rfl
  | client o ho => exact .inr (.inl ⟨o, ho, rfl⟩)
  | @run s before after r now =>
    have htakes : TakesAt ⟨s, before ++ r :: after⟩
        ⟨(r.advance now s).2, before ++ (r.advance now s).1 :: after⟩ before.length r :=
      ⟨by simp, now, by simp⟩
    rcases htakes.asksAt_or_same with ⟨ctx, q, hasks⟩ | hsame
    · exact .inr (.inr ⟨_, ctx, q, hasks⟩)
    · exact .inl hsame

/-- The call at a place after a step was there before, has just been started, or has taken the
step. -/
theorem Step.running_cases (hstep : Step calls clients w w') (hr : w'.running[n]? = some r) :
    w.running[n]? = some r ∨ (∃ ctx call, calls call ∧ r = ⟨ctx, call, call.program ctx⟩) ∨
      ∃ r₀ now, w.TakesAt w' n r₀ ∧ r = (r₀.advance now w.store).1 := by
  cases hstep with
  | @start w ctx call hcall =>
    rcases Nat.lt_or_ge n w.running.length with hlt | hge
    · exact .inl ((List.getElem?_append_left hlt).symm.trans hr)
    · rw [List.getElem?_append_right hge] at hr
      have hmem := List.mem_of_getElem? hr
      exact .inr (.inl ⟨ctx, call, hcall, List.mem_singleton.mp hmem⟩)
  | client o ho => exact .inl hr
  | @run s before after r₀ now =>
    by_cases hn : before.length = n
    · subst hn
      have hfound : r = (r₀.advance now s).1 := by simpa using hr.symm
      exact .inr (.inr ⟨r₀, now, ⟨by simp, now, by simp⟩, hfound⟩)
    · have hset : before ++ (r₀.advance now s).1 :: after =
          (before ++ r₀ :: after).set before.length (r₀.advance now s).1 := by simp
      rw [hset, List.getElem?_set_ne hn] at hr
      exact .inl hr

/-- The rules of stores hold after every step. -/
theorem Step.consistent (hstep : Step calls clients w w') (hs : w.store.Consistent) :
    w'.store.Consistent := by
  rcases hstep.cases_at with hsame | ⟨o, -, rfl⟩ | ⟨n, ctx, q, hasks⟩
  · rw [hsame]
    exact hs
  · exact hs.after o
  · obtain ⟨now, hstore⟩ := hasks.store_eq
    rw [hstore]
    exact hs.perform ctx now q

/-! ## What has been seen -/

section Seen

variable {sight : Context → Request → Store → Prop} {safe : Context → Request → Prop}

/-- The call at a place met a sight before the `k`-th world. -/
def SeenBefore (sight : Context → Request → Store → Prop) (ws : List World) (k n : Nat) : Prop :=
  ∃ i w w' ctx q, i < k ∧ StepAt ws i w w' ∧ w.AsksAt w' n ctx q ∧ sight ctx q w.store

theorem SeenBefore.later (h : SeenBefore sight ws k n) : SeenBefore sight ws (k + 1) n := by
  obtain ⟨i, w, w', ctx, q, hlt, hseen⟩ := h
  exact ⟨i, w, w', ctx, q, Nat.lt_succ_of_lt hlt, hseen⟩

variable (hsteps : ws.IsChain (Step calls clients)) (hstart : ws.head? = some ⟨.empty, []⟩)

include hsteps hstart

theorem consistent_of_isChain : ∀ w ∈ ws, w.store.Consistent :=
  forall_mem_of_isChain hstart hsteps .empty fun _ _ hstep hs => hstep.consistent hs

variable (hprogram : ∀ ctx call, calls call →
  (call.program ctx).SafeUntil sight safe fun _ => True)

include hprogram

/-- A call remains safe until it has met a sight. -/
theorem safeUntil_or_seen (hk : ws[k]? = some w) (hr : w.running[n]? = some r) :
    (r.rest.SafeUntil sight safe fun _ => True) ∨ SeenBefore sight ws k n := by
  refine index_induction (P := fun k w => ∀ r, w.running[n]? = some r →
    (r.rest.SafeUntil sight safe fun _ => True) ∨ SeenBefore sight ws k n) hstart (fun r hr => ?_)
    (fun k w w' hat ih r hr => ?_) hk r hr
  · cases hr
  · rcases (hat.of_isChain hsteps).running_cases hr with hr | ⟨ctx, call, hcall, rfl⟩ |
      ⟨r₀, now, htakes, rfl⟩
    · exact (ih r hr).imp_right .later
    · exact .inl (hprogram ctx call hcall)
    · rcases ih r₀ htakes.call with hsafe | hseen
      · have hs := consistent_of_isChain hsteps hstart _ hat.mem.1
        rcases hsafe.advance hs now with ⟨ctx, q, next, hrest, hsight⟩ | hsafe
        · exact .inr ⟨k, w, w', ctx, q, Nat.lt_succ_self k, hat, ⟨r₀, next, htakes, hrest⟩, hsight⟩
        · exact .inl hsafe
      · exact .inr hseen.later

/-- What a call asks for is safe, or a sight, or the call met a sight before. -/
theorem asks_safe_or_seen (hat : StepAt ws k w w') (hasks : w.AsksAt w' n ctx q) :
    safe ctx q ∨ sight ctx q w.store ∨ SeenBefore sight ws k n := by
  obtain ⟨r, next, htakes, hrest⟩ := hasks
  rcases safeUntil_or_seen hsteps hstart hprogram hat.before htakes.call with hsafe | hseen
  · rw [hrest] at hsafe
    rcases hsafe _ (consistent_of_isChain hsteps hstart _ hat.mem.1) with hsight | ⟨hsafe, -⟩
    · exact .inr (.inl hsight)
    · exact .inl hsafe
  · exact .inr (.inr hseen)

end Seen

/-- A call asks for no more than its program does. -/
theorem asks_only {safe : Context → Request → Prop} (hsteps : ws.IsChain (Step calls clients))
    (hstart : ws.head? = some ⟨.empty, []⟩)
    (hprogram : ∀ ctx call, calls call → (call.program ctx).Only safe fun _ => True)
    (hat : StepAt ws k w w') (hasks : w.AsksAt w' n ctx q) : safe ctx q := by
  rcases asks_safe_or_seen hsteps hstart hprogram hat hasks with hsafe | hno | hseen
  · exact hsafe
  · exact hno.elim
  · obtain ⟨_, _, _, _, _, _, _, _, hno⟩ := hseen
    exact hno.elim

end World

end FleetUpdate
