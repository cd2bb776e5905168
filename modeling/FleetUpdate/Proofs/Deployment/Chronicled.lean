import FleetUpdate.Proofs.Deployment.Aging
import FleetUpdate.Proofs.Deployment.Tally

/-!
# What is kept along with a chronicle

A chronicle is kept beside the store, request by request.  A property of a target and its endings that
concerns nothing else in the store, that clients keep without commits, and that each commit of what a
call plans keeps (`KeptWith`), holds after the call if it has held before (`KeptWith.afterAll`).
-/

namespace FleetUpdate

open Store

/-- A request that commits nothing adds nothing to a chronicle. -/
theorem Chronicle.after_of_commitsNothing {s : Store} {o : Op} (ho : o.request.CommitsNothing)
    (h : Chronicle) (success : Option Instant) (x c : String) :
    h.after success s o x c = if ((s.after o).target? x c).isNone then [] else h x c := by
  have happlied : s.appliedIn o = [] := by
    unfold appliedIn
    split
    · rename_i cs hcs
      rw [hcs] at ho
      exact ho.elim
    · rfl
  rw [after, happlied, List.flatMap_nil, List.append_nil]

/-- A property of what a store holds of a target, and of the endings on record, that is kept by
clients without commits and by the call. -/
structure KeptWith (call : Call) (P : Store → String → String → List Ending → Prop) : Prop where
  same : ∀ {s s' x c es}, s.Consistent → P s x c es → SameAt x c s s' → P s' x c es
  gone : ∀ {s x c es}, s.Consistent → P s x c es → s.target? x c = none → P s x c []
  client : ∀ {s o x c} {h : Chronicle}, s.Consistent → o.request.CommitsNothing → P s x c (h x c) →
    P (s.after o) x c (h.after call.success? s o x c)
  commit : ∀ {s ctx now change tr v es}, s.Consistent →
    s.ReadPlan Continues ctx call change tr v → s.Accepts ctx change →
    P s ctx.tenantId change.controllerId es →
    P (s.written ctx now change) ctx.tenantId change.controllerId
      (es ++ (s.endedIn (s.written ctx now change) ctx.tenantId change.controllerId).map
        fun a => ⟨a, call.success?⟩)

namespace KeptWith

variable {s : Store} {x c : String} {es : List Ending} {h : Chronicle} {ctx : Context}
  {now : Instant} {call : Call} {change : TargetChange} {tr : Transition} {v : TargetView}
  {P : Store → String → String → List Ending → Prop}

/-- A commit adds to the chronicle of its target what it ends, and leaves other targets alone. -/
theorem commit_at (hP : KeptWith call P) (hs : s.Consistent)
    (hread : s.ReadPlan Continues ctx call change tr v) (h : P s x c es) :
    P (s.commit ctx now change).2 x c
      (es ++ (s.endedIn (s.commit ctx now change).2 x c).map fun a => ⟨a, call.success?⟩) := by
  have hsame {s' : Store} (hs' : SameAt x c s s') :
      P s' x c (es ++ (s.endedIn s' x c).map fun a => ⟨a, call.success?⟩) := by
    rw [endedIn_of_same hs hs', List.map_nil, List.append_nil]
    exact hP.same hs h hs'
  by_cases hkey : (ctx.tenantId, change.controllerId) = (x, c)
  · obtain ⟨rfl, rfl⟩ := Prod.mk.inj hkey
    rcases commit_cases hs ctx now change with ⟨k, hacc, hcommit, -⟩ | ⟨e, -, hcommit⟩
    · rw [hcommit]
      exact hP.commit hs hread hacc h
    · rw [hcommit]
      exact hsame (.refl s)
  · exact hsame (.commit hs hkey)

theorem commitAll (hP : KeptWith call P) (hs : s.Consistent) {cs : List TargetChange}
    (hcs : ∀ change ∈ cs, ∃ tr v, s.ReadPlan Continues ctx call change tr v) (h : P s x c es) :
    P (s.commitAll ctx now cs).2 x c (es ++ (s.appliedBy ctx now cs).flatMap fun p =>
      (p.before.endedIn p.after x c).map fun a => ⟨a, call.success?⟩) := by
  induction cs generalizing s es with
  | nil =>
    rw [appliedBy, List.flatMap_nil, List.append_nil]
    exact h
  | cons change cs ih =>
    obtain ⟨tr, v, hread⟩ := hcs change List.mem_cons_self
    rw [appliedBy, List.flatMap_cons, ← List.append_assoc]
    refine ih (hs.commit ctx now change) (fun change' hmem => ?_) (hP.commit_at hs hread h)
    obtain ⟨tr', v', hread'⟩ := hcs change' (List.mem_cons_of_mem _ hmem)
    exact ⟨tr', v', hread'.later Continues.rely (.commit hs change)⟩

/-- What the call asks for keeps the property. -/
theorem asked (hP : KeptWith call P) (hs : s.Consistent) {o : Op}
    (ho : s.Asks Continues call o.ctx o.request) (hold : P s x c (h x c)) :
    P (s.after o) x c (h.after call.success? s o x c) := by
  by_cases hquiet : o.request.CommitsNothing
  · exact hP.client hs hquiet hold
  · obtain ⟨ctx, now, q⟩ := o
    cases q with
    | applyChanges cs =>
      have hkept : P (s.after ⟨ctx, now, .applyChanges cs⟩) x c
          (h x c ++ (s.appliedIn ⟨ctx, now, .applyChanges cs⟩).flatMap fun p =>
            (p.before.endedIn p.after x c).map fun a => ⟨a, call.success?⟩) := by
        by_cases htenant : ctx.tenantId = ""
        · simp only [Store.after, perform, appliedIn, htenant, if_true, List.flatMap_nil,
            List.append_nil]
          exact hold
        · simp only [Store.after, perform, appliedIn, htenant, if_false]
          exact hP.commitAll hs ho.2 hold
      unfold Chronicle.after
      split
      · rename_i hnone
        exact hP.gone (hs.after _) hkept (Option.isNone_iff_eq_none.mp hnone)
      · exact hkept
    | _ => exact absurd trivial hquiet

/-- The property holds after the call, if it has held before. -/
theorem afterAll (hP : KeptWith call P) (hs : s.Consistent) {ops : List Op}
    (hops : Program.Heeds (Asks Continues call) s ops) (hold : P s x c (h x c)) :
    P (s.afterAll ops) x c (h.afterAll call.success? s ops x c) := by
  induction ops generalizing s h with
  | nil => exact hold
  | cons o ops ih =>
    obtain ⟨hasked, hrest⟩ := hops
    exact ih (hs.after o) hrest (hP.asked hs hasked hold)

/-- So it is for a call that dates its report by the clock. -/
theorem completed (ctx : Context) {readings : List Instant} (hP : KeptWith (call.dated readings) P)
    (hs : s.Consistent) {ops : List Op} (hmakes : (call.program ctx).Makes s readings ops)
    (hold : P s x c (h x c)) :
    P (s.afterAll ops) x c (h.afterAll (call.dated readings).success? s ops x c) := by
  -- the dated call makes the same requests, and every change among them is planned by it
  obtain ⟨readings', hdated⟩ := Call.makes_dated hmakes
  have hasks := (call.dated readings).program_asks Continues.rely ctx s
  exact hP.afterAll hs (hdated.heeds Continues.rely hs hasks) hold

end KeptWith

end FleetUpdate
