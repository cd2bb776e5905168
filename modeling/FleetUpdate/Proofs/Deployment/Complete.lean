import FleetUpdate.Proofs.Deployment.Moves
import FleetUpdate.Proofs.Deployment.Seen
import FleetUpdate.Proofs.Store.Sets

/-!
# Only complete distribution sets are assigned, unless an assignment is overtaken

An assignment looks up its distribution set once, before the first batch, and gives up unless the set
is complete and not deleted.  The commits of its batches only ask whether the set is still stored; so
whoever empties the set or marks it as deleted in between is too late to stop the assignment
(`World.Overtakes`).

That is all that can go wrong, in whatever order the steps of calls and clients come: every action is
created at a moment at which its set is complete and not deleted exactly as long as no assignment is
overtaken, and then every stored action brings a complete set (`World.assigns_ready_iff`).
-/

namespace FleetUpdate

/-- The request has an action created that brings the distribution set of the tenant. -/
def Request.Creates (ctx : Context) (x : String) (d : Int) : Request → Prop
  | applyChanges cs => x = ctx.tenantId ∧ ∃ change ∈ cs, ∃ n ∈ change.newActions, n.setId = d
  | _ => False

theorem Request.LeavesSets.not_editsSet {q : Request} (h : q.LeavesSets) {d : Int} :
    ¬ q.EditsSet d := by
  cases q with
  | setModules _ _ | deleteSet _ => exact h.elim
  | _ => exact fun hedits => hedits

namespace Store

variable {s : Store} {ctx : Context} {now : Instant} {q : Request} {x : String} {d : Int}

/-- The tenant has the distribution set, and it is complete and not deleted. -/
def Ready (s : Store) (x : String) (d : Int) : Prop :=
  ∃ row, s.set? x d = some row ∧ row.complete = true ∧ row.deleted = false

instance : Decidable (s.Ready x d) :=
  decidable_of_iff ((s.set? x d).any fun row => row.complete && !row.deleted) (by
    simp [Ready, Option.any_eq_true])

/-- Every action brings a complete distribution set of its tenant. -/
def BringsComplete (s : Store) : Prop :=
  ∀ a ∈ s.actions, ∃ row, s.set? a.tenantId a.setId = some row ∧ row.complete = true

/-- Only its tenant, with new modules or by deleting it, makes a set unfit for assignment. -/
theorem Ready.perform (hs : s.Consistent) (h : s.Ready x d)
    (hq : ¬ (ctx.tenantId = x ∧ q.EditsSet d)) : (s.perform ctx now q).2.Ready x d := by
  obtain ⟨row, hrow, hready⟩ := h
  rcases set?_perform hs ctx now q hrow with hsame | ⟨hx, hedits, -⟩
  · exact ⟨row, hsame, hready⟩
  · exact absurd ⟨hx, hedits⟩ hq

/-- An action after several commits was there before, or one of them was asked to create it. -/
theorem commitAll_action_cases (hs : s.Consistent) (cs : List TargetChange) {a : Action}
    (ha : a ∈ (s.commitAll ctx now cs).2.actions) :
    (∃ b ∈ s.actions, b.id = a.id ∧ b.owner = a.owner ∧ b.setId = a.setId) ∨
      a.tenantId = ctx.tenantId ∧ ∃ change ∈ cs, ∃ n ∈ change.newActions, n.setId = a.setId := by
  induction cs generalizing s with
  | nil => exact .inl ⟨a, ha, rfl, rfl, rfl⟩
  | cons c cs ih =>
    rcases ih (hs.commit ctx now c) ha with ⟨b, hb, hid, howner, hset⟩ | ⟨hx, change, hmem, hn⟩
    · rcases commit_cases hs ctx now c with ⟨k, -, hcommit, -⟩ | ⟨e, -, hcommit⟩
      · rw [hcommit] at hb
        rcases List.mem_append.mp hb with hb | hb
        · obtain ⟨b, hb', rfl⟩ := List.mem_map.mp hb
          simp only [TargetChange.writeAction_id, TargetChange.writeAction_owner,
            TargetChange.writeAction_setId] at hid howner hset
          exact .inl ⟨b, hb', hid, howner, hset⟩
        · obtain ⟨i, hi, rfl⟩ := List.mem_mapIdx.mp hb
          exact .inr ⟨(Prod.mk.inj howner).1.symm, c, List.mem_cons_self, _, List.getElem_mem hi,
            hset⟩
      · rw [hcommit] at hb
        exact .inl ⟨b, hb, hid, howner, hset⟩
    · exact .inr ⟨hx, change, List.mem_cons_of_mem _ hmem, hn⟩

/-- An action after a request was there before, or it is new and the request had it created. -/
theorem perform_action_cases (hs : s.Consistent) (q : Request) {a : Action}
    (ha : a ∈ (s.perform ctx now q).2.actions) :
    (∃ b ∈ s.actions, b.id = a.id ∧ b.owner = a.owner ∧ b.setId = a.setId) ∨
      (∀ b ∈ s.actions, b.id ≠ a.id) ∧ q.Creates ctx a.tenantId a.setId := by
  by_cases hq : q.CommitsNothing
  · exact .inl ⟨a, mem_of_commitsNothing hs (o := ⟨ctx, now, q⟩) hq ha, rfl, rfl, rfl⟩
  · cases q with
    | applyChanges cs =>
      by_cases hold : a.id ≤ s.lastActionId
      · exact .inl ((Grows.after hs ⟨ctx, now, .applyChanges cs⟩).old a ha hold)
      · have hno : ∀ b ∈ s.actions, b.id ≠ a.id := fun b hb hid =>
          hold (hid ▸ hs.actions.le_last b hb)
        unfold Store.perform at ha
        split at ha
        · exact absurd rfl (hno a ha)
        · rcases commitAll_action_cases hs cs ha with ⟨b, hb, hid, -⟩ | hcreated
          · exact absurd hid (hno b hb)
          · exact .inr ⟨hno, hcreated⟩
    | _ => exact absurd trivial hq

/-- If every action brings a complete set, and those that a request creates bring sets that are
ready, then every action does so after the request. -/
theorem BringsComplete.perform (hs : s.Consistent) (h : s.BringsComplete)
    (hnew : ∀ a ∈ (s.perform ctx now q).2.actions, (∀ b ∈ s.actions, b.id ≠ a.id) →
      s.Ready a.tenantId a.setId) : (s.perform ctx now q).2.BringsComplete := by
  intro a ha
  rcases perform_action_cases hs q ha with ⟨b, hb, -, howner, hset⟩ | ⟨hno, hcreates⟩
  · rw [← hset, ← (Prod.mk.inj howner).1]
    obtain ⟨row, hrow, hcomplete⟩ := h b hb
    rcases set?_perform hs ctx now q hrow with hsame | ⟨-, -, hfree | hmarked⟩
    · exact ⟨row, hsame, hcomplete⟩
    · rw [isReferenced, List.any_eq_false] at hfree
      exact absurd (beq_self_eq_true _) (hfree b hb)
    · exact ⟨_, hmarked, hcomplete⟩
  · obtain ⟨row, hrow, hcomplete, -⟩ := hnew a ha hno
    rcases set?_perform hs ctx now q hrow with hsame | ⟨-, hedits, -⟩
    · exact ⟨row, hsame, hcomplete⟩
    · cases q with
      | applyChanges cs => exact hedits.elim
      | _ => exact hcreates.elim

/-- A lookup shows that the distribution set is ready. -/
def ShowsReady (x : String) (d : Int) (ctx : Context) (q : Request) (s : Store) : Prop :=
  ctx.tenantId = x ∧ q = .findSet d ∧ s.Ready x d

end Store

/-! ## What a call has seen before it creates an action -/

section Calls

open Program Store

variable {ctx : Context} {x : String} {d : Int} {p : Policy} {r : AssignmentRequest}

theorem Request.IsLookup.not_creates {q : Request} (hq : q.IsLookup) : ¬ q.Creates ctx x d := by
  cases q with
  | applyChanges cs => exact hq.elim
  | _ => exact fun h => h

/-- The check of a request lets nothing pass unless the distribution set was ready. -/
theorem safeUntil_checkRequest :
    (checkRequest ctx p r).SafeUntil (ShowsReady ctx.tenantId r.setId)
      (fun cx q => ¬ q.Creates cx x d) fun _ => False := by
  refine safeUntil_bind.mpr (safeUntil_lookup (fun _ _ => rfl) fun s _ => ?_)
  by_cases hready : s.Ready ctx.tenantId r.setId
  · exact .inl ⟨rfl, rfl, hready⟩
  · refine .inr ⟨Request.IsLookup.not_creates trivial, ?_⟩
    refine safeUntil_bind.mpr (safeUntil_require.mpr fun row hrow => ?_)
    split
    · trivial
    · rename_i hkept
      split
      · trivial
      · rename_i hcomplete
        exact absurd ⟨row, hrow, by simpa using hcomplete, by simpa using hkept⟩ hready

/-- Before a call has an action created, it has found the distribution set of the action ready. -/
theorem Call.safeUntil_ready (x : String) (d : Int) (ctx : Context) (call : Call) :
    (call.program ctx).SafeUntil (ShowsReady x d) (fun cx q => ¬ q.Creates cx x d)
      fun _ => True := by
  by_cases hassigns : ∃ p r, call = .assign p r ∧ r.setId = d ∧ ctx.tenantId = x
  · obtain ⟨p, r, rfl, rfl, rfl⟩ := hassigns
    refine safeUntil_bind.mpr (safeUntil_write.mpr (safeUntil_bind.mpr (safeUntil_count.mpr ?_)))
    exact safeUntil_bind.mpr (safeUntil_checkRequest.mono fun _ hno => hno.elim)
  · by_cases hx : ctx.tenantId = x
    · -- whatever the call has read meanwhile, its plans create no such action
      refine (call.only_plans ctx).of_only.safe_mono fun cx q hplans hcreates => ?_
      cases q with
      | applyChanges cs =>
        obtain ⟨-, change, hchange, n, hn, rfl⟩ := hcreates
        obtain ⟨tr, v, events, hplanned, hp⟩ := hplans cs rfl change hchange
        obtain ⟨p, r, rfl, rfl⟩ := exists_assign_of_mem_newActions hplanned hp hn
        exact hassigns ⟨p, r, rfl, rfl, hx⟩
      | _ => exact hcreates.elim
    · refine (call.only_unset ctx).of_only.safe_mono fun cx q hasked hcreates => hx ?_
      cases q with
      | applyChanges cs => exact hasked.1 ▸ hcreates.1.symm
      | _ => exact hcreates.elim

end Calls

/-! ## Runs -/

namespace World

open Store

variable {w w' : World} {ws : List World} {x : String} {d : Int} {i j k n : Nat}

/-- Every action that the step brings brings a distribution set that was ready. -/
def AssignsReady (w w' : World) : Prop :=
  ∀ a ∈ w'.store.actions, (∀ b ∈ w.store.actions, b.id ≠ a.id) → w.store.Ready a.tenantId a.setId

/-- The call at a place finds the distribution set ready. -/
def FindsReady (w w' : World) (n : Nat) (x : String) (d : Int) : Prop :=
  ∃ ctx q, w.AsksAt w' n ctx q ∧ ShowsReady x d ctx q w.store

/-- A client of the tenant gives the set new modules or deletes it, and it is not ready any more. -/
def Withdraws (w w' : World) (x : String) (d : Int) : Prop :=
  (∃ o, w' = ⟨w.store.after o, w.running⟩ ∧ o.ctx.tenantId = x ∧ o.request.EditsSet d) ∧
    w.store.Ready x d ∧ ¬ w'.store.Ready x d

/-- The call at a place has an action created whose distribution set is not ready. -/
def CreatesUnready (w w' : World) (n : Nat) (x : String) (d : Int) : Prop :=
  (∃ ctx q, w.AsksAt w' n ctx q) ∧ ¬ w.store.Ready x d ∧
    ∃ a ∈ w'.store.actions, a.tenantId = x ∧ a.setId = d ∧ ∀ b ∈ w.store.actions, b.id ≠ a.id

/-- The call at place `n` is overtaken: after it has found the distribution set ready, a client
withdraws it, and then the call has an action created with it. -/
structure Overtakes (ws : List World) (n : Nat) (x : String) (d : Int) (i j k : Nat) : Prop where
  order : i < j ∧ j < k
  finds : ∃ w w', StepAt ws i w w' ∧ w.FindsReady w' n x d
  withdraws : ∃ w w', StepAt ws j w w' ∧ w.Withdraws w' x d
  creates : ∃ w w', StepAt ws k w w' ∧ w.CreatesUnready w' n x d

/-- A distribution set that is not ready any more has been withdrawn. -/
theorem IsRun.withdraws (h : IsRun ws) (hat : StepAt ws j w w') (hw : w.store.Ready x d)
    (hw' : ¬ w'.store.Ready x d) : w.Withdraws w' x d := by
  have hs := (h.free w hat.mem.1).consistent
  refine ⟨?_, hw, hw'⟩
  rcases (hat.of_isChain h.steps).cases_at with hsame | ⟨o, -, rfl⟩ | ⟨n, ctx, q, hasks⟩
  · exact absurd (hsame ▸ hw) hw'
  · by_contra hno
    exact hw' (hw.perform hs fun hedits => hno ⟨o, rfl, hedits⟩)
  · obtain ⟨now, hstore⟩ := hasks.store_eq
    -- only clients write distribution sets
    have honly (ctx : Context) (call : Call) (_ : True) :
        (call.program ctx).Only (fun _ q => q.LeavesSets) fun _ => True :=
      (call.only_unset ctx).safe_mono fun _ _ hasked => hasked.2
    have hleaves : q.LeavesSets := asks_only h.steps h.start honly hat hasks
    rw [hstore] at hw'
    exact absurd (hw.perform hs fun hedits => hleaves.not_editsSet hedits.2) hw'

/-- A call that has an action created with a set that is not ready has been overtaken. -/
theorem IsRun.exists_overtakes (h : IsRun ws) (hat : StepAt ws k w w')
    (hno : ¬ w.AssignsReady w') : ∃ n x d i j, Overtakes ws n x d i j k := by
  simp only [AssignsReady, not_forall] at hno
  obtain ⟨a, ha, hnew, hunready⟩ := hno
  have hs := (h.free w hat.mem.1).consistent
  rcases (hat.of_isChain h.steps).cases_at with hsame | ⟨o, ho, rfl⟩ | ⟨n, ctx, q, hasks⟩
  · exact absurd rfl (hnew a (hsame ▸ ha))
  · exact absurd rfl (hnew a (mem_of_commitsNothing hs ho ha))
  · have hcreates : q.Creates ctx a.tenantId a.setId := by
      obtain ⟨now, hstore⟩ := hasks.store_eq
      rw [hstore] at ha
      rcases perform_action_cases hs q ha with ⟨b, hb, hid, -⟩ | ⟨-, hcreates⟩
      · exact absurd hid (hnew b hb)
      · exact hcreates
    rcases asks_safe_or_seen h.steps h.start
      (fun ctx call _ => call.safeUntil_ready a.tenantId a.setId ctx) hat hasks with
      hsafe | ⟨-, -, hready⟩ | ⟨i, u, u', ctx', q', hik, hfinds, hasks', hsight⟩
    · exact absurd hcreates hsafe
    · exact absurd hready hunready
    · -- the set was ready when the call looked it up, and right after that
      obtain ⟨hx, rfl, hready⟩ := hsight
      have hready' : u'.store.Ready a.tenantId a.setId := by
        rw [hasks'.store_of_isLookup trivial]
        exact hready
      obtain ⟨j, v, v', hij, hjk, hturn, hv, hv'⟩ :=
        exists_turning_point (P := fun w => w.store.Ready a.tenantId a.setId) hik hfinds.after
          hready' hat.before hunready
      exact ⟨n, a.tenantId, a.setId, i, j, ⟨hij, hjk⟩,
        ⟨u, u', hfinds, ctx', _, hasks', hx, rfl, hready⟩, ⟨v, v', hturn, h.withdraws hturn hv hv'⟩,
        ⟨w, w', hat, ⟨ctx, q, hasks⟩, hunready, a, ha, rfl, rfl, hnew⟩⟩

/-- However the steps of assignments and all other calls follow each other, and whatever clients do
to distribution sets and targets meanwhile: every action is created at a moment at which its set is
stored, complete and not deleted exactly as long as no assignment is overtaken; and then every stored
action brings a complete set. -/
theorem assigns_ready_iff (h : IsRun ws) :
    (ws.IsChain AssignsReady ↔ ∀ n x d i j k, ¬ Overtakes ws n x d i j k) ∧
    (ws.IsChain AssignsReady → ∀ w ∈ ws, w.store.BringsComplete) := by
  refine ⟨⟨fun hready n x d i j k hovertakes => ?_, fun hno => ?_⟩, fun hready => ?_⟩
  · obtain ⟨w, w', hat, -, hunready, a, ha, rfl, rfl, hnew⟩ := hovertakes.creates
    exact hunready (hat.of_isChain hready a ha hnew)
  · refine isChain_of_stepAt fun k w w' hat => ?_
    by_contra hunready
    obtain ⟨n, x, d, i, j, hovertakes⟩ := h.exists_overtakes hat hunready
    exact hno n x d i j k hovertakes
  · refine forall_mem_of_isChain h.start (h.steps_and hready) (fun a ha => by cases ha)
      fun w w' ⟨hw, hstep, hready⟩ hbrings => ?_
    rcases hstep.cases_at with hsame | ⟨o, -, rfl⟩ | ⟨n, ctx, q, hasks⟩
    · rw [hsame]
      exact hbrings
    · exact hbrings.perform hw.consistent hready
    · obtain ⟨now, hstore⟩ := hasks.store_eq
      rw [AssignsReady, hstore] at hready
      rw [hstore]
      exact hbrings.perform hw.consistent hready

end World

/-! ## A set that is emptied in between -/

/-- The operator creates a complete distribution set and registers a device. -/
def fullSet : List Op :=
  [⟨Store.sampleContext, 1, .createSet ⟨"app", "1", "os", ["os"], ["os"]⟩⟩,
    ⟨Store.sampleContext, 1, .createTarget (.ofId "device")⟩]

/-- The call of the operator that assigns the set to the device. -/
def assignFull : Call := .assign .standard (.forced 1 ["device"])

/-- The assignment has checked the set and read the device, and is about to commit its batch, -/
def fullChecked : Running × Store :=
  Running.advances 2 8
    (⟨Store.sampleContext, assignFull, assignFull.program Store.sampleContext⟩,
      Store.empty.afterAll fullSet)

/-- when the operator takes all modules out of the set; -/
def fullEmptied : Store := fullChecked.2.after ⟨Store.sampleContext, 3, .setModules 1 []⟩

/-- and the batch is committed. -/
def emptiedAssigned : World :=
  ⟨(fullChecked.1.advance 4 fullEmptied).2, [(fullChecked.1.advance 4 fullEmptied).1]⟩

theorem emptiedAssigned_reachable :
    emptiedAssigned.Reachable (fun _ => True) Request.CommitsNothing := by
  have hsets : World.Reachable (fun _ => True) Request.CommitsNothing
      ⟨Store.empty.afterAll fullSet, []⟩ :=
    World.Reachable.requests .refl (by simp [fullSet, Request.CommitsNothing])
  have hchecked : World.Reachable (fun _ => True) Request.CommitsNothing
      ⟨fullChecked.2, [fullChecked.1]⟩ := hsets.call Store.sampleContext trivial 2 8
  have hemptied := hchecked.tail (.client ⟨Store.sampleContext, 3, .setModules 1 []⟩ trivial)
  have hcommit : World.FreeStep ⟨fullEmptied, [] ++ fullChecked.1 :: []⟩ emptiedAssigned := .run 4
  exact hemptied.tail hcommit

/-- The device has an action whose distribution set is not complete. -/
theorem emptiedAssigned_brings : ∃ a ∈ emptiedAssigned.store.actions, ∃ row,
    emptiedAssigned.store.set? a.tenantId a.setId = some row ∧ row.complete = false := by
  have hincomplete : (emptiedAssigned.store.actions.any fun a =>
      (emptiedAssigned.store.set? a.tenantId a.setId).any fun row => !row.complete) = true := by
    decide +kernel
  simpa [List.any_eq_true, Option.any_eq_true] using hincomplete

/-- So in some run an action is stored that brings an incomplete set. -/
theorem emptiedAssigned_incomplete : ∃ ws, World.IsRun ws ∧ ∃ w ∈ ws, ∃ a ∈ w.store.actions,
    ∃ row, w.store.set? a.tenantId a.setId = some row ∧ row.complete = false := by
  obtain ⟨ws, hstart, hsteps, hmem⟩ := emptiedAssigned_reachable.exists_isChain
  exact ⟨ws, ⟨hstart, hsteps⟩, emptiedAssigned, hmem, emptiedAssigned_brings⟩

/-- The assignment has been overtaken in that run. -/
theorem emptiedAssigned_overtaken : ∃ ws, World.IsRun ws ∧ emptiedAssigned ∈ ws ∧
    ∃ n x d i j k, World.Overtakes ws n x d i j k := by
  obtain ⟨ws, hstart, hsteps, hmem⟩ := emptiedAssigned_reachable.exists_isChain
  refine ⟨ws, ⟨hstart, hsteps⟩, hmem, ?_⟩
  obtain ⟨hiff, hbrings⟩ := World.assigns_ready_iff ⟨hstart, hsteps⟩
  by_contra hno
  simp only [not_exists] at hno
  obtain ⟨a, ha, row, hrow, hincomplete⟩ := emptiedAssigned_brings
  obtain ⟨row', hrow', hcomplete⟩ := hbrings (hiff.mpr hno) _ hmem a ha
  obtain rfl := Option.some.inj (hrow.symm.trans hrow')
  rw [hincomplete] at hcomplete
  cases hcomplete

end FleetUpdate
