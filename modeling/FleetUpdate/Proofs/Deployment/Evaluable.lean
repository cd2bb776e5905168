import FleetUpdate.Proofs.Deployment.Seen
import FleetUpdate.Proofs.Deployment.Spurious
import FleetUpdate.Proofs.Maintenance.Availability

/-!
# Windows from the request to the device

A maintenance window is checked when an assignment is asked for, and evaluated whenever somebody
wants to know whether a device may carry out its action, which may be years later and long after the
last window.  In between the action passes through transitions of all kinds.

`World.windows_evaluate` says that nothing is lost on the way.  The window of a stored action is the
one of the request that had it created (`World.AskedFor`); it can be read, so that both questions
about it are answered from its schedule at any time and fail only for want of the action
(`Store.evaluate`); and a request whose window is refused for as long as the clock may say so looks
up its distribution set, fails, and leaves no trace, whatever others do meanwhile
(`Program.GivesUp`).
-/

namespace FleetUpdate

/-- Among others, a call that gives up leaves the store alone with each of its steps. -/
theorem Running.advance_of_givesUp {times : Instant → Prop} {r : Running} (h : r.rest.GivesUp times)
    {now : Instant} (hnow : times now) (s : Store) :
    (r.advance now s).2 = s ∧ (r.advance now s).1.rest.GivesUp times := by
  obtain ⟨ctx, call, rest⟩ := r
  cases rest with
  | done a => exact ⟨rfl, h⟩
  | fail e => exact ⟨rfl, h⟩
  | ask cx q next => exact ⟨Store.perform_of_isLookup s cx now h.1, h.2 _⟩
  | clock next => exact ⟨rfl, h now hnow⟩
  | note n next => exact ⟨rfl, h.2⟩

/-! ## Questions about windows -/

/-- The schedule of the window of an action, if it has one. -/
def Action.schedule? (a : Action) : Option Schedule :=
  a.maintenance.bind fun spec => (Schedule.ofSpec spec).toOption

namespace Store

variable {s : Store} {ctx : Context} {i : Int} {time : Instant} {times : Instant → Prop}

/-- What there is to say of the window of an action of the tenant; nothing, if it has no such
action. -/
def evaluate {β : Type} (s : Store) (ctx : Context) (i : Int) (say : Option Schedule → β) :
    Except DeploymentError β :=
  match s.action? ctx.tenantId i with
  | some a => .ok (say a.schedule?)
  | none => .error (.notFound .action (toString i))

/-- The action may be carried out at a time if it has no window, or if its window is open. -/
def isOpenAt (time : Instant) (schedule : Option Schedule) : Bool :=
  schedule.all fun schedule => schedule.isAvailable time

/-- The window that is open at a time, or the next one. -/
def openingAt (time : Instant) (schedule : Option Schedule) : Option (Schedule × Window) :=
  schedule.bind fun schedule => (schedule.currentOrNext time).map fun w => (schedule, w)

theorem schedule?_of_readable {a : Action} {spec : MaintenanceSpec} {schedule : Schedule}
    (hspec : a.maintenance = some spec) (hread : Schedule.ofSpec spec = .ok schedule) :
    a.schedule? = some schedule := by
  rw [Action.schedule?, hspec, Option.bind_some, hread]
  rfl

/-- A program that loads an action of the tenant and then says something about its window that
depends on its schedule only. -/
theorem ends_evaluate {β : Type} {say : Option Schedule → β} {f : Action → Program β}
    (hx : ctx.tenantId ≠ "")
    (hf : ∀ a, s.action? ctx.tenantId i = some a → f a = .done (say a.schedule?))
    {x : Except DeploymentError β} {s' : Store} {es : List Event}
    (h : ((loadAction ctx i).bind f).Ends times s x s' es) :
    x = s.evaluate ctx i say ∧ s' = s ∧ es = [] := by
  have hleaves : ((loadAction ctx i).bind f).Leaves times
      (fun b s' es => .ok b = s.evaluate ctx i say ∧ s' = s ∧ es = [])
      (fun e s' es => .error e = s.evaluate ctx i say ∧ s' = s ∧ es = []) s := by
    refine Program.leaves_bind.mpr (leaves_loadAction (fun _ a ha => ?_) (fun hno => absurd hno hx)
      fun hnone => ⟨by rw [evaluate, hnone], rfl, rfl⟩)
    rw [hf a ha]
    exact ⟨by rw [evaluate, ha], rfl, rfl⟩
  have hjudged := hleaves.of_ends h
  cases x <;> exact hjudged

variable (hs : s.Consistent) (hscheduled : s.Scheduled) (hx : ctx.tenantId ≠ "")

include hs hscheduled hx

/-- Whether an action may be carried out is answered from the schedule of its window. -/
theorem ends_isActionAvailable {x : Except DeploymentError Bool} {s' : Store} {es : List Event}
    (h : (isActionAvailable ctx i time).Ends times s x s' es) :
    x = s.evaluate ctx i (isOpenAt time) ∧ s' = s ∧ es = [] := by
  refine ends_evaluate hx (fun a ha => ?_) h
  cases hspec : a.maintenance with
  | none => simp [isWindowAvailable, Action.schedule?, hspec, isOpenAt]
  | some spec =>
    obtain ⟨schedule, hread⟩ := hscheduled a ((action?_eq_some_iff hs).mp ha).1 spec hspec
    rw [isWindowAvailable, hread, schedule?_of_readable hspec hread]
    rfl

/-- So is the question for the current or next window. -/
theorem ends_actionWindow {x : Except DeploymentError (Option (Schedule × Window))} {s' : Store}
    {es : List Event} (h : (actionWindow ctx i time).Ends times s x s' es) :
    x = s.evaluate ctx i (openingAt time) ∧ s' = s ∧ es = [] := by
  refine ends_evaluate hx (fun a ha => ?_) h
  cases hspec : a.maintenance with
  | none => simp [Action.schedule?, hspec, openingAt]
  | some spec =>
    obtain ⟨schedule, hread⟩ := hscheduled a ((action?_eq_some_iff hs).mp ha).1 spec hspec
    rw [schedule?_of_readable hspec hread]
    dsimp only
    rw [hread]
    rfl

end Store

/-! ## Runs -/

namespace World

open Store

variable {w w' : World} {ws : List World} {a a' : Action} {k n : Nat} {times : Instant → Prop}

/-- A step of a call before the `k`-th world has created the action, with the window of the request
of this call; the action has kept it. -/
def AskedFor (ws : List World) (k : Nat) (a : Action) : Prop :=
  ∃ j u u' r p req, j < k ∧ StepAt ws j u u' ∧ u.Takes u' r ∧ r.call = .assign p req ∧
    (∀ b ∈ u.store.actions, b.id ≠ a.id) ∧
    (∃ b ∈ u'.store.actions, b.id = a.id ∧ b.maintenance = req.maintenance) ∧
    a.maintenance = req.maintenance

/-- In each of its steps the call at a place finds that the clock shows one of the given times. -/
def ClockAt (ws : List World) (n : Nat) (times : Instant → Prop) : Prop :=
  ∀ k w w' r, StepAt ws k w w' → w.TakesAt w' n r → ∃ now, times now ∧
    w' = ⟨(r.advance now w.store).2, w.running.set n (r.advance now w.store).1⟩

/-- Only the step of a call brings an action, and it is an assignment with the window of the
action. -/
theorem Free.brings (h : w.Free) (hstep : w.FreeStep w') (ha' : a' ∈ w'.store.actions)
    (hnew : ∀ a ∈ w.store.actions, a.id ≠ a'.id) :
    ∃ r p req, w.Takes w' r ∧ r.call = .assign p req ∧ a'.maintenance = req.maintenance := by
  rcases hstep.cases with hsame | ⟨o, ho, hafter⟩ | ⟨r, hr⟩
  · exact absurd rfl (hnew a' (hsame ▸ ha'))
  · rw [hafter] at ha'
    exact absurd rfl (hnew a' (mem_of_commitsNothing h.consistent ho ha'))
  · suffices hassigned : ∀ a' ∈ w'.store.actions, (∀ a ∈ w.store.actions, a.id ≠ a'.id) →
        ∃ p req, r.call = .assign p req ∧ a'.maintenance = req.maintenance by
      obtain ⟨p, req, hcall, hwindow⟩ := hassigned a' ha' hnew
      exact ⟨r, p, req, hr, hcall, hwindow⟩
    refine h.takes_induction (P := fun s' => ∀ a' ∈ s'.actions,
      (∀ a ∈ w.store.actions, a.id ≠ a'.id) → ∃ p req, r.call = .assign p req ∧
        a'.maintenance = req.maintenance) hr ?_ ?_ ?_
    · exact fun a' ha' hnew => absurd rfl (hnew a' ha')
    · exact fun o ho a' ha' hnew =>
        absurd rfl (hnew a' (mem_of_commitsNothing h.consistent ho ha'))
    · intro s₁ ctx now change tr v _ hP hread _ a' ha' hnew
      rcases List.mem_append.mp ha' with hmem | hmem
      · obtain ⟨b, hb, rfl⟩ := List.mem_map.mp hmem
        rw [maintenance_writeAction]
        exact hP b hb (by simpa using hnew)
      · obtain ⟨i, hi, rfl⟩ := List.mem_mapIdx.mp hmem
        obtain ⟨events, hplan⟩ := hread.plan
        obtain ⟨p, req, hcall, hn⟩ :=
          exists_assign_of_mem_newActions hread.plans hplan (List.getElem_mem hi)
        refine ⟨p, req, hcall, ?_⟩
        show change.newActions[i].maintenance = _
        rw [hn]
        rfl

/-- No step of a call changes the window of an action. -/
theorem Free.maintenance_eq (h : w.Free) (hstep : w.FreeStep w') (ha : a ∈ w.store.actions)
    (ha' : a' ∈ w'.store.actions) (hid : a'.id = a.id) : a'.maintenance = a.maintenance := by
  rcases hstep.cases with hsame | ⟨o, ho, hafter⟩ | ⟨r, hr⟩
  · rw [h.consistent.actions.eq_of_id_eq (hsame ▸ ha') ha hid]
  · rw [hafter] at ha'
    rw [h.consistent.actions.eq_of_id_eq (mem_of_commitsNothing h.consistent ho ha') ha hid]
  · rcases h.becomes hr a ha a' ha' hid with rfl | ⟨ctx, tr, u, now, -, -, rfl⟩
    · rfl
    · exact maintenance_writeTo u a

/-- Every action of a run has the window that it was asked for with. -/
theorem IsRun.askedFor (h : IsRun ws) (hk : ws[k]? = some w) :
    ∀ a ∈ w.store.actions, AskedFor ws k a := by
  refine index_induction (P := fun k w => ∀ a ∈ w.store.actions, AskedFor ws k a) h.start
    (fun a ha => by cases ha) (fun k w w' hat ih a' ha' => ?_) hk
  have hfree := h.free w hat.mem.1
  have hstep := hat.of_isChain h.steps
  by_cases hold : ∃ a ∈ w.store.actions, a.id = a'.id
  · obtain ⟨a, ha, hid⟩ := hold
    obtain ⟨j, u, u', r, p, req, hjk, hat', htakes, hcall, hnew, hbrought, hwindow⟩ := ih a ha
    rw [hid] at hnew hbrought
    exact ⟨j, u, u', r, p, req, Nat.lt_succ_of_lt hjk, hat', htakes, hcall, hnew, hbrought,
      (hfree.maintenance_eq hstep ha ha' hid.symm).trans hwindow⟩
  · have hnew : ∀ a ∈ w.store.actions, a.id ≠ a'.id := fun a ha hid => hold ⟨a, ha, hid⟩
    obtain ⟨r, p, req, htakes, hcall, hwindow⟩ := hfree.brings hstep ha' hnew
    exact ⟨k, w, w', r, p, req, Nat.lt_succ_self k, hat, htakes, hcall, hnew,
      ⟨a', ha', rfl, hwindow⟩, hwindow⟩

/-- While the clock shows only such times, a call that is started with a program that gives up goes
on giving up, wherever the steps of others come. -/
theorem IsRun.givesUp (h : IsRun ws) (hclock : ClockAt ws n times) {call : Call}
    (hgives : ∀ ctx, (call.program ctx).GivesUp times) (hk : ws[k]? = some w) {r : Running}
    (hr : w.running[n]? = some r) (hcall : r.call = call) : r.rest.GivesUp times := by
  refine index_induction (P := fun _ w => ∀ r, w.running[n]? = some r → r.call = call →
    r.rest.GivesUp times) h.start (fun r hr => by cases hr) (fun k w w' hat ih r hr hcall => ?_) hk
    r hr hcall
  rcases (hat.of_isChain h.steps).running_cases hr with hr | ⟨ctx, call', -, rfl⟩ |
    ⟨r₀, -, htakes, -⟩
  · exact ih r hr hcall
  · obtain rfl : call' = call := hcall
    exact hgives ctx
  · obtain ⟨now, hnow, rfl⟩ := hclock k w w' r₀ hat htakes
    have hlt : n < w.running.length := (List.getElem?_eq_some_iff.mp htakes.call).choose
    obtain rfl : (r₀.advance now w.store).1 = r := by simpa [List.getElem?_set_self hlt] using hr
    rw [Running.call_advance] at hcall
    exact (Running.advance_of_givesUp (ih r₀ htakes.call hcall) hnow w.store).2

/-- Whatever calls and requests of clients, deletions included, have led to a store, and however
their steps have followed each other: the window of every action can be read and is the one of the
request that had the action created.  So the questions whether an action of a tenant may be carried
out at a time, and which window comes then, are answered from its schedule, and fail only if there
is no such action.  And an assignment whose window is refused at all times that the clock may show
fails and leaves no trace, when it is alone; among others it leaves the store alone with each of its
steps. -/
theorem windows_evaluate (h : IsRun ws) :
    (∀ k w, ws[k]? = some w → ∀ a ∈ w.store.actions, AskedFor ws k a ∧
      ∀ spec, a.maintenance = some spec → spec.IsReadable) ∧
    (∀ w ∈ ws, ∀ ctx : Context, ctx.tenantId ≠ "" → ∀ i time times s' es,
      (∀ x, (isActionAvailable ctx i time).Ends times w.store x s' es →
        x = w.store.evaluate ctx i (isOpenAt time) ∧ s' = w.store ∧ es = []) ∧
      (∀ x, (actionWindow ctx i time).Ends times w.store x s' es →
        x = w.store.evaluate ctx i (openingAt time) ∧ s' = w.store ∧ es = [])) ∧
    ∀ p req times, req.RefusedWindow times →
      (∀ s ctx x s' es, (assignSet p ctx req).Ends times s x s' es →
        (∃ e, x = .error e) ∧ s' = s ∧ es = []) ∧
      ∀ n, ClockAt ws n times → ∀ k w w' r, StepAt ws k w w' → w.TakesAt w' n r →
        r.call = .assign p req → w'.store = w.store := by
  refine ⟨fun k w hk a ha => ?_, fun w hw ctx hx i time times s' es => ?_, ?_⟩
  · exact ⟨h.askedFor hk a ha, h.scheduled w (List.mem_of_getElem? hk) a ha⟩
  · have hs := (h.free w hw).consistent
    exact ⟨fun x => ends_isActionAvailable hs (h.scheduled w hw) hx,
      fun x => ends_actionWindow hs (h.scheduled w hw) hx⟩
  · intro p req times hrefused
    refine ⟨fun s ctx x s' es hends => ?_, fun n hclock k w w' r hat htakes hcall => ?_⟩
    · have hjudged := (givesUp_assignSet hrefused).leaves.of_ends hends
      cases x with
      | ok a => exact hjudged.1.elim
      | error e => exact ⟨⟨e, rfl⟩, hjudged⟩
    · have hprogram : ∀ ctx, ((Call.assign p req).program ctx).GivesUp times := fun ctx =>
        givesUp_assignSet hrefused
      have hgives := h.givesUp hclock hprogram hat.before htakes.call hcall
      obtain ⟨now, hnow, rfl⟩ := hclock k w w' r hat htakes
      exact (Running.advance_of_givesUp hgives hnow w.store).1

end World

/-! ## A nightly window -/

/-- An hour each night from two o'clock on. -/
def nightlySpec : MaintenanceSpec := ⟨"0 0 2 * * ?", "01:00:00", "Z"⟩

/-- A specification without a duration. -/
def incompleteSpec : MaintenanceSpec := ⟨"0 0 2 * * ?", "", "Z"⟩

/-- A specification that leaves out the seconds. -/
def malformedSpec : MaintenanceSpec := ⟨"0 2 * * ?", "01:00:00", "Z"⟩

/-- The turn of the year 2027. -/
def turnOfYearSpec : MaintenanceSpec := ⟨Schedule.turnOfYear.expression, "28:00:00", "+02:00"⟩

theorem ofSpec_incompleteSpec : Schedule.ofSpec incompleteSpec = .error .incomplete := rfl

theorem ofSpec_malformedSpec : Schedule.ofSpec malformedSpec =
    .error (.invalidSchedule "0 2 * * ?" "expected 6 or 7 fields, found 5") := rfl

/-- A request for a device that may act in the windows of a specification. -/
def restricted (spec : MaintenanceSpec) : AssignmentRequest :=
  { AssignmentRequest.forced 1 ["device"] with maintenance := some spec }

/-- A device gets an action that it may carry out at night, and reports that it has begun. -/
def nightlyTasks : List Task :=
  Store.sampleOps.map .request ++
    [.call Store.sampleContext (.assign .standard (restricted nightlySpec)) 1773100000000,
      .call Store.sampleContext (.act 1 (.report ⟨.running, [], none, none⟩)) 1773108000001]

theorem nightlyTasks_not_raw : ∀ task ∈ nightlyTasks, ¬ task.IsRaw := by
  simp [nightlyTasks, Store.sampleOps, Task.IsRaw]

/-- All three are refused in 2030, when the turn of the year 2027 has lapsed. -/
theorem refusedWindow_restricted :
    ∀ spec ∈ [incompleteSpec, malformedSpec, turnOfYearSpec],
      (restricted spec).RefusedWindow (· = 1900000000000) := by
  intro spec hmem
  refine ⟨spec, rfl, fun schedule hread t ht => ?_⟩
  simp only [List.mem_cons, List.not_mem_nil, or_false] at hmem
  rcases hmem with rfl | rfl | rfl
  · cases hread.symm.trans ofSpec_incompleteSpec
  · cases hread.symm.trans ofSpec_malformedSpec
  · obtain rfl := Except.ok.inj (hread.symm.trans Schedule.parse_turnOfYear)
    rw [ht]
    decide +kernel

/-- The action still has the window that was asked for, which is open shortly after two; in 2030 an
assignment with an incomplete, a malformed or a lapsed window fails and leaves no trace. -/
theorem nightly_evaluates : ∃ ws w, World.IsRun ws ∧ w ∈ ws ∧ nightlySpec.IsReadable ∧
    (∃ a ∈ w.store.actions, a.maintenance = some nightlySpec ∧ ∃ k, World.AskedFor ws k a) ∧
    ((isActionAvailable Store.sampleContext 1 1773108000001).runOn 7 w.store).result = .ok true ∧
    w.store.evaluate Store.sampleContext 1 (Store.isOpenAt 1773108000001) = .ok true ∧
    Schedule.ofSpec incompleteSpec = .error .incomplete ∧
    Schedule.ofSpec malformedSpec =
      .error (.invalidSchedule "0 2 * * ?" "expected 6 or 7 fields, found 5") ∧
    ∀ spec ∈ [incompleteSpec, malformedSpec, turnOfYearSpec], ∃ e,
      (assignSet .standard Store.sampleContext (restricted spec)).Runs 1900000000000 w.store
        (.error e) w.store [] := by
  obtain ⟨ws, hrun, hpasses⟩ := World.exists_isRun nightlyTasks_not_raw
  obtain ⟨w, hw, hstore⟩ := World.exists_mem_of_scanl hpasses
  obtain ⟨k, hk⟩ := List.mem_iff_getElem?.mp hw
  obtain ⟨hactions, hquestions, hrefused⟩ := World.windows_evaluate hrun
  obtain ⟨a, ha, hspec⟩ : ∃ a ∈ w.store.actions, a.maintenance = some nightlySpec := by
    have hmem : some nightlySpec ∈ w.store.actions.map Action.maintenance := by
      rw [hstore]
      decide +kernel
    exact List.mem_map.mp hmem
  have hopen : ((isActionAvailable Store.sampleContext 1 1773108000001).runOn 7
      w.store).result = .ok true := by
    rw [hstore]
    decide +kernel
  have hends := Program.ends_runOn (· = 7) rfl
    (isActionAvailable Store.sampleContext 1 1773108000001) w.store
  rw [hopen] at hends
  obtain ⟨hasked, hreadable⟩ := hactions k w hk a ha
  refine ⟨ws, w, hrun, hw, hreadable _ hspec, ⟨a, ha, hspec, k, hasked⟩, hopen, ?_,
    ofSpec_incompleteSpec, ofSpec_malformedSpec, fun spec hmem => ?_⟩
  · exact ((hquestions w hw Store.sampleContext (by decide) 1 1773108000001 (· = 7) _ _).1 _
      hends).1.symm
  · obtain ⟨⟨e, he⟩, hstate, hevents⟩ := (hrefused .standard _ _
      (refusedWindow_restricted spec hmem)).1 w.store Store.sampleContext _ _ _
      (Program.ends_runOn (· = 1900000000000) rfl _ _)
    exact ⟨e, he, hstate, hevents⟩

end FleetUpdate
