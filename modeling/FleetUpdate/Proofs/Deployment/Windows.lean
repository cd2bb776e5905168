import FleetUpdate.Proofs.Deployment.Aging
import FleetUpdate.Proofs.Deployment.Runs
import FleetUpdate.Proofs.Deployment.Sights

/-!
# The maintenance windows of actions

The maintenance window of an assignment is checked once, before the first batch; each action that
the assignment creates keeps it as it was written in the request.  Whether a device may carry out an
action is asked much later, and then the window is read again.  It can be read: an assignment with a
window that cannot is given up before it has touched anything (`givesUp_assignSet`), so that no call
has such an action created (`Call.only_readable`), and no change of an action touches its window
(`World.IsRun.scheduled`).
-/

namespace FleetUpdate

/-- The specification of a maintenance window can be read. -/
def MaintenanceSpec.IsReadable (spec : MaintenanceSpec) : Prop :=
  ∃ schedule, Schedule.ofSpec spec = .ok schedule

/-- The actions that the request has created have windows that can be read, or none. -/
def Request.BringsWindows : Request → Prop
  | applyChanges cs => ∀ change ∈ cs, ∀ n ∈ change.newActions, ∀ spec,
      n.maintenance = some spec → spec.IsReadable
  | _ => True

theorem Request.CommitsNothing.bringsWindows {q : Request} (h : q.CommitsNothing) :
    q.BringsWindows := by
  cases q with
  | applyChanges cs => exact h.elim
  | _ => trivial

/-! ## Programs that give up -/

namespace Program

variable {α β : Type} {times : Instant → Prop} {p : Program α} {Q : α → Prop} {ctx : Context}

/-- Whatever it is answered, while the clock shows one of the given times whenever it is read, the
program only looks things up and publishes nothing; and if it returns, then as `Q` says. -/
def OnlyLooks (times : Instant → Prop) : Program α → (α → Prop) → Prop
  | done a, Q => Q a
  | fail _, _ => True
  | ask _ r next, Q => r.IsLookup ∧ ∀ x, OnlyLooks times (next x) Q
  | clock next, Q => ∀ t, times t → OnlyLooks times (next t) Q
  | note n next, Q => Note.events [n] = [] ∧ OnlyLooks times next Q

/-- The program only looks things up, and fails. -/
abbrev GivesUp (times : Instant → Prop) (p : Program α) : Prop := p.OnlyLooks times fun _ => False

@[simp] theorem onlyLooks_bind {f : α → Program β} {Q : β → Prop} :
    (p.bind f).OnlyLooks times Q ↔ p.OnlyLooks times fun a => (f a).OnlyLooks times Q := by
  induction p with
  | done a => rfl
  | fail e => rfl
  | ask ctx r next ih => exact and_congr_right fun _ => forall_congr' fun x => ih x
  | clock next ih => exact forall_congr' fun t => imp_congr_right fun _ => ih t
  | note n next ih => exact and_congr_right fun _ => ih

theorem OnlyLooks.mono {Q' : α → Prop} (h : p.OnlyLooks times Q) (hQ : ∀ a, Q a → Q' a) :
    p.OnlyLooks times Q' := by
  induction p with
  | done a => exact hQ a h
  | fail e => trivial
  | ask ctx r next ih => exact ⟨h.1, fun x => ih x (h.2 x)⟩
  | clock next ih => exact fun t ht => ih t (h t ht)
  | note n next ih => exact ⟨h.1, ih h.2⟩

theorem onlyLooks_request {r : Request} {Q : r.Answer → Prop} (hr : r.IsLookup) (hQ : ∀ a, Q a) :
    (request ctx r).OnlyLooks times Q := by
  refine ⟨hr, fun x => ?_⟩
  cases x with
  | ok a => exact hQ a
  | error e => trivial

@[simp] theorem onlyLooks_require {e : Entity} {id : String} {x : Option α} :
    (require e id x).OnlyLooks times Q ↔ ∀ a, x = some a → Q a := by
  cases x <;> simp [require, OnlyLooks]

@[simp] theorem onlyLooks_ofExcept {x : Except DeploymentError α} :
    (ofExcept x).OnlyLooks times Q ↔ ∀ a, x = .ok a → Q a := by
  cases x <;> simp [ofExcept, OnlyLooks]

theorem onlyLooks_write {n : Note} {Q : Unit → Prop} (hn : Note.events [n] = []) (hQ : Q ()) :
    (write n).OnlyLooks times Q := ⟨hn, hQ⟩

/-- Alone, such a program leaves the store as it is. -/
theorem OnlyLooks.leaves {s : Store} (h : p.OnlyLooks times Q) :
    p.Leaves times (fun a s' es => Q a ∧ s' = s ∧ es = []) (fun _ s' es => s' = s ∧ es = []) s := by
  induction p with
  | done a => exact ⟨h, rfl, rfl⟩
  | fail e => exact ⟨rfl, rfl⟩
  | ask ctx r next ih =>
    intro t _
    rw [Store.perform_of_isLookup s ctx (epochMillis t) h.1]
    exact ih _ (h.2 _)
  | clock next ih => exact fun t ht => ih t (h t ht)
  | note n next ih =>
    obtain ⟨hquiet, hnext⟩ := h
    exact (ih hnext).mono (fun a s' es ⟨ha, hs, hes⟩ => ⟨ha, hs, by simp [hquiet, hes]⟩)
      fun e s' es ⟨hs, hes⟩ => ⟨hs, by simp [hquiet, hes]⟩

/-- Asking for lookups only is safe where lookups are, if the clock may show any time. -/
theorem OnlyLooks.only {safe : Context → Request → Prop} (h : p.OnlyLooks (fun _ => True) Q)
    (hlook : ∀ ctx r, r.IsLookup → safe ctx r) : p.Only safe Q := by
  induction p with
  | done a => exact h
  | fail e => trivial
  | ask ctx r next ih => exact fun s _ => .inr ⟨hlook ctx r h.1, fun now => ih _ (h.2 _)⟩
  | clock next ih => exact fun t => ih t (h t trivial)
  | note n next ih => exact ih h.2

end Program

/-! ## What calls bring -/

section Assignments

open Program

variable {times : Instant → Prop} {ctx : Context} {p : Policy} {r : AssignmentRequest}
  {spec : MaintenanceSpec}

/-- The request comes with a window that cannot be read, because it is incomplete or malformed, or
that has lapsed at each of the given times. -/
def AssignmentRequest.RefusedWindow (times : Instant → Prop) (r : AssignmentRequest) : Prop :=
  ∃ spec, r.maintenance = some spec ∧ ∀ schedule, Schedule.ofSpec spec = .ok schedule →
    ∀ t, times t → schedule.isLapsed t = true

theorem validateWindow_of_lapsed {t : Instant}
    (h : ∀ schedule, Schedule.ofSpec spec = .ok schedule → schedule.isLapsed t = true) :
    ∃ e, validateWindow spec t = .error e := by
  unfold validateWindow
  cases hread : Schedule.ofSpec spec with
  | error e => exact ⟨e, rfl⟩
  | ok schedule => exact ⟨.lapsed spec.schedule, if_pos (h schedule hread)⟩

theorem onlyLooks_checkRequest (h : r.RefusedWindow times) : (checkRequest ctx p r).GivesUp times := by
  obtain ⟨spec, hspec, hbad⟩ := h
  refine onlyLooks_bind.mpr (onlyLooks_request trivial fun found => ?_)
  refine onlyLooks_bind.mpr (onlyLooks_require.mpr fun d _ => ?_)
  split
  · trivial
  split
  · exact onlyLooks_bind.mpr (onlyLooks_write rfl trivial)
  refine onlyLooks_bind.mpr (onlyLooks_ofExcept.mpr fun _ _ => ?_)
  refine onlyLooks_bind.mpr (onlyLooks_ofExcept.mpr fun _ _ => ?_)
  unfold checkMaintenance
  rw [hspec]
  intro t ht
  obtain ⟨e, he⟩ := validateWindow_of_lapsed fun schedule hread => hbad schedule hread t ht
  simp only [Program.bind, he]
  trivial

/-- A request for an assignment is given up if its window is refused. -/
theorem givesUp_assignSet (h : r.RefusedWindow times) : (assignSet p ctx r).GivesUp times :=
  onlyLooks_bind.mpr (onlyLooks_write rfl (onlyLooks_bind.mpr (onlyLooks_write rfl
    (onlyLooks_bind.mpr ((onlyLooks_checkRequest h).mono fun _ hno => hno.elim)))))

/-- A call has no action created with a window that cannot be read. -/
theorem Call.only_readable (ctx : Context) (call : Call) :
    (call.program ctx).Only (fun _ q => q.BringsWindows) fun _ => True := by
  by_cases hbad : ∃ p r spec, call = .assign p r ∧ r.maintenance = some spec ∧ ¬ spec.IsReadable
  · obtain ⟨p, r, spec, rfl, hspec, hbad⟩ := hbad
    have hgives : (assignSet p ctx r).GivesUp fun _ => True :=
      givesUp_assignSet ⟨spec, hspec, fun schedule hread => absurd ⟨schedule, hread⟩ hbad⟩
    exact (hgives.only fun _ q hq => hq.commitsNothing.bringsWindows).mono fun _ hno => hno.elim
  · refine (call.only_plans ctx).safe_mono fun cx q hplans => ?_
    cases q with
    | applyChanges cs =>
      intro change hchange n hn spec hspec
      obtain ⟨tr, v, events, hplanned, hp⟩ := hplans cs rfl change hchange
      obtain ⟨p, r, rfl, rfl⟩ := exists_assign_of_mem_newActions hplanned hp hn
      by_contra hno
      exact hbad ⟨p, r, spec, rfl, hspec, hno⟩
    | _ => trivial

end Assignments

namespace Store

/-! ## What the store holds -/

/-- The windows of all actions can be read. -/
def Scheduled (s : Store) : Prop :=
  ∀ a ∈ s.actions, ∀ spec, a.maintenance = some spec → spec.IsReadable

variable {s : Store} {ctx : Context} {now : Instant}

@[simp] theorem maintenance_writeTo (u : ActionUpdate) (a : Action) :
    (u.writeTo ctx now a).maintenance = a.maintenance := by
  unfold ActionUpdate.writeTo
  split <;> rfl

@[simp] theorem maintenance_writeAction (change : TargetChange) (a : Action) :
    (change.writeAction ctx now a).maintenance = a.maintenance :=
  TargetChange.writeAction_induction (P := fun b => b.maintenance = a.maintenance) rfl
    fun u _ b hb => by simpa using hb

theorem Scheduled.commitAll (hs : s.Consistent) (h : s.Scheduled) {cs : List TargetChange}
    (hcs : (Request.applyChanges cs).BringsWindows) : (s.commitAll ctx now cs).2.Scheduled := by
  induction cs generalizing s with
  | nil => exact h
  | cons change cs ih =>
    obtain ⟨hfirst, hrest⟩ := List.forall_mem_cons.mp hcs
    suffices hnext : (s.commit ctx now change).2.Scheduled from
      ih (hs.commit ctx now change) hnext hrest
    rcases commit_cases hs ctx now change with ⟨k, -, hcommit, -⟩ | ⟨e, -, hcommit⟩
    · rw [hcommit]
      intro a ha spec hspec
      rcases List.mem_append.mp ha with ha | ha
      · obtain ⟨b, hb, rfl⟩ := List.mem_map.mp ha
        rw [maintenance_writeAction] at hspec
        exact h b hb spec hspec
      · obtain ⟨i, hi, rfl⟩ := List.mem_mapIdx.mp ha
        exact hfirst _ (List.getElem_mem hi) spec hspec
    · rw [hcommit]
      exact h

theorem Scheduled.after (hs : s.Consistent) (h : s.Scheduled) {o : Op}
    (ho : o.request.BringsWindows) : (s.after o).Scheduled := by
  by_cases hquiet : o.request.CommitsNothing
  · exact fun a ha => h a (mem_of_commitsNothing hs hquiet ha)
  · obtain ⟨ctx, now, q⟩ := o
    cases q with
    | applyChanges cs =>
      unfold Store.after perform
      split
      · exact h
      · exact h.commitAll hs ho
    | _ => exact absurd trivial hquiet

/-- A window that can be read tells at any time whether it is open. -/
theorem Scheduled.exists_isWindowAvailable (h : s.Scheduled) {a : Action} (ha : a ∈ s.actions)
    (time : Instant) : ∃ b, isWindowAvailable a.maintenance time = .ok b := by
  cases hspec : a.maintenance with
  | none => exact ⟨true, rfl⟩
  | some spec =>
    obtain ⟨schedule, hread⟩ := h a ha spec hspec
    exact ⟨schedule.isAvailable time, by rw [isWindowAvailable, hread]; rfl⟩

end Store

namespace World

open Store

variable {w w' : World} {ws : List World}

/-- A world whose calls bring windows that can be read, as those of all stored actions can. -/
structure Scheduled (w : World) : Prop where
  sure : w.Sure (fun _ s' => s'.Consistent) (fun _ _ q _ => q.BringsWindows) fun _ => True
  holds : w.store.Scheduled

theorem Scheduled.step (h : w.Scheduled) (hstep : w.FreeStep w') : w'.Scheduled := by
  have hs := h.sure.consistent
  have hstore : w'.store.Consistent ∧ w'.store.Scheduled := by
    rcases hstep.cases with hsame | ⟨o, ho, hafter⟩ | ⟨r, hr⟩
    · exact hsame ▸ ⟨hs, h.holds⟩
    · rw [hafter]
      exact ⟨hs.after o, h.holds.after hs ho.bringsWindows⟩
    · rcases h.sure.takes rely_consistent hr with hsame | ⟨cx, q, now, hq, hafter⟩
      · exact hsame ▸ ⟨hs, h.holds⟩
      · rw [hafter]
        exact ⟨hs.after ⟨cx, now, q⟩, h.holds.after hs (o := ⟨cx, now, q⟩) hq⟩
  refine ⟨h.sure.step rely_consistent (fun ctx call s => ?_) hstep hstore.1, hstore.2⟩
  exact (call.only_readable ctx).meets

/-- Along every run the windows of all actions can be read. -/
theorem IsRun.scheduled (h : IsRun ws) : ∀ w ∈ ws, w.store.Scheduled := by
  have hall : ∀ w ∈ ws, w.Scheduled :=
    forall_mem_of_isChain h.start h.steps ⟨⟨.empty, by simp⟩, fun a ha => by cases ha⟩
      fun _ _ hstep hw => hw.step hstep
  exact fun w hw => (hall w hw).holds

end World

end FleetUpdate
