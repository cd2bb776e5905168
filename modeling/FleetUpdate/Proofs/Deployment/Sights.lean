import FleetUpdate.Proofs.Deployment.Promises

/-!
# What programs do before they have seen something

What a call does later may rest on what it has seen before: an assignment goes on only if the
distribution set was complete when it was looked up.  `Program.SafeUntil sight safe` says so of a
program: unless one of its requests meets a sight, it asks only for what is safe.  Nothing is assumed
of what others do in between.

With no sight at all (`Program.Only`) every request of the program is safe, at whatever stores it is
answered.  No call, for instance, writes distribution sets, and each asks in its own context
(`Call.only_unset`); and what a call commits is always a plan of its transitions, however outdated
(`Call.only_plans`).
-/

namespace FleetUpdate

/-- Looking something up leaves the store as it is. -/
theorem Store.perform_of_isLookup (s : Store) (ctx : Context) (now : Instant) {q : Request}
    (hq : q.IsLookup) : (s.perform ctx now q).2 = s := by
  unfold perform
  split
  · rfl
  · cases q with
    | createTarget _ | updateTarget _ _ | markContacted _ _ | deleteTarget _ | createSet _
    | setModules _ _ | deleteSet _ | applyChanges _ => exact hq.elim
    | _ => rfl

/-- The request does not write distribution sets. -/
def Request.LeavesSets : Request → Prop
  | createSet _ | setModules _ _ | deleteSet _ => False
  | _ => True

theorem Request.IsLookup.leavesSets {r : Request} (h : r.IsLookup) : r.LeavesSets := by
  cases r with
  | createSet _ | setModules _ _ | deleteSet _ => exact h.elim
  | _ => trivial

namespace Program

variable {α β : Type} {sight : Context → Request → Store → Prop} {safe : Context → Request → Prop}
  {p : Program α} {Q : α → Prop} {ctx : Context}

/-- Until a request of the program is a sight where it is answered, all of them are safe; and if the
program returns before, then as `Q` says. -/
def SafeUntil (sight : Context → Request → Store → Prop) (safe : Context → Request → Prop) :
    Program α → (α → Prop) → Prop
  | done a, Q => Q a
  | fail _, _ => True
  | ask ctx r next, Q => ∀ s : Store, s.Consistent → sight ctx r s ∨
      safe ctx r ∧ ∀ now, SafeUntil sight safe (next (s.perform ctx now r).1) Q
  | clock next, Q => ∀ t, SafeUntil sight safe (next t) Q
  | note _ next, Q => SafeUntil sight safe next Q

/-- All requests of the program are safe, and what it returns is as `Q` says. -/
abbrev Only (safe : Context → Request → Prop) (p : Program α) (Q : α → Prop) : Prop :=
  p.SafeUntil (fun _ _ _ => False) safe Q

@[simp] theorem safeUntil_bind {f : α → Program β} {Q : β → Prop} :
    (p.bind f).SafeUntil sight safe Q ↔
      p.SafeUntil sight safe fun a => (f a).SafeUntil sight safe Q := by
  induction p with
  | done a => rfl
  | fail e => rfl
  | ask ctx r next ih =>
    refine forall_congr' fun s => imp_congr_right fun _ => or_congr_right ?_
    exact and_congr_right fun _ => forall_congr' fun now => ih _
  | clock next ih => exact forall_congr' fun t => ih t
  | note n next ih => exact ih

theorem SafeUntil.mono {Q' : α → Prop} (h : p.SafeUntil sight safe Q) (hQ : ∀ a, Q a → Q' a) :
    p.SafeUntil sight safe Q' := by
  induction p with
  | done a => exact hQ a h
  | fail e => trivial
  | ask ctx r next ih =>
    intro s hs
    exact (h s hs).imp_right fun hasked => ⟨hasked.1, fun now => ih _ (hasked.2 now)⟩
  | clock next ih => exact fun t => ih t (h t)
  | note n next ih => exact ih h

theorem SafeUntil.safe_mono {safe' : Context → Request → Prop} (h : p.SafeUntil sight safe Q)
    (hsafe : ∀ ctx r, safe ctx r → safe' ctx r) : p.SafeUntil sight safe' Q := by
  induction p with
  | done a => exact h
  | fail e => trivial
  | ask ctx r next ih =>
    intro s hs
    exact (h s hs).imp_right fun hasked =>
      ⟨hsafe ctx r hasked.1, fun now => ih _ (hasked.2 now)⟩
  | clock next ih => exact fun t => ih t (h t)
  | note n next ih => exact ih h

/-- What a program asks for only, it asks for until it has seen something. -/
theorem SafeUntil.of_only (h : p.Only safe Q) : p.SafeUntil sight safe Q := by
  induction p with
  | done a => exact h
  | fail e => trivial
  | ask ctx r next ih =>
    intro s hs
    obtain ⟨hsafe, hnext⟩ := (h s hs).resolve_left id
    exact .inr ⟨hsafe, fun now => ih _ (hnext now)⟩
  | clock next ih => exact fun t => ih t (h t)
  | note n next ih => exact ih h

/-- What a program promises among others, whatever these do, it always asks for. -/
theorem Meets.only {G : Context → Request → Store → Prop} {Q : α → Store → Prop} {s : Store}
    (h : p.Meets (fun _ s' => s'.Consistent) G Q s) (hG : ∀ ctx r s, G ctx r s → safe ctx r) :
    p.Only safe fun _ => True := by
  induction p generalizing s with
  | done a => trivial
  | fail e => trivial
  | ask ctx r next ih =>
    intro s' hs'
    obtain ⟨hasked, hnext⟩ := h s' hs'
    exact .inr ⟨hG ctx r s' hasked, fun now => ih _ (hnext now)⟩
  | clock next ih => exact fun t => ih t (h t)
  | note n next ih => exact ih h

/-- What a program always asks for, it promises whatever others do. -/
theorem SafeUntil.meets {s : Store} (h : p.Only safe Q) :
    p.Meets (fun _ s' => s'.Consistent) (fun ctx r _ => safe ctx r) (fun a _ => Q a) s := by
  induction p generalizing s with
  | done a => exact h
  | fail e => trivial
  | ask ctx r next ih =>
    intro s' hs'
    obtain ⟨hsafe, hnext⟩ := (h s' hs').resolve_left id
    exact ⟨hsafe, fun now => ih _ (hnext now)⟩
  | clock next ih => exact fun t => ih t (h t)
  | note n next ih => exact ih h

/-! ## The parts of programs -/

@[simp] theorem safeUntil_done {a : α} : (done a).SafeUntil sight safe Q ↔ Q a := Iff.rfl

@[simp] theorem safeUntil_fail {e : DeploymentError} :
    (fail e : Program α).SafeUntil sight safe Q ↔ True := Iff.rfl

@[simp] theorem safeUntil_note {n : Note} :
    (note n p).SafeUntil sight safe Q ↔ p.SafeUntil sight safe Q := Iff.rfl

@[simp] theorem safeUntil_recordedNow {Q : Instant → Prop} :
    recordedNow.SafeUntil sight safe Q ↔ ∀ t, Q (epochMillis t) := Iff.rfl

@[simp] theorem safeUntil_write {n : Note} {Q : Unit → Prop} :
    (write n).SafeUntil sight safe Q ↔ Q () := Iff.rfl

@[simp] theorem safeUntil_log {n : Notice} {Q : Unit → Prop} :
    (log n).SafeUntil sight safe Q ↔ Q () := Iff.rfl

@[simp] theorem safeUntil_count {c : Counter} {n : Nat} {Q : Unit → Prop} :
    (count c n).SafeUntil sight safe Q ↔ Q () := Iff.rfl

@[simp] theorem safeUntil_publish {es : List Event} {Q : Unit → Prop} :
    (publish es).SafeUntil sight safe Q ↔ Q () := by
  induction es with
  | nil => rfl
  | cons e es ih => exact ih

@[simp] theorem safeUntil_ofExcept {x : Except DeploymentError α} :
    (ofExcept x).SafeUntil sight safe Q ↔ ∀ a, x = .ok a → Q a := by
  cases x with
  | error e => exact ⟨fun _ a h => (by cases h), fun _ => trivial⟩
  | ok a => exact ⟨fun h b hb => Except.ok.inj hb ▸ h, fun h => h a rfl⟩

@[simp] theorem safeUntil_require {e : Entity} {id : String} {x : Option α} :
    (require e id x).SafeUntil sight safe Q ↔ ∀ a, x = some a → Q a := by
  cases x with
  | none => exact ⟨fun _ a h => (by cases h), fun _ => trivial⟩
  | some a => exact ⟨fun h b hb => Option.some.inj hb ▸ h, fun h => h a rfl⟩

theorem safeUntil_attempt {r : Request} {Q : r.Result → Prop} (hsafe : safe ctx r)
    (hQ : ∀ x, Q x) : (attempt ctx r).SafeUntil sight safe Q :=
  fun s _ => .inr ⟨hsafe, fun now => hQ (s.perform ctx now r).1⟩

/-- A request that fails ends the program. -/
theorem safeUntil_request {r : Request} {Q : r.Answer → Prop} (hsafe : safe ctx r)
    (hQ : ∀ a, Q a) : (request ctx r).SafeUntil sight safe Q := by
  refine fun s _ => .inr ⟨hsafe, fun now => ?_⟩
  cases (s.perform ctx now r).1 with
  | ok a => exact hQ a
  | error e => trivial

/-- What a lookup finds is a sight, or the program goes on with it. -/
theorem safeUntil_lookup {r : Request} {find : Store → r.Answer} {Q : r.Answer → Prop}
    (hr : ∀ (s : Store) now, s.answer ctx now r = (.ok (find s), s))
    (h : ∀ s : Store, s.Consistent → sight ctx r s ∨ safe ctx r ∧ Q (find s)) :
    (request ctx r).SafeUntil sight safe Q := by
  refine fun s hs => (h s hs).imp_right fun hfound => ⟨hfound.1, fun now => ?_⟩
  unfold Store.perform
  split
  · trivial
  · rw [hr]
    exact hfound.2

end Program

/-! ## Calls -/

section Calls

open Program

variable {sight : Context → Request → Store → Prop} {safe : Context → Request → Prop}
  {ctx : Context}

theorem safeUntil_loadAction (hlook : ∀ r, r.IsLookup → safe ctx r) {i : Int} {Q : Action → Prop}
    (h : ∀ a, Q a) : (loadAction ctx i).SafeUntil sight safe Q :=
  safeUntil_bind.mpr (safeUntil_request (hlook _ trivial) fun _ =>
    safeUntil_require.mpr fun a _ => h a)

theorem safeUntil_loadView (hlook : ∀ r, r.IsLookup → safe ctx r) {c : String}
    {Q : TargetView → Prop} (h : ∀ v, Q v) : (loadView ctx c).SafeUntil sight safe Q := by
  refine safeUntil_bind.mpr (safeUntil_request (hlook _ trivial) fun found => ?_)
  refine safeUntil_bind.mpr (safeUntil_require.mpr fun t _ => ?_)
  exact safeUntil_bind.mpr (safeUntil_request (hlook _ trivial) fun actions => h _)

theorem safeUntil_logIfCanceling (hlook : ∀ r, r.IsLookup → safe ctx r) {a : Action}
    {Q : List StatusEntry → Prop} (h : ∀ es, Q es) :
    (logIfCanceling ctx a).SafeUntil sight safe Q := by
  unfold logIfCanceling
  split
  · exact safeUntil_request (hlook _ trivial) h
  · exact h []

theorem safeUntil_date {r : IncomingReport} {Q : StatusReport → Prop} (h : ∀ r, Q r) :
    r.date.SafeUntil sight safe Q := by
  unfold IncomingReport.date
  split
  · exact h _
  · exact fun t => h _

theorem safeUntil_commitPlan {p : Plan} {Q : Committed → Prop}
    (hsafe : safe ctx (.applyChanges [p.change])) (h : ∀ k, Q k) :
    (commitPlan ctx p).SafeUntil sight safe Q := by
  refine safeUntil_bind.mpr (safeUntil_request hsafe fun outcomes => ?_)
  split
  · trivial
  · split <;> simp
  · simp [h]

theorem safeUntil_commitAction {p : Plan} {i : Int} {Q : Action → Prop}
    (hsafe : safe ctx (.applyChanges [p.change])) (h : ∀ a, Q a) :
    (commitAction ctx p i).SafeUntil sight safe Q :=
  safeUntil_bind.mpr (safeUntil_commitPlan hsafe fun _ => safeUntil_require.mpr fun a _ => h a)

/-- A call about one action is safe if looking up is, and if every plan is that it makes of the views
it may have. -/
theorem ActionCall.safeUntil (hlook : ∀ r, r.IsLookup → safe ctx r) {V : TargetView → Prop}
    (hview : ∀ c, (loadView ctx c).SafeUntil sight safe V)
    (hplan : ∀ v (tr : Transition) p a, V v → tr.subject? = some a → tr.plan? v = some p →
      safe ctx (.applyChanges [p.change])) (i : Int) (what : ActionCall) :
    (what.program ctx i).SafeUntil sight safe fun _ => True := by
  have hload {f : Action → TargetView → Program Action}
      (h : ∀ a v, V v → (f a v).SafeUntil sight safe fun _ => True) :
      ((loadAction ctx i).bind fun a => (loadView ctx a.controllerId).bind (f a)).SafeUntil sight
        safe fun _ => True :=
    safeUntil_bind.mpr (safeUntil_loadAction hlook fun a =>
      safeUntil_bind.mpr ((hview _).mono (h a)))
  cases what with
  | cancel =>
    refine hload fun a v hv => ?_
    refine safeUntil_bind.mpr (safeUntil_recordedNow.mpr fun t => ?_)
    refine safeUntil_bind.mpr (safeUntil_ofExcept.mpr fun p hp => ?_)
    refine safeUntil_bind.mpr (safeUntil_commitAction ?_ fun u => ?_)
    · exact hplan v (.cancel a (epochMillis t)) p a hv rfl (congrArg Except.toOption hp)
    · split <;> simp
  | forceQuit =>
    refine hload fun a v hv => ?_
    refine safeUntil_bind.mpr (safeUntil_recordedNow.mpr fun t => ?_)
    refine safeUntil_bind.mpr (safeUntil_ofExcept.mpr fun p hp => ?_)
    refine safeUntil_bind.mpr (safeUntil_commitAction ?_ fun u => by simp)
    exact hplan v (.forceQuit a (epochMillis t)) p a hv rfl (congrArg Except.toOption hp)
  | force =>
    refine hload fun a v hv => ?_
    cases hp : planForce v a with
    | none => trivial
    | some p =>
      exact safeUntil_bind.mpr (safeUntil_commitAction (hplan v (.force a) p a hv rfl hp)
        fun u => by simp)
  | report r =>
    refine hload fun a v hv => ?_
    refine safeUntil_bind.mpr (safeUntil_logIfCanceling hlook fun es => ?_)
    refine safeUntil_bind.mpr (safeUntil_date fun r' => ?_)
    refine safeUntil_bind.mpr (safeUntil_ofExcept.mpr fun p hp => ?_)
    refine safeUntil_bind.mpr (safeUntil_commitAction ?_ fun u => ?_)
    · exact hplan v (.report a r' es) p a hv rfl (congrArg Except.toOption hp)
    · simp only [bind_eq, safeUntil_bind, safeUntil_count]
      split <;> simp
  | reportCancel r =>
    refine hload fun a v hv => ?_
    refine safeUntil_bind.mpr (safeUntil_logIfCanceling hlook fun es => ?_)
    refine safeUntil_bind.mpr (safeUntil_date fun r' => ?_)
    refine safeUntil_bind.mpr (safeUntil_ofExcept.mpr fun p hp => ?_)
    refine safeUntil_bind.mpr (safeUntil_commitAction ?_ fun u => ?_)
    · exact hplan v (.reportCancel a r' es) p a hv rfl (congrArg Except.toOption hp)
    · simp only [bind_eq, safeUntil_bind, safeUntil_count]
      split <;> simp
  | confirm messages =>
    refine hload fun a v hv => ?_
    refine safeUntil_bind.mpr (safeUntil_recordedNow.mpr fun t => ?_)
    refine safeUntil_bind.mpr (safeUntil_ofExcept.mpr fun p hp => ?_)
    refine safeUntil_bind.mpr (safeUntil_commitAction ?_ fun u => by simp)
    exact hplan v (.confirm a messages (epochMillis t)) p a hv rfl (congrArg Except.toOption hp)
  | deny messages =>
    refine hload fun a v hv => ?_
    refine safeUntil_bind.mpr (safeUntil_recordedNow.mpr fun t => ?_)
    refine safeUntil_bind.mpr (safeUntil_ofExcept.mpr fun p hp => ?_)
    refine safeUntil_bind.mpr (safeUntil_commitAction ?_ fun u => by simp)
    exact hplan v (.deny a messages (epochMillis t)) p a hv rfl (congrArg Except.toOption hp)

/-- The same of a recalculation. -/
theorem safeUntil_recalculateStatus (hlook : ∀ r, r.IsLookup → safe ctx r)
    {V : TargetView → Prop} {c : String} (hview : (loadView ctx c).SafeUntil sight safe V)
    (hplan : ∀ v ended p, V v → Transition.planRecalculation v ended = some p →
      safe ctx (.applyChanges [p.change])) :
    (recalculateStatus ctx c).SafeUntil sight safe fun _ => True := by
  refine safeUntil_bind.mpr (hview.mono fun v hv => ?_)
  refine safeUntil_bind.mpr (safeUntil_request (hlook _ trivial) fun ended => ?_)
  dsimp only
  split
  · trivial
  · rename_i hne
    refine safeUntil_bind.mpr (safeUntil_commitPlan ?_ fun k => by simp)
    exact hplan v ended ⟨_, []⟩ hv (if_neg hne)

/-- Registering and contacts are all that a first contact asks for, besides lookups. -/
theorem safeUntil_findOrRegister (hlook : ∀ r, r.IsLookup → safe ctx r) {c : String}
    (hregister : ∀ n, safe ctx (.createTarget n))
    (hcontact : ∀ d t, safe ctx (.markContacted d t)) :
    (findOrRegister ctx c).SafeUntil sight safe fun _ => True := by
  refine safeUntil_bind.mpr (safeUntil_request (hlook _ trivial) fun known => ?_)
  have hmark : (do
      let t ← recordedNow
      require .target c (← request ctx (.markContacted c t)) : Program Target).SafeUntil sight safe
        fun _ => True :=
    safeUntil_bind.mpr (safeUntil_recordedNow.mpr fun t => safeUntil_bind.mpr
      (safeUntil_request (hcontact c _) fun found => safeUntil_require.mpr fun _ _ => trivial))
  dsimp only
  split
  · refine safeUntil_bind.mpr (safeUntil_bind.mpr (safeUntil_attempt (hregister _) fun answer => ?_))
    split
    · exact hmark
    · split
      · exact hmark
      · trivial
  · exact hmark

/-! ### Assignments -/

variable {p : Policy} {r : AssignmentRequest}

/-- What is checked of a request besides the distribution set concerns no store. -/
theorem safeUntil_checks {Q : Unit → Prop} (h : Q ()) :
    ((ofExcept (checkWeight p r.weight)).bind fun _ =>
      (ofExcept (checkForcedTime r)).bind fun _ => checkMaintenance r).SafeUntil sight safe Q := by
  refine safeUntil_bind.mpr (safeUntil_ofExcept.mpr fun _ _ => ?_)
  refine safeUntil_bind.mpr (safeUntil_ofExcept.mpr fun _ _ => ?_)
  unfold checkMaintenance
  split
  · exact h
  · refine safeUntil_bind.mpr fun t => safeUntil_done.mpr ?_
    split
    · exact h
    · trivial

theorem safeUntil_enterOutcomes (os : List (Plan × Except StorageError Committed))
    (acc : AssignmentResult) :
    (enterOutcomes ctx r os acc).SafeUntil sight safe fun _ => True := by
  induction os generalizing acc with
  | nil => trivial
  | cons o os ih =>
    obtain ⟨plan, out⟩ := o
    cases out with
    | ok k =>
      simp only [enterOutcomes, bind_eq, safeUntil_bind, safeUntil_count, safeUntil_publish]
      exact ih _
    | error e =>
      simp only [enterOutcomes, bind_eq]
      split
      · simp only [safeUntil_bind, safeUntil_count, safeUntil_log]
        exact ih _
      · simp only [safeUntil_bind, safeUntil_log]
        exact ih _

theorem safeUntil_readBatch (hlook : ∀ r, r.IsLookup → safe ctx r) {ids : List String}
    {Q : BatchView → Prop} (h : ∀ b, Q b) : (readBatch ctx p ids).SafeUntil sight safe Q := by
  refine safeUntil_bind.mpr (safeUntil_request (hlook _ trivial) fun targets => ?_)
  refine safeUntil_bind.mpr (safeUntil_request (hlook _ trivial) fun active => ?_)
  dsimp only
  split
  · exact safeUntil_bind.mpr (safeUntil_request (hlook _ trivial) fun counts => h _)
  · exact h _

theorem safeUntil_assignBatch (hlook : ∀ r, r.IsLookup → safe ctx r)
    (hcommit : ∀ cs, safe ctx (.applyChanges cs)) {ids : List String} {acc : AssignmentResult} :
    (assignBatch ctx p r ids acc).SafeUntil sight safe fun _ => True := by
  refine safeUntil_bind.mpr (safeUntil_readBatch hlook fun b => ?_)
  refine safeUntil_bind.mpr (safeUntil_recordedNow.mpr fun t => ?_)
  split
  split
  · trivial
  · exact safeUntil_bind.mpr (safeUntil_request (hcommit _) fun outcomes =>
      safeUntil_enterOutcomes _ _)

theorem safeUntil_assignBatches (hlook : ∀ r, r.IsLookup → safe ctx r)
    (hcommit : ∀ cs, safe ctx (.applyChanges cs)) (n : Nat) (parts : List (List String))
    (acc : AssignmentResult) :
    (assignBatches ctx p r n parts acc).SafeUntil sight safe fun _ => True := by
  induction parts generalizing n acc with
  | nil => trivial
  | cons ids parts ih =>
    refine safeUntil_bind.mpr ((safeUntil_assignBatch hlook hcommit).mono fun acc _ => ?_)
    exact safeUntil_bind.mpr (safeUntil_log.mpr (ih (n + 1) acc))

theorem safeUntil_assignSet (hlook : ∀ r, r.IsLookup → safe ctx r)
    (hcommit : ∀ cs, safe ctx (.applyChanges cs)) :
    (assignSet p ctx r).SafeUntil sight safe fun _ => True := by
  have hcheck : (checkRequest ctx p r).SafeUntil sight safe fun _ => True := by
    refine safeUntil_bind.mpr (safeUntil_request (hlook _ trivial) fun found => ?_)
    refine safeUntil_bind.mpr (safeUntil_require.mpr fun d _ => ?_)
    split
    · trivial
    · split
      · trivial
      · exact safeUntil_checks trivial
  refine safeUntil_bind.mpr (safeUntil_write.mpr (safeUntil_bind.mpr (safeUntil_count.mpr ?_)))
  refine safeUntil_bind.mpr (hcheck.mono fun _ _ => safeUntil_bind.mpr (safeUntil_log.mpr ?_))
  refine safeUntil_bind.mpr ((safeUntil_assignBatches hlook hcommit 0 _ _).mono fun acc _ => ?_)
  simp

/-- No call writes distribution sets, and each asks in its own context. -/
theorem Call.only_unset (ctx : Context) (call : Call) :
    (call.program ctx).Only (fun cx q => cx = ctx ∧ q.LeavesSets) fun _ => True := by
  have hlook (q : Request) (hq : q.IsLookup) : ctx = ctx ∧ q.LeavesSets := ⟨rfl, hq.leavesSets⟩
  cases call with
  | assign p r => exact safeUntil_assignSet hlook fun cs => ⟨rfl, trivial⟩
  | act i what =>
    exact ActionCall.safeUntil hlook (fun c => safeUntil_loadView hlook fun _ => trivial)
      (fun _ _ _ _ _ _ _ => ⟨rfl, trivial⟩) i what
  | recalculate c =>
    exact safeUntil_recalculateStatus hlook (safeUntil_loadView hlook fun _ => trivial)
      fun _ _ _ _ _ => ⟨rfl, trivial⟩
  | register c =>
    exact safeUntil_findOrRegister hlook (fun n => ⟨rfl, trivial⟩) fun d t => ⟨rfl, trivial⟩

/-- Whatever a call commits, it has planned with one of its transitions from some view, though the
target may have changed in any way since. -/
theorem Call.only_plans (ctx : Context) (call : Call) :
    (call.program ctx).Only (fun cx q => ∀ cs, q = .applyChanges cs → ∀ change ∈ cs,
      ∃ tr v events, call.Plans cx tr ∧ tr.plan? v = some ⟨change, events⟩) fun _ => True := by
  refine (call.program_asks rely_consistent ctx .empty).only fun cx q s hasks cs hcs change hchange => ?_
  subst hcs
  obtain ⟨tr, v, hread⟩ := hasks.2 change hchange
  obtain ⟨events, hp⟩ := hread.plan
  exact ⟨tr, v, events, hread.plans, hp⟩

end Calls

end FleetUpdate
