import FleetUpdate.Proofs.Deployment.Runs
import FleetUpdate.Proofs.Deployment.Sights

/-!
# Calls that run alone

A call that nobody interrupts makes its requests one after the other.  `Program.Makes` says which
requests these can be and what the call reads off the clock on the way; nothing is assumed of the
clock, neither that it goes forward nor that the store goes by the same one.

A report that comes in without a time counts from the moment at which the call reads the clock.  The
call then asks for the same as if the report had come in with that time (`Call.makes_dated`).
-/

namespace FleetUpdate

namespace Program

variable {α β : Type} {p : Program α} {s : Store} {readings : List Instant} {ops : List Op}

/-- The program, alone with a store, reads these times off the clock and makes these requests. -/
inductive Makes {α : Type} : Program α → Store → List Instant → List Op → Prop where
  | done {a : α} {s : Store} : Makes (done a) s [] []
  | fail {e : DeploymentError} {s : Store} : Makes (fail e) s [] []
  | ask {ctx : Context} {r : Request} {next : r.Result → Program α} {s : Store}
      {readings : List Instant} {ops : List Op} (now : Instant)
      (h : Makes (next (s.perform ctx now r).1) (s.perform ctx now r).2 readings ops) :
      Makes (ask ctx r next) s readings (⟨ctx, now, r⟩ :: ops)
  | clock {next : Instant → Program α} {s : Store} {readings : List Instant} {ops : List Op}
      (time : Instant) (h : Makes (next time) s readings ops) :
      Makes (clock next) s (time :: readings) ops
  | note {n : Note} {next : Program α} {s : Store} {readings : List Instant} {ops : List Op}
      (h : Makes next s readings ops) : Makes (note n next) s readings ops

/-- A program that ends has run so, and recorded its requests at times that the clock showed. -/
theorem Ends.exists_makes {times : Instant → Prop} {x : Except DeploymentError α} {s' : Store}
    {es : List Event} (h : p.Ends times s x s' es) :
    ∃ readings ops, p.Makes s readings ops ∧ (∀ o ∈ ops, ∃ t, times t ∧ o.now = epochMillis t) ∧
      s' = s.afterAll ops := by
  induction h with
  | done => exact ⟨[], [], .done, by simp, rfl⟩
  | fail => exact ⟨[], [], .fail, by simp, rfl⟩
  | @ask _ _ _ _ _ _ _ t ht _ ih =>
    obtain ⟨readings, ops, hmakes, hops, hstate⟩ := ih
    refine ⟨readings, _ :: ops, .ask _ hmakes, ?_, hstate⟩
    exact List.forall_mem_cons.mpr ⟨⟨t, ht, rfl⟩, hops⟩
  | @clock _ _ _ _ _ t _ _ ih =>
    obtain ⟨readings, ops, hmakes, hrest⟩ := ih
    exact ⟨t :: readings, ops, .clock t hmakes, hrest⟩
  | note _ ih =>
    obtain ⟨readings, ops, hmakes, hrest⟩ := ih
    exact ⟨readings, ops, .note hmakes, hrest⟩

/-- When the clock stands still, a program runs so. -/
theorem makes_runOn (p : Program α) (time : Instant) (s : Store) :
    ∃ readings ops, p.Makes s readings ops ∧ (p.runOn time s).state = s.afterAll ops := by
  obtain ⟨readings, ops, hmakes, -, hstate⟩ := (ends_runOn (· = time) rfl p s).exists_makes
  exact ⟨readings, ops, hmakes, hstate⟩

/-- Each request is as promised at the store that answers it. -/
def Heeds (G : Context → Request → Store → Prop) (s : Store) : List Op → Prop
  | [] => True
  | o :: ops => G o.ctx o.request s ∧ Heeds G (s.after o) ops

/-- A program that runs alone keeps its promises, since nothing happens in between. -/
theorem Makes.heeds {R : Store → Store → Prop} (hR : Rely R) {G : Context → Request → Store → Prop}
    {Q : α → Store → Prop} (h : p.Makes s readings ops) (hs : s.Consistent)
    (hmeets : p.Meets R G Q s) : Heeds G s ops := by
  induction h with
  | done => trivial
  | fail => trivial
  | ask now _ ih =>
    obtain ⟨hG, hnext⟩ := hmeets _ (hR.refl hs)
    exact ⟨hG, ih (hs.perform _ now _) (hnext now)⟩
  | clock time _ ih => exact ih hs (hmeets time)
  | note _ ih => exact ih hs hmeets

/-- A program asks for nothing but what all its requests are. -/
theorem Makes.asks_only {safe : Context → Request → Prop} {Q : α → Prop}
    (h : p.Makes s readings ops) (hs : s.Consistent) (honly : p.Only safe Q) :
    ∀ o ∈ ops, safe o.ctx o.request := by
  induction h with
  | done => simp
  | fail => simp
  | ask now _ ih =>
    obtain ⟨hsafe, hnext⟩ := (honly _ hs).resolve_left id
    exact List.forall_mem_cons.mpr ⟨hsafe, ih (hs.perform _ now _) (hnext now)⟩
  | clock time _ ih => exact ih hs (honly time)
  | note _ ih => exact ih hs honly

/-- What all requests of a program are adds to what is promised of each. -/
theorem Heeds.of_only {G G' : Context → Request → Store → Prop} {safe : Context → Request → Prop}
    (h : Heeds G s ops) (honly : ∀ o ∈ ops, safe o.ctx o.request)
    (himp : ∀ ctx r s, safe ctx r → G ctx r s → G' ctx r s) : Heeds G' s ops := by
  induction ops generalizing s with
  | nil => trivial
  | cons o ops ih =>
    obtain ⟨hfirst, hrest⟩ := List.forall_mem_cons.mp honly
    exact ⟨himp _ _ _ hfirst h.1, ih h.2 hrest⟩

/-! ## Telling a program the time -/

/-- The program does not read the clock. -/
def ClockFree : Program α → Prop
  | done _ | fail _ => True
  | ask _ _ next => ∀ x, (next x).ClockFree
  | clock _ => False
  | note _ next => next.ClockFree

theorem ClockFree.bind {f : α → Program β} (hp : p.ClockFree) (hf : ∀ a, (f a).ClockFree) :
    (p.bind f).ClockFree := by
  induction p with
  | done a => exact hf a
  | fail e => trivial
  | ask ctx r next ih => exact fun x => ih x (hp x)
  | clock next _ => exact hp.elim
  | note n next ih => exact ih hp

/-- The program that is told the time where the given one reads the clock first. -/
def told (time : Instant) : Program α → Program α
  | done a => done a
  | fail e => fail e
  | ask ctx r next => ask ctx r fun x => (next x).told time
  | clock next => next time
  | note n next => note n (next.told time)

theorem told_bind (time : Instant) {f : α → Program β} (hp : p.ClockFree) :
    (p.bind f).told time = p.bind fun a => (f a).told time := by
  induction p with
  | done a => rfl
  | fail e => rfl
  | ask ctx r next ih =>
    simp only [Program.bind, told]
    congr 1
    funext x
    exact ih x (hp x)
  | clock next _ => exact hp.elim
  | note n next ih => simp only [Program.bind, told, ih hp]

/-- Told what it would read, a program asks for the same. -/
theorem Makes.told (h : p.Makes s readings ops) :
    (p.told (readings.headD 0)).Makes s readings.tail ops := by
  induction h with
  | done => exact .done
  | fail => exact .fail
  | ask now _ ih => exact .ask now ih
  | clock time h _ => exact h
  | note _ ih => exact .note ih

theorem clockFree_request (ctx : Context) (r : Request) : (request ctx r).ClockFree := by
  intro x
  cases x with
  | ok a => trivial
  | error e => trivial

theorem clockFree_require (e : Entity) (id : String) (x : Option α) :
    (require e id x).ClockFree := by
  cases x with
  | some a => trivial
  | none => trivial

theorem clockFree_loadAction (ctx : Context) (i : Int) : (loadAction ctx i).ClockFree :=
  (clockFree_request ctx _).bind fun x => clockFree_require _ _ x

theorem clockFree_loadView (ctx : Context) (c : String) : (loadView ctx c).ClockFree := by
  refine (clockFree_request ctx _).bind fun x => ?_
  refine (clockFree_require _ _ x).bind fun t => ?_
  exact (clockFree_request ctx _).bind fun actions => trivial

theorem clockFree_logIfCanceling (ctx : Context) (a : Action) : (logIfCanceling ctx a).ClockFree := by
  unfold logIfCanceling
  split
  · exact clockFree_request ctx _
  · trivial

end Program

/-! ## Dated reports -/

open Program

/-- A report without a time is dated by the time that the call is told. -/
theorem told_reportStatus (ctx : Context) (i : Int) {r : IncomingReport} (hr : r.time = none)
    (time : Instant) : (reportStatus ctx i r).told time =
      reportStatus ctx i { r with time := some (epochMillis time) } := by
  unfold reportStatus
  simp only [bind_eq]
  rw [told_bind time (clockFree_loadAction ctx i)]
  congr 1
  funext a
  rw [told_bind time (clockFree_loadView ctx _)]
  congr 1
  funext v
  rw [told_bind time (clockFree_logIfCanceling ctx a)]
  congr 1
  funext entries
  unfold IncomingReport.date
  rw [hr]
  rfl

/-- The call with its report dated: a report of progress that comes in without a time counts from
the first reading of the clock. -/
def Call.dated (readings : List Instant) : Call → Call
  | act i (.report r) =>
    act i (.report { r with time := some (r.time.getD (epochMillis (readings.headD 0))) })
  | call => call

/-- A call asks for the same as with its report dated. -/
theorem Call.makes_dated {ctx : Context} {call : Call} {s : Store} {readings : List Instant}
    {ops : List Op} (h : (call.program ctx).Makes s readings ops) :
    ∃ readings', ((call.dated readings).program ctx).Makes s readings' ops := by
  cases call with
  | act i what =>
    cases what with
    | report r =>
      cases htime : r.time with
      | some time =>
        have hsame : { r with time := some time } = r := by
          rw [← htime]
        refine ⟨readings, ?_⟩
        rw [Call.dated, htime, Option.getD_some, hsame]
        exact h
      | none =>
        refine ⟨readings.tail, ?_⟩
        rw [Call.dated, htime, Option.getD_none]
        show (reportStatus ctx i _).Makes s readings.tail ops
        rw [← told_reportStatus ctx i htime (readings.headD 0)]
        exact h.told
    | _ => exact ⟨readings, h⟩
  | _ => exact ⟨readings, h⟩

/-- A report of progress in the call has a time. -/
def Call.IsDated : Call → Prop
  | act _ (.report r) => r.time.isSome
  | _ => True

theorem Call.isDated_dated (call : Call) (readings : List Instant) :
    (call.dated readings).IsDated := by
  cases call with
  | act i what =>
    cases what with
    | report r => exact rfl
    | _ => trivial
  | _ => trivial

theorem Call.dated_ne_recalculate (call : Call) {readings : List Instant} {c : String}
    (h : call ≠ .recalculate c) : call.dated readings ≠ .recalculate c := by
  cases call with
  | act i what =>
    cases what with
    | report r => exact fun heq => by cases heq
    | _ => exact h
  | _ => exact h

/-! ## One change at a time -/

/-- The call is about one target that is stored, or about one of its actions. -/
def Call.IsAboutOne : Call → Prop
  | act .. | recalculate _ => True
  | assign .. | register _ => False

/-- The request looks something up, or has a single change committed that the call has planned from
what it has read. -/
def Store.AsksSingly (R : Store → Store → Prop) (call : Call) (ctx : Context) (r : Request)
    (s : Store) : Prop :=
  r.IsLookup ∨ ∃ change tr v, r = .applyChanges [change] ∧ s.ReadPlan R ctx call change tr v

/-- A call about one target only looks things up and commits. -/
theorem Call.only_commits (ctx : Context) {call : Call} (hcall : call.IsAboutOne) :
    (call.program ctx).Only (fun _ r => r.IsLookup ∨ ∃ cs, r = .applyChanges cs) fun _ => True := by
  have hlook (r : Request) (hr : r.IsLookup) : r.IsLookup ∨ ∃ cs, r = .applyChanges cs := .inl hr
  cases call with
  | act i what =>
    exact ActionCall.safeUntil hlook (fun _ => safeUntil_loadView hlook fun _ => trivial)
      (fun _ _ _ _ _ _ _ => .inr ⟨_, rfl⟩) i what
  | recalculate c =>
    exact safeUntil_recalculateStatus hlook (safeUntil_loadView hlook fun _ => trivial)
      fun _ _ _ _ _ => .inr ⟨_, rfl⟩
  | assign | register => exact hcall.elim

/-- Alone with a store it asks for one change at a time. -/
theorem Call.heeds_singly {R : Store → Store → Prop} (hR : Rely R) {ctx : Context} {call : Call}
    (hcall : call.IsAboutOne) {s : Store} (hs : s.Consistent) {readings : List Instant}
    {ops : List Op} (hmakes : (call.program ctx).Makes s readings ops) :
    Heeds (Store.AsksSingly R call) s ops := by
  have hasks := hmakes.heeds hR hs (call.program_asks hR ctx s)
  refine hasks.of_only (hmakes.asks_only hs (Call.only_commits ctx hcall)) ?_
  rintro cx r s (hlook | ⟨cs, rfl⟩) hasked
  · exact .inl hlook
  · have hassign : ¬ call.IsAssignment := by
      cases call with
      | assign => exact hcall.elim
      | _ => exact id
    obtain ⟨hsingle, hplans⟩ := hasked
    obtain ⟨change, rfl⟩ := List.length_eq_one_iff.mp (hsingle.resolve_left hassign)
    obtain ⟨tr, v, hread⟩ := hplans change List.mem_cons_self
    exact .inr ⟨change, tr, v, rfl, hread⟩

/-! ## What a call brings -/

/-- When the device says so in the call, since when the distribution set is installed. -/
def Call.success? : Call → Option Instant
  | act _ (.report r) => if r.status = .finished then r.time else none
  | _ => none

end FleetUpdate
