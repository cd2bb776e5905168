import FleetUpdate.Program

/-!
# Programs that run alone

When nobody else comes in between, a program ends with a result, a store, and the events that it has
published.  `Program.Runs` says this for a clock that stands still, `Program.Ends` for a clock that
moves on while the program runs: whenever it is read, by the program or by the store, it shows one of
the given times.

`Program.Leaves times Q E s` says what a program is sure to leave: it returns a value as `Q` says, or
fails as `E` says.  The rules follow the parts that programs are made of.
-/

namespace FleetUpdate

namespace Program

variable {α β : Type} {times : Instant → Prop} {time : Instant} {s s' : Store} {es : List Event}
  {p : Program α}

/-- Alone at a store, the program gives a result, leaves a store and publishes events. -/
structure Runs (p : Program α) (time : Instant) (s : Store) (result : Except DeploymentError α)
    (s' : Store) (es : List Event) : Prop where
  result : (p.runOn time s).result = result
  state : (p.runOn time s).state = s'
  events : Note.events (p.runOn time s).notes = es

/-- Alone at a store, under a clock that shows any of the given times whenever it is read, the program
can give a result, leave a store and publish events. -/
inductive Ends (times : Instant → Prop) {α : Type} : Program α → Store →
    Except DeploymentError α → Store → List Event → Prop where
  | done {a : α} {s : Store} : Ends times (done a) s (.ok a) s []
  | fail {e : DeploymentError} {s : Store} : Ends times (fail e) s (.error e) s []
  | ask {ctx : Context} {r : Request} {next : r.Result → Program α} {s s' : Store}
      {x : Except DeploymentError α} {es : List Event} {t : Instant} (ht : times t)
      (h : Ends times (next (s.perform ctx (epochMillis t) r).1)
        (s.perform ctx (epochMillis t) r).2 x s' es) :
      Ends times (ask ctx r next) s x s' es
  | clock {next : Instant → Program α} {s s' : Store} {x : Except DeploymentError α}
      {es : List Event} {t : Instant} (ht : times t) (h : Ends times (next t) s x s' es) :
      Ends times (clock next) s x s' es
  | note {n : Note} {next : Program α} {s s' : Store} {x : Except DeploymentError α}
      {es : List Event} (h : Ends times next s x s' es) :
      Ends times (note n next) s x s' (Note.events [n] ++ es)

/-- Alone at a store, the program is sure to return and leave what `Q` says, or to fail and leave
what `E` says. -/
def Leaves (times : Instant → Prop) : Program α → (α → Store → List Event → Prop) →
    (DeploymentError → Store → List Event → Prop) → Store → Prop
  | done a, Q, _, s => Q a s []
  | fail e, _, E, s => E e s []
  | ask ctx r next, Q, E, s => ∀ t, times t →
      Leaves times (next (s.perform ctx (epochMillis t) r).1) Q E
        (s.perform ctx (epochMillis t) r).2
  | clock next, Q, E, s => ∀ t, times t → Leaves times (next t) Q E s
  | note n next, Q, E, s =>
      Leaves times next (fun a s' es => Q a s' (Note.events [n] ++ es))
        (fun e s' es => E e s' (Note.events [n] ++ es)) s

variable {Q : α → Store → List Event → Prop} {E : DeploymentError → Store → List Event → Prop}

/-- A result is as `Q` or as `E` says. -/
def Judged (Q : α → Store → List Event → Prop) (E : DeploymentError → Store → List Event → Prop) :
    Except DeploymentError α → Store → List Event → Prop
  | .ok a => Q a
  | .error e => E e

/-- What a program is sure to leave, it leaves. -/
theorem Leaves.of_ends {x : Except DeploymentError α} (h : p.Leaves times Q E s)
    (hp : p.Ends times s x s' es) : Judged Q E x s' es := by
  induction hp generalizing Q E with
  | done => exact h
  | fail => exact h
  | ask ht _ ih => exact ih (h _ ht)
  | clock ht _ ih => exact ih (h _ ht)
  | @note _ _ _ _ x _ _ ih =>
    have hrest := ih h
    cases x <;> exact hrest

theorem events_cons (n : Note) (notes : List Note) :
    Note.events (n :: notes) = Note.events [n] ++ Note.events notes :=
  List.filterMap_append (l := [n])

/-- A clock that stands still is one that may move. -/
theorem ends_runOn (times : Instant → Prop) (ht : times time) (p : Program α) (s : Store) :
    p.Ends times s (p.runOn time s).result (p.runOn time s).state
      (Note.events (p.runOn time s).notes) := by
  unfold runOn
  induction p generalizing s with
  | done a => exact .done
  | fail e => exact .fail
  | ask ctx r next ih => exact .ask ht (ih _ _)
  | clock next ih => exact .clock ht (ih time s)
  | note n next ih =>
    rw [run, events_cons]
    exact .note (ih s)

/-- Under a clock that stands still a program leaves just one thing. -/
theorem leaves_iff_runOn : p.Leaves (· = time) Q E s ↔
    Judged Q E (p.runOn time s).result (p.runOn time s).state
      (Note.events (p.runOn time s).notes) := by
  refine ⟨fun h => h.of_ends (ends_runOn (· = time) rfl p s), fun h => ?_⟩
  unfold runOn at h
  induction p generalizing s Q E with
  | done a => exact h
  | fail e => exact h
  | ask ctx r next ih =>
    rintro t rfl
    exact ih _ h
  | clock next ih =>
    rintro t rfl
    exact ih _ h
  | note n next ih =>
    apply ih
    rw [run, events_cons] at h
    revert h
    cases (next.run _ time s).result <;> exact id

/-- A program that is sure to return does so. -/
theorem Leaves.exists_runs (h : p.Leaves (· = time) Q (fun _ _ _ => False) s) :
    ∃ a s' es, p.Runs time s (.ok a) s' es ∧ Q a s' es := by
  rw [leaves_iff_runOn] at h
  cases hresult : (p.runOn time s).result with
  | ok a =>
    rw [hresult] at h
    exact ⟨a, _, _, ⟨hresult, rfl, rfl⟩, h⟩
  | error e =>
    rw [hresult] at h
    exact h.elim

/-! ## Putting programs together -/

theorem Leaves.mono {Q' : α → Store → List Event → Prop}
    {E' : DeploymentError → Store → List Event → Prop} (h : p.Leaves times Q E s)
    (hQ : ∀ a s es, Q a s es → Q' a s es) (hE : ∀ e s es, E e s es → E' e s es) :
    p.Leaves times Q' E' s := by
  induction p generalizing s Q E Q' E' with
  | done a => exact hQ a s [] h
  | fail e => exact hE e s [] h
  | ask ctx r next ih => exact fun t ht => ih _ (h t ht) hQ hE
  | clock next ih => exact fun t ht => ih t (h t ht) hQ hE
  | note n next ih => exact ih h (fun a s es => hQ a s _) fun e s es => hE e s _

/-- A composed program leaves what its parts leave in turn, with their events in this order. -/
@[simp] theorem leaves_bind {f : α → Program β} {Q : β → Store → List Event → Prop} :
    (p.bind f).Leaves times Q E s ↔
      p.Leaves times (fun a s' es => (f a).Leaves times (fun b s'' es' => Q b s'' (es ++ es'))
        (fun e s'' es' => E e s'' (es ++ es')) s') E s := by
  induction p generalizing s Q E with
  | done a => rfl
  | fail e => rfl
  | ask ctx r next ih => exact forall_congr' fun t => imp_congr_right fun _ => ih _
  | clock next ih => exact forall_congr' fun t => imp_congr_right fun _ => ih t
  | note n next ih =>
    simp only [bind, Leaves, List.append_assoc]
    exact ih

/-! ## The parts of programs -/

variable {ctx : Context}

@[simp] theorem leaves_done {a : α} : (done a).Leaves times Q E s ↔ Q a s [] := Iff.rfl

@[simp] theorem leaves_fail {e : DeploymentError} :
    (fail e : Program α).Leaves times Q E s ↔ E e s [] := Iff.rfl

@[simp] theorem leaves_recordedNow {Q : Instant → Store → List Event → Prop} :
    recordedNow.Leaves times Q E s ↔ ∀ t, times t → Q (epochMillis t) s [] := Iff.rfl

@[simp] theorem leaves_opened {span : AssignmentSpan} {Q : Unit → Store → List Event → Prop} :
    (write (.opened span)).Leaves times Q E s ↔ Q () s [] := Iff.rfl

@[simp] theorem leaves_log {n : Notice} {Q : Unit → Store → List Event → Prop} :
    (log n).Leaves times Q E s ↔ Q () s [] := Iff.rfl

@[simp] theorem leaves_count {c : Counter} {n : Nat} {Q : Unit → Store → List Event → Prop} :
    (count c n).Leaves times Q E s ↔ Q () s [] := Iff.rfl

@[simp] theorem leaves_publish {Q : Unit → Store → List Event → Prop} :
    (publish es).Leaves times Q E s ↔ Q () s es := by
  induction es generalizing Q E with
  | nil => rfl
  | cons e es ih => exact ih

@[simp] theorem leaves_ofExcept {x : Except DeploymentError α} :
    (ofExcept x).Leaves times Q E s ↔
      (∀ a, x = .ok a → Q a s []) ∧ ∀ e, x = .error e → E e s [] := by
  cases x <;> simp [ofExcept]

@[simp] theorem leaves_require {e : Entity} {id : String} {x : Option α} :
    (require e id x).Leaves times Q E s ↔
      (∀ a, x = some a → Q a s []) ∧ (x = none → E (.notFound e id) s []) := by
  cases x <;> simp [require]

/-- A request that fails ends the program. -/
theorem leaves_request {r : Request} {Q : r.Answer → Store → List Event → Prop} :
    (request ctx r).Leaves times Q E s ↔ ∀ t, times t →
      match s.perform ctx (epochMillis t) r with
      | (.ok a, s') => Q a s' []
      | (.error e, s') => E e.toDeployment s' [] := by
  refine forall_congr' fun t => imp_congr_right fun _ => ?_
  generalize s.perform ctx (epochMillis t) r = out
  obtain ⟨x, s'⟩ := out
  cases x <;> rfl

/-- A lookup of a tenant finds what is there and changes nothing. -/
theorem leaves_lookup {r : Request} {a : r.Answer} {Q : r.Answer → Store → List Event → Prop}
    (hr : ∀ now, s.answer ctx now r = (.ok a, s)) (hQ : ctx.tenantId ≠ "" → Q a s [])
    (hE : ctx.tenantId = "" → E StorageError.tenantRequired.toDeployment s []) :
    (request ctx r).Leaves times Q E s := by
  rw [leaves_request]
  intro t _
  unfold Store.perform
  by_cases hx : ctx.tenantId = ""
  · rw [if_pos hx]
    exact hE hx
  · rw [if_neg hx, hr]
    exact hQ hx

/-! ## Programs that only make notes -/

/-- The program asks the store for nothing and publishes nothing. -/
def IsIdle : Program α → Prop
  | done _ | fail _ => True
  | ask .. => False
  | clock next => ∀ t, (next t).IsIdle
  | note n next => Note.events [n] = [] ∧ next.IsIdle

theorem IsIdle.bind {f : α → Program β} (hp : p.IsIdle) (hf : ∀ a, (f a).IsIdle) :
    (p.bind f).IsIdle := by
  induction p with
  | done a => exact hf a
  | fail e => trivial
  | ask ctx r next ih => exact hp.elim
  | clock next ih => exact fun t => ih t (hp t)
  | note n next ih => exact ⟨hp.1, ih hp.2⟩

theorem isIdle_ofExcept {x : Except DeploymentError α} : (ofExcept x).IsIdle := by
  cases x <;> trivial

theorem IsIdle.leaves (h : p.IsIdle) (hQ : ∀ a, Q a s []) (hE : ∀ e, E e s []) :
    p.Leaves times Q E s := by
  induction p generalizing Q E with
  | done a => exact hQ a
  | fail e => exact hE e
  | ask ctx r next ih => exact h.elim
  | clock next ih => exact fun t _ => ih t (h t) hQ hE
  | note n next ih =>
    refine ih h.2 (fun a => ?_) fun e => ?_
    · rw [h.1]
      exact hQ a
    · rw [h.1]
      exact hE e

/-- What such a program returns has nothing to do with the store. -/
theorem IsIdle.result_runOn (h : p.IsIdle) (s s' : Store) :
    (p.runOn time s').result = (p.runOn time s).result := by
  unfold runOn
  induction p with
  | done a => rfl
  | fail e => rfl
  | ask ctx r next ih => exact h.elim
  | clock next ih => exact ih time (h time)
  | note n next ih => exact ih h.2

end Program

end FleetUpdate
