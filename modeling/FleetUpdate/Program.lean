import FleetUpdate.Error
import FleetUpdate.Metrics
import FleetUpdate.Notice
import FleetUpdate.Store.Request

/-!
# Programs

A deployment call is a program: it asks a store one request after the other, may read the clock, and
notes what it has done.  A program is data, a finite tree of requests and continuations, so the same
call can be run alone on the store in memory, on a store that fails, or step by step among other
calls; what a call does between two of its requests is up to the others.

`Program.run` runs a program alone.  `run_bind` says that a composed program runs its parts in turn.
-/

namespace FleetUpdate

/-- What a call leaves behind besides the rows of the store. -/
inductive Note where
  | published (e : Event)
  | logged (n : Notice)
  | counted (c : Counter) (n : Nat)
  | opened (s : AssignmentSpan)

/-- The total that notes give for a counter. -/
def Counter.total (c : Counter) (notes : List Note) : Nat :=
  (notes.map fun
    | .counted d n => if d = c then n else 0
    | _ => 0).foldr (· + ·) 0

/-- The events among notes. -/
def Note.events (notes : List Note) : List Event :=
  notes.filterMap fun
    | .published e => some e
    | _ => none

/-- A deployment call. -/
inductive Program (α : Type) : Type where
  | done (a : α)
  | fail (e : DeploymentError)
  /-- Asks the store and goes on with its answer. -/
  | ask (ctx : Context) (r : Request) (next : r.Result → Program α)
  /-- Reads the clock. -/
  | clock (next : Instant → Program α)
  | note (n : Note) (next : Program α)

namespace Program

variable {α β : Type}

/-- Goes on with what a program returns. -/
def bind : Program α → (α → Program β) → Program β
  | done a, f => f a
  | fail e, _ => fail e
  | ask ctx r next, f => ask ctx r fun x => bind (next x) f
  | clock next, f => clock fun t => bind (next t) f
  | note n next, f => note n (bind next f)

instance : Monad Program where
  pure := done
  bind := bind

@[simp] theorem pure_eq (a : α) : (pure a : Program α) = done a := rfl

@[simp] theorem bind_eq (p : Program α) (f : α → Program β) : (p >>= f) = p.bind f := rfl

/-- Fails with an error or returns a value. -/
def ofExcept : Except DeploymentError α → Program α
  | .ok a => done a
  | .error e => fail e

/-- Asks the store and returns its answer, error or not. -/
def attempt (ctx : Context) (r : Request) : Program r.Result := ask ctx r done

/-- Asks the store and fails when it does. -/
def request (ctx : Context) (r : Request) : Program r.Answer :=
  ask ctx r fun
    | .ok a => done a
    | .error e => fail e.toDeployment

/-- The time by the clock. -/
def now : Program Instant := clock done

/-- The time as rows and logs record it. -/
def recordedNow : Program Instant := clock fun t => done (epochMillis t)

/-- Makes a note. -/
def write (n : Note) : Program Unit := note n (done ())

/-- Writes a line to the log. -/
def log (n : Notice) : Program Unit := write (.logged n)

/-- Counts. -/
def count (c : Counter) (n : Nat) : Program Unit := write (.counted c n)

/-- Publishes events in order. -/
def publish : List Event → Program Unit
  | [] => done ()
  | e :: es => note (.published e) (publish es)

/-- Fails for want of something. -/
def require (e : Entity) (id : String) : Option α → Program α
  | some a => done a
  | none => fail (.notFound e id)

/-- What a program that has run leaves: the result, the notes in order, and the state of whatever
answered its requests. -/
structure Outcome (σ α : Type) where
  result : Except DeploymentError α
  notes : List Note
  state : σ

/-- Something that answers requests. -/
abbrev Answerer (σ : Type) := Context → (r : Request) → σ → r.Result × σ

/-- Runs a program alone, at a time at which the clock stands still. -/
def run {σ : Type} (answer : Answerer σ) (time : Instant) : Program α → σ → Outcome σ α
  | done a, s => ⟨.ok a, [], s⟩
  | fail e, s => ⟨.error e, [], s⟩
  | ask ctx r next, s =>
    let x := answer ctx r s
    run answer time (next x.1) x.2
  | clock next, s => run answer time (next time) s
  | note n next, s =>
    let o := run answer time next s
    { o with notes := n :: o.notes }

/-- Runs a program alone on the store in memory. -/
def runOn (p : Program α) (time : Instant) (s : Store) : Outcome Store α :=
  p.run (fun ctx r s => s.perform ctx (epochMillis time) r) time s

/-- A composed program runs its parts in turn; if the first fails, so does the whole. -/
theorem run_bind {σ : Type} (answer : Answerer σ) (time : Instant) (p : Program α)
    (f : α → Program β) (s : σ) :
    (p.bind f).run answer time s =
      match (p.run answer time s).result with
      | .ok a =>
        let o := (f a).run answer time (p.run answer time s).state
        { o with notes := (p.run answer time s).notes ++ o.notes }
      | .error e => ⟨.error e, (p.run answer time s).notes, (p.run answer time s).state⟩ := by
  induction p generalizing s with
  | done a => simp [bind, run]
  | fail e => simp [bind, run]
  | ask ctx r next ih => simp only [bind, run]; exact ih _ _
  | clock next ih => simp only [bind, run]; exact ih _ _
  | note n next ih =>
    simp only [bind, run, ih]
    cases (next.run answer time s).result <;> simp

theorem bind_assoc {γ : Type} (p : Program α) (f : α → Program β) (g : β → Program γ) :
    (p.bind f).bind g = p.bind fun a => (f a).bind g := by
  induction p with
  | done a => rfl
  | fail e => rfl
  | ask ctx r next ih => simp only [bind]; congr 1; funext x; exact ih x
  | clock next ih => simp only [bind]; congr 1; funext t; exact ih t
  | note n next ih => simp only [bind, ih]

theorem bind_done (p : Program α) : p.bind done = p := by
  induction p with
  | done a => rfl
  | fail e => rfl
  | ask ctx r next ih => simp only [bind]; congr 1; funext x; exact ih x
  | clock next ih => simp only [bind]; congr 1; funext t; exact ih t
  | note n next ih => simp only [bind, ih]

instance : LawfulMonad Program :=
  LawfulMonad.mk' Program (fun p => bind_done p) (fun _ _ => rfl) bind_assoc

end Program

end FleetUpdate
