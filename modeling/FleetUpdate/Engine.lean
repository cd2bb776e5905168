import FleetUpdate.Event.Sink
import FleetUpdate.Program
import FleetUpdate.Settings.Basic
import FleetUpdate.Store.Fault

/-!
# The engine at work

An engine is a store, a sink for events, a policy and a clock.  Running a call on it hands the
events of the call to the sink and leaves the lines for the log.  An engine is put together from
settings; with the address of a database it would have to connect first.
-/

namespace FleetUpdate

/-- What answers the requests of an engine. -/
inductive Backend where
  | memory (s : FaultyStore)
  /-- A database whose connections have been closed. -/
  | closed

/-- Answers a request at a time of the clock. -/
def Backend.answer (time : Instant) : Program.Answerer Backend
  | ctx, r, .memory s =>
    let (result, s) := s.perform ctx (epochMillis time) r
    (result, .memory s)
  | ctx, r, .closed => (closedAnswer ctx r, .closed)

/-- An engine. -/
structure Engine where
  backend : Backend
  sink : Sink
  policy : Policy
  clock : Instant

/-- A line of the log, or the opening of a span. -/
inductive LogLine where
  | record (r : LogRecord)
  | span (s : AssignmentSpan)

/-- The lines that a note makes in the log; events are logged if the sink is the log. -/
def Note.lines (sink : Sink) : Note → List LogLine
  | .logged n => [.record n.record]
  | .opened s => [.span s]
  | .counted .. => []
  | .published e =>
    match sink with
    | .log => [.record (Notice.event e).record]
    | _ => []

namespace Engine

/-- An engine with an empty store in memory. -/
def inMemory (sink : Sink) (p : Policy) (clock : Instant) : Engine :=
  ⟨.memory ⟨.empty, []⟩, sink, p, clock⟩

/-- Runs a call, and gives its result and its notes. -/
def run {α : Type} (e : Engine) (p : Program α) :
    Except DeploymentError α × List Note × Engine :=
  let o := p.run (Backend.answer e.clock) e.clock e.backend
  (o.result, o.notes,
    { e with backend := o.state, sink := e.sink.takeAll (Note.events o.notes) })

/-- Arms a fault after those that are armed already; a database without connections takes none. -/
def arm (e : Engine) (f : Fault) : Engine :=
  match e.backend with
  | .memory s => { e with backend := .memory { s with faults := s.faults ++ [f] } }
  | .closed => e

end Engine

/-- All code tables can be built. -/
def validateCodeTables : Except VocabularyError Unit := do
  let _ ← ActionStatus.vocabulary.codeTable
  let _ ← ActionType.vocabulary.codeTable
  let _ ← UpdateStatus.vocabulary.codeTable
  .ok ()

/-- Puts an engine together from settings, with the notice that it is ready.  No database can be
reached by an address that does not say how. -/
def Engine.build (s : Settings) (sink : Sink) (clock : Instant) :
    Except DeploymentError (Engine × List Note) := do
  match validateCodeTables with
  | .error e => .error e.toDeployment
  | .ok () =>
    match s.databaseUrl with
    | some _ => .error DatabaseError.relativeAddress.toStorageError.toDeployment
    | none =>
      .ok (.inMemory sink s.effectivePolicy clock, [.logged (.runtimeReady "InMemory" s.policy)])

/-- Puts an engine together from the environment; its events go to the log. -/
def Engine.ofEnvironment (env : Environment) (clock : Instant) :
    Except DeploymentError (Settings × Engine × List Note) :=
  match Settings.ofEnvironment env with
  | .error e => .error (.configuration e.message)
  | .ok s => do
    let (e, notes) ← Engine.build s .log clock
    .ok (s, e, notes)

end FleetUpdate
