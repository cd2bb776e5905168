import FleetUpdate.Deployment.Assignment
import FleetUpdate.Deployment.Device
import FleetUpdate.Deployment.Management
import FleetUpdate.Proofs.Deployment.Interference
import FleetUpdate.Proofs.Lifecycle.Turn
import FleetUpdate.Proofs.Store.Run

/-!
# Calls

The calls that change something: assignments, calls about one action, recalculations, and first
contacts of devices.  `Call.program` is the program of a call, and `Call.Plans` says which
transitions it plans.
-/

namespace FleetUpdate

/-- What a call about one action asks for. -/
inductive ActionCall where
  | cancel
  | forceQuit
  | force
  | report (r : IncomingReport)
  | reportCancel (r : IncomingReport)
  | confirm (messages : List String)
  | deny (messages : List String)

/-- The program of a call about one action. -/
def ActionCall.program (ctx : Context) (actionId : Int) : ActionCall → Program Action
  | cancel => cancelAction ctx actionId
  | forceQuit => forceQuitAction ctx actionId
  | force => forceAction ctx actionId
  | report r => reportStatus ctx actionId r
  | reportCancel r => FleetUpdate.reportCancel ctx actionId r
  | confirm messages => confirmAction ctx actionId messages
  | deny messages => denyAction ctx actionId messages

/-- The transitions that a call about one action plans for the action. -/
inductive ActionCall.Plans (a : Action) : ActionCall → Transition → Prop where
  | cancel {now : Instant} : Plans a .cancel (.cancel a now)
  | forceQuit {now : Instant} : Plans a .forceQuit (.forceQuit a now)
  | force : Plans a .force (.force a)
  | report {r : IncomingReport} {time : Instant} {log : List StatusEntry} :
      Plans a (.report r) (.report a ⟨r.status, r.messages, r.code, time⟩ log)
  | reportCancel {r : IncomingReport} {time : Instant} {log : List StatusEntry} :
      Plans a (.reportCancel r) (.reportCancel a ⟨r.status, r.messages, r.code, time⟩ log)
  | confirm {messages : List String} {now : Instant} :
      Plans a (.confirm messages) (.confirm a messages now)
  | deny {messages : List String} {now : Instant} : Plans a (.deny messages) (.deny a messages now)

/-- A call that may change something. -/
inductive Call where
  | assign (p : Policy) (r : AssignmentRequest)
  | act (actionId : Int) (what : ActionCall)
  | recalculate (controllerId : String)
  | register (controllerId : String)

namespace Call

/-- What a call returns. -/
@[reducible] def Reply : Call → Type
  | assign .. => AssignmentResult
  | act .. => Action
  | recalculate _ => Target
  | register _ => Target

/-- The program of a call. -/
def program (ctx : Context) : (call : Call) → Program call.Reply
  | assign p r => assignSet p ctx r
  | act actionId what => what.program ctx actionId
  | recalculate controllerId => recalculateStatus ctx controllerId
  | register controllerId => findOrRegister ctx controllerId

/-- The call assigns a distribution set. -/
def IsAssignment : Call → Prop
  | assign .. => True
  | _ => False

/-- The transitions that a call plans. -/
inductive Plans (ctx : Context) : Call → Transition → Prop where
  | assign {p : Policy} {r : AssignmentRequest} {now : Instant} :
      Plans ctx (.assign p r) (.assign (r.newAction ctx) p.supersede now)
  | act {a : Action} {what : ActionCall} {tr : Transition} (h : what.Plans a tr) :
      Plans ctx (.act a.id what) tr
  | recalculate {c : String} {ended : Option Action} :
      Plans ctx (.recalculate c) (.recalculate ended)

end Call

/-- The transition of a call about an action is about that action. -/
theorem ActionCall.Plans.subject? {a : Action} {what : ActionCall} {tr : Transition}
    (h : what.Plans a tr) : tr.subject? = some a := by
  cases h <;> rfl

/-- Only assignments create actions. -/
theorem newActions_eq_nil {ctx : Context} {call : Call} {tr : Transition} {v : TargetView}
    {p : Plan} (hcall : ¬ call.IsAssignment) (hplans : call.Plans ctx tr) (hp : tr.plan? v = some p) :
    p.change.newActions = [] := by
  cases hplans with
  | assign => exact absurd trivial hcall
  | act hact =>
    obtain ⟨u, hmoves⟩ := tr.plan?_of_subject hp hact.subject?
    exact hmoves.news
  | recalculate =>
    rw [Transition.planRecalculation_eq_some hp]
    rfl

/-- An action that a call plans to create is the one that it is asked to assign. -/
theorem exists_assign_of_mem_newActions {ctx : Context} {call : Call} {tr : Transition}
    {v : TargetView} {p : Plan} {n : NewAction} (hplans : call.Plans ctx tr)
    (hp : tr.plan? v = some p) (hn : n ∈ p.change.newActions) :
    ∃ policy r, call = .assign policy r ∧ n = r.newAction ctx := by
  by_cases hassign : call.IsAssignment
  · cases hplans with
    | assign =>
      obtain rfl := Option.some.inj hp
      exact ⟨_, _, rfl, List.mem_singleton.mp hn⟩
    | act _ => exact hassign.elim
    | recalculate => exact hassign.elim
  · rw [newActions_eq_nil hassign hplans hp] at hn
    cases hn

/-- A program that runs alone leaves a store that some run of requests leads to. -/
theorem Program.exists_runOn_state_eq {α : Type} (p : Program α) (time : Instant) (s : Store) :
    ∃ ops, (p.runOn time s).state = s.afterAll ops := by
  unfold runOn
  induction p generalizing s with
  | done a => exact ⟨[], rfl⟩
  | fail e => exact ⟨[], rfl⟩
  | ask ctx r next ih =>
    obtain ⟨ops, hops⟩ := ih _ (s.perform ctx (epochMillis time) r).2
    exact ⟨⟨ctx, epochMillis time, r⟩ :: ops, hops⟩
  | clock next ih => exact ih time s
  | note n next ih => exact ih s

theorem Store.Consistent.runOn {α : Type} {s : Store} (hs : s.Consistent) (p : Program α)
    (time : Instant) : (p.runOn time s).state.Consistent := by
  obtain ⟨ops, hops⟩ := p.exists_runOn_state_eq time s
  rw [hops]
  exact hs.afterAll ops

end FleetUpdate
