import FleetUpdate.Proofs.Deployment.Aging
import FleetUpdate.Proofs.Deployment.Deeds
import FleetUpdate.Proofs.Deployment.Driving
import FleetUpdate.Proofs.Deployment.Unchanged

/-!
# The events tell what is stored

Whoever has followed the events from the beginning and keeps for each action the last one that
carries its record knows the stored actions (`replay`): calls are completed one after the other,
whatever their outcome, clients register targets and create distribution sets in between, and nobody
deletes a target (`Told`).

This rests on what a single call publishes: from any store that such a run leads to, a call
publishes of each action what it should, no more and no less (`Call.Publishes`).
-/

namespace FleetUpdate

open Program Store

/-! ## Replaying events -/

/-- The record of an action that an event carries. -/
def Event.record? : Event → Option ActionEvent
  | actionCreated e | actionUpdated e => some e
  | targetAssigned _ | cancelTargetAssignment _ => none

/-- What is known of the actions after one event more. -/
def Event.follow (known : Int → Option ActionEvent) (e : Event) (i : Int) : Option ActionEvent :=
  match e.record? with
  | some r => if r.actionId = i then some r else known i
  | none => known i

/-- What the events tell of each action: the last record of it. -/
def replay (es : List Event) : Int → Option ActionEvent := es.foldl Event.follow fun _ => none

/-- Just the stored actions are known, and each of them as it is stored. -/
structure Store.KnownAs (s : Store) (known : Int → Option ActionEvent) : Prop where
  stored : ∀ a ∈ s.actions, ∃ r, known a.id = some r ∧ r.Tells a
  known : ∀ i r, known i = some r → ∃ a ∈ s.actions, a.id = i ∧ r.Tells a

variable {s s' : Store} {ctx : Context} {call : Call} {times : Instant → Prop} {es es' : List Event}
  {known : Int → Option ActionEvent} {i : Int}

theorem Event.actionId_of_record? {e : Event} {r : ActionEvent} (h : e.record? = some r) :
    r.actionId = e.actionId := by
  cases e with
  | actionCreated | actionUpdated => rw [← Option.some.inj h]; rfl
  | targetAssigned | cancelTargetAssignment => cases h

/-- An event tells nothing of other actions. -/
theorem Event.follow_of_ne {e : Event} (h : e.actionId ≠ i) : e.follow known i = known i := by
  unfold follow
  split
  · rename_i r hr
    rw [← actionId_of_record? hr] at h
    exact if_neg h
  · rfl

/-- What is known of other actions does not matter for what is told of an action. -/
theorem foldl_follow_congr {known' : Int → Option ActionEvent} (es : List Event)
    (h : known i = known' i) : es.foldl Event.follow known i = es.foldl Event.follow known' i := by
  induction es generalizing known known' with
  | nil => exact h
  | cons e es ih =>
    apply ih
    simp only [Event.follow, h]

/-- What is told of an action is told by the events about it. -/
theorem foldl_follow_filter (es : List Event) (known : Int → Option ActionEvent) (i : Int) :
    es.foldl Event.follow known i =
      (es.filter fun e => e.actionId == i).foldl Event.follow known i := by
  induction es generalizing known with
  | nil => rfl
  | cons e es ih =>
    rw [List.foldl_cons, List.filter_cons]
    by_cases he : e.actionId = i
    · rw [if_pos (by simpa using he), List.foldl_cons]
      exact ih _
    · rw [if_neg (by simpa using he), ← ih]
      exact foldl_follow_congr es (Event.follow_of_ne he)

/-- Whoever knows how an action was stored before a call knows by its story how it is stored
afterwards. -/
theorem foldl_follow_story {before after : Option Action}
    (hknown : known i = before.map Action.toEvent)
    (hkept : ∀ a, before = some a →
      ∃ a', after = some a' ∧ (a'.revision = a.revision → a' = a))
    (hid : ∀ a', after = some a' → a'.id = i) :
    (call.story before after).foldl Event.follow known i = after.map Action.toEvent := by
  cases after with
  | none =>
    cases before with
    | none => exact hknown
    | some a =>
      obtain ⟨a', ha', -⟩ := hkept a rfl
      cases ha'
  | some a' =>
    have hrecord : (if a'.toEvent.actionId = i then some a'.toEvent else known i) =
        some a'.toEvent := if_pos (hid a' rfl)
    cases before with
    | none => exact hrecord
    | some a =>
      obtain ⟨b, hb, hsame⟩ := hkept a rfl
      obtain rfl := Option.some.inj hb
      simp only [Call.story]
      split
      · rename_i hrevision
        rw [hsame hrevision]
        exact hknown
      · split <;> exact hrecord

/-- The announcements of a call bring what is known of the actions up to date. -/
theorem Call.Announces.replay_append (hs' : s'.Consistent) (h : call.Announces s s' es')
    (hknown : replay es = fun i => (s.actionById? i).map Action.toEvent) :
    replay (es ++ es') = fun i => (s'.actionById? i).map Action.toEvent := by
  funext i
  have hbefore : es.foldl Event.follow (fun _ => none) i = (s.actionById? i).map Action.toEvent :=
    congrFun hknown i
  rw [replay, List.foldl_append, foldl_follow_filter, h.story]
  apply foldl_follow_story hbefore (h.kept i)
  intro a' ha'
  exact ((actionById?_eq_some_iff hs').mp ha').2

/-! ## Calls -/

/-- A call that runs alone announces what it does, and if it fails there is nothing to announce. -/
theorem Call.announces_of_ends (hs : s.Consistent) {x : Except DeploymentError call.Reply}
    (h : (call.program ctx).Ends times s x s' es) : call.Announces s s' es := by
  have hjudged := (call.leaves_program hs ctx).of_ends h
  cases x with
  | error e =>
    obtain ⟨rfl, rfl⟩ := hjudged
    exact .of_actions rfl
  | ok a =>
    rcases hjudged with ⟨ids, hids, hcourse⟩ | ⟨hactions, rfl⟩
    · exact hcourse.announces hs hids
    · exact .of_actions hactions

/-- From the empty store, calls have been completed one after the other, each under a clock that may
move on, and have published these events; clients have registered targets, created distribution sets
and looked things up in between, but nobody has deleted a target or had changes of their own
committed. -/
inductive Told : Store → List Event → Prop where
  | empty : Told .empty []
  | client {s : Store} {es : List Event} (h : Told s es) (o : Op) (quiet : o.request.IsQuiet) :
      Told (s.after o) es
  | call {s s' : Store} {es es' : List Event} (h : Told s es) (ctx : Context) (call : Call)
      {times : Instant → Prop} {x : Except DeploymentError call.Reply}
      (ends : (call.program ctx).Ends times s x s' es') : Told s' (es ++ es')

namespace Told

theorem consistent (h : Told s es) : s.Consistent := by
  induction h with
  | empty => exact Consistent.empty
  | client _ o _ ih => exact ih.after o
  | call _ _ _ ends ih => exact ends.consistent ih

theorem replay_eq (h : Told s es) : replay es = fun i => (s.actionById? i).map Action.toEvent := by
  induction h with
  | empty => rfl
  | @client s es h o quiet ih =>
    have hsame (i : Int) : (s.after o).actionById? i = s.actionById? i := by
      rw [actionById?, actions_of_quiet s quiet, actionById?]
    simp only [hsame]
    exact ih
  | call h ctx call ends ih =>
    exact (Call.announces_of_ends h.consistent ends).replay_append (ends.consistent h.consistent) ih

theorem knownAs_replay (h : Told s es) : s.KnownAs (replay es) := by
  have hs := h.consistent
  rw [h.replay_eq]
  constructor
  · intro a ha
    rw [(actionById?_eq_some_iff hs).mpr ⟨ha, rfl⟩]
    exact ⟨_, rfl, a.tells_toEvent⟩
  · intro i r hr
    obtain ⟨a, ha, rfl⟩ := Option.map_eq_some_iff.mp hr
    obtain ⟨hmem, hid⟩ := (actionById?_eq_some_iff hs).mp ha
    exact ⟨a, hmem, hid, a.tells_toEvent⟩

/-- The events of a run of calls tell what is stored: of each stored action the last record says, in
every field, how it is stored, and there are no records of other actions.  Moreover each call
publishes of each action what it should, no more and no less; and no event that a transition has
planned is lost when the change is committed. -/
theorem events_tell_the_store (h : Told s es) :
    s.KnownAs (replay es) ∧
    (∀ (times : Instant → Prop) ctx (call : Call) x s' es',
      (call.program ctx).Ends times s x s' es' →
      ∀ i, call.Publishes (s.actionById? i) (s'.actionById? i)
        (es'.filter fun e => e.actionId == i)) ∧
    ∀ ctx now (tr : Transition) v p k s', tr.plan? v = some p →
      s.commit ctx now p.change = (.ok k, s') → ∀ e ∈ p.events, e.resolve k ≠ [] := by
  refine ⟨h.knownAs_replay, ?_, ?_⟩
  · intro times ctx call x s' es' hends i
    exact (Call.announces_of_ends h.consistent hends).publishes i
  · intro ctx now tr v p k s' hp hcommit e he
    rcases commit_cases h.consistent ctx now p.change with ⟨k', -, hok, hreceipt⟩ | ⟨e', -, hno⟩
    · obtain ⟨hk, -⟩ := Prod.mk.inj (hcommit.symm.trans hok)
      obtain rfl := Except.ok.inj hk
      exact hreceipt.resolve_ne_nil hp he
    · rw [hcommit] at hno
      cases hno

end Told

/-! ## Tasks -/

/-- The events that a task publishes. -/
def Task.events (s : Store) : Task → List Event
  | .call ctx call time => Note.events ((call.program ctx).runOn time s).notes
  | .request _ => []

/-- The events that several tasks publish. -/
def Store.eventsOf (s : Store) : List Task → List Event
  | [] => []
  | task :: tasks => task.events s ++ (s.afterTask task).eventsOf tasks

/-- Tasks that are done one after the other, while the clock stands still during each of them. -/
theorem Told.afterTasks (h : Told s es) (tasks : List Task)
    (hquiet : ∀ o, Task.request o ∈ tasks → o.request.IsQuiet) :
    Told (s.afterTasks tasks) (es ++ s.eventsOf tasks) := by
  induction tasks generalizing s es with
  | nil =>
    rw [Store.eventsOf, List.append_nil]
    exact h
  | cons task tasks ih =>
    have hfirst : Told (s.afterTask task) (es ++ task.events s) := by
      cases task with
      | call ctx call time => exact .call h ctx call (ends_runOn (· = time) rfl _ s)
      | request o =>
        rw [Task.events, List.append_nil]
        exact .client h o (hquiet o List.mem_cons_self)
    rw [Store.eventsOf, ← List.append_assoc]
    exact ih hfirst fun o ho => hquiet o (List.mem_cons_of_mem task ho)

/-- A distribution set is rolled out to the device, which starts with it; then another rollout
brings the next one, so that the device is asked to stop. -/
def rollouts : List Task :=
  Store.sampleOps.map .request ++
    [.call Store.sampleContext (.assign .patient { AssignmentRequest.forced 1 ["device"] with
        actionType := .soft, rolloutId := some 7, rolloutGroupId := some 70 }) 2,
      .call Store.sampleContext (.act 1 (.report ⟨.running, [], none, some 3⟩)) 3,
      .call Store.sampleContext (.assign .patient { AssignmentRequest.forced 2 ["device"] with
        rolloutId := some 8 }) 4]

/-- Whoever follows the rollouts knows both actions, the first by the last of its records. -/
theorem rollouts_told :
    Store.empty.eventsOf rollouts =
      [.actionCreated ⟨"acme", 1, "device", 1, .scheduled, .soft, true, some 7, some 70⟩,
        .targetAssigned ⟨"acme", "device", 1, 1, .soft⟩,
        .actionUpdated ⟨"acme", 1, "device", 1, .running, .soft, true, some 7, some 70⟩,
        .actionUpdated ⟨"acme", 1, "device", 1, .canceling, .soft, true, some 7, some 70⟩,
        .cancelTargetAssignment ⟨"acme", "device", 1, 1, .soft⟩,
        .actionCreated ⟨"acme", 2, "device", 2, .scheduled, .forced, true, some 8, none⟩,
        .targetAssigned ⟨"acme", "device", 2, 2, .forced⟩] ∧
    (Store.empty.afterTasks rollouts).KnownAs (replay (Store.empty.eventsOf rollouts)) := by
  have hquiet : ∀ o, Task.request o ∈ rollouts → o.request.IsQuiet := by
    simp [rollouts, Store.sampleOps, Request.IsQuiet]
  exact ⟨by cbv, (Told.empty.afterTasks rollouts hquiet).events_tell_the_store.1⟩

end FleetUpdate
