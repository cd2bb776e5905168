/-!
# Counters

Calls count what they do.  What has been counted is a matter of the notes that the calls made, so
there is no counter to keep: a total is taken over notes.
-/

namespace FleetUpdate

/-- What is counted. -/
inductive Counter where
  | assignmentsRequested
  | actionsCreated
  | targetsAlreadyAssigned
  | targetsFailed
  | actionsSuperseded
  | actionsCanceled
  | cancelRequests
  | forceQuits
  | statusUpdates
  | optimisticConflicts
  /-- The time that assignments took; it is measured, not counted. -/
  | assignmentMillis
  | assignmentsTimed
  deriving DecidableEq

namespace Counter

/-- All counters, in the order in which they are shown. -/
def all : List Counter :=
  [assignmentsRequested, actionsCreated, targetsAlreadyAssigned, targetsFailed, actionsSuperseded,
    actionsCanceled, cancelRequests, forceQuits, statusUpdates, optimisticConflicts,
    assignmentMillis, assignmentsTimed]

/-- The name of a counter. -/
def name : Counter → String
  | assignmentsRequested => "assignments_requested"
  | actionsCreated => "actions_created"
  | targetsAlreadyAssigned => "targets_already_assigned"
  | targetsFailed => "targets_failed"
  | actionsSuperseded => "actions_superseded"
  | actionsCanceled => "actions_canceled"
  | cancelRequests => "cancel_requests"
  | forceQuits => "force_quits"
  | statusUpdates => "status_updates"
  | optimisticConflicts => "optimistic_conflicts"
  | assignmentMillis => "assignment_latency_ms_total"
  | assignmentsTimed => "assignment_latency_ms_count"

end Counter

end FleetUpdate
