import FleetUpdate.Proofs.Lifecycle.Supersession
import FleetUpdate.Proofs.Lifecycle.Logged

/-!
# The status before a cancellation

When a device refuses to stop an action, the action goes back to the last status in its log that
counts (`statusBeforeCanceling`).  It should go back to the status that it held before it was canceling
(`heldBeforeCanceling`), warnings apart.  As long as an action is active, each turn of it is of one of
five kinds (`GoesOn`), and by each the two agree further on, unless something that counts has been
logged while the action was canceling (`GoesOn.agreesOr`).
-/

namespace FleetUpdate

/-! ## The last status that counts -/

/-- A status that counts, or running. -/
theorem isPassing_statusBeforeCanceling (log : List StatusEntry) :
    (statusBeforeCanceling log).isPassing = false := by
  unfold statusBeforeCanceling
  cases hfind : (log.reverse.map fun e => e.status).find? fun s => !s.isPassing with
  | none => rfl
  | some status => simpa using List.find?_some hfind

theorem statusBeforeCanceling_append_of_passing {log es : List StatusEntry}
    (h : ∀ e ∈ es, e.status.isPassing = true) :
    statusBeforeCanceling (log ++ es) = statusBeforeCanceling log := by
  have hnone : ((es.reverse.map fun e => e.status).find? fun s => !s.isPassing) = none := by
    simpa using h
  rw [statusBeforeCanceling, List.reverse_append, List.map_append, List.find?_append, hnone,
    Option.none_or, statusBeforeCanceling]

theorem statusBeforeCanceling_append_of_counts {log : List StatusEntry} {e : StatusEntry}
    (h : e.status.isPassing = false) : statusBeforeCanceling (log ++ [e]) = e.status := by
  simp [statusBeforeCanceling, h]

/-! ## The status that was held -/

/-- The last status but warning that an action has held before it was canceling, given all statuses
that it has held in their order. -/
def heldBeforeCanceling (statuses : List ActionStatus) : Option ActionStatus :=
  (statuses.reverse.dropWhile fun s => s == .canceling).find? fun s => s != .warning

@[simp] theorem heldBeforeCanceling_canceling (statuses : List ActionStatus) :
    heldBeforeCanceling (statuses ++ [.canceling]) = heldBeforeCanceling statuses := by
  simp [heldBeforeCanceling]

theorem heldBeforeCanceling_append_of_counts {statuses : List ActionStatus} {status : ActionStatus}
    (h : status.isPassing = false) :
    heldBeforeCanceling (statuses ++ [status]) = some status := by
  cases status with
  | canceling | warning | canceled | cancelRejected => cases h
  | _ => simp [heldBeforeCanceling]

theorem heldBeforeCanceling_append_warning {statuses : List ActionStatus} {status : ActionStatus}
    (h : status ≠ .canceling) :
    heldBeforeCanceling (statuses ++ [status] ++ [.warning]) =
      heldBeforeCanceling (statuses ++ [status]) := by
  simp [heldBeforeCanceling, h]

theorem heldBeforeCanceling_append_self {statuses : List ActionStatus} {status : ActionStatus} :
    heldBeforeCanceling (statuses ++ [status] ++ [status]) =
      heldBeforeCanceling (statuses ++ [status]) := by
  by_cases hcanceling : status = .canceling
  · rw [hcanceling, heldBeforeCanceling_canceling]
  · by_cases hwarning : status = .warning
    · rw [hwarning]
      exact heldBeforeCanceling_append_warning (by decide)
    · simp [heldBeforeCanceling, hcanceling, hwarning]

/-! ## How active actions go on -/

/-- What becomes of the status of an action that stays active, given its log, and what is logged. -/
inductive GoesOn (log : List StatusEntry) :
    ActionStatus → ActionStatus → List ActionStatus → Prop where
  | keeps {status : ActionStatus} : GoesOn log status status []
  | asked {status : ActionStatus} : GoesOn log status .canceling [.canceling]
  | reports {status reported : ActionStatus} (h : status ≠ .canceling)
      (hreported : reported.isPassing = false ∨ reported = .warning) :
      GoesOn log status reported [reported]
  | overheard {reported : ActionStatus} : GoesOn log .canceling .canceling [reported]
  | refuses {reported : ActionStatus} (h : reported = .cancelRejected ∨ reported = .error) :
      GoesOn log .canceling (statusBeforeCanceling log) [reported]

section Turns

variable {s : Store} {a : Action} {tr : Transition} {u : ActionUpdate} {es : List NewStatusEntry}
  {ending : Option Termination} {log : List StatusEntry}

/-- A device reports what counts, or warnings. -/
theorem counts_or_warning_of_reportable {reported : ActionStatus}
    (hdevice : reported.isDeviceReportable = true)
    (hprogress : reported ≠ .canceled ∧ reported ≠ .cancelRejected) :
    reported.isPassing = false ∨ reported = .warning := by
  cases reported with
  | canceling => cases hdevice
  | canceled => exact absurd rfl hprogress.1
  | cancelRejected => exact absurd rfl hprogress.2
  | warning => exact .inr rfl
  | _ => exact .inl rfl

/-- A turn that keeps an action active is of one of these kinds. -/
theorem Transition.Turns.goesOn (h : tr.Turns a u es ending) (hu : u.active = true)
    (hlog : ∀ r log', tr.Answers a r log' → a.status = .canceling → log' = log) :
    GoesOn log a.status u.status (tr.logs u) := by
  cases h with
  | supersede hs =>
    show GoesOn log _ _ [_]
    rw [status_of_supersession hs, if_pos (by simpa [Action.moveTo] using hu)]
    exact .asked
  | askToStop => exact .asked
  | force => exact .keeps
  | @reportProgress r _ _ hdevice hprogress =>
    show GoesOn log _ (if _ then _ else _) [_]
    by_cases hcanceling : a.status = .canceling
    · rw [if_pos hcanceling, hcanceling]
      exact .overheard
    · rw [if_neg hcanceling]
      exact .reports hcanceling (counts_or_warning_of_reportable hdevice hprogress)
  | refuse hanswers hcanceling hr =>
    rw [hlog _ _ hanswers hcanceling, hcanceling]
    cases hanswers <;> exact .refuses hr
  | goOn hanswers hcanceling =>
    rw [hcanceling]
    cases hanswers <;> exact .overheard
  | confirm hwaits =>
    rw [hwaits]
    exact .reports (by decide) (.inl rfl)
  | deny hwaits =>
    rw [hwaits]
    exact .reports (by decide) (.inl rfl)
  | cancelNow | forceQuit | reportEnd | agree => cases hu

end Turns

/-! ## Agreement -/

/-- The log of an action tells the status that it held before it was canceling, or what counts in it
has been logged `late`. -/
def AgreesOr (late : Prop) (statuses : List ActionStatus) (log : List StatusEntry) : Prop :=
  ∃ held, heldBeforeCanceling statuses = some held ∧ (statusBeforeCanceling log = held ∨ late)

theorem AgreesOr.mono {late late' : Prop} {statuses : List ActionStatus} {log : List StatusEntry}
    (h : AgreesOr late statuses log) (himp : late → late') : AgreesOr late' statuses log := by
  obtain ⟨held, hheld, hlate⟩ := h
  exact ⟨held, hheld, hlate.imp_right himp⟩

theorem AgreesOr.newborn {late : Prop} {statuses : List ActionStatus} {e : StatusEntry}
    (h : e.status.isUndispatched = true) : AgreesOr late (statuses ++ [e.status]) [e] := by
  have hcounts : e.status.isPassing = false := by
    revert h
    cases e.status <;> decide
  have htold : statusBeforeCanceling ([] ++ [e]) = e.status :=
    statusBeforeCanceling_append_of_counts hcounts
  exact ⟨_, heldBeforeCanceling_append_of_counts hcounts, .inl htold⟩

/-- An action that goes on keeps agreeing with its log, unless something that counts is logged while
it is canceling. -/
theorem GoesOn.agreesOr {log added : List StatusEntry} {status status' : ActionStatus}
    {logged statuses : List ActionStatus} {late : Prop} (h : GoesOn log status status' logged)
    (hadded : added.map StatusEntry.status = logged)
    (hagrees : AgreesOr late (statuses ++ [status]) log) :
    AgreesOr (late ∧ (∀ e ∈ added, e.status.isPassing = true) ∨
        status = .canceling ∧ ∃ e, added = [e] ∧ e.status.isPassing = false)
      (statuses ++ [status] ++ [status']) (log ++ added) := by
  obtain ⟨held, hheld, hlate⟩ := hagrees
  -- nothing counts in what has been added
  have hpassing (hsame : heldBeforeCanceling (statuses ++ [status] ++ [status']) = some held)
      (hadded : ∀ e ∈ added, e.status.isPassing = true) :
      AgreesOr (late ∧ (∀ e ∈ added, e.status.isPassing = true) ∨
          status = .canceling ∧ ∃ e, added = [e] ∧ e.status.isPassing = false)
        (statuses ++ [status] ++ [status']) (log ++ added) := by
    refine ⟨held, hsame, hlate.imp (fun hagrees => ?_) fun hlate => .inl ⟨hlate, hadded⟩⟩
    rw [statusBeforeCanceling_append_of_passing hadded, hagrees]
  cases h with
  | keeps =>
    obtain rfl := List.map_eq_nil_iff.mp hadded
    exact hpassing (heldBeforeCanceling_append_self.trans hheld) (by simp)
  | asked =>
    obtain ⟨e, rfl, he⟩ := List.map_eq_singleton_iff.mp hadded
    refine hpassing (by rw [heldBeforeCanceling_canceling, hheld]) ?_
    simp [he, ActionStatus.isPassing]
  | reports hstatus hreported =>
    obtain ⟨e, rfl, rfl⟩ := List.map_eq_singleton_iff.mp hadded
    rcases hreported with hcounts | hwarning
    · refine ⟨_, heldBeforeCanceling_append_of_counts hcounts, .inl ?_⟩
      exact statusBeforeCanceling_append_of_counts hcounts
    · refine hpassing ?_ (by simp [hwarning, ActionStatus.isPassing])
      rw [hwarning, heldBeforeCanceling_append_warning hstatus, hheld]
  | overheard =>
    obtain ⟨e, rfl, rfl⟩ := List.map_eq_singleton_iff.mp hadded
    have hsame := (heldBeforeCanceling_canceling (statuses ++ [.canceling])).trans hheld
    cases hcounts : e.status.isPassing with
    | true => exact hpassing hsame (by simp [hcounts])
    | false => exact ⟨held, hsame, .inr (.inr ⟨rfl, e, rfl, hcounts⟩)⟩
  | refuses hreported =>
    obtain ⟨e, rfl, rfl⟩ := List.map_eq_singleton_iff.mp hadded
    have hcounts := isPassing_statusBeforeCanceling log
    refine ⟨_, heldBeforeCanceling_append_of_counts hcounts, ?_⟩
    rcases hreported with hrejected | hfailed
    · -- the log tells the same as before
      refine .inl (statusBeforeCanceling_append_of_passing ?_)
      simp [hrejected, ActionStatus.isPassing]
    · exact .inr (.inr ⟨rfl, e, rfl, by rw [hfailed]; rfl⟩)

end FleetUpdate
