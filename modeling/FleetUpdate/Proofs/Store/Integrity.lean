import FleetUpdate.Proofs.Store.Growth
import FleetUpdate.Proofs.Store.Sets

/-!
# Integrity of reachable stores

Whatever any tenants ask of a store that started empty, in any order and with any changes: a row is
found under its own key and under no other, every reference is met, logs ascend and have no entry in
common, and no counter is behind an id that it gave out (`Integral`).  Between a store and a later
one no counter falls, and the ids that are new lie beyond the counter (`KeepsIds`); so an id whose
row has been deleted is never given out again.

Distribution sets, actions and log entries are counted alike, so the statements about ids are made
once for all three (`Serial`).
-/

namespace FleetUpdate

/-- The kinds of rows whose ids the store counts. -/
inductive Serial where
  | sets
  | actions
  | entries
  deriving DecidableEq

namespace Store

/-- The ids of the stored rows of a kind. -/
def idsOf (s : Store) : Serial → List Int
  | .sets => s.sets.map DistributionSet.id
  | .actions => s.actions.map Action.id
  | .entries => s.log.map StatusEntry.id

/-- The last id that was given to a row of a kind. -/
def lastOf (s : Store) : Serial → Int
  | .sets => s.lastSetId
  | .actions => s.lastActionId
  | .entries => s.lastEntryId

/-- Keys, references, logs and counters are in order. -/
structure Integral (s : Store) : Prop where
  /-- Every target is found under its own key, and nothing else is. -/
  target : ∀ x c t, s.target? x c = some t ↔ t ∈ s.targets ∧ t.key = (x, c)
  set : ∀ i d, s.setById? i = some d ↔ d ∈ s.sets ∧ d.id = i
  action : ∀ i a, s.actionById? i = some a ↔ a ∈ s.actions ∧ a.id = i
  /-- Every action belongs to a stored target. -/
  owner : ∀ a ∈ s.actions, (s.target? a.tenantId a.controllerId).isSome
  /-- Every action brings a stored distribution set of its tenant. -/
  brings : ∀ a ∈ s.actions, (s.set? a.tenantId a.setId).isSome
  /-- Every log is the log of a stored action, and its entries carry the id and the tenant. -/
  logged : ∀ i, ∀ e ∈ s.logOf i,
    e.actionId = i ∧ ∃ a, s.actionById? i = some a ∧ e.tenantId = a.tenantId
  ascending : ∀ i, (s.logOf i).Pairwise fun e f => e.id < f.id
  /-- No id stands in two logs. -/
  apart : ∀ i j, ∀ e ∈ s.logOf i, ∀ f ∈ s.logOf j, e.id = f.id → i = j
  counted : ∀ k, ∀ i ∈ s.idsOf k, i ≤ s.lastOf k

/-- What becomes of the ids of a kind between a store and a later one: the counter does not fall,
and an id that had been given out before is there only if it was there before. -/
structure KeepsIds (k : Serial) (s s' : Store) : Prop where
  last_le : s.lastOf k ≤ s'.lastOf k
  old : ∀ i ∈ s'.idsOf k, i ≤ s.lastOf k → i ∈ s.idsOf k

variable {s s' s'' : Store} {ctx : Context} {now : Instant} {k : Serial}

/-! ## Consistent stores are integral -/

theorem mem_logOf {i : Int} {e : StatusEntry} : e ∈ s.logOf i ↔ e ∈ s.log ∧ e.actionId = i := by
  simp [logOf]

theorem setById?_eq_some_iff (hs : s.Consistent) {i : Int} {d : DistributionSet} :
    s.setById? i = some d ↔ d ∈ s.sets ∧ d.id = i :=
  find?_key_eq_some_iff hs.sets.nodup

theorem Consistent.idsOf_le_lastOf (hs : s.Consistent) (k : Serial) :
    ∀ i ∈ s.idsOf k, i ≤ s.lastOf k := by
  cases k with
  | sets => exact List.forall_mem_map.mpr hs.sets.le_last
  | actions => exact List.forall_mem_map.mpr hs.actions.le_last
  | entries => exact List.forall_mem_map.mpr hs.log.le_last

theorem Consistent.integral (hs : s.Consistent) : s.Integral where
  target _ _ _ := target?_eq_some_iff hs
  set _ _ := setById?_eq_some_iff hs
  action _ _ := actionById?_eq_some_iff hs
  owner a ha := by
    obtain ⟨t, ht, hk⟩ := hs.owner a ha
    rw [(target?_eq_some_iff hs).mpr ⟨ht, hk⟩]
    rfl
  brings a ha := by
    obtain ⟨d, hd, hid, hx⟩ := hs.set a ha
    rw [(set?_eq_some_iff hs).mpr ⟨hd, hid, hx⟩]
    rfl
  logged i e he := by
    obtain ⟨hmem, rfl⟩ := mem_logOf.mp he
    obtain ⟨a, ha, hid, hx⟩ := hs.entry e hmem
    exact ⟨rfl, a, (actionById?_eq_some_iff hs).mpr ⟨ha, hid⟩, hx.symm⟩
  ascending i := hs.log.ascending.filter _
  apart i j e he f hf hid := by
    obtain ⟨hmem, rfl⟩ := mem_logOf.mp he
    obtain ⟨hmem', rfl⟩ := mem_logOf.mp hf
    rw [hs.log.eq_of_id_eq hmem hmem' hid]
  counted := hs.idsOf_le_lastOf

/-! ## Ids over time -/

namespace KeepsIds

/-- A store with some of the rows, and with no more ids given out. -/
theorem of_subset (hids : ∀ i ∈ s'.idsOf k, i ∈ s.idsOf k) (hlast : s'.lastOf k = s.lastOf k) :
    KeepsIds k s s' :=
  ⟨Int.le_of_eq hlast.symm, fun i hi _ => hids i hi⟩

theorem of_eq (hids : s'.idsOf k = s.idsOf k) (hlast : s'.lastOf k = s.lastOf k) :
    KeepsIds k s s' :=
  of_subset (fun _ hi => hids ▸ hi) hlast

theorem refl (s : Store) : KeepsIds k s s := of_eq rfl rfl

theorem trans (h : KeepsIds k s s') (h' : KeepsIds k s' s'') : KeepsIds k s s'' :=
  ⟨Int.le_trans h.last_le h'.last_le, fun i hi hle =>
    h.old i (h'.old i hi (Int.le_trans hle h.last_le)) hle⟩

/-- An id that has gone does not come back. -/
theorem not_mem (h : KeepsIds k s s') (h' : KeepsIds k s' s'') {i : Int} (hle : i ≤ s.lastOf k)
    (hgone : i ∉ s'.idsOf k) : i ∉ s''.idsOf k :=
  fun hi => hgone (h'.old i hi (Int.le_trans hle h.last_le))

theorem putSet {d : DistributionSet} : KeepsIds .sets s (s.putSet d) := by
  refine of_eq ?_ rfl
  show (s.sets.map fun u => if u.id = d.id then d else u).map DistributionSet.id = _
  rw [List.map_map]
  apply List.map_congr_left
  intro u _
  by_cases h : u.id = d.id <;> simp [h]

theorem sets (hs : s.Consistent) (o : Op) : KeepsIds .sets s (s.after o) := by
  obtain ⟨ctx, now, r⟩ := o
  have heffect := perform_sets hs ctx now r
  show KeepsIds .sets s (s.perform ctx now r).2
  generalize (s.perform ctx now r).2 = s' at heffect ⊢
  cases heffect with
  | keep hsets hlast => exact of_eq (congrArg (List.map DistributionSet.id) hsets) hlast
  | create n _ =>
    refine ⟨Int.le_add_of_nonneg_right (by decide), fun i hi hle => ?_⟩
    change i ≤ s.lastSetId at hle
    rw [idsOf, List.map_append, List.mem_append] at hi
    rcases hi with hi | hi
    · exact hi
    · have hnew : i = s.lastSetId + 1 := List.mem_singleton.mp hi
      omega
  | refill modules _ _ _ => exact putSet
  | mark _ _ => exact putSet
  | drop _ _ =>
    exact of_subset (fun i hi => (List.Sublist.map _ List.filter_sublist).subset hi) rfl

theorem actions (hs : s.Consistent) (o : Op) : KeepsIds .actions s (s.after o) := by
  have hgrows := Grows.after hs o
  refine ⟨hgrows.last_le, fun i hi hle => ?_⟩
  obtain ⟨a', ha', rfl⟩ := List.mem_map.mp hi
  obtain ⟨a, ha, hid, -⟩ := hgrows.old a' ha' hle
  exact List.mem_map.mpr ⟨a, ha, hid⟩

/-- A commit appends log entries under new ids. -/
theorem entries_commit (hs : s.Consistent) (ctx : Context) (now : Instant) (c : TargetChange) :
    KeepsIds .entries s (s.commit ctx now c).2 := by
  rcases commit_cases hs ctx now c with ⟨k, -, hcommit, -⟩ | ⟨e, -, hcommit⟩
  · rw [hcommit]
    refine ⟨Int.le_add_of_nonneg_right (Int.natCast_nonneg _), fun i hi hle => ?_⟩
    change i ≤ s.lastEntryId at hle
    change i ∈ (s.log ++ s.entriesBy ctx c).map StatusEntry.id at hi
    rw [List.map_append, List.mem_append] at hi
    rcases hi with hi | hi
    · exact hi
    · obtain ⟨e, he, rfl⟩ := List.mem_map.mp hi
      obtain ⟨j, hj, rfl⟩ := List.mem_mapIdx.mp he
      change s.lastEntryId + 1 + (j : Int) ≤ s.lastEntryId at hle
      omega
  · rw [hcommit]
    exact .refl s

theorem entries_tracks : Tracks (KeepsIds .entries) := ⟨refl, trans, entries_commit⟩

theorem entries (hs : s.Consistent) (o : Op) : KeepsIds .entries s (s.after o) := by
  obtain ⟨ctx, now, r⟩ := o
  have heffect := s.perform_effect ctx now r
  show KeepsIds .entries s (s.perform ctx now r).2
  generalize (s.perform ctx now r).2 = s' at heffect ⊢
  have hrow (c : String) (f : Target → Target) :
      KeepsIds .entries s (s.changeTarget ctx c f).2 := by
    unfold changeTarget
    split <;> exact of_eq rfl rfl
  cases heffect with
  | none => exact .refl s
  | register h =>
    obtain ⟨-, -, -, rfl⟩ := createTarget_eq_ok_iff.mp h
    exact of_eq rfl rfl
  | describe c d => exact hrow c _
  | contact c time => exact hrow c _
  | delete c =>
    unfold deleteTarget
    split
    · exact .refl s
    · exact of_subset (fun i hi => (List.Sublist.map _ List.filter_sublist).subset hi) rfl
  | sets sets last => exact of_eq rfl rfl
  | commit cs => exact entries_tracks.commitAll hs cs

/-- Every request keeps the ids of every kind. -/
theorem after (hs : s.Consistent) (o : Op) : KeepsIds k s (s.after o) := by
  cases k with
  | sets => exact sets hs o
  | actions => exact actions hs o
  | entries => exact entries hs o

theorem afterAll (hs : s.Consistent) (ops : List Op) : KeepsIds k s (s.afterAll ops) := by
  induction ops generalizing s with
  | nil => exact .refl s
  | cons o ops ih => exact (after hs o).trans (ih (hs.after o))

end KeepsIds

/-- Every reachable store is in order, and stays so: whatever is asked of it later, no counter falls
behind an id that it gave out, what is new has ids that were never given out, and an id that has
gone is gone for good. -/
theorem Reachable.integrity (hs : s.Reachable) (later : List Op) :
    s.Integral ∧ (s.afterAll later).Integral ∧ ∀ k,
      KeepsIds k s (s.afterAll later) ∧
      ∀ i ∈ s.idsOf k, i ≤ (s.afterAll later).lastOf k ∧
        (i ∉ (s.afterAll later).idsOf k →
          ∀ more, i ∉ ((s.afterAll later).afterAll more).idsOf k) := by
  have hcs := hs.consistent
  have hcs' := hcs.afterAll later
  refine ⟨hcs.integral, hcs'.integral, fun k => ?_⟩
  have hlater : KeepsIds k s (s.afterAll later) := .afterAll hcs later
  refine ⟨hlater, fun i hi => ?_⟩
  have hle : i ≤ s.lastOf k := hcs.idsOf_le_lastOf k i hi
  exact ⟨Int.le_trans hle hlater.last_le, fun hgone more =>
    hlater.not_mem (.afterAll hcs' more) hle hgone⟩

/-- The small store after its first distribution set has been assigned to the device. -/
def sampleInUse : Store := sample.after ⟨sampleContext, 2, .applyChanges [sampleAssignment 1]⟩

/-- The device is deleted, registered anew, and gets the second distribution set. -/
def sampleReplacement : List Op :=
  [⟨sampleContext, 3, .deleteTarget "device"⟩,
    ⟨sampleContext, 4, .createTarget (.ofId "device")⟩,
    ⟨sampleContext, 5, .applyChanges [sampleAssignment 2]⟩]

theorem sampleInUse_reachable : sampleInUse.Reachable :=
  sample_reachable.afterAll [⟨sampleContext, 2, .applyChanges [sampleAssignment 1]⟩]

/-- The device that is registered anew gets an action and a log entry with ids of their own; those
of the deleted ones never come back. -/
theorem sampleReplacement_ids :
    sampleInUse.idsOf .actions = [1] ∧ sampleInUse.idsOf .entries = [1] ∧
    (sampleInUse.afterAll sampleReplacement).idsOf .actions = [2] ∧
    (sampleInUse.afterAll sampleReplacement).idsOf .entries = [2] ∧
    (sampleInUse.afterAll sampleReplacement).Integral ∧
    ∀ more, 1 ∉ ((sampleInUse.afterAll sampleReplacement).afterAll more).idsOf .actions := by
  obtain ⟨-, hlater, hids⟩ := sampleInUse_reachable.integrity sampleReplacement
  refine ⟨by decide +kernel, by decide +kernel, by decide +kernel, by decide +kernel, hlater, ?_⟩
  exact ((hids .actions).2 1 (by decide +kernel)).2 (by decide +kernel)

end Store

end FleetUpdate
