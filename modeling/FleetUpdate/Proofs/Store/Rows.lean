import FleetUpdate.Store.Request
import Mathlib.Data.List.Nodup

/-!
# Rows and how they are found

The store finds a row by its key.  Where keys are not repeated, finding is membership, and a
function on rows that keeps the keys commutes with it.  Ids are issued upwards, so the rows of a
table carry ascending ids, none of them beyond the last one issued; `Issued` says so, and
everything that the store does to a table keeps it.
-/

namespace FleetUpdate

/-! ## Finding by key -/

section Keyed

variable {α κ : Type} [BEq κ] {key : α → κ} {rows : List α}

/-- A function that keeps the keys changes the row that is found, not which one it is. -/
theorem find?_map_of_key (key : α → κ) {g : α → α} (hg : ∀ a, key (g a) = key a) (k : κ) :
    ((rows.map g).find? fun b => key b == k) = (rows.find? fun b => key b == k).map g := by
  rw [List.find?_map]
  congr 2
  funext a
  simp [hg]

variable [LawfulBEq κ]

/-- Where no key is repeated, the row that is found is the one that has the key. -/
theorem find?_key_eq_some_iff (h : (rows.map key).Nodup) {k : κ} {a : α} :
    (rows.find? fun b => key b == k) = some a ↔ a ∈ rows ∧ key a = k := by
  constructor
  · intro hf
    exact ⟨List.mem_of_find?_eq_some hf, by simpa using List.find?_some hf⟩
  · rintro ⟨ha, rfl⟩
    cases hf : rows.find? fun b => key b == key a with
    | none =>
      rw [List.find?_eq_none] at hf
      exact absurd (hf a ha) (by simp)
    | some b =>
      have hb : b ∈ rows := List.mem_of_find?_eq_some hf
      have hk : key b = key a := by simpa using List.find?_some hf
      rw [List.inj_on_of_nodup_map h hb ha hk]

theorem find?_key_eq_none_iff {k : κ} :
    (rows.find? fun b => key b == k) = none ↔ ∀ a ∈ rows, key a ≠ k := by
  simp [List.find?_eq_none]

/-- Among the rows that were looked up by several keys is the one that each of the keys finds. -/
theorem find?_filterMap_of_key {f : κ → Option α} (hf : ∀ k a, f k = some a → key a = k)
    {ks : List κ} {k : κ} (hk : k ∈ ks) :
    ((ks.filterMap f).find? fun a => key a == k) = f k := by
  have hfound : ∀ a ∈ ks.filterMap f, key a = k → f k = some a := by
    intro a ha hak
    obtain ⟨j, -, hj⟩ := List.mem_filterMap.mp ha
    rw [← hak, hf j a hj]
    exact hj
  cases hrow : f k with
  | none =>
    rw [find?_key_eq_none_iff]
    intro a ha hak
    rw [hfound a ha hak] at hrow
    cases hrow
  | some a =>
    have hmem : a ∈ ks.filterMap f := List.mem_filterMap.mpr ⟨k, hk, hrow⟩
    cases hfind : (ks.filterMap f).find? fun a => key a == k with
    | none => exact absurd (hf k a hrow) (find?_key_eq_none_iff.mp hfind a hmem)
    | some b =>
      have hb := hfound b (List.mem_of_find?_eq_some hfind) (by simpa using List.find?_some hfind)
      exact hb.symm.trans hrow

end Keyed

/-! ## Issued ids -/

/-- The rows carry ids that were issued one after the other, up to `last`. -/
structure Issued {α : Type} (id : α → Int) (last : Int) (rows : List α) : Prop where
  ascending : rows.Pairwise fun a b => id a < id b
  le_last : ∀ a ∈ rows, id a ≤ last

namespace Issued

variable {α : Type} {id : α → Int} {last : Int} {rows : List α}

theorem nil : Issued id last [] := ⟨.nil, by simp⟩

theorem nodup (h : Issued id last rows) : (rows.map id).Nodup := by
  rw [List.Nodup, List.pairwise_map]
  exact h.ascending.imp fun hab => Int.ne_of_lt hab

/-- Two rows with one id are one row. -/
theorem eq_of_id_eq (h : Issued id last rows) {a b : α} (ha : a ∈ rows) (hb : b ∈ rows)
    (hab : id a = id b) : a = b :=
  List.inj_on_of_nodup_map h.nodup ha hb hab

theorem filter (h : Issued id last rows) (p : α → Bool) : Issued id last (rows.filter p) :=
  ⟨h.ascending.filter p, fun a ha => h.le_last a (List.mem_filter.mp ha).1⟩

theorem map (h : Issued id last rows) {g : α → α} (hg : ∀ a, id (g a) = id a) :
    Issued id last (rows.map g) := by
  refine ⟨?_, ?_⟩
  · rw [List.pairwise_map]
    simpa only [hg] using h.ascending
  · intro a ha
    obtain ⟨b, hb, rfl⟩ := List.mem_map.mp ha
    rw [hg]
    exact h.le_last b hb

/-- The next id may be issued to a new row. -/
theorem push (h : Issued id last rows) {a : α} (ha : id a = last + 1) :
    Issued id (last + 1) (rows ++ [a]) := by
  refine ⟨?_, ?_⟩
  · rw [List.pairwise_append]
    refine ⟨h.ascending, by simp, ?_⟩
    intro b hb a' ha'
    have := h.le_last b hb
    rw [List.mem_singleton.mp ha']
    omega
  · intro b hb
    rcases List.mem_append.mp hb with hb | hb
    · exact Int.le_add_one (h.le_last b hb)
    · exact Int.le_of_eq (List.mem_singleton.mp hb ▸ ha)

/-- The next ids in turn may be issued to new rows. -/
theorem append_mapIdx {β : Type} (h : Issued id last rows) (news : List β) (g : Nat → β → α)
    (hg : ∀ i n, id (g i n) = last + 1 + i) :
    Issued id (last + news.length) (rows ++ news.mapIdx g) := by
  refine ⟨?_, ?_⟩
  · rw [List.pairwise_append]
    refine ⟨h.ascending, ?_, ?_⟩
    · rw [List.pairwise_iff_getElem]
      intro i j hi hj hij
      simp only [List.getElem_mapIdx, hg]
      omega
    · intro a ha b hb
      obtain ⟨i, hi, rfl⟩ := List.mem_mapIdx.mp hb
      have := h.le_last a ha
      rw [hg]
      omega
  · intro a ha
    rcases List.mem_append.mp ha with ha | ha
    · have := h.le_last a ha
      omega
    · obtain ⟨i, hi, rfl⟩ := List.mem_mapIdx.mp ha
      rw [hg]
      omega

end Issued

/-! ## Targets, actions and logs of the store -/

/-- The key of the target that an action belongs to. -/
def Action.owner (a : Action) : String × String := (a.tenantId, a.controllerId)

namespace Store

variable {s : Store} {x c : String}

theorem mem_actionsOf {a : Action} :
    a ∈ s.actionsOf x c ↔ a ∈ s.actions ∧ a.owner = (x, c) := by
  simp [actionsOf, Action.owner]

theorem mem_activeOf {a : Action} :
    a ∈ s.activeOf x c ↔ a ∈ s.actionsOf x c ∧ a.active = true := by
  simp [activeOf]

theorem key_of_target? {t : Target} (h : s.target? x c = some t) : t.key = (x, c) := by
  simpa using List.find?_some h

theorem mem_of_target? {t : Target} (h : s.target? x c = some t) : t ∈ s.targets :=
  List.mem_of_find?_eq_some h

/-- The actions of a target, each with its log. -/
def historyOf (s : Store) (tenantId controllerId : String) : List (Action × List StatusEntry) :=
  (s.actionsOf tenantId controllerId).map fun a => (a, s.logOf a.id)

/-- Two stores give a target the same history if they hold the same actions of it with the same
logs. -/
theorem historyOf_eq_iff {s' : Store} :
    s'.historyOf x c = s.historyOf x c ↔
      s'.actionsOf x c = s.actionsOf x c ∧
        ∀ a ∈ s.actionsOf x c, s'.logOf a.id = s.logOf a.id := by
  constructor
  · intro h
    have ha : s'.actionsOf x c = s.actionsOf x c := by
      simpa [historyOf, List.map_map, Function.comp_def] using congrArg (List.map Prod.fst) h
    refine ⟨ha, ?_⟩
    rw [historyOf, historyOf, ha, List.map_inj_left] at h
    intro a hmem
    exact (Prod.mk.inj (h a hmem)).2
  · rintro ⟨ha, hl⟩
    rw [historyOf, historyOf, ha]
    apply List.map_congr_left
    intro a hmem
    rw [hl a hmem]

end Store

end FleetUpdate
