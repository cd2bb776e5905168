import FleetUpdate.Proofs.Store.Rows
import FleetUpdate.Vocabulary.CodeTable
import Mathlib.Order.Fin.Basic
import Mathlib.Order.WellFounded

/-!
# What a code table decodes

A code table is built value by value, and each value is compared with the entries that stand before
it.  Which values are refused is said here of the positions of the list alone: `Repeats` and
`FirstRepeat` know no table.

Two facts carry the result.  As long as no code is repeated, extending the entries of the values
before is the same as starting from the entries of all (`extend_append`).  The first repeated code
is then found at the entry of just the one value before that has it (`build_of_firstRepeat`).  Every
list has either no repeated code or a first one, so these are all the answers there are.
-/

namespace FleetUpdate.CodeTable

variable {α : Type}

/-! ## Repeated codes -/

section Positions

variable (codeOf : α → Int) (values : List α)

/-- The value at position `j` has the code of the one at the earlier position `i`. -/
def Repeats (i j : Fin values.length) : Prop :=
  i < j ∧ codeOf values[i] = codeOf values[j]

/-- Position `j` is the first whose code occurred before, and `i` is where it did. -/
structure FirstRepeat (i j : Fin values.length) : Prop where
  repeats : Repeats codeOf values i j
  first : ∀ i' j', Repeats codeOf values i' j' → j ≤ j'

variable {codeOf values}

theorem nodup_codes_iff :
    (values.map codeOf).Nodup ↔ ∀ i j, ¬ Repeats codeOf values i j := by
  rw [List.Nodup, List.pairwise_map, List.pairwise_iff_getElem]
  constructor
  · rintro h i j ⟨hlt, hcode⟩
    exact h i j i.2 j.2 hlt hcode
  · exact fun h i j hi hj hlt hcode => h ⟨i, hi⟩ ⟨j, hj⟩ ⟨hlt, hcode⟩

/-- No two positions have one code just if none has the code of an earlier one. -/
theorem injective_codes_iff :
    (Function.Injective fun i : Fin values.length => codeOf values[i]) ↔
      ∀ i j, ¬ Repeats codeOf values i j := by
  constructor
  · rintro h i j ⟨hlt, hcode⟩
    exact hlt.ne (h hcode)
  · intro h i j hcode
    rcases lt_trichotomy i j with hlt | heq | hgt
    · exact absurd ⟨hlt, hcode⟩ (h i j)
    · exact heq
    · exact absurd ⟨hgt, hcode.symm⟩ (h j i)

/-- Where some code is repeated, one is repeated first. -/
theorem exists_firstRepeat (h : ¬ ∀ i j, ¬ Repeats codeOf values i j) :
    ∃ i j, FirstRepeat codeOf values i j := by
  obtain ⟨i₀, j₀, h₀⟩ : ∃ i j, Repeats codeOf values i j := by simpa using h
  obtain ⟨j, ⟨i, hij⟩, hleast⟩ :=
    wellFounded_lt.has_min {j | ∃ i, Repeats codeOf values i j} ⟨j₀, i₀, h₀⟩
  exact ⟨i, j, hij, fun i' j' hrep => not_lt.mp (hleast j' ⟨i', hrep⟩)⟩

namespace FirstRepeat

variable {i j : Fin values.length}

/-- The codes before the first repeated one are distinct. -/
theorem nodup_take (h : FirstRepeat codeOf values i j) :
    ((values.take j).map codeOf).Nodup := by
  rw [nodup_codes_iff]
  rintro ⟨i', hi'⟩ ⟨j', hj'⟩ ⟨hlt, hcode⟩
  rw [List.length_take, Nat.lt_min] at hi' hj'
  have hle := h.first ⟨i', hi'.2⟩ ⟨j', hj'.2⟩ ⟨hlt, by simpa using hcode⟩
  exact absurd hj'.1 (not_lt.mpr hle)

theorem mem_take (h : FirstRepeat codeOf values i j) : values[i] ∈ values.take j :=
  List.mem_take_iff_getElem.mpr ⟨i, lt_min h.repeats.1 i.2, rfl⟩

/-- Only one earlier value has the code. -/
theorem eq_of_repeats (h : FirstRepeat codeOf values i j) {i' : Fin values.length}
    (h' : Repeats codeOf values i' j) : i' = i := by
  have hcode : codeOf values[i'] = codeOf values[i] := h'.2.trans h.repeats.2.symm
  rcases lt_trichotomy i' i with hlt | heq | hgt
  · exact absurd h.repeats.1 (not_lt.mpr (h.first i' i ⟨hlt, hcode⟩))
  · exact heq
  · exact absurd h'.1 (not_lt.mpr (h.first i i' ⟨hgt, hcode.symm⟩))

end FirstRepeat

end Positions

/-! ## Entries -/

variable {kind : String} {describe : α → String} {codeOf : α → Int} {values before vs : List α}

/-- The entries of the listed values, one for each. -/
def entriesOf (codeOf : α → Int) (values : List α) : List (Int × α) :=
  values.map fun v => (codeOf v, v)

theorem lookup_entriesOf (codeOf : α → Int) (values : List α) (c : Int) :
    (entriesOf codeOf values).lookup c = values.find? fun v => codeOf v == c := by
  induction values with
  | nil => rfl
  | cons v vs ih =>
    rw [show entriesOf codeOf (v :: vs) = (codeOf v, v) :: entriesOf codeOf vs from rfl,
      List.lookup_cons, List.find?_cons, BEq.comm (a := c), ih]

theorem lookup_entriesOf_eq_some_iff (h : (values.map codeOf).Nodup) {c : Int} {v : α} :
    (entriesOf codeOf values).lookup c = some v ↔ v ∈ values ∧ codeOf v = c := by
  rw [lookup_entriesOf, find?_key_eq_some_iff h]

theorem lookup_entriesOf_eq_none_iff {c : Int} :
    (entriesOf codeOf values).lookup c = none ↔ ∀ v ∈ values, codeOf v ≠ c := by
  rw [lookup_entriesOf, find?_key_eq_none_iff]

/-- Values without a repeated code are entered one after the other. -/
theorem extend_append (h : ((before ++ vs).map codeOf).Nodup) (ws : List α) :
    extend kind describe codeOf (entriesOf codeOf before) (vs ++ ws) =
      extend kind describe codeOf (entriesOf codeOf (before ++ vs)) ws := by
  induction vs generalizing before with
  | nil => rw [List.nil_append, List.append_nil]
  | cons v vs ih =>
    have hnew : (entriesOf codeOf before).lookup (codeOf v) = none := by
      rw [lookup_entriesOf_eq_none_iff]
      intro u hu hcode
      rw [List.map_append, List.map_cons, List.nodup_middle, List.nodup_cons] at h
      exact h.1 (List.mem_append_left _ (List.mem_map.mpr ⟨u, hu, hcode⟩))
    have hentries : entriesOf codeOf before ++ [(codeOf v, v)] = entriesOf codeOf (before ++ [v]) := by
      simp [entriesOf]
    have hsplit : before ++ v :: vs = (before ++ [v]) ++ vs := by simp
    rw [List.cons_append, extend, hnew, hsplit]
    show extend kind describe codeOf (entriesOf codeOf before ++ [(codeOf v, v)]) _ = _
    rw [hentries]
    exact ih (hsplit ▸ h)

/-! ## Building and decoding -/

/-- The table holds the listed values under their codes, and nothing else. -/
structure Inverts (t : CodeTable α) (kind : String) (codeOf : α → Int) (values : List α) :
    Prop where
  decode_ok : ∀ c v, t.decode c = .ok v ↔ v ∈ values ∧ codeOf v = c
  decode_error : ∀ c e, t.decode c = .error e ↔
    (∀ v ∈ values, codeOf v ≠ c) ∧ e = .unknownCode kind c
  size_eq : t.size = values.length

theorem inverts_entriesOf (h : (values.map codeOf).Nodup) :
    Inverts ⟨kind, entriesOf codeOf values⟩ kind codeOf values where
  decode_ok c v := by
    rw [← lookup_entriesOf_eq_some_iff h, decode]
    cases (entriesOf codeOf values).lookup c <;> simp
  decode_error c e := by
    rw [← lookup_entriesOf_eq_none_iff, decode]
    cases (entriesOf codeOf values).lookup c <;> simp [eq_comm]
  size_eq := List.length_map _

theorem build_of_nodup (h : (values.map codeOf).Nodup) :
    build kind describe values codeOf = .ok ⟨kind, entriesOf codeOf values⟩ := by
  have hrun : extend kind describe codeOf (entriesOf codeOf []) (values ++ []) =
      .ok ⟨kind, entriesOf codeOf values⟩ := extend_append h []
  rwa [List.append_nil] at hrun

/-- Building stops at the first repeated code, and names the value that has it already. -/
theorem build_of_firstRepeat {i j : Fin values.length} (h : FirstRepeat codeOf values i j) :
    build kind describe values codeOf = .error
      (.duplicateCode kind (codeOf values[j]) (describe values[i]) (describe values[j])) := by
  have hsplit : values.take j ++ values[j] :: values.drop (j + 1) = values := by simp
  have hfound : (entriesOf codeOf (values.take j)).lookup (codeOf values[j]) = some values[i] :=
    (lookup_entriesOf_eq_some_iff h.nodup_take).mpr ⟨h.mem_take, h.repeats.2⟩
  calc build kind describe values codeOf
      = extend kind describe codeOf (entriesOf codeOf [])
          (values.take j ++ values[j] :: values.drop (j + 1)) := by rw [hsplit]; rfl
    _ = extend kind describe codeOf (entriesOf codeOf (values.take j))
          (values[j] :: values.drop (j + 1)) := extend_append h.nodup_take _
    _ = _ := by rw [extend, hfound]

/-- For every list of values and every function that gives them codes: the table is built just if no
two positions of the list have one code.  A table that is built decodes a code as the listed value
that has it, knows no other code, and is as large as the list.  Otherwise the error names the first
position whose code occurred before, the only earlier one with this code, and the code. -/
theorem inverts_or_names_first_repeat (kind : String) (describe : α → String) (values : List α)
    (codeOf : α → Int) :
    ((∃ t, build kind describe values codeOf = .ok t) ↔
      Function.Injective fun i : Fin values.length => codeOf values[i]) ∧
    (∀ t, build kind describe values codeOf = .ok t → t.Inverts kind codeOf values) ∧
    ∀ e, build kind describe values codeOf = .error e ↔
      ∃ i j, FirstRepeat codeOf values i j ∧ (∀ i', Repeats codeOf values i' j → i' = i) ∧
        e = .duplicateCode kind (codeOf values[j]) (describe values[i]) (describe values[j]) := by
  rw [injective_codes_iff]
  by_cases hnone : ∀ i j, ¬ Repeats codeOf values i j
  · have hnodup := nodup_codes_iff.mpr hnone
    rw [build_of_nodup hnodup]
    refine ⟨⟨fun _ => hnone, fun _ => ⟨_, rfl⟩⟩, ?_, fun e => ⟨nofun, ?_⟩⟩
    · rintro t ⟨⟩
      exact inverts_entriesOf hnodup
    · rintro ⟨i, j, hfirst, -⟩
      exact absurd hfirst.repeats (hnone i j)
  · obtain ⟨i, j, hfirst⟩ := exists_firstRepeat hnone
    rw [build_of_firstRepeat hfirst]
    refine ⟨⟨nofun, fun h => absurd h hnone⟩, nofun, fun e => ⟨?_, ?_⟩⟩
    · rintro ⟨⟩
      exact ⟨i, j, hfirst, fun i' => hfirst.eq_of_repeats, rfl⟩
    · rintro ⟨i', j', hfirst', -, rfl⟩
      -- a list has one first repeat
      obtain rfl : j' = j := le_antisymm (hfirst'.first i j hfirst.repeats)
        (hfirst.first i' j' hfirst'.repeats)
      obtain rfl : i' = i := hfirst.eq_of_repeats hfirst'.repeats
      rfl

end FleetUpdate.CodeTable
