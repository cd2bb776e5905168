import Mathlib.Order.Bounds.Image
import Mathlib.Data.Set.Lattice

/-!
# First elements

A search through an ordered set answers with the first element, or with nothing because there is
none.  `IsFirst` is what such an answer has to be.  A long search is made of shorter ones: one set
after another (`IsFirst.or`), a set for each element of an outer one (`IsFirst.bind`), another scale
(`IsFirst.map`).  A search that looks at a part of the set only still finds the first element of the
whole if nothing outside the part comes before all of the part (`IsFirst.of_subset`).

`IsFirstBelow` is the same for a search that may give up at a limit: what it finds is the first
element wherever that stands, but finding nothing says nothing about the elements from the limit on.

`FindsFirst` is what a search promises that can be started anywhere.  Nothing else is used of the
search for the matches of a cron pattern, so that what is built upon it can be built upon any other
search as well.
-/

namespace FleetUpdate

variable {α β : Type}

/-- The answer of a search: the first element of the set, or nothing because the set is empty. -/
inductive IsFirst [LE α] (S : Set α) : Option α → Prop
  | found {a : α} : IsLeast S a → IsFirst S (some a)
  | nothing : (∀ a, a ∉ S) → IsFirst S none

/-- The answer of a search that may give up: the first element of the set, or nothing because no
element is below the limit. -/
inductive IsFirstBelow [LE α] (limit : α) (S : Set α) : Option α → Prop
  | found {a : α} : IsLeast S a → IsFirstBelow limit S (some a)
  | nothing : (∀ a ∈ S, limit ≤ a) → IsFirstBelow limit S none

/-- A search for elements of the set that starts at a given place.  What it finds is the first one
from there on; from before the limit it finds what there is up to its reach; and where it starts at
an element it finds this one. -/
structure FindsFirst [LE α] [LT α] (S : Set α) (limit reach : α) (next : α → Option α) : Prop where
  sound : ∀ {c a}, next c = some a → IsLeast {b | c ≤ b ∧ b ∈ S} a
  complete : ∀ {c}, c < limit → IsFirst {b | (c ≤ b ∧ b ∈ S) ∧ b < reach} (next c)
  self : ∀ {c}, c ∈ S → next c = some c

namespace IsFirst

theorem isLeast [LE α] {S : Set α} {a : α} : IsFirst S (some a) → IsLeast S a
  | found h => h

theorem congr [LE α] {S T : Set α} {o : Option α} (h : IsFirst S o) (hST : ∀ a, a ∈ S ↔ a ∈ T) :
    IsFirst T o :=
  Set.ext hST ▸ h

/-- What there is to find is found. -/
theorem exists_of_mem [LE α] {S : Set α} {o : Option α} (h : IsFirst S o) {a : α} (ha : a ∈ S) :
    ∃ b, o = some b ∧ IsLeast S b := by
  cases h with
  | found h => exact ⟨_, rfl, h⟩
  | nothing h => exact absurd ha (h a)

theorem eq_none_iff [LE α] {S : Set α} {o : Option α} (h : IsFirst S o) :
    o = none ↔ ∀ a, a ∉ S := by
  cases h with
  | found h =>
    exact ⟨fun hnone => absurd hnone (Option.some_ne_none _), fun hS => absurd h.1 (hS _)⟩
  | nothing h => exact ⟨fun _ => h, fun _ => rfl⟩

/-- There is at most one right answer. -/
theorem eq_some [PartialOrder α] {S : Set α} {o : Option α} (h : IsFirst S o) {a : α}
    (ha : IsLeast S a) : o = some a := by
  obtain ⟨b, rfl, hb⟩ := h.exists_of_mem ha.1
  rw [hb.unique ha]

theorem map [Preorder α] [Preorder β] {S : Set α} {o : Option α} (h : IsFirst S o) {f : α → β}
    (hf : Monotone f) : IsFirst (f '' S) (o.map f) := by
  cases h with
  | found h => exact .found (hf.map_isLeast h)
  | nothing h => exact .nothing fun _ ⟨a, ha, _⟩ => h a ha

/-- Of two sets, one after the other, the second is searched only if the first is empty. -/
theorem or [LE α] {S T : Set α} {o o' : Option α} (h : IsFirst S o) (h' : IsFirst T o')
    (hST : ∀ a ∈ S, ∀ b ∈ T, a ≤ b) : IsFirst (S ∪ T) (o.or o') := by
  cases h with
  | found h =>
    refine .found ⟨Or.inl h.1, fun b hb => ?_⟩
    rcases hb with hb | hb
    · exact h.2 hb
    · exact hST _ h.1 b hb
  | nothing h => exact h'.congr fun a => (or_iff_right (h a)).symm

/-- A set for each element of an outer one, in the same order: it is enough to search the set of the
first, provided that the sets are empty only together. -/
theorem bind [PartialOrder α] [LE β] {S : Set α} {T : α → Set β} {o : Option α} {f : α → Option β}
    (h : IsFirst S o) (hf : ∀ a ∈ S, IsFirst (T a) (f a))
    (hmono : ∀ a ∈ S, ∀ b ∈ S, a < b → ∀ x ∈ T a, ∀ y ∈ T b, x ≤ y)
    (hsame : ∀ a ∈ S, ∀ b ∈ S, (T b).Nonempty → (T a).Nonempty) :
    IsFirst (⋃ a ∈ S, T a) (o.bind f) := by
  cases h with
  | nothing h =>
    refine .nothing fun y hy => ?_
    obtain ⟨a, ha, -⟩ := Set.mem_iUnion₂.mp hy
    exact h a ha
  | @found a h =>
    change IsFirst _ (f a)
    have hfa := hf a h.1
    cases hx : f a with
    | some x =>
      rw [hx] at hfa
      refine .found ⟨Set.mem_biUnion h.1 hfa.isLeast.1, fun y hy => ?_⟩
      obtain ⟨b, hb, hy⟩ := Set.mem_iUnion₂.mp hy
      rcases (h.2 hb).eq_or_lt with rfl | hlt
      · exact hfa.isLeast.2 hy
      · exact hmono a h.1 b hb hlt x hfa.isLeast.1 y hy
    | none =>
      refine .nothing fun y hy => ?_
      obtain ⟨b, hb, hy⟩ := Set.mem_iUnion₂.mp hy
      obtain ⟨x, hxa⟩ := hsame a h.1 b hb ⟨y, hy⟩
      exact hfa.eq_none_iff.mp hx x hxa

/-- The part holds something from before each element of the whole, so the search may keep to it. -/
theorem of_subset [Preorder α] {S T : Set α} {o : Option α} (h : IsFirst S o) (hST : S ⊆ T)
    (hbefore : ∀ b ∈ T, ∃ a ∈ S, a ≤ b) : IsFirst T o := by
  cases h with
  | found h =>
    refine .found ⟨hST h.1, fun b hb => ?_⟩
    obtain ⟨c, hc, hcb⟩ := hbefore b hb
    exact (h.2 hc).trans hcb
  | nothing h =>
    refine .nothing fun b hb => ?_
    obtain ⟨c, hc, -⟩ := hbefore b hb
    exact h c hc

end IsFirst

namespace IsFirstBelow

theorem congr [LE α] {limit : α} {S T : Set α} {o : Option α} (h : IsFirstBelow limit S o)
    (hST : ∀ a, a ∈ S ↔ a ∈ T) : IsFirstBelow limit T o :=
  Set.ext hST ▸ h

theorem map [Preorder α] [Preorder β] {limit : α} {S : Set α} {o : Option α}
    (h : IsFirstBelow limit S o) {f : α → β} (hf : Monotone f) :
    IsFirstBelow (f limit) (f '' S) (o.map f) := by
  cases h with
  | found h => exact .found (hf.map_isLeast h)
  | nothing h =>
    refine .nothing ?_
    rintro _ ⟨a, ha, rfl⟩
    exact hf (h a ha)

end IsFirstBelow

/-- If nothing is found there is nothing before the limit. -/
theorem FindsFirst.isFirstBelow [LinearOrder α] {S : Set α} {limit reach : α}
    {next : α → Option α} (h : FindsFirst S limit reach next) (hreach : limit ≤ reach) (c : α) :
    IsFirstBelow limit {b | c ≤ b ∧ b ∈ S} (next c) := by
  cases hnext : next c with
  | some a => exact .found (h.sound hnext)
  | none =>
    refine .nothing fun b hb => ?_
    -- an element before the limit would mean that the search starts before it too
    by_contra hlt
    rw [not_le] at hlt
    exact (h.complete (hb.1.trans_lt hlt)).eq_none_iff.mp hnext b ⟨hb, hlt.trans_le hreach⟩

end FleetUpdate
