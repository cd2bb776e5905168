import FleetUpdate.Maintenance.Years
import FleetUpdate.Proofs.Maintenance.First
import FleetUpdate.Proofs.Text.Reading
import Mathlib.Data.List.Basic
import Mathlib.Tactic.Common

/-!
# The years of a year field

What a year field lists is told from its text: a star or a question mark lists every year, anything
else the years of its parts, each a year or a range of years.  Reading the field sorts the ranges
but neither merges them nor checks them against each other, so they may overlap.  Order alone is
what the search for the next year needs: the first range that ends late enough holds the first
listed year, or begins with it (`Years.IsSound.nextFrom_isFirst`).
-/

namespace FleetUpdate

section Except

variable {α β ε : Type}

theorem bind_eq_ok_iff {x : Except ε α} {f : α → Except ε β} {b : β} :
    (x >>= f) = .ok b ↔ ∃ a, x = .ok a ∧ f a = .ok b := by
  cases x <;> simp [bind, Except.bind]

/-- A list is read when each of its elements is. -/
theorem mapM_eq_ok_iff {f : α → Except ε β} {as : List α} {bs : List β} :
    as.mapM f = .ok bs ↔ as.map f = bs.map .ok := by
  induction as generalizing bs with
  | nil => simp [pure, Except.pure, eq_comm]
  | cons a as ih =>
    rw [List.mapM_cons, List.map_cons, bind_eq_ok_iff, eq_comm (b := bs.map _),
      List.map_eq_cons_iff]
    constructor
    · rintro ⟨b, hb, hrest⟩
      obtain ⟨bs', hbs', heq⟩ := bind_eq_ok_iff.mp hrest
      cases heq
      exact ⟨b, bs', rfl, hb.symm, (ih.mp hbs').symm⟩
    · rintro ⟨b, bs', rfl, hb, hbs'⟩
      exact ⟨b, hb.symm, bind_eq_ok_iff.mpr ⟨bs', ih.mpr hbs'.symm, rfl⟩⟩

end Except

namespace Maintenance

open Text

/-! ## Parts of a field -/

/-- The part names the years from `a` to `b`: a year alone, or two years with a dash between. -/
def Names (part : List Char) (a b : Nat) : Prop :=
  (natural? part = some a ∧ a = b) ∨
    ∃ first last, part = first ++ '-' :: last ∧ natural? first = some a ∧ natural? last = some b

/-- The field lists the year. -/
def Lists (field : List Char) (y : Int) : Prop :=
  field = ['*'] ∨ field = ['?'] ∨
    ∃ part ∈ pieces (· == ',') field, ∃ a b : Nat, Names part a b ∧ ↑a ≤ y ∧ y ≤ ↑b

section Names

variable {part : List Char} {a b : Nat}

/-- A numeral holds no dash, so the first dash of a part is the one between its years. -/
theorem dash_notMem_of_natural? (h : natural? part = some a) : '-' ∉ part :=
  (natural?_eq_some_iff_numeral.mp h).notMem rfl

theorem names_iff_of_cutAt_none (hcut : cutAt '-' part = none) :
    Names part a b ↔ natural? part = some a ∧ a = b := by
  refine ⟨fun h => ?_, Or.inl⟩
  rcases h with h | ⟨first, last, rfl, hfirst, -⟩
  · exact h
  · rw [cutAt_append (dash_notMem_of_natural? hfirst)] at hcut
    cases hcut

theorem names_iff_of_cutAt_some {first last : List Char}
    (hcut : cutAt '-' part = some (first, last)) :
    Names part a b ↔ natural? first = some a ∧ natural? last = some b := by
  refine ⟨fun h => ?_, fun h => Or.inr ⟨first, last, eq_append_of_cutAt hcut, h⟩⟩
  rcases h with ⟨h, -⟩ | ⟨first', last', rfl, hfirst, hlast⟩
  · rw [cutAt_eq_none (dash_notMem_of_natural? h)] at hcut
    cases hcut
  · rw [cutAt_append (dash_notMem_of_natural? hfirst)] at hcut
    cases hcut
    exact ⟨hfirst, hlast⟩

/-- A part names one range only. -/
theorem Names.unique {a' b' : Nat} (h : Names part a b) (h' : Names part a' b') :
    a = a' ∧ b = b' := by
  cases hcut : cutAt '-' part with
  | none =>
    rw [names_iff_of_cutAt_none hcut] at h h'
    obtain ⟨h, rfl⟩ := h
    obtain ⟨h', rfl⟩ := h'
    have heq : some a = some a' := h.symm.trans h'
    exact ⟨Option.some.inj heq, Option.some.inj heq⟩
  | some p =>
    rw [names_iff_of_cutAt_some hcut] at h h'
    exact ⟨Option.some.inj (h.1.symm.trans h'.1), Option.some.inj (h.2.symm.trans h'.2)⟩

end Names

namespace Years

theorem parseYear_eq_ok_iff {cs : List Char} {y : Int} :
    parseYear cs = .ok y ↔
      ∃ n : Nat, natural? cs = some n ∧ lowest ≤ n ∧ n ≤ highest ∧ y = n := by
  unfold parseYear
  constructor
  · intro h
    split at h
    · cases h
    · rename_i n hn
      split at h
      · rename_i hbounds
        cases h
        exact ⟨n, (Option.filter_eq_some_iff.mp hn).1, hbounds.1, hbounds.2, rfl⟩
      · cases h
  · rintro ⟨n, hn, hlow, hhigh, rfl⟩
    have hlargest : highest ≤ largest := by decide
    have hfilter : (natural? cs).filter (· ≤ largest) = some n :=
      Option.filter_eq_some_iff.mpr ⟨hn, decide_eq_true (hhigh.trans hlargest)⟩
    rw [hfilter]
    dsimp only
    rw [if_pos ⟨hlow, hhigh⟩]

/-- Exactly the parts that name years within the bounds, and in order, are read. -/
theorem parseRange_eq_ok_iff {part : List Char} {r : Int × Int} :
    parseRange part = .ok r ↔
      ∃ a b : Nat, Names part a b ∧ lowest ≤ a ∧ a ≤ b ∧ b ≤ highest ∧ r = (↑a, ↑b) := by
  unfold parseRange
  cases hcut : cutAt '-' part with
  | none =>
    simp only [names_iff_of_cutAt_none hcut]
    constructor
    · intro h
      obtain ⟨y, hy, h⟩ := bind_eq_ok_iff.mp h
      obtain ⟨a, ha, hlow, hhigh, rfl⟩ := parseYear_eq_ok_iff.mp hy
      cases h
      exact ⟨a, a, ⟨ha, rfl⟩, hlow, le_rfl, hhigh, rfl⟩
    · rintro ⟨a, b, ⟨ha, rfl⟩, hlow, -, hhigh, rfl⟩
      exact bind_eq_ok_iff.mpr ⟨a, parseYear_eq_ok_iff.mpr ⟨a, ha, hlow, hhigh, rfl⟩, rfl⟩
  | some p =>
    simp only [names_iff_of_cutAt_some hcut]
    constructor
    · intro h
      obtain ⟨y, hy, h⟩ := bind_eq_ok_iff.mp h
      obtain ⟨z, hz, h⟩ := bind_eq_ok_iff.mp h
      obtain ⟨a, ha, hlow, -, rfl⟩ := parseYear_eq_ok_iff.mp hy
      obtain ⟨b, hb, -, hhigh, rfl⟩ := parseYear_eq_ok_iff.mp hz
      split at h
      · cases h
      · cases h
        exact ⟨a, b, ⟨ha, hb⟩, hlow, by omega, hhigh, rfl⟩
    · rintro ⟨a, b, ⟨ha, hb⟩, hlow, hab, hhigh, rfl⟩
      have hy := parseYear_eq_ok_iff.mpr ⟨a, ha, hlow, hab.trans hhigh, rfl⟩
      have hz := parseYear_eq_ok_iff.mpr ⟨b, hb, hlow.trans hab, hhigh, rfl⟩
      refine bind_eq_ok_iff.mpr ⟨a, hy, bind_eq_ok_iff.mpr ⟨b, hz, ?_⟩⟩
      rw [if_neg (by omega)]

/-! ## Fields -/

/-- A field that is read is a star, or its parts are read one by one and sorted. -/
theorem parse_cases {field : List Char} {ys : Years} (h : parse field = .ok ys) :
    ((field = ['*'] ∨ field = ['?']) ∧ ys = any) ∨
      ∃ rs : List (Int × Int), ¬ (field = ['*'] ∨ field = ['?']) ∧
        (pieces (· == ',') field).map parseRange = rs.map .ok ∧
        ys = ranges (rs.mergeSort rangeLe) := by
  unfold parse at h
  split at h
  · rename_i hstar
    cases h
    exact Or.inl ⟨hstar, rfl⟩
  · rename_i hstar
    obtain ⟨rs, hrs, h⟩ := bind_eq_ok_iff.mp h
    cases h
    exact Or.inr ⟨rs, hstar, mapM_eq_ok_iff.mp hrs, rfl⟩

/-- Every list of years and ranges within the bounds is read, in whatever order they come. -/
theorem exists_parse_eq_ok_iff {field : List Char} :
    (∃ ys, parse field = .ok ys) ↔ field = ['*'] ∨ field = ['?'] ∨
      ∀ part ∈ pieces (· == ',') field, ∃ a b,
        Names part a b ∧ lowest ≤ a ∧ a ≤ b ∧ b ≤ highest := by
  rw [← or_assoc]
  constructor
  · rintro ⟨ys, h⟩
    refine (parse_cases h).imp And.left ?_
    rintro ⟨rs, -, hrs, -⟩ part hpart
    have hmem : parseRange part ∈ rs.map Except.ok := hrs ▸ List.mem_map_of_mem hpart
    obtain ⟨r, -, hread⟩ := List.mem_map.mp hmem
    obtain ⟨a, b, hnames, hlow, hab, hhigh, -⟩ := parseRange_eq_ok_iff.mp hread.symm
    exact ⟨a, b, hnames, hlow, hab, hhigh⟩
  · intro h
    unfold parse
    split
    · exact ⟨_, rfl⟩
    · rename_i hstar
      have hread : ∀ part ∈ pieces (· == ',') field, ∃ r, parseRange part = .ok r := by
        intro part hpart
        obtain ⟨a, b, hnames, hbounds⟩ := h.resolve_left hstar part hpart
        exact ⟨(↑a, ↑b), parseRange_eq_ok_iff.mpr
          ⟨a, b, hnames, hbounds.1, hbounds.2.1, hbounds.2.2, rfl⟩⟩
      choose! f hf using hread
      refine ⟨_, bind_eq_ok_iff.mpr ⟨(pieces (· == ',') field).map f, ?_, rfl⟩⟩
      rw [mapM_eq_ok_iff, List.map_map]
      exact List.map_congr_left hf

theorem allows_ranges_iff {rs : List (Int × Int)} {y : Int} :
    (ranges rs).allows y = true ↔ ∃ r ∈ rs, r.1 ≤ y ∧ y ≤ r.2 := by
  simp [allows]

/-- The years that are allowed are those that the field lists. -/
theorem allows_iff_lists {field : List Char} {ys : Years} (h : parse field = .ok ys) (y : Int) :
    ys.allows y = true ↔ Lists field y := by
  rcases parse_cases h with ⟨hstar, rfl⟩ | ⟨rs, hstar, hrs, rfl⟩
  · rw [Lists, ← or_assoc]
    exact ⟨fun _ => Or.inl hstar, fun _ => rfl⟩
  · rw [allows_ranges_iff, Lists, ← or_assoc, or_iff_right hstar]
    constructor
    · rintro ⟨r, hr, hy⟩
      have hmem : Except.ok r ∈ (pieces (· == ',') field).map parseRange :=
        hrs ▸ List.mem_map_of_mem (List.mem_mergeSort.mp hr)
      obtain ⟨part, hpart, hread⟩ := List.mem_map.mp hmem
      obtain ⟨a, b, hnames, -, -, -, rfl⟩ := parseRange_eq_ok_iff.mp hread
      exact ⟨part, hpart, a, b, hnames, hy⟩
    · rintro ⟨part, hpart, a, b, hnames, hy⟩
      have hmem : parseRange part ∈ rs.map Except.ok := hrs ▸ List.mem_map_of_mem hpart
      obtain ⟨r, hr, hread⟩ := List.mem_map.mp hmem
      obtain ⟨a', b', hnames', -, -, -, rfl⟩ := parseRange_eq_ok_iff.mp hread.symm
      obtain ⟨rfl, rfl⟩ := hnames.unique hnames'
      exact ⟨_, List.mem_mergeSort.mpr hr, hy⟩

/-- The ranges begin one after the other, each has its years in order, and all of them lie within
the bounds. -/
def IsSound : Years → Prop
  | any => True
  | ranges rs => rs.Pairwise (fun p q => p.1 ≤ q.1) ∧
      ∀ r ∈ rs, ↑lowest ≤ r.1 ∧ r.1 ≤ r.2 ∧ r.2 ≤ ↑highest

theorem isSound_of_parse {field : List Char} {ys : Years} (h : parse field = .ok ys) :
    ys.IsSound := by
  rcases parse_cases h with ⟨-, rfl⟩ | ⟨rs, -, hrs, rfl⟩
  · trivial
  · constructor
    · refine (List.pairwise_mergeSort ?_ ?_ rs).imp ?_
      · intro p q r
        simp only [rangeLe, Bool.or_eq_true, Bool.and_eq_true, decide_eq_true_eq]
        omega
      · intro p q
        simp only [rangeLe, Bool.or_eq_true, Bool.and_eq_true, decide_eq_true_eq]
        omega
      · intro p q
        simp only [rangeLe, Bool.or_eq_true, Bool.and_eq_true, decide_eq_true_eq]
        omega
    · intro r hr
      have hmem : Except.ok r ∈ (pieces (· == ',') field).map parseRange :=
        hrs ▸ List.mem_map_of_mem (List.mem_mergeSort.mp hr)
      obtain ⟨part, -, hread⟩ := List.mem_map.mp hmem
      obtain ⟨a, b, -, hlow, hab, hhigh, rfl⟩ := parseRange_eq_ok_iff.mp hread
      exact ⟨Int.ofNat_le.mpr hlow, Int.ofNat_le.mpr hab, Int.ofNat_le.mpr hhigh⟩

/-- The next allowed year is the first one that is allowed. -/
theorem IsSound.nextFrom_isFirst {ys : Years} (h : ys.IsSound) (y : Int) :
    IsFirst {z | y ≤ z ∧ ys.allows z = true} (ys.nextFrom y) := by
  cases ys with
  | any => exact .found ⟨⟨le_rfl, rfl⟩, fun z hz => hz.1⟩
  | ranges rs =>
    obtain ⟨hsorted, hrange⟩ := h
    change IsFirst _ ((rs.find? fun r => decide (y ≤ r.2)).map fun r => max r.1 y)
    cases hfind : rs.find? fun r => decide (y ≤ r.2) with
    | none =>
      refine .nothing fun z hz => ?_
      obtain ⟨r, hr, -, hle⟩ := allows_ranges_iff.mp hz.2
      exact List.find?_eq_none.mp hfind r hr (decide_eq_true (hz.1.trans hle))
    | some r =>
      obtain ⟨hlate, before, after, rfl, hbefore⟩ := List.find?_eq_some_iff_append.mp hfind
      have hr := hrange r (by simp)
      have hlate : y ≤ r.2 := of_decide_eq_true hlate
      refine .found ⟨⟨le_max_right _ _,
        allows_ranges_iff.mpr ⟨r, by simp, le_max_left _ _, ?_⟩⟩, ?_⟩
      · exact max_le hr.2.1 hlate
      · -- a range that holds a later year ends late enough, so it does not stand before `r`
        intro z hz
        obtain ⟨r', hr', hfirst, hlast⟩ := allows_ranges_iff.mp hz.2
        refine max_le ?_ hz.1
        rcases List.mem_append.mp hr' with hr' | hr'
        · have hearly := hbefore r' hr'
          simp [hz.1.trans hlast] at hearly
        · rcases List.mem_cons.mp hr' with rfl | hr'
          · exact hfirst
          · have hpair := (List.pairwise_cons.mp (List.pairwise_append.mp hsorted).2.1).1 r' hr'
            exact hpair.trans hfirst

/-- A year that is allowed after one that is not is a year within the bounds. -/
theorem IsSound.bounds_of_allows {ys : Years} (h : ys.IsSound) {y z : Int}
    (hy : ys.allows y = false) (hz : ys.allows z = true) : ↑lowest ≤ z ∧ z ≤ ↑highest := by
  cases ys with
  | any => cases hy
  | ranges rs =>
    obtain ⟨r, hr, hfirst, hlast⟩ := allows_ranges_iff.mp hz
    have hrange := h.2 r hr
    omega

end Years

end Maintenance

end FleetUpdate
