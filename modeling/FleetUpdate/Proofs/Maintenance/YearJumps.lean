import FleetUpdate.Maintenance.Schedule
import FleetUpdate.Proofs.Maintenance.Cycle
import FleetUpdate.Proofs.Maintenance.YearField

/-!
# The search for an opening through the years

A schedule opens its windows at the matches of its pattern in allowed years.  The search takes the
next match; in a year that is not allowed it jumps to the start of the next allowed one.
`Years.Search` is that search without a bound on the jumps, one rule for each way a round can go.
Of the search for matches nothing is used but that what it finds is the first one.  Then no jump
passes over a match in an allowed year (`JumpsTo.allowed_eq`), so the search through the years finds
the first of them wherever the other one finds the first match (`Search.isFirst`), and it promises
for them whatever the other one promises for matches (`search_findsFirst`).

Each jump goes to a later year and none beyond the last year of the field, so that the bound is far
from being reached: the bounded search comes to its end by a rule of the unbounded one
(`Search.of_enough`).
-/

namespace FleetUpdate

open Calendar Cron Maintenance

namespace Maintenance.Years

variable {years : Years} {S : Set Int} {next : Int → Option Int} {c t y : Int} {r : Option Int}

/-! ## Seconds and years -/

/-- A year has begun by a second if the second is in that year or a later one. -/
theorem yearStart_seconds_le_iff {u : Int} :
    yearStart y * daySeconds ≤ u ↔ y ≤ yearOf (dayOf u) := by
  rw [← yearStart_le_iff]
  unfold dayOf daySeconds
  omega

@[simp] theorem dayOf_seconds (d : Int) : dayOf (d * daySeconds) = d := by
  unfold dayOf daySeconds
  omega

theorem yearOf_dayOf_mono {u : Int} (h : t ≤ u) : yearOf (dayOf t) ≤ yearOf (dayOf u) :=
  yearStart_seconds_le_iff.mp ((yearStart_seconds_le_iff.mpr le_rfl).trans h)

/-- The seconds of a set that lie in an allowed year. -/
def allowed (years : Years) (S : Set Int) : Set Int :=
  {u | u ∈ S ∧ years.allows (yearOf (dayOf u)) = true}

/-! ## Jumps -/

/-- From `c` on, the next match is in a year that is not allowed, and `y` is the next one that
is. -/
def JumpsTo (years : Years) (next : Int → Option Int) (c y : Int) : Prop :=
  ∃ t, next c = some t ∧ years.allows (yearOf (dayOf t)) = false ∧
    years.nextFrom (yearOf (dayOf t)) = some y

/-- The search without a bound from a second on, with as many jumps as it takes. -/
inductive Search (years : Years) (next : Int → Option Int) : (c : Int) → (answer : Option Int) →
    Prop
  | noMatch {c : Int} : next c = none → Search years next c none
  | found {c t : Int} : next c = some t → years.allows (yearOf (dayOf t)) = true →
      Search years next c (some t)
  | noYear {c t : Int} : next c = some t → years.allows (yearOf (dayOf t)) = false →
      years.nextFrom (yearOf (dayOf t)) = none → Search years next c none
  | jump {c y : Int} {answer : Option Int} : years.JumpsTo next c y →
      Search years next (yearStart y * daySeconds) answer → Search years next c answer

/-- One round of the bounded search. -/
theorem Search.of_jumps {n : Nat} (h : ∀ y, years.JumpsTo next c y →
      years.Search next (yearStart y * daySeconds)
        (years.search next n (yearStart y * daySeconds))) :
    years.Search next c (years.search next (n + 1) c) := by
  unfold Years.search
  split
  · rename_i hnext
    exact .noMatch hnext
  · rename_i t hnext
    dsimp only
    split
    · rename_i hallows
      exact .found hnext hallows
    · rename_i hnot
      have hnot := Bool.eq_false_iff.mpr hnot
      split
      · rename_i hyear
        exact .noYear hnext hnot hyear
      · rename_i y hyear
        have hjump : years.JumpsTo next c y := ⟨t, hnext, hnot, hyear⟩
        exact .jump hjump (h y hjump)

section

variable (hs : years.IsSound)
  (hnext : ∀ {c t}, next c = some t → IsLeast {u | c ≤ u ∧ u ∈ S} t)

include hs hnext

/-- A jump goes to a later year, and to one that the field lists. -/
theorem JumpsTo.bounds (h : years.JumpsTo next c y) :
    yearOf (dayOf c) < y ∧ ↑lowest ≤ y ∧ y ≤ ↑highest := by
  obtain ⟨t, hfound, hnot, hyear⟩ := h
  have hfirst := hs.nextFrom_isFirst (yearOf (dayOf t))
  rw [hyear] at hfirst
  have hfirst := hfirst.isLeast
  refine ⟨?_, hs.bounds_of_allows hnot hfirst.1.2⟩
  have hle := yearOf_dayOf_mono (hnext hfound).1.1
  have hne : yearOf (dayOf t) ≠ y := by
    rintro rfl
    have hallows := hfirst.1.2
    rw [hnot] at hallows
    cases hallows
  exact hle.trans_lt (lt_of_le_of_ne hfirst.1.1 hne)

/-- No match in an allowed year is passed over. -/
theorem JumpsTo.allowed_eq (h : years.JumpsTo next c y) :
    {u | yearStart y * daySeconds ≤ u ∧ u ∈ years.allowed S} =
      {u | c ≤ u ∧ u ∈ years.allowed S} := by
  have hlater := (h.bounds hs hnext).1
  obtain ⟨t, hfound, -, hyear⟩ := h
  have hfirst := hs.nextFrom_isFirst (yearOf (dayOf t))
  rw [hyear] at hfirst
  ext u
  constructor
  · rintro ⟨hle, hu⟩
    exact ⟨(not_le.mp fun h => hlater.not_ge (yearStart_seconds_le_iff.mp h)).le.trans hle, hu⟩
  · rintro ⟨hle, hu⟩
    have htu : t ≤ u := (hnext hfound).2 ⟨hle, hu.1⟩
    exact ⟨yearStart_seconds_le_iff.mpr (hfirst.isLeast.2 ⟨yearOf_dayOf_mono htu, hu.2⟩), hu⟩

/-- From the start of a year on, as many rounds are enough as there are years left. -/
theorem Search.of_years {n : Nat} (hy : ↑highest ≤ y + n) :
    years.Search next (yearStart y * daySeconds)
      (years.search next (n + 1) (yearStart y * daySeconds)) := by
  induction n generalizing y with
  | zero =>
    refine .of_jumps fun z hz => ?_
    have hbounds := hz.bounds hs hnext
    rw [dayOf_seconds, yearOf_yearStart] at hbounds
    omega
  | succ n ih =>
    refine .of_jumps fun z hz => ih ?_
    have hbounds := hz.bounds hs hnext
    rw [dayOf_seconds, yearOf_yearStart] at hbounds
    omega

/-- With at least as many jumps as there are years to be listed the bound never ends the search. -/
theorem Search.of_enough {n : Nat} (hn : highest ≤ lowest + n) (c : Int) :
    years.Search next c (years.search next (n + 2) c) := by
  -- the first jump goes to 1970 or later, and from there on each takes at least one year
  refine .of_jumps fun y hy => .of_years hs hnext ?_
  have hlow := (hy.bounds hs hnext).2.1
  omega

/-! ## What the search finds -/

/-- The search finds the first match in an allowed year within reach, if the search for matches
finds the first one within reach, from `c` and from the starts of the years that it may jump to. -/
theorem Search.isFirst {Q : Int → Prop} (h : years.Search next c r)
    (hfind : IsFirst {u | (c ≤ u ∧ u ∈ S) ∧ Q u} (next c))
    (hlater : ∀ y ≤ ↑highest, IsFirst {u | (yearStart y * daySeconds ≤ u ∧ u ∈ S) ∧ Q u}
      (next (yearStart y * daySeconds))) :
    IsFirst {u | u ∈ {u | c ≤ u ∧ u ∈ years.allowed S} ∧ Q u} r := by
  -- by the rounds of the search; a jump leaves the set as it is
  induction h with
  | noMatch hnone =>
    refine .nothing fun u hu => ?_
    exact hfind.eq_none_iff.mp hnone u ⟨⟨hu.1.1, hu.1.2.1⟩, hu.2⟩
  | found hfound hallows =>
    rw [hfound] at hfind
    have hfind := hfind.isLeast
    refine .found ⟨⟨⟨hfind.1.1.1, hfind.1.1.2, hallows⟩, hfind.1.2⟩, fun u hu => ?_⟩
    exact hfind.2 ⟨⟨hu.1.1, hu.1.2.1⟩, hu.2⟩
  | noYear hfound hnot hyear =>
    rw [hfound] at hfind
    refine .nothing fun u hu => ?_
    obtain ⟨⟨hle, hmatch, hallows⟩, hQ⟩ := hu
    have hlater := yearOf_dayOf_mono (hfind.isLeast.2 ⟨⟨hle, hmatch⟩, hQ⟩)
    exact (hs.nextFrom_isFirst _).eq_none_iff.mp hyear _ ⟨hlater, hallows⟩
  | jump hjump _ ih =>
    rw [← hjump.allowed_eq hs hnext]
    exact ih (hlater _ (hjump.bounds hs hnext).2.2)

/-- What the search finds is the first match in an allowed year. -/
theorem Search.isLeast (h : years.Search next c r) (hr : r = some t) :
    IsLeast {u | c ≤ u ∧ u ∈ years.allowed S} t := by
  induction h with
  | noMatch => cases hr
  | noYear => cases hr
  | found hfound hallows =>
    cases hr
    have hleast := hnext hfound
    exact ⟨⟨hleast.1.1, hleast.1.2, hallows⟩, fun u hu => hleast.2 ⟨hu.1, hu.2.1⟩⟩
  | jump hjump _ ih =>
    rw [← hjump.allowed_eq hs hnext]
    exact ih hr

end

/-- A match in an allowed year is found at once. -/
theorem search_eq_of_allows (hfound : next c = some c)
    (hallows : years.allows (yearOf (dayOf c)) = true) (n : Nat) :
    years.search next (n + 1) c = some c := by
  unfold Years.search
  rw [hfound]
  dsimp only
  rw [if_pos hallows]

/-- Through the years a search for matches becomes a search for those in allowed years that promises
the same, if it gets as far as the years of the field. -/
theorem search_findsFirst {limit reach : Int} {n : Nat} (hs : years.IsSound)
    (h : FindsFirst S limit reach next) (hlimit : yearStart highest * daySeconds < limit)
    (hn : highest ≤ lowest + n) :
    FindsFirst (years.allowed S) limit reach (years.search next (n + 2)) where
  sound {c t} hfound := (Search.of_enough hs h.sound hn c).isLeast hs h.sound hfound
  complete {c} hc := by
    refine (Search.of_enough hs h.sound hn c).isFirst hs h.sound (h.complete hc) fun y hy => ?_
    refine h.complete (lt_of_le_of_lt ?_ hlimit)
    exact yearStart_seconds_le_iff.mpr (by simpa using hy)
  self {c} hc := search_eq_of_allows (h.self hc.1) hc.2 (n + 1)

end Maintenance.Years

namespace Schedule

variable {s : Schedule} {c : Int}

/-- The seconds of the wall clock at which windows open. -/
def openings (s : Schedule) : Set Int := {u | s.occursAt u = true}

theorem occursAt_iff {u : Int} :
    s.occursAt u = true ↔
      s.pattern.matchesAt u = true ∧ s.years.allows (yearOf (dayOf u)) = true := by
  simp [occursAt]

theorem openings_eq (s : Schedule) : s.openings = s.years.allowed s.pattern.matchSet := by
  ext u
  exact occursAt_iff

theorem search_nextOccurrence (hs : s.years.IsSound) (c : Int) :
    s.years.Search s.pattern.nextFrom c (s.nextOccurrence c) :=
  .of_enough hs s.pattern.nextFrom_findsFirst.sound (n := 254) (by decide) c

/-- The first opening is found wherever the pattern's search finds the first match. -/
theorem nextOccurrence_isFirst (hs : s.years.IsSound) (hc : s.pattern.FindsFrom c) :
    IsFirst {u | c ≤ u ∧ u ∈ s.openings} (s.nextOccurrence c) := by
  rw [openings_eq]
  refine ((search_nextOccurrence hs c).isFirst (Q := fun _ => True) hs
    s.pattern.nextFrom_findsFirst.sound ?_ fun y hy => ?_).congr fun u => and_iff_left trivial
  · exact hc.congr fun u => (and_iff_left trivial).symm
  · have hyear : yearOf (dayOf (yearStart y * daySeconds)) < Pattern.searchLimit - 400 := by
      rw [Years.dayOf_seconds, yearOf_yearStart]
      exact hy.trans_lt (by decide)
    exact (s.pattern.findsFrom_of_year_lt hyear).congr fun u => (and_iff_left trivial).symm

/-- The search of a schedule promises for openings what the pattern's search promises for
matches. -/
theorem nextOccurrence_findsFirst (hs : s.years.IsSound) :
    FindsFirst s.openings Pattern.limitSecond Pattern.reachSecond s.nextOccurrence := by
  rw [openings_eq]
  exact Years.search_findsFirst hs s.pattern.nextFrom_findsFirst (by decide) (n := 254) (by decide)

/-! ## The year field and the search -/

/-- A schedule with a year field that can be read allows exactly the years that the field lists, and
the next allowed year is the first of them.  Where the pattern's search finds the first match from a
second on, or after it, the search through the years finds the first match in a listed year, or
nothing if there is none; and it comes to its end without the bound on its jumps. -/
theorem nextOccurrence_follows_year_field {field : List Char}
    (h : Years.parse field = .ok s.years) :
    (∀ y, s.years.allows y = true ↔ Lists field y) ∧
    (∀ y, IsFirst {z | y ≤ z ∧ Lists field z} (s.years.nextFrom y)) ∧
    ∀ c, s.years.Search s.pattern.nextFrom c (s.nextOccurrence c) ∧
      (s.pattern.FindsFrom c → IsFirst {u | c ≤ u ∧ s.pattern.matchesAt u = true ∧
        Lists field (yearOf (dayOf u))} (s.nextOccurrence c)) ∧
      (s.pattern.FindsFrom (c + 1) → IsFirst {u | c < u ∧ s.pattern.matchesAt u = true ∧
        Lists field (yearOf (dayOf u))} (s.nextOccurrence (c + 1))) := by
  have hs := Years.isSound_of_parse h
  have hlists := Years.allows_iff_lists h
  refine ⟨hlists, fun y => ?_, fun c => ⟨search_nextOccurrence hs c, fun hc => ?_, fun hc => ?_⟩⟩
  · exact (hs.nextFrom_isFirst y).congr fun z => and_congr_right' (hlists z)
  · refine (nextOccurrence_isFirst hs hc).congr fun u => ?_
    rw [openings, Set.mem_ofPred_eq, Set.mem_ofPred_eq, occursAt_iff, hlists]
    rfl
  · refine (nextOccurrence_isFirst hs hc).congr fun u => ?_
    rw [openings, Set.mem_ofPred_eq, Set.mem_ofPred_eq, occursAt_iff, hlists, Int.add_one_le_iff]
    rfl

/-- The first of January at midnight, in a list of years that is not in order and has a year
twice. -/
def newYears : Schedule where
  expression := "0 0 0 1 1 * 2031,2027-2028,2028"
  pattern :=
    { second := ⟨[(0, .plain)], false, false⟩
      minute := ⟨[(0, .plain)], false, false⟩
      hour := ⟨[(0, .plain)], false, false⟩
      day := ⟨[(1, .plain)], false, false⟩
      month := ⟨[(1, .plain)], false, false⟩
      weekday := Field.all .weekday }
  years := .ranges [(2027, 2028), (2028, 2028), (2031, 2031)]
  duration := 7200
  offset := 0

theorem parse_newYears_years : Years.parse "2031,2027-2028,2028".toList = .ok newYears.years := by
  have hread : Years.parse "2031,2027-2028,2028".toList =
      .ok (.ranges ([(2031, 2031), (2027, 2028), (2028, 2028)].mergeSort Years.rangeLe)) := rfl
  rw [hread]
  simp [List.mergeSort, List.MergeSort.Internal.splitInTwo, Years.rangeLe, newYears]

/-- From the summer of 2028 on, the search goes on to the new year of 2031. -/
theorem newYears_skip_to_2031 :
    Years.parse "2031,2027-2028,2028".toList = .ok newYears.years ∧
    newYears.pattern.FindsFrom 1843430400 ∧ dayOf 1843430400 = yearStart 2028 + 152 ∧
    newYears.nextOccurrence 1843430400 = some (yearStart 2031 * daySeconds) ∧
    IsFirst {u | 1843430400 ≤ u ∧ newYears.pattern.matchesAt u = true ∧
      Lists "2031,2027-2028,2028".toList (yearOf (dayOf u))}
      (newYears.nextOccurrence 1843430400) := by
  have hfinds : newYears.pattern.FindsFrom 1843430400 :=
    newYears.pattern.findsFrom_of_year_lt (by decide +kernel)
  exact ⟨parse_newYears_years, hfinds, by decide, by decide +kernel,
    ((nextOccurrence_follows_year_field parse_newYears_years).2.2 1843430400).2.1 hfinds⟩

end Schedule

end FleetUpdate
