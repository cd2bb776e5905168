import FleetUpdate.Proofs.Maintenance.YearJumps

/-!
# When windows open

An instant at which a window opens is a whole second at which the wall clock of the schedule shows a
match of the pattern in an allowed year (`Schedule.Opens`).  What a schedule reports is told from
these instants alone.  A window is open exactly if one has opened less than the duration ago
(`isAvailable_iff_opened`); the window that is open or comes next begins at the first opening after
`now` less the duration; a schedule has lapsed when no opening after that is left in reach, and then
it stays so (`lapse_is_final`).

The next start is searched from the second that `now` lies in.  If that very second is an opening
and has begun already, it is reported although it is past (`reported_starts`).

What follows from an answer follows from it wherever it comes from (`Answers`), and any search for
openings that keeps the promise of `FindsFirst` gives such answers (`startsFrom_answers`,
`startsAfter_answers`).
-/

namespace FleetUpdate

open Calendar Cron

namespace Schedule

variable {s : Schedule} {now t t' : Instant}

/-- A window opens at the instant. -/
def Opens (s : Schedule) (t : Instant) : Prop :=
  t % 1000 = 0 ∧ s.occursAt (localSecond s.offset t) = true

/-- The instant at which the wall clock of the schedule begins the limit year of the search. -/
def limit (s : Schedule) : Instant :=
  instantOf s.offset (yearStart Pattern.searchLimit * daySeconds)

/-- The end of the first day of the limit year, as far as a search gets that starts before it. -/
def reach (s : Schedule) : Instant :=
  instantOf s.offset ((yearStart Pattern.searchLimit + 1) * daySeconds)

/-! ## What reading a schedule guarantees -/

theorem pos_of_parseDuration {text : String} {d : Nat}
    (h : Maintenance.parseDuration text = .ok d) : 0 < d := by
  unfold Maintenance.parseDuration at h
  split at h
  · rename_i n hn
    cases h
    unfold Maintenance.durationSeconds? at hn
    split at hn
    · obtain ⟨hours, -, hn⟩ := Option.bind_eq_some_iff.mp hn
      obtain ⟨minutes, -, hn⟩ := Option.bind_eq_some_iff.mp hn
      obtain ⟨seconds, -, hn⟩ := Option.bind_eq_some_iff.mp hn
      dsimp only at hn
      split at hn
      · cases hn
      · rename_i hzero
        cases hn
        exact Nat.pos_of_ne_zero hzero
    · cases hn
  · cases h

theorem isSound_of_readExpression {expression : String} {pattern : Pattern}
    {years : Maintenance.Years} (h : readExpression expression = .ok (pattern, years)) :
    years.IsSound := by
  unfold readExpression at h
  dsimp only at h
  split at h
  · obtain ⟨_, hyears, h⟩ := bind_eq_ok_iff.mp h
    cases hyears
    split at h <;> cases h
    trivial
  split at h
  · obtain ⟨_, hyears, h⟩ := bind_eq_ok_iff.mp h
    split at h <;> cases h
    exact Maintenance.Years.isSound_of_parse hyears
  · obtain ⟨_, hyears, -⟩ := bind_eq_ok_iff.mp h
    cases hyears

/-- The ranges of years are in order, and windows are not empty. -/
structure IsSound (s : Schedule) : Prop where
  years : s.years.IsSound
  duration_pos : 0 < s.duration

theorem isSound_of_parse {expression duration timezone : String}
    (h : Schedule.parse expression duration timezone = .ok s) : s.IsSound := by
  unfold Schedule.parse at h
  split at h
  · cases h
  split at h
  · cases h
  · rename_i pattern years hread
    obtain ⟨d, hd, h⟩ := bind_eq_ok_iff.mp h
    obtain ⟨o, -, h⟩ := bind_eq_ok_iff.mp h
    cases h
    exact ⟨isSound_of_readExpression hread, pos_of_parseDuration hd⟩

/-! ## Seconds of the wall clock and instants -/

section Instants

variable {offset : Int}

theorem instantOf_le_instantOf {a b : Int} : instantOf offset a ≤ instantOf offset b ↔ a ≤ b := by
  change (a - offset) * 1000 ≤ (b - offset) * 1000 ↔ a ≤ b
  omega

theorem instantOf_lt_instantOf {a b : Int} : instantOf offset a < instantOf offset b ↔ a < b := by
  rw [← not_le, instantOf_le_instantOf, not_le]

theorem instantOf_mono {a b : Int} (h : a ≤ b) : instantOf offset a ≤ instantOf offset b :=
  instantOf_le_instantOf.mpr h

theorem instantOf_emod (u : Int) : instantOf offset u % 1000 = 0 := Int.mul_emod_left _ _

/-- The second that an instant lies in begins with the part of a second left out. -/
theorem instantOf_localSecond (t : Int) :
    instantOf offset (localSecond offset t) = t - t % 1000 := by
  change (t / 1000 + offset - offset) * 1000 = t - t % 1000
  omega

theorem localSecond_sub_emod (t : Int) :
    localSecond offset (t - t % 1000) = localSecond offset t := by
  change (t - t % 1000) / 1000 + offset = t / 1000 + offset
  omega

/-- A whole second that an instant does not lie in comes after the instant if it comes after the
beginning of the second that the instant does lie in. -/
theorem second_le_iff {now t : Int} (ht : t % 1000 = 0)
    (hne : now % 1000 = 0 ∨ t ≠ now - now % 1000) : now - now % 1000 ≤ t ↔ now ≤ t := by
  omega

/-- The second after an instant is the first that begins after it. -/
theorem instantOf_localSecond_succ_le_iff {now t : Int} (ht : t % 1000 = 0) :
    instantOf offset (localSecond offset now + 1) ≤ t ↔ now < t := by
  change (now / 1000 + offset + 1 - offset) * 1000 ≤ t ↔ now < t
  omega

/-- What opens in the second of `now` or later opens less than a duration before it. -/
theorem lt_of_second_le {now d t : Int} (hd : 0 < d) (hle : now - now % 1000 ≤ t) :
    now - d * 1000 < t := by
  omega

/-- A search that starts some seconds before `now` starts before every second that `now` does not
reach. -/
theorem instantOf_localSecond_succ_lt {now d c : Int} (hd : 0 < d)
    (hnow : now < instantOf offset c) :
    instantOf offset (localSecond offset (now - d * 1000) + 1) < instantOf offset c := by
  change now < (c - offset) * 1000 at hnow
  change ((now - d * 1000) / 1000 + offset + 1 - offset) * 1000 < (c - offset) * 1000
  omega

end Instants

/-! ## Answers -/

/-- The answer of a search for an opening in the set: it is the first one wherever that is, and
before the limit year nothing is answered only if none is in reach. -/
structure Answers (s : Schedule) (now : Instant) (S : Set Instant) (o : Option Instant) : Prop where
  sound : IsFirstBelow s.limit S o
  complete : now < s.limit → IsFirst {t | t ∈ S ∧ t < s.reach} o

namespace Answers

variable {S T : Set Instant} {o o' : Option Instant}

theorem congr (h : s.Answers now S o) (hST : ∀ t, t ∈ S ↔ t ∈ T) : s.Answers now T o :=
  Set.ext hST ▸ h

theorem eq_none_iff (h : s.Answers now S o) (hnow : now < s.limit) :
    o = none ↔ ∀ t ∈ S, s.reach ≤ t := by
  rw [(h.complete hnow).eq_none_iff]
  simp only [Set.mem_ofPred_eq, not_and, not_lt]

/-- Nothing is answered for fewer openings if nothing is answered for more. -/
theorem eq_none_mono (h : s.Answers t S o) (h' : s.Answers t' T o') (ht : t < s.limit)
    (ht' : t' < s.limit) (hTS : T ⊆ S) (hnone : o = none) : o' = none :=
  (h'.eq_none_iff ht').mpr fun u hu => (h.eq_none_iff ht).mp hnone u (hTS hu)

/-- Of the openings that can still hold `now` the answer is the first, so that it has begun if any
of them has. -/
theorem begun_iff (h : s.Answers now {t | s.Opens t ∧ now - s.duration * 1000 < t} o)
    (hnow : now < s.limit) : (∃ w, o = some w ∧ w ≤ now) ↔
      ∃ t, s.Opens t ∧ t ≤ now ∧ now < t + s.duration * 1000 := by
  constructor
  · rintro ⟨w, rfl, hle⟩
    cases h.sound with
    | found hleast => exact ⟨w, hleast.1.1, hle, sub_lt_iff_lt_add.mp hleast.1.2⟩
  · rintro ⟨t, hopens, hle, hlt⟩
    have hmem : t ∈ {t | s.Opens t ∧ now - s.duration * 1000 < t} :=
      ⟨hopens, sub_lt_iff_lt_add.mpr hlt⟩
    cases h.sound with
    | found hleast => exact ⟨_, rfl, (hleast.2 hmem).trans hle⟩
    | nothing hnone => exact absurd ((hnone t hmem).trans hle) (not_le.mpr hnow)

end Answers

/-! ## Any search for openings -/

/-- The openings from a second on are the instants at which windows open from then on. -/
theorem image_openings (s : Schedule) (c : Int) :
    instantOf s.offset '' {u | c ≤ u ∧ u ∈ s.openings} =
      {t | s.Opens t ∧ instantOf s.offset c ≤ t} := by
  ext t
  constructor
  · rintro ⟨u, ⟨hle, hu⟩, rfl⟩
    refine ⟨⟨instantOf_emod u, ?_⟩, instantOf_mono hle⟩
    rw [localSecond_instantOf]
    exact hu
  · rintro ⟨⟨hwhole, hu⟩, hle⟩
    have ht : instantOf s.offset (localSecond s.offset t) = t := by
      rw [instantOf_localSecond, hwhole, sub_zero]
    exact ⟨localSecond s.offset t, ⟨instantOf_le_instantOf.mp (ht ▸ hle), hu⟩, ht⟩

section AnySearch

variable {first : Int → Option Int}
  (hfirst : FindsFirst s.openings Pattern.limitSecond Pattern.reachSecond first)

include hfirst

/-- What is found from a second on is an answer, if the second is before the limit year whenever
`now` is. -/
theorem starts_answers {c : Int} (hc : now < s.limit → instantOf s.offset c < s.limit) :
    s.Answers now {t | s.Opens t ∧ instantOf s.offset c ≤ t}
      ((first c).map (instantOf s.offset)) := by
  rw [← image_openings]
  refine ⟨(hfirst.isFirstBelow (by decide) c).map fun _ _ => instantOf_mono, fun hnow => ?_⟩
  have hbefore : c < Pattern.limitSecond := instantOf_lt_instantOf.mp (hc hnow)
  refine ((hfirst.complete hbefore).map fun _ _ => instantOf_mono).congr fun t => ?_
  constructor
  · rintro ⟨u, ⟨hu, hlt⟩, rfl⟩
    exact ⟨⟨u, hu, rfl⟩, instantOf_lt_instantOf.mpr hlt⟩
  · rintro ⟨⟨u, hu, rfl⟩, hlt⟩
    exact ⟨u, ⟨hu, instantOf_lt_instantOf.mp hlt⟩, rfl⟩

/-- The search from the second that `now` lies in answers with the first opening from there on. -/
theorem startsFrom_answers (now : Instant) :
    s.Answers now {t | s.Opens t ∧ now - now % 1000 ≤ t}
      ((first (localSecond s.offset now)).map (instantOf s.offset)) := by
  have hle : instantOf s.offset (localSecond s.offset now) ≤ now := by
    rw [instantOf_localSecond]
    exact sub_le_self _ (Int.emod_nonneg _ (by decide))
  have hanswers := starts_answers hfirst (c := localSecond s.offset now) hle.trans_lt
  rw [instantOf_localSecond] at hanswers
  exact hanswers

/-- If that second is an opening it is found, although it may be past. -/
theorem startsFrom_eq_of_opens (h : s.Opens (now - now % 1000)) :
    (first (localSecond s.offset now)).map (instantOf s.offset) = some (now - now % 1000) := by
  have hoccurs := h.2
  rw [localSecond_sub_emod] at hoccurs
  rw [hfirst.self hoccurs, Option.map_some, instantOf_localSecond]

/-- So it answers with the first opening from `now` on just if that second is no opening, or is not
past. -/
theorem startsFrom_answers_iff (now : Instant) :
    s.Answers now {t | s.Opens t ∧ now ≤ t}
        ((first (localSecond s.offset now)).map (instantOf s.offset)) ↔
      now % 1000 = 0 ∨ ¬ s.Opens (now - now % 1000) := by
  constructor
  · -- otherwise the opening that `now` is just past is found, and it is not in the set
    intro hexact
    by_contra hnot
    obtain ⟨hpart, hopens⟩ := not_or.mp hnot
    have hsound := hexact.sound
    rw [startsFrom_eq_of_opens hfirst (not_not.mp hopens)] at hsound
    cases hsound with
    | found hleast =>
      have hle : now ≤ now - now % 1000 := hleast.1.2
      have hnonneg := Int.emod_nonneg now (b := 1000) (by decide)
      exact hpart (le_antisymm (le_sub_self_iff _ |>.mp hle) hnonneg)
  · intro hno
    refine (startsFrom_answers hfirst now).congr fun t => and_congr_right fun hopens => ?_
    exact second_le_iff hopens.1 (hno.imp_right fun hnot heq => hnot (heq ▸ hopens))

/-- The search from the second after `now` less the duration answers with the first opening after
that instant.  A duration is at least a second, so this search begins in the second of `now` or before
it. -/
theorem startsAfter_answers (hd : 0 < s.duration) (now : Instant) :
    s.Answers now {t | s.Opens t ∧ now - s.duration * 1000 < t}
      ((first (localSecond s.offset (now - s.duration * 1000) + 1)).map (instantOf s.offset)) :=
  (starts_answers hfirst (instantOf_localSecond_succ_lt (Int.natCast_pos.mpr hd))).congr fun _ =>
    and_congr_right fun ht => instantOf_localSecond_succ_le_iff ht.1

end AnySearch

/-! ## What a schedule reports -/

/-- The next start is the first opening from the second on that `now` lies in. -/
theorem nextStart_answers (hs : s.IsSound) (now : Instant) :
    s.Answers now {t | s.Opens t ∧ now - now % 1000 ≤ t} (s.nextStart now) :=
  startsFrom_answers (nextOccurrence_findsFirst hs.years) now

theorem map_start_currentOrNext (s : Schedule) (now : Instant) :
    (s.currentOrNext now).map Window.start =
      (s.nextOccurrence (localSecond s.offset (now - s.duration * 1000) + 1)).map
        (instantOf s.offset) := by
  rw [currentOrNext, Option.map_map]
  rfl

theorem stop_of_currentOrNext {w : Window} (h : s.currentOrNext now = some w) :
    w.stop = w.start + s.duration * 1000 := by
  obtain ⟨u, -, rfl⟩ := Option.map_eq_some_iff.mp h
  rfl

/-- The window that is open or comes next begins at the first opening after `now` less the
duration. -/
theorem currentOrNext_answers (hs : s.IsSound) (now : Instant) :
    s.Answers now {t | s.Opens t ∧ now - s.duration * 1000 < t}
      ((s.currentOrNext now).map Window.start) := by
  rw [map_start_currentOrNext]
  exact startsAfter_answers (nextOccurrence_findsFirst hs.years) hs.duration_pos now

theorem isLapsed_iff_map_start : s.isLapsed now = true ↔
    (s.currentOrNext now).map Window.start = none := by
  rw [isLapsed, Option.isNone_iff_eq_none, Option.map_eq_none_iff]

/-- A schedule has lapsed when no opening is left in reach after `now` less the duration. -/
theorem isLapsed_iff (hs : s.IsSound) (hnow : now < s.limit) :
    s.isLapsed now = true ↔
      ∀ t, s.Opens t → now - s.duration * 1000 < t → s.reach ≤ t := by
  rw [isLapsed_iff_map_start, (currentOrNext_answers hs now).eq_none_iff hnow]
  simp only [Set.mem_ofPred_eq, and_imp]

/-- After the last window that is in reach has ended none is to come. -/
theorem nextStart_eq_none_of_isLapsed (hs : s.IsSound)
    (hnow : now < s.limit) (h : s.isLapsed now = true) : s.nextStart now = none :=
  (currentOrNext_answers hs now).eq_none_mono (nextStart_answers hs now) hnow hnow
    (fun _ ht => ⟨ht.1, lt_of_second_le (Int.natCast_pos.mpr hs.duration_pos) ht.2⟩)
    (isLapsed_iff_map_start.mp h)

theorem isAvailable_eq_false_of_isLapsed (h : s.isLapsed now = true) :
    s.isAvailable now = false := by
  rw [isLapsed, Option.isNone_iff_eq_none] at h
  rw [isAvailable, h]

/-- A schedule that has lapsed stays so. -/
theorem isLapsed_mono (hs : s.IsSound) (hle : t ≤ t')
    (hlimit : t' < s.limit) (h : s.isLapsed t = true) : s.isLapsed t' = true :=
  isLapsed_iff_map_start.mpr <|
    (currentOrNext_answers hs t).eq_none_mono (currentOrNext_answers hs t') (hle.trans_lt hlimit)
      hlimit (fun _ hu => ⟨hu.1, (sub_le_sub_right hle _).trans_lt hu.2⟩)
      (isLapsed_iff_map_start.mp h)

theorem validateWindow_eq_ok_iff {spec : MaintenanceSpec} (h : Schedule.ofSpec spec = .ok s)
    {r : Schedule} : validateWindow spec now = .ok r ↔ s.isLapsed now = false ∧ r = s := by
  unfold validateWindow
  rw [h]
  change (if s.isLapsed now then _ else _) = _ ↔ _
  cases s.isLapsed now <;> simp [eq_comm]

/-- A window is open if the one that is open or comes next has begun; its end is after `now` by the
choice of the window. -/
theorem isAvailable_iff_begun (hs : s.IsSound) : s.isAvailable now = true ↔
    ∃ w, (s.currentOrNext now).map Window.start = some w ∧ w ≤ now := by
  have hfirst := (currentOrNext_answers hs now).sound
  unfold isAvailable
  cases hw : s.currentOrNext now with
  | none => simp
  | some w =>
    rw [hw] at hfirst
    cases hfirst with
    | found hleast =>
      have hstop := stop_of_currentOrNext hw
      have hlt : now < w.start + s.duration * 1000 := sub_lt_iff_lt_add.mp hleast.1.2
      simp [Window.contains, hstop, hlt]

/-- A window is open exactly if one has opened less than the duration ago, whatever other windows
there are and whichever year it is by now. -/
theorem isAvailable_iff_opened {expression duration timezone : String}
    (h : Schedule.parse expression duration timezone = .ok s) (hnow : now < s.limit) :
    s.isAvailable now = true ↔ ∃ t, s.Opens t ∧ t ≤ now ∧ now < t + s.duration * 1000 := by
  have hs := isSound_of_parse h
  rw [isAvailable_iff_begun hs, (currentOrNext_answers hs now).begun_iff hnow]

/-- The window at the turn of the year 2027, two hours ahead of UTC: from the evening of the
thirtieth of December on it lasts two hours into a year in which no window opens. -/
def turnOfYear : Schedule where
  expression := "0 0 22 30 12 ? 2027"
  pattern :=
    { second := ⟨[(0, .plain)], false, false⟩
      minute := ⟨[(0, .plain)], false, false⟩
      hour := ⟨[(22, .plain)], false, false⟩
      day := ⟨[(30, .plain)], false, false⟩
      month := ⟨[(12, .plain)], false, false⟩
      weekday := (Field.all .weekday).foldSunday }
  years := .ranges [(2027, 2027)]
  duration := 100800
  offset := 7200

theorem parse_turnOfYear :
    Schedule.parse turnOfYear.expression "28:00:00" "+02:00" = .ok turnOfYear := by
  have hread : readExpression turnOfYear.expression =
      .ok (turnOfYear.pattern, .ranges ([(2027, 2027)].mergeSort Maintenance.Years.rangeLe)) := rfl
  rw [List.mergeSort_singleton] at hread
  unfold Schedule.parse
  rw [hread]
  rfl

/-- The last millisecond of the window lies in 2028.  Then it is over: no other one has opened on
the evening of the thirty-first. -/
theorem turnOfYear_available :
    Schedule.parse turnOfYear.expression "28:00:00" "+02:00" = .ok turnOfYear ∧
    1830297600000 < turnOfYear.limit ∧ turnOfYear.isAvailable 1830297599999 = true ∧
    (turnOfYear.isAvailable 1830297599999 = true ↔
      ∃ t, turnOfYear.Opens t ∧ t ≤ 1830297599999 ∧
        1830297599999 < t + turnOfYear.duration * 1000) ∧
    turnOfYear.isAvailable 1830297600000 = false ∧
    ¬ ∃ t, turnOfYear.Opens t ∧ t ≤ 1830297600000 ∧
      1830297600000 < t + turnOfYear.duration * 1000 := by
  have hlast : 1830297599999 < turnOfYear.limit := by decide
  have hover : 1830297600000 < turnOfYear.limit := by decide
  have hclosed : turnOfYear.isAvailable 1830297600000 = false := by decide +kernel
  refine ⟨parse_turnOfYear, hover, by decide, isAvailable_iff_opened parse_turnOfYear hlast,
    hclosed, ?_⟩
  rw [← isAvailable_iff_opened parse_turnOfYear hover, hclosed]
  exact Bool.false_ne_true

/-- The window that is open or comes next is the first one that ends after `now`.  The next start is
the first opening from `now` on, except when `now` is past the beginning of a second that is an
opening itself: then it is that one. -/
theorem reported_starts {expression duration timezone : String}
    (h : Schedule.parse expression duration timezone = .ok s) (now : Instant) :
    s.Answers now {t | s.Opens t ∧ now - now % 1000 ≤ t} (s.nextStart now) ∧
    (s.Answers now {t | s.Opens t ∧ now ≤ t} (s.nextStart now) ↔
      now % 1000 = 0 ∨ ¬ s.Opens (now - now % 1000)) ∧
    s.Answers now {t | s.Opens t ∧ now - s.duration * 1000 < t}
      ((s.currentOrNext now).map Window.start) ∧
    ∀ w, s.currentOrNext now = some w → w.stop = w.start + s.duration * 1000 := by
  have hs := isSound_of_parse h
  exact ⟨nextStart_answers hs now, startsFrom_answers_iff (nextOccurrence_findsFirst hs.years) now,
    currentOrNext_answers hs now, fun w => stop_of_currentOrNext⟩

/-- An hour every night, from two o'clock on. -/
def nightly : Schedule where
  expression := "0 0 2 * * ?"
  pattern :=
    { second := ⟨[(0, .plain)], false, false⟩
      minute := ⟨[(0, .plain)], false, false⟩
      hour := ⟨[(2, .plain)], false, false⟩
      day := Field.all .day
      month := Field.all .month
      weekday := (Field.all .weekday).foldSunday }
  years := .any
  duration := 3600
  offset := 0

theorem parse_nightly : Schedule.parse nightly.expression "01:00:00" "Z" = .ok nightly := rfl

/-- A millisecond after two o'clock of 2026-03-10 the nightly window that has just opened is
reported as the next one too.  A millisecond after ten on the evening of 2027-12-29, on which nothing
opens, the window of the next evening is reported, the first one to come. -/
theorem nightly_and_turnOfYear_reported_starts :
    Schedule.parse nightly.expression "01:00:00" "Z" = .ok nightly ∧
    nightly.Answers 1773108000001 {t | nightly.Opens t ∧ 1773108000000 ≤ t}
      (nightly.nextStart 1773108000001) ∧
    (nightly.currentOrNext 1773108000001).map Window.start = some 1773108000000 ∧
    nightly.Answers 1773108000001 {t | nightly.Opens t ∧ 1773108000001 - 3600000 < t}
      ((nightly.currentOrNext 1773108000001).map Window.start) ∧
    Schedule.parse turnOfYear.expression "28:00:00" "+02:00" = .ok turnOfYear ∧
    turnOfYear.nextStart 1830110400001 = some 1830196800000 ∧
    turnOfYear.Answers 1830110400001 {t | turnOfYear.Opens t ∧ 1830110400001 ≤ t}
      (turnOfYear.nextStart 1830110400001) := by
  have hnightly := reported_starts parse_nightly 1773108000001
  have hturn := reported_starts parse_turnOfYear 1830110400001
  have hcloses : ¬ turnOfYear.Opens (1830110400001 - 1830110400001 % 1000) := fun hopens =>
    absurd hopens.2 (by decide)
  exact ⟨parse_nightly, hnightly.1, by decide, hnightly.2.2.1, parse_turnOfYear, by decide +kernel,
    hturn.2.1.mpr (.inr hcloses)⟩

/-- The next start that is reported then is a millisecond past, and not the first one to come. -/
theorem nightly_reports_past_start :
    Schedule.parse nightly.expression "01:00:00" "Z" = .ok nightly ∧
    nightly.nextStart 1773108000001 = some 1773108000000 ∧
    ¬ IsFirstBelow nightly.limit {t | nightly.Opens t ∧ 1773108000001 ≤ t}
      (nightly.nextStart 1773108000001) := by
  have hnext : nightly.nextStart 1773108000001 = some 1773108000000 := by decide
  refine ⟨rfl, hnext, fun hexact => ?_⟩
  rw [hnext] at hexact
  cases hexact with
  | found hleast => exact absurd hleast.1.2 (by decide)

/-- A schedule has lapsed when all the windows that open in reach have ended.  Then it has no window
any more; a schedule with a window open or to come has not lapsed; and a specification that is
accepted now has been accepted all the time before. -/
theorem lapse_is_final {spec : MaintenanceSpec} (h : Schedule.ofSpec spec = .ok s) (hle : t ≤ t')
    (hlimit : t' < s.limit) :
    (s.isLapsed t = true ↔ ∀ u, s.Opens u → t - s.duration * 1000 < u → s.reach ≤ u) ∧
    (s.isLapsed t = true →
      s.isLapsed t' = true ∧ s.isAvailable t' = false ∧ s.nextStart t' = none) ∧
    (s.isAvailable t = true ∨ (s.nextStart t).isSome = true → s.isLapsed t = false) ∧
    ∀ r, validateWindow spec t' = .ok r → validateWindow spec t = .ok r := by
  have hs := isSound_of_parse h
  have hlater : s.isLapsed t = true → s.isLapsed t' = true := isLapsed_mono hs hle hlimit
  refine ⟨isLapsed_iff hs (hle.trans_lt hlimit), fun hlapsed => ?_, fun hopen => ?_,
    fun r hr => ?_⟩
  · have hlapsed' := hlater hlapsed
    exact ⟨hlapsed', isAvailable_eq_false_of_isLapsed hlapsed',
      nextStart_eq_none_of_isLapsed hs hlimit hlapsed'⟩
  · by_contra hnot
    have hlapsed := Bool.eq_true_of_not_eq_false hnot
    rcases hopen with havailable | hnext
    · rw [isAvailable_eq_false_of_isLapsed hlapsed] at havailable
      cases havailable
    · rw [nextStart_eq_none_of_isLapsed hs (hle.trans_lt hlimit) hlapsed] at hnext
      cases hnext
  · rw [validateWindow_eq_ok_iff h] at hr ⊢
    refine ⟨?_, hr.2⟩
    by_contra hnot
    rw [hlater (Bool.eq_true_of_not_eq_false hnot)] at hr
    cases hr.1

/-- The turn of the year has lapsed when its window ends, although the year of the field has had
another evening by then, and is still lapsed in the summer of 2035. -/
theorem turnOfYear_lapsed_for_good :
    Schedule.ofSpec ⟨turnOfYear.expression, "28:00:00", "+02:00"⟩ = .ok turnOfYear ∧
    2064312000000 < turnOfYear.limit ∧ turnOfYear.isLapsed 1830297600000 = true ∧
    turnOfYear.isLapsed 2064312000000 = true ∧ turnOfYear.isAvailable 2064312000000 = false ∧
    turnOfYear.nextStart 2064312000000 = none := by
  have hspec : Schedule.ofSpec ⟨turnOfYear.expression, "28:00:00", "+02:00"⟩ = .ok turnOfYear :=
    parse_turnOfYear
  have hlapsed : turnOfYear.isLapsed 1830297600000 = true := by decide +kernel
  have hlimit : 2064312000000 < turnOfYear.limit := by decide
  exact ⟨hspec, hlimit, hlapsed, (lapse_is_final hspec (by decide) hlimit).2.1 hlapsed⟩

end Schedule

end FleetUpdate
