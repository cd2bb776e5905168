import FleetUpdate.Proofs.Maintenance.NextMatch
import Mathlib.Algebra.Field.Periodic

/-!
# The calendar repeats

Four hundred years are a whole number of weeks, and leap years repeat with them, so a pattern that
matches at all matches once in every four hundred years.  Giving up at the limit year therefore does
no harm to a search that has four hundred years ahead of it: it finds the first match there is, and
finds nothing only where nothing ever matches (`findsFrom_of_year_lt`).
-/

namespace FleetUpdate.Calendar

/-- The days of four hundred years. -/
def cycleDays : Int := 146097

theorem yearStart_add_cycle (y : Int) : yearStart (y + 400) = yearStart y + cycleDays := by
  unfold yearStart cycleDays
  omega

theorem isLeap_add_cycle (y : Int) : isLeap (y + 400) = isLeap y := by
  unfold isLeap
  have h4 : (y + 400) % 4 = y % 4 := by omega
  have h100 : (y + 400) % 100 = y % 100 := by omega
  have h400 : (y + 400) % 400 = y % 400 := by omega
  rw [h4, h100, h400]

/-- The year of a day is the one within whose bounds it lies. -/
theorem yearOf_eq_iff {n y : Int} : yearOf n = y ↔ yearStart y ≤ n ∧ n < yearStart (y + 1) := by
  rw [← not_le, yearStart_le_iff, yearStart_le_iff]
  omega

theorem yearOf_add_cycle (n : Int) : yearOf (n + cycleDays) = yearOf n + 400 := by
  obtain ⟨hle, hlt⟩ := yearStart_yearOf n
  have hnext := yearStart_add_cycle (yearOf n + 1)
  rw [yearOf_eq_iff, yearStart_add_cycle, add_right_comm, hnext]
  omega

theorem dateOf_add_cycle (n : Int) :
    dateOf (n + cycleDays) = { dateOf n with year := (dateOf n).year + 400 } := by
  have hday : n + cycleDays - yearStart (yearOf n + 400) = n - yearStart (yearOf n) := by
    rw [yearStart_add_cycle]
    omega
  unfold dateOf
  dsimp only
  rw [yearOf_add_cycle, isLeap_add_cycle, hday]

theorem weekday_add_cycle (n : Int) : weekday (n + cycleDays) = weekday n := by
  unfold weekday cycleDays
  omega

end FleetUpdate.Calendar

namespace FleetUpdate.Cron.Pattern

open Calendar

variable (p : Pattern)

theorem matchesDay_periodic : Function.Periodic p.matchesDay cycleDays := by
  intro d
  have hbefore : d + cycleDays - 1 = d - 1 + cycleDays := by omega
  have hafter : d + cycleDays + 1 = d + 1 + cycleDays := by omega
  have hweek : d + cycleDays + 7 = d + 7 + cycleDays := by omega
  simp only [matchesDay, matchesMonthDay, matchesNearest, matchesWeekday, hbefore, hafter, hweek,
    dateOf_add_cycle, weekday_add_cycle]

theorem matchesAt_periodic : Function.Periodic p.matchesAt (cycleDays * daySeconds) := by
  intro s
  have hday : dayOf (s + cycleDays * daySeconds) = dayOf s + cycleDays := by
    unfold dayOf daySeconds
    omega
  have htime : timeOf (s + cycleDays * daySeconds) = timeOf s := by
    unfold timeOf daySeconds
    omega
  rw [matchesAt, hday, htime, p.matchesDay_periodic, ← matchesAt]

/-- From this second on the search finds the first match, and nothing only if there is none. -/
def FindsFrom (c : Int) : Prop :=
  IsFirst {u | c ≤ u ∧ p.matchesAt u = true} (p.nextFrom c)

/-- With four hundred years to go until the limit year, the search finds what there is. -/
theorem findsFrom_of_year_lt {c : Int} (hc : yearOf (dayOf c) < searchLimit - 400) :
    p.FindsFrom c := by
  have hlimit : yearStart searchLimit = yearStart (searchLimit - 400) + cycleDays := by
    rw [← yearStart_add_cycle, sub_add_cancel]
  have hday : dayOf c < yearStart (searchLimit - 400) := by
    by_contra hle
    exact absurd (yearStart_le_iff.mp (not_lt.mp hle)) (not_le.mpr hc)
  have hreach : ∀ u < c + cycleDays * daySeconds, dayOf u ≤ yearStart searchLimit := by
    intro u hu
    rw [hlimit]
    unfold dayOf cycleDays daySeconds at *
    omega
  refine (p.nextFrom_isFirst (by rw [hlimit]; unfold cycleDays; omega)).of_subset
    (fun u hu => ⟨hu.1, hu.2.1⟩) fun u hu => ?_
  -- a match further away than a cycle has another one, a number of cycles earlier, within reach
  by_cases hnear : u < c + cycleDays * daySeconds
  · exact ⟨u, ⟨hu.1, hu.2, hreach u hnear⟩, le_rfl⟩
  · obtain ⟨v, hv, hmatch⟩ := p.matchesAt_periodic.exists_mem_Ico (by decide) u c
    exact ⟨v, ⟨hv.1, hmatch ▸ hu.2, hreach v hv.2⟩, (hv.2.trans_le (not_lt.mp hnear)).le⟩

end FleetUpdate.Cron.Pattern
