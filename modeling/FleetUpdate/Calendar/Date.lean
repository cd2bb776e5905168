/-!
# The calendar

Days are numbered from 1970-01-01 as day `0`, in both directions and without end, and dated in the
proleptic Gregorian calendar: leap years are the multiples of four, less those of a hundred, and
again those of four hundred; year zero exists.

`yearStart` counts days up to a new year, and `yearOf` inverts it: `yearStart_le_iff` says that a
day lies in the year whose start is the last one at or before it.
-/

namespace FleetUpdate.Calendar

/-- A year with a 29th of February. -/
def isLeap (year : Int) : Bool :=
  year % 4 == 0 && (year % 100 != 0 || year % 400 == 0)

/-- The number of the first of January.  Of the years from zero up to the given one, a quarter is
counted leap, then a hundredth not, then a four-hundredth again. -/
def yearStart (year : Int) : Int :=
  365 * year + (year + 3) / 4 - (year + 99) / 100 + (year + 399) / 400 - 719528

/-- The year of a day: the mean length of a year gives a guess that is off by one at most. -/
def yearOf (day : Int) : Int :=
  let guess := (day + 719528) * 400 / 146097
  if day < yearStart guess then guess - 1
  else if yearStart (guess + 1) ≤ day then guess + 1
  else guess

/-- The lengths of the months of a year. -/
def monthLengths (leap : Bool) : List Nat :=
  [31, if leap then 29 else 28, 31, 30, 31, 30, 31, 31, 30, 31, 30, 31]

/-- Counts `k` days into a list of months: how many months pass, and how many days are left. -/
def splitMonths : List Nat → Nat → Nat × Nat
  | [], k => (0, k)
  | len :: rest, k =>
    if k < len then (0, k)
    else
      let r := splitMonths rest (k - len)
      (r.1 + 1, r.2)

/-- A date; months and days count from one. -/
structure Date where
  year : Int
  month : Nat
  day : Nat
  deriving DecidableEq

/-- The date of a day. -/
def dateOf (day : Int) : Date :=
  let year := yearOf day
  let md := splitMonths (monthLengths (isLeap year)) (day - yearStart year).toNat
  ⟨year, md.1 + 1, md.2 + 1⟩

/-- The day of the week, Sunday being `0`; day `0` was a Thursday. -/
def weekday (day : Int) : Nat := ((day + 4) % 7).toNat

theorem yearStart_succ (y : Int) :
    yearStart (y + 1) = yearStart y + if isLeap y then 366 else 365 := by
  unfold yearStart
  by_cases h : isLeap y = true
  · simp only [h, if_true]
    simp only [isLeap, Bool.and_eq_true, Bool.or_eq_true, beq_iff_eq, bne_iff_ne] at h
    omega
  · simp only [h]
    simp only [isLeap, Bool.and_eq_true, Bool.or_eq_true, beq_iff_eq, bne_iff_ne] at h
    simp only [Bool.false_eq_true, if_false]
    omega

theorem yearStart_lt_succ (y : Int) : yearStart y < yearStart (y + 1) := by
  rw [yearStart_succ]; split <;> omega

/-- Years start one after the other. -/
theorem yearStart_mono {a b : Int} (h : a ≤ b) : yearStart a ≤ yearStart b := by
  unfold yearStart; omega

/-- A day lies between the start of its year and the start of the next. -/
theorem yearStart_yearOf (n : Int) :
    yearStart (yearOf n) ≤ n ∧ n < yearStart (yearOf n + 1) := by
  unfold yearOf
  simp only
  generalize hg : (n + 719528) * 400 / 146097 = g
  have hlo : yearStart (g - 1) ≤ n := by unfold yearStart; omega
  have hhi : n < yearStart (g + 2) := by unfold yearStart; omega
  split
  · rename_i h
    refine ⟨hlo, ?_⟩
    have e : g - 1 + 1 = g := by omega
    rw [e]; exact h
  · split
    · rename_i h
      refine ⟨h, ?_⟩
      have e : g + 1 + 1 = g + 2 := by omega
      rw [e]; exact hhi
    · constructor <;> omega

/-- A year has begun by the day `n` exactly if the year of `n` is not before it. -/
theorem yearStart_le_iff {y n : Int} : yearStart y ≤ n ↔ y ≤ yearOf n := by
  have ⟨h1, h2⟩ := yearStart_yearOf n
  constructor
  · intro h
    by_cases hle : y ≤ yearOf n
    · exact hle
    · have := yearStart_mono (a := yearOf n + 1) (b := y) (by omega)
      omega
  · intro h
    have := yearStart_mono h
    omega

@[simp] theorem yearOf_yearStart (y : Int) : yearOf (yearStart y) = y := by
  have h1 : y ≤ yearOf (yearStart y) := yearStart_le_iff.mp (Int.le_refl _)
  have h2 : ¬ y + 1 ≤ yearOf (yearStart y) := fun h => by
    have := yearStart_le_iff.mpr h
    have := yearStart_lt_succ y
    omega
  omega

@[simp] theorem dateOf_year (n : Int) : (dateOf n).year = yearOf n := rfl

theorem weekday_lt (n : Int) : weekday n < 7 := by
  unfold weekday; omega

end FleetUpdate.Calendar
