import FleetUpdate.Cron.Search
import FleetUpdate.Proofs.Maintenance.First
import Mathlib.Tactic.Common

/-!
# The next second that matches a pattern

The search for the next match goes field by field, from the seconds of one minute up to the days.
Each of its parts is the first element of a set that is described without it, so the whole is the
first match from a second on (`nextFrom_isFirst`).  Before the limit year that is exact, up to the
end of the first day of that year.  From then on the search gives up rather than leave a minute, an
hour or a day, but what it does find is still the first match (`nextFrom_isLeast`), and a second
that matches is found from itself (`nextFrom_self`).
-/

namespace FleetUpdate.Cron

open Calendar

/-- The least allowed value is the first of the allowed ones. -/
theorem Field.leastFrom_isFirst (f : Field) (bound v : Nat) :
    IsFirst {u | v ≤ u ∧ u < bound ∧ f.allows u = true} (f.leastFrom bound v) := by
  unfold Field.leastFrom
  cases hfind : (List.range' v (bound - v)).find? f.allows with
  | some u =>
    obtain ⟨hallows, hmem, hbefore⟩ := List.find?_range'_eq_some.mp hfind
    have hu : v ≤ u ∧ u < v + (bound - v) := List.mem_range'_1.mp hmem
    refine .found ⟨⟨hu.1, by omega, hallows⟩, fun w hw => ?_⟩
    by_contra hlt
    have hnot := hbefore w hw.1 (by omega)
    simp [hw.2.2] at hnot
  | none =>
    have hnone := List.find?_range'_eq_none.mp hfind
    refine .nothing fun w hw => ?_
    have hnot := hnone w hw.1 (by have := hw.1; have := hw.2.1; omega)
    simp [hw.2.2] at hnot

namespace Pattern

variable (p : Pattern)

theorem matchesTime_iff {t : Nat} :
    p.matchesTime t = true ↔ p.hour.allows (t / 3600) = true ∧
      p.minute.allows (t / 60 % 60) = true ∧ p.second.allows (t % 60) = true := by
  simp [matchesTime, and_assoc]

theorem matchesAt_iff {s : Int} :
    p.matchesAt s = true ↔ p.matchesDay (dayOf s) = true ∧ p.matchesTime (timeOf s) = true := by
  simp [matchesAt]

/-! ## Times of day -/

/-- The seconds of minute `m` of hour `h`. -/
theorem secondFrom_isFirst (h m s : Nat) :
    IsFirst {t | t / 60 = h * 60 + m ∧ s ≤ t % 60 ∧ p.second.allows (t % 60) = true}
      (p.secondFrom h m s) := by
  have hmono : Monotone fun u => h * 3600 + m * 60 + u := fun a b hab => by dsimp only; omega
  refine ((p.second.leastFrom_isFirst 60 s).map hmono).congr fun t => ⟨?_, ?_⟩
  · rintro ⟨u, ⟨hs, hu, hallows⟩, rfl⟩
    have hmod : (h * 3600 + m * 60 + u) % 60 = u := by omega
    refine ⟨by dsimp only; omega, ?_, ?_⟩ <;> dsimp only <;> rw [hmod]
    · exact hs
    · exact hallows
  · rintro ⟨ht, hs, hallows⟩
    exact ⟨t % 60, ⟨hs, by omega, hallows⟩, by dsimp only; omega⟩

/-- The minutes of hour `h`.  Whether a minute has a second that is allowed does not depend on the
minute, so the search does not come back for another one. -/
theorem minuteFrom_isFirst (h m : Nat) :
    IsFirst {t | t / 3600 = h ∧ m ≤ t / 60 % 60 ∧ p.minute.allows (t / 60 % 60) = true ∧
      p.second.allows (t % 60) = true} (p.minuteFrom h m) := by
  refine ((p.minute.leastFrom_isFirst 60 m).bind (fun a _ => p.secondFrom_isFirst h a 0)
    ?_ ?_).congr fun t => ?_
  · rintro a - b - hab x ⟨hx, -⟩ y ⟨hy, -⟩
    omega
  · rintro a - b - ⟨t, ht, -, hallows⟩
    have hmod : ((h * 60 + a) * 60 + t % 60) % 60 = t % 60 := by omega
    exact ⟨(h * 60 + a) * 60 + t % 60, by omega, by omega, by rw [hmod]; exact hallows⟩
  · simp only [Set.mem_iUnion₂, Set.mem_ofPred_eq, exists_prop]
    constructor
    · rintro ⟨a, ⟨hm, ha, hallows⟩, ht, -, hsecond⟩
      have hmod : t / 60 % 60 = a := by omega
      exact ⟨by omega, by omega, hmod ▸ hallows, hsecond⟩
    · rintro ⟨ht, hm, hallows, hsecond⟩
      exact ⟨t / 60 % 60, ⟨hm, by omega, hallows⟩, by omega, by omega, hsecond⟩

/-- The hours of a day, likewise. -/
theorem hourFrom_isFirst (h : Nat) :
    IsFirst {t | h ≤ t / 3600 ∧ t < 86400 ∧ p.matchesTime t = true} (p.hourFrom h) := by
  refine ((p.hour.leastFrom_isFirst 24 h).bind (fun a _ => p.minuteFrom_isFirst a 0)
    ?_ ?_).congr fun t => ?_
  · rintro a - b - hab x ⟨hx, -⟩ y ⟨hy, -⟩
    omega
  · rintro a - b - ⟨t, ht, -, hminute, hsecond⟩
    have hmod : (a * 3600 + t % 3600) % 60 = t % 60 := by omega
    have hdiv : (a * 3600 + t % 3600) / 60 % 60 = t / 60 % 60 := by omega
    refine ⟨a * 3600 + t % 3600, by omega, by omega, ?_, ?_⟩
    · rw [hdiv]
      exact hminute
    · rw [hmod]
      exact hsecond
  · simp only [Set.mem_iUnion₂, Set.mem_ofPred_eq, exists_prop, matchesTime_iff]
    constructor
    · rintro ⟨a, ⟨hh, ha, hallows⟩, rfl, -, hminute, hsecond⟩
      exact ⟨hh, by omega, hallows, hminute, hsecond⟩
    · rintro ⟨hh, ht, hallows, hminute, hsecond⟩
      exact ⟨t / 3600, ⟨hh, by omega, hallows⟩, rfl, by omega, hminute, hsecond⟩

section RestOfDay

variable {t : Nat}

/-- What is left of the minute of `t`. -/
theorem secondFrom_isFirst_rest (hhour : p.hour.allows (t / 3600) = true)
    (hminute : p.minute.allows (t / 60 % 60) = true) :
    IsFirst {u | u / 60 = t / 60 ∧ t ≤ u ∧ p.matchesTime u = true}
      (p.secondFrom (t / 3600) (t / 60 % 60) (t % 60)) := by
  refine (p.secondFrom_isFirst _ _ _).congr fun u => ?_
  simp only [Set.mem_ofPred_eq, matchesTime_iff]
  constructor
  · rintro ⟨hu, hle, hallows⟩
    have h1 : u / 3600 = t / 3600 := by omega
    have h2 : u / 60 % 60 = t / 60 % 60 := by omega
    rw [h1, h2]
    exact ⟨by omega, by omega, hhour, hminute, hallows⟩
  · rintro ⟨hu, hle, -, -, hallows⟩
    exact ⟨by omega, by omega, hallows⟩

/-- What is left of the hour of `t` after its minute. -/
theorem minuteFrom_isFirst_rest (hhour : p.hour.allows (t / 3600) = true) :
    IsFirst {u | u / 3600 = t / 3600 ∧ t / 60 < u / 60 ∧ p.matchesTime u = true}
      (p.minuteFrom (t / 3600) (t / 60 % 60 + 1)) := by
  refine (p.minuteFrom_isFirst _ _).congr fun u => ?_
  simp only [Set.mem_ofPred_eq, matchesTime_iff]
  constructor
  · rintro ⟨hu, hle, hallows⟩
    rw [hu]
    exact ⟨rfl, by omega, hhour, hallows⟩
  · rintro ⟨hu, hle, -, hallows⟩
    exact ⟨hu, by omega, hallows⟩

/-- The times of day from `t` on: the rest of its minute, then of its hour, then of the day; a
minute or an hour that is not allowed has nothing left. -/
theorem timeFrom_isFirst (ht : t < 86400) :
    IsFirst {u | t ≤ u ∧ u < 86400 ∧ p.matchesTime u = true} (p.timeFrom t) := by
  have hlater := p.hourFrom_isFirst (t / 3600 + 1)
  unfold timeFrom
  dsimp only
  split
  · rename_i hhour
    have hrest := p.minuteFrom_isFirst_rest hhour
    split
    · rename_i hminute
      refine (((p.secondFrom_isFirst_rest hhour hminute).or hrest ?_).or hlater ?_).congr
        fun u => ⟨?_, ?_⟩
      · rintro a ⟨ha, -⟩ b ⟨-, hb, -⟩
        omega
      · rintro a (⟨ha, -⟩ | ⟨ha, -⟩) b ⟨hb, -⟩ <;> omega
      · rintro ((⟨hu, hle, hmatch⟩ | ⟨hu, hle, hmatch⟩) | ⟨hu, hlt, hmatch⟩)
          <;> exact ⟨by omega, by omega, hmatch⟩
      · rintro ⟨hle, hlt, hmatch⟩
        rcases (Nat.div_le_div_right hle : t / 60 ≤ u / 60).eq_or_lt with hu | hu
        · exact Or.inl (Or.inl ⟨hu.symm, hle, hmatch⟩)
        · by_cases hh : u / 3600 = t / 3600
          · exact Or.inl (Or.inr ⟨hh, hu, hmatch⟩)
          · exact Or.inr ⟨by omega, hlt, hmatch⟩
    · rename_i hminute
      refine (hrest.or hlater ?_).congr fun u => ⟨?_, ?_⟩
      · rintro a ⟨ha, -⟩ b ⟨hb, -⟩
        omega
      · rintro (⟨hu, hle, hmatch⟩ | ⟨hu, hlt, hmatch⟩) <;> exact ⟨by omega, by omega, hmatch⟩
      · rintro ⟨hle, hlt, hmatch⟩
        have hu : u / 60 ≠ t / 60 := fun hu => hminute (hu ▸ (p.matchesTime_iff.mp hmatch).2.1)
        by_cases hh : u / 3600 = t / 3600
        · exact Or.inl ⟨hh, by omega, hmatch⟩
        · exact Or.inr ⟨by omega, hlt, hmatch⟩
  · rename_i hhour
    refine hlater.congr fun u => ⟨?_, ?_⟩
    · rintro ⟨hu, hlt, hmatch⟩
      exact ⟨by omega, hlt, hmatch⟩
    · rintro ⟨hle, hlt, hmatch⟩
      have hu : u / 3600 ≠ t / 3600 := fun hu => hhour (hu ▸ (p.matchesTime_iff.mp hmatch).1)
      exact ⟨by omega, hlt, hmatch⟩

/-- Without leaving the minute or the hour less is found, but nothing else. -/
theorem timeFrom_eq_of_timeWithin_eq_some {u : Nat} (h : p.timeWithin t = some u) :
    p.timeFrom t = some u := by
  unfold timeWithin at h
  unfold timeFrom
  dsimp only at h ⊢
  split at h
  · rename_i hhour
    rw [if_pos hhour]
    split at h
    · rename_i hminute
      rw [if_pos hminute, h]
      rfl
    · rename_i hminute
      rw [if_neg hminute, h]
      rfl
  · rename_i hhour
    rw [if_neg hhour, h]

theorem timeWithin_self (h : p.matchesTime t = true) : p.timeWithin t = some t := by
  obtain ⟨hhour, hminute, -⟩ := p.matchesTime_iff.mp h
  have hfirst := p.secondFrom_isFirst_rest hhour hminute
  unfold timeWithin
  dsimp only
  rw [if_pos hhour, if_pos hminute]
  exact hfirst.eq_some ⟨⟨rfl, le_rfl, h⟩, fun u hu => hu.2.1⟩

end RestOfDay

/-! ## Days -/

theorem dayFrom_isFirst (n : Nat) (d : Int) :
    IsFirst {e | d ≤ e ∧ e < d + n ∧ p.matchesDay e = true} (p.dayFrom n d) := by
  induction n generalizing d with
  | zero =>
    refine .nothing fun e he => ?_
    have := he.1
    have := he.2.1
    omega
  | succ n ih =>
    unfold dayFrom
    split
    · rename_i hmatch
      exact .found ⟨⟨le_rfl, by omega, hmatch⟩, fun e he => he.1⟩
    · rename_i hmatch
      refine (ih (d + 1)).congr fun e => ⟨?_, ?_⟩
      · rintro ⟨hle, hlt, he⟩
        exact ⟨by omega, by omega, he⟩
      · rintro ⟨hle, hlt, he⟩
        have hne : e ≠ d := fun hed => hmatch (hed ▸ he)
        exact ⟨by omega, by omega, he⟩

@[simp] theorem dayOf_secondOf {d : Int} {t : Nat} (ht : t < 86400) : dayOf (secondOf d t) = d := by
  unfold dayOf secondOf daySeconds
  omega

@[simp] theorem timeOf_secondOf {d : Int} {t : Nat} (ht : t < 86400) :
    timeOf (secondOf d t) = t := by
  unfold timeOf secondOf daySeconds
  omega

theorem secondOf_dayOf (s : Int) : secondOf (dayOf s) (timeOf s) = s := dayOf_timeOf s

/-- Seconds follow each other by days, and within a day by the time. -/
theorem le_iff_dayOf_timeOf {s s' : Int} :
    s ≤ s' ↔ dayOf s < dayOf s' ∨ dayOf s = dayOf s' ∧ timeOf s ≤ timeOf s' := by
  unfold dayOf timeOf daySeconds
  omega

theorem matchesAt_secondOf {d : Int} {t : Nat} (ht : t < 86400) :
    p.matchesAt (secondOf d t) = true ↔ p.matchesDay d = true ∧ p.matchesTime t = true := by
  rw [matchesAt_iff, dayOf_secondOf ht, timeOf_secondOf ht]

/-- The seconds of the day of `c`. -/
theorem timeFrom_isFirst_today {c : Int} (hday : p.matchesDay (dayOf c) = true) :
    IsFirst {u | dayOf u = dayOf c ∧ c ≤ u ∧ p.matchesAt u = true}
      ((p.timeFrom (timeOf c)).map (secondOf (dayOf c))) := by
  have hmono : Monotone (secondOf (dayOf c)) := fun a b hab => by unfold secondOf; omega
  refine ((p.timeFrom_isFirst (timeOf_lt c)).map hmono).congr fun u => ⟨?_, ?_⟩
  · rintro ⟨t, ⟨hle, ht, hmatch⟩, rfl⟩
    refine ⟨dayOf_secondOf ht, ?_, (p.matchesAt_secondOf ht).mpr ⟨hday, hmatch⟩⟩
    rw [le_iff_dayOf_timeOf, dayOf_secondOf ht, timeOf_secondOf ht]
    exact Or.inr ⟨rfl, hle⟩
  · rintro ⟨hu, hle, hmatch⟩
    refine ⟨timeOf u, ⟨?_, timeOf_lt u, (p.matchesAt_iff.mp hmatch).2⟩, ?_⟩
    · rw [le_iff_dayOf_timeOf, hu] at hle
      exact (hle.resolve_left (lt_irrefl _)).2
    · rw [← hu, secondOf_dayOf]

/-- The days after `d`, up to the first one of the limit year.  Every day has the same times. -/
theorem laterDay_isFirst {d : Int} (hd : d < yearStart searchLimit) :
    IsFirst {u | d < dayOf u ∧ dayOf u ≤ yearStart searchLimit ∧ p.matchesAt u = true}
      (p.laterDay d) := by
  have htimes := p.timeFrom_isFirst (t := 0) (by decide)
  have hdays := p.dayFrom_isFirst (yearStart searchLimit - d).toNat (d + 1)
  unfold laterDay
  cases htime : p.timeFrom 0 with
  | none =>
    refine .nothing fun u hu => ?_
    exact htimes.eq_none_iff.mp htime (timeOf u)
      ⟨Nat.zero_le _, timeOf_lt u, (p.matchesAt_iff.mp hu.2.2).2⟩
  | some t =>
    rw [htime] at htimes
    have htimes := htimes.isLeast
    have ht : t < 86400 := htimes.1.2.1
    have hmono : Monotone fun e => secondOf e t := fun a b hab => by
      unfold secondOf daySeconds
      dsimp only
      omega
    -- the search knows the first time of each day only, which is before the day's other times
    refine (hdays.map hmono).of_subset ?_ fun u hu => ?_
    · rintro _ ⟨e, ⟨hle, hlt, hmatch⟩, rfl⟩
      change d < dayOf (secondOf e t) ∧ dayOf (secondOf e t) ≤ _ ∧ p.matchesAt (secondOf e t) = true
      rw [dayOf_secondOf ht, p.matchesAt_secondOf ht]
      exact ⟨by omega, by omega, hmatch, htimes.1.2.2⟩
    · obtain ⟨hlt, hle, hmatch⟩ := hu
      obtain ⟨hday, htime⟩ := p.matchesAt_iff.mp hmatch
      refine ⟨secondOf (dayOf u) t, ⟨dayOf u, ⟨by omega, by omega, hday⟩, rfl⟩, ?_⟩
      rw [le_iff_dayOf_timeOf, dayOf_secondOf ht, timeOf_secondOf ht]
      exact Or.inr ⟨rfl, htimes.2 ⟨Nat.zero_le _, timeOf_lt u, htime⟩⟩

/-! ## The search -/

/-- Before the limit year the search goes through the rest of the day and then from day to day. -/
theorem nextFrom_eq_or {c : Int} (hc : dayOf c < yearStart searchLimit) :
    p.nextFrom c = (if p.matchesDay (dayOf c) then
      (p.timeFrom (timeOf c)).map (secondOf (dayOf c)) else none).or (p.laterDay (dayOf c)) := by
  unfold nextFrom
  dsimp only
  rw [if_pos hc]
  cases p.matchesDay (dayOf c) with
  | false => rfl
  | true => cases p.timeFrom (timeOf c) <;> rfl

/-- Before the limit year the search finds the first match up to the end of the first day of that
year. -/
theorem nextFrom_isFirst {c : Int} (hc : dayOf c < yearStart searchLimit) :
    IsFirst {u | c ≤ u ∧ p.matchesAt u = true ∧ dayOf u ≤ yearStart searchLimit}
      (p.nextFrom c) := by
  have htoday : IsFirst {u | dayOf u = dayOf c ∧ c ≤ u ∧ p.matchesAt u = true}
      (if p.matchesDay (dayOf c) then (p.timeFrom (timeOf c)).map (secondOf (dayOf c))
        else none) := by
    split
    · exact p.timeFrom_isFirst_today ‹_›
    · rename_i hday
      refine .nothing fun u hu => ?_
      exact hday (hu.1 ▸ (p.matchesAt_iff.mp hu.2.2).1)
  rw [p.nextFrom_eq_or hc]
  refine (htoday.or (p.laterDay_isFirst hc) ?_).congr fun u => ⟨?_, ?_⟩
  · rintro a ⟨ha, -⟩ b ⟨hb, -⟩
    exact le_iff_dayOf_timeOf.mpr (Or.inl (ha ▸ hb))
  · rintro (⟨hday, hle, hmatch⟩ | ⟨hday, hle, hmatch⟩)
    · exact ⟨hle, hmatch, by omega⟩
    · exact ⟨le_iff_dayOf_timeOf.mpr (Or.inl hday), hmatch, hle⟩
  · rintro ⟨hle, hmatch, hday⟩
    rcases le_iff_dayOf_timeOf.mp hle with hlt | ⟨heq, -⟩
    · exact Or.inr ⟨hlt, hday, hmatch⟩
    · exact Or.inl ⟨heq.symm, hle, hmatch⟩

/-- What the search finds is the first match, in the limit year and later too. -/
theorem nextFrom_isLeast {c t : Int} (h : p.nextFrom c = some t) :
    IsLeast {u | c ≤ u ∧ p.matchesAt u = true} t := by
  by_cases hc : dayOf c < yearStart searchLimit
  · have hfirst := p.nextFrom_isFirst hc
    rw [h] at hfirst
    have hfirst := hfirst.isLeast
    refine ⟨⟨hfirst.1.1, hfirst.1.2.1⟩, fun u hu => ?_⟩
    by_cases hday : dayOf u ≤ yearStart searchLimit
    · exact hfirst.2 ⟨hu.1, hu.2, hday⟩
    · have := hfirst.1.2.2
      exact le_iff_dayOf_timeOf.mpr (Or.inl (by omega))
  · unfold nextFrom at h
    dsimp only at h
    rw [if_neg hc] at h
    split at h
    · rename_i hday
      obtain ⟨t', ht', rfl⟩ := Option.map_eq_some_iff.mp h
      have hfirst := p.timeFrom_isFirst_today hday
      rw [p.timeFrom_eq_of_timeWithin_eq_some ht'] at hfirst
      have hfirst := hfirst.isLeast
      refine ⟨hfirst.1.2, fun u hu => ?_⟩
      rcases le_iff_dayOf_timeOf.mp hu.1 with hlt | ⟨heq, -⟩
      · exact le_iff_dayOf_timeOf.mpr (Or.inl (hfirst.1.1.trans_lt hlt))
      · exact hfirst.2 ⟨heq.symm, hu⟩
    · cases h

/-- A second that matches is found from itself. -/
theorem nextFrom_self {c : Int} (h : p.matchesAt c = true) : p.nextFrom c = some c := by
  by_cases hc : dayOf c < yearStart searchLimit
  · exact (p.nextFrom_isFirst hc).eq_some ⟨⟨le_rfl, h, hc.le⟩, fun u hu => hu.1⟩
  · obtain ⟨hday, htime⟩ := p.matchesAt_iff.mp h
    unfold nextFrom
    dsimp only
    rw [if_neg hc, if_pos hday, p.timeWithin_self htime, Option.map_some, secondOf_dayOf]

/-- The seconds that match. -/
def matchSet : Set Int := {s | p.matchesAt s = true}

/-- The second at which the limit year begins. -/
def limitSecond : Int := yearStart searchLimit * daySeconds

/-- The end of the first day of that year. -/
def reachSecond : Int := (yearStart searchLimit + 1) * daySeconds

theorem nextFrom_findsFirst : FindsFirst p.matchSet limitSecond reachSecond p.nextFrom where
  sound := p.nextFrom_isLeast
  complete {c} hc := by
    have hday : dayOf c < yearStart searchLimit := by
      unfold limitSecond at hc
      unfold dayOf daySeconds at *
      omega
    refine (p.nextFrom_isFirst hday).congr fun u => ?_
    have hreach : dayOf u ≤ yearStart searchLimit ↔ u < reachSecond := by
      unfold reachSecond dayOf daySeconds
      omega
    exact ⟨fun h => ⟨⟨h.1, h.2.1⟩, hreach.mp h.2.2⟩, fun h => ⟨h.1.1, h.1.2, hreach.mpr h.2⟩⟩
  self := p.nextFrom_self

end Pattern

end FleetUpdate.Cron
