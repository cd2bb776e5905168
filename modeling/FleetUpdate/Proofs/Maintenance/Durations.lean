import FleetUpdate.Maintenance.Duration
import FleetUpdate.Proofs.Text.Reading

/-!
# Durations and offsets

The texts that stand for a duration or an offset are told by `IsDuration` and `IsOffset`, without a
reader, and the readers accept just these (`durationSeconds?_eq_some_iff`,
`zoneSeconds?_eq_some_iff`).

Blanks around a text do not count, and every other text is refused with an error that has the text as
it was given (`parseDuration_reads`, `parseOffset_reads`).
-/

namespace FleetUpdate.Maintenance

open Text

/-! ## What is accepted -/

/-- The text stands for a duration: hours, minutes and seconds, of which not all are zero. -/
inductive IsDuration : List Char → Nat → Prop where
  | intro {hours minutes seconds : List Char} {h m s : Nat} (hh : Numeral hours h)
      (hm : Numeral minutes m) (hs : Numeral seconds s) (hours_lt : h < 100000)
      (minutes_lt : m < 60) (seconds_lt : s < 60) (some_time : ¬ (h = 0 ∧ m = 0 ∧ s = 0)) :
      IsDuration (hours ++ ':' :: (minutes ++ ':' :: seconds)) (3600 * h + 60 * m + s)

/-- The text stands for hours and minutes, up to eighteen hours and some minutes. -/
inductive IsShift : List Char → Nat → Prop where
  | intro {hours minutes : List Char} {h m : Nat} (hh : Numeral hours h) (hm : Numeral minutes m)
      (hours_le : h ≤ 18) (minutes_lt : m < 60) :
      IsShift (hours ++ ':' :: minutes) (3600 * h + 60 * m)

/-- The text stands for an offset from UTC. -/
inductive IsOffset : List Char → Int → Prop where
  | utc : IsOffset ['Z'] 0
  | ahead {cs : List Char} {n : Nat} (h : IsShift cs n) : IsOffset ('+' :: cs) n
  | behind {cs : List Char} {n : Nat} (h : IsShift cs n) : IsOffset ('-' :: cs) (-n)

variable {cs : List Char}

theorem naturalBelow?_eq_some_iff {bound n : Nat} :
    naturalBelow? bound cs = some n ↔ Numeral cs n ∧ n < bound := by
  rw [naturalBelow?, Option.filter_eq_some_iff, natural?_eq_some_iff_numeral, decide_eq_true_eq]

theorem lt_of_naturalBelow? {bound n : Nat} (h : naturalBelow? bound cs = some n) : n < bound :=
  (naturalBelow?_eq_some_iff.mp h).2

theorem durationSeconds?_eq_some_iff {n : Nat} :
    durationSeconds? cs = some n ↔ IsDuration cs n := by
  constructor
  · intro h
    unfold durationSeconds? at h
    split at h
    · rename_i hours minutes seconds hpieces
      obtain ⟨h, hh, hrest⟩ := Option.bind_eq_some_iff.mp h
      obtain ⟨m, hm, hrest⟩ := Option.bind_eq_some_iff.mp hrest
      obtain ⟨s, hs, hrest⟩ := Option.bind_eq_some_iff.mp hrest
      rw [naturalBelow?_eq_some_iff] at hh hm hs
      have hcs := intercalate_pieces ':' cs
      rw [hpieces] at hcs
      obtain rfl : hours ++ ':' :: (minutes ++ ':' :: seconds) = cs := by
        simpa [List.intercalate, List.intersperse] using hcs
      dsimp only at hrest
      split at hrest
      · cases hrest
      · rename_i hne
        obtain rfl : 3600 * h + 60 * m + s = n := by
          rw [← Option.some.inj hrest]
          omega
        exact .intro hh.1 hm.1 hs.1 hh.2 hm.2 hs.2 (by omega)
    · cases h
  · rintro ⟨hh, hm, hs, hh', hm', hs', hsome⟩
    rename_i hours minutes seconds h m s
    have hpieces : pieces (· == ':') (hours ++ ':' :: (minutes ++ ':' :: seconds)) =
        [hours, minutes, seconds] := by
      rw [pieces_append (hh.notMem rfl), pieces_append (hm.notMem rfl),
        pieces_of_notMem (hs.notMem rfl)]
    have hne : ¬ h * 3600 + m * 60 + s = 0 := by omega
    unfold durationSeconds?
    rw [hpieces]
    simp only [naturalBelow?_eq_some_iff.mpr ⟨hh, hh'⟩, naturalBelow?_eq_some_iff.mpr ⟨hm, hm'⟩,
      naturalBelow?_eq_some_iff.mpr ⟨hs, hs'⟩, Option.bind_some, bind, if_neg hne]
    congr 1
    omega

theorem offsetSeconds?_eq_some_iff {n : Nat} : offsetSeconds? cs = some n ↔ IsShift cs n := by
  constructor
  · intro h
    obtain ⟨⟨hours, minutes⟩, hcut, hrest⟩ := Option.bind_eq_some_iff.mp h
    obtain ⟨h, hh, hrest⟩ := Option.bind_eq_some_iff.mp hrest
    obtain ⟨m, hm, hrest⟩ := Option.bind_eq_some_iff.mp hrest
    rw [naturalBelow?_eq_some_iff] at hh hm
    obtain rfl : 3600 * h + 60 * m = n := by
      rw [← Option.some.inj hrest]
      omega
    rw [eq_append_of_cutAt hcut]
    exact .intro hh.1 hm.1 (by omega) hm.2
  · rintro ⟨hh, hm, hh', hm'⟩
    rename_i hours minutes h m
    unfold offsetSeconds?
    rw [cutAt_append (hh.notMem rfl)]
    simp only [naturalBelow?_eq_some_iff.mpr ⟨hh, Nat.lt_succ_of_le hh'⟩,
      naturalBelow?_eq_some_iff.mpr ⟨hm, hm'⟩, Option.bind_some, bind]
    congr 1
    omega

theorem zoneSeconds?_ahead :
    zoneSeconds? ('+' :: cs) = (offsetSeconds? cs).map fun n : Nat => (n : Int) := by
  show Option.map _ _ = _
  cases offsetSeconds? cs <;> rfl

theorem zoneSeconds?_behind :
    zoneSeconds? ('-' :: cs) = (offsetSeconds? cs).map fun n : Nat => -(n : Int) := by
  show Option.map _ _ = _
  cases offsetSeconds? cs <;> rfl

/-- Any other text is no offset. -/
theorem zoneSeconds?_eq_none (h : cs ≠ ['Z']) (h' : cs.head? ≠ some '+' ∧ cs.head? ≠ some '-') :
    zoneSeconds? cs = none := by
  unfold zoneSeconds?
  split
  · exact absurd rfl h
  · exact absurd rfl h'.1
  · exact absurd rfl h'.2
  · rfl

theorem zoneSeconds?_eq_some_iff {n : Int} : zoneSeconds? cs = some n ↔ IsOffset cs n := by
  constructor
  · intro h
    by_cases hutc : cs = ['Z']
    · rw [hutc] at h ⊢
      obtain rfl := Option.some.inj h
      exact .utc
    by_cases hahead : cs.head? = some '+'
    · obtain ⟨r, rfl⟩ := List.head?_eq_some_iff.mp hahead
      rw [zoneSeconds?_ahead] at h
      obtain ⟨k, hk, rfl⟩ := Option.map_eq_some_iff.mp h
      exact .ahead (offsetSeconds?_eq_some_iff.mp hk)
    by_cases hbehind : cs.head? = some '-'
    · obtain ⟨r, rfl⟩ := List.head?_eq_some_iff.mp hbehind
      rw [zoneSeconds?_behind] at h
      obtain ⟨k, hk, rfl⟩ := Option.map_eq_some_iff.mp h
      exact .behind (offsetSeconds?_eq_some_iff.mp hk)
    · rw [zoneSeconds?_eq_none hutc ⟨hahead, hbehind⟩] at h
      cases h
  · rintro (_ | hshift | hshift)
    · rfl
    · rw [zoneSeconds?_ahead, offsetSeconds?_eq_some_iff.mpr hshift, Option.map_some]
    · rw [zoneSeconds?_behind, offsetSeconds?_eq_some_iff.mpr hshift, Option.map_some]

/-! ## What is read -/

/-- What becomes of a text: it is read as what it stands for, or refused if it stands for nothing. -/
structure Reads {α : Type} (result : Except MaintenanceError α) (StandsFor : α → Prop)
    (refusal : MaintenanceError) : Prop where
  ok : ∀ n, result = .ok n ↔ StandsFor n
  refused : result = .error refusal ↔ ∀ n, ¬ StandsFor n

theorem parseDuration_reads (text : String) : Reads (parseDuration text)
    (fun n => ∃ core, Trims text.toList core ∧ IsDuration core n) (.invalidDuration text) := by
  simp only [← trimChars_eq_iff, exists_eq_left', ← durationSeconds?_eq_some_iff]
  unfold parseDuration
  cases durationSeconds? (trimChars text.toList) with
  | none => exact ⟨by simp, by simp⟩
  | some n => exact ⟨by simp, by simp⟩

theorem parseOffset_reads (text : String) : Reads (parseOffset text)
    (fun n => ∃ core, Trims text.toList core ∧ IsOffset core n) (.invalidTimezone text) := by
  simp only [← trimChars_eq_iff, exists_eq_left', ← zoneSeconds?_eq_some_iff]
  unfold parseOffset
  cases zoneSeconds? (trimChars text.toList) with
  | none => exact ⟨by simp, by simp⟩
  | some n => exact ⟨by simp, by simp⟩

end FleetUpdate.Maintenance
