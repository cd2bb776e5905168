import FleetUpdate.Proofs.Maintenance.Durations

/-!
# Durations and offsets on a machine

`parseDuration` and `parseOffset` count in natural numbers and in integers.  A machine counts in
integers of 64 and 32 bits, cuts a text at a byte, and asks the types of durations and of offsets
whether a number of seconds is in their range.  `Machine.parseDuration` and `Machine.parseOffset`
take these steps one by one, and stop with a `Fault` as soon as one of them goes wrong.

None ever does (`Machine.parseDuration_eq`, `Machine.parseOffset_eq`).  A numeral whose digits do not
fit is not read, and is above every bound anyway; what has been read is held against its bound before
anything is made of it, and the bounds leave no room for more than a few hundred million seconds.
-/

namespace FleetUpdate.Maintenance

open Text

namespace Machine

/-! ## Steps that can go wrong -/

/-- What must not happen. -/
inductive Fault where
  /-- A value does not fit in its type. -/
  | overflow
  /-- A text is cut inside of a character. -/
  | boundary
  /-- A number of seconds is refused by the type of durations or of offsets. -/
  | range
  deriving DecidableEq

/-- A type of integers, from the lowest to the highest one. -/
structure IntType where
  lowest : Int
  highest : Int

/-- Unsigned integers of 64 bits. -/
def u64 : IntType := ⟨0, 2 ^ 64 - 1⟩

/-- Signed integers of 64 bits. -/
def i64 : IntType := ⟨-2 ^ 63, 2 ^ 63 - 1⟩

/-- Signed integers of 32 bits. -/
def i32 : IntType := ⟨-2 ^ 31, 2 ^ 31 - 1⟩

/-- The result of a step, if it fits in the type. -/
def IntType.hold (t : IntType) (n : Int) : Except Fault Int :=
  if t.lowest ≤ n ∧ n ≤ t.highest then .ok n else .error .overflow

/-- The number that a run of digits stands for, digit by digit. -/
def IntType.readDigits (t : IntType) (cs : List Char) : Except Fault Int :=
  cs.foldlM (fun n c => do
    let shifted ← t.hold (10 * n)
    t.hold (shifted + digitValue c)) 0

/-- A numeral below a bound.  Whatever does not fit in 64 bits is not read. -/
def numeralBelow? (bound : Nat) (cs : List Char) : Option Int :=
  (if isNumeral cs then (u64.readDigits cs).toOption else none).filter fun n => n < (bound : Int)

/-- What is left of a text behind its first bytes. -/
def dropBytes : Nat → List Char → Except Fault (List Char)
  | 0, cs => .ok cs
  | _ + 1, [] => .error .boundary
  | n + 1, c :: r =>
    if c.utf8Size ≤ n + 1 then dropBytes (n + 1 - c.utf8Size) r else .error .boundary

/-- Which numbers of seconds the types of durations and of offsets take. -/
structure Ranges where
  duration : Int → Bool
  offset : Int → Bool

/-- A duration has a number of milliseconds that fits in 64 bits, of either sign; an offset is less
than a day. -/
structure Ranges.AsDocumented (k : Ranges) : Prop where
  duration : ∀ n, k.duration n = true ↔ -(2 ^ 63 - 1) ≤ 1000 * n ∧ 1000 * n ≤ 2 ^ 63 - 1
  offset : ∀ n, k.offset n = true ↔ -86400 < n ∧ n < 86400

/-- The value that is made of a number of seconds. -/
def checked (inRange : Int → Bool) (n : Int) : Except Fault (Option Int) :=
  if inRange n then .ok (some n) else .error .range

/-! ## The two readers -/

/-- The seconds that three numbers make together. -/
def durationOf (k : Ranges) (h m s : Int) : Except Fault (Option Int) := do
  let hours ← u64.hold (h * 3600)
  let minutes ← u64.hold (m * 60)
  let both ← u64.hold (hours + minutes)
  let total ← u64.hold (both + s)
  if total = 0 then .ok none
  else
    let signed ← i64.hold total
    checked k.duration signed

/-- The seconds of a duration. -/
def durationSeconds? (k : Ranges) (cs : List Char) : Except Fault (Option Int) :=
  match pieces (· == ':') cs with
  | [h, m, s] =>
    match numeralBelow? 100000 h, numeralBelow? 60 m, numeralBelow? 60 s with
    | some h, some m, some s => durationOf k h m s
    | _, _, _ => .ok none
  | _ => .ok none

/-- The seconds that a sign and two numbers make together. -/
def offsetOf (k : Ranges) (sign h m : Int) : Except Fault (Option Int) := do
  let hours ← u64.hold (h * 3600)
  let minutes ← u64.hold (m * 60)
  let total ← u64.hold (hours + minutes)
  let narrow ← i32.hold total
  let signed ← i32.hold (sign * narrow)
  checked k.offset signed

/-- The seconds of an offset behind its sign. -/
def offsetSeconds? (k : Ranges) (sign : Int) (cs : List Char) : Except Fault (Option Int) := do
  let unsigned ← dropBytes 1 cs
  match cutAt ':' unsigned with
  | none => .ok none
  | some (h, m) =>
    match numeralBelow? 19 h, numeralBelow? 60 m with
    | some h, some m => offsetOf k sign h m
    | _, _ => .ok none

/-- The seconds by which a zone is ahead of UTC. -/
def zoneSeconds? (k : Ranges) (cs : List Char) : Except Fault (Option Int) :=
  if cs = ['Z'] then checked k.offset 0
  else
    match cs.head? with
    | some '+' => offsetSeconds? k 1 cs
    | some '-' => offsetSeconds? k (-1) cs
    | _ => .ok none

/-- Whatever has not been read is refused with an error. -/
def orRefused (e : MaintenanceError) (x : Except Fault (Option Int)) :
    Except Fault (Except MaintenanceError Int) :=
  x.map fun n? => n?.elim (.error e) .ok

/-- Reads a duration. -/
def parseDuration (k : Ranges) (text : String) : Except Fault (Except MaintenanceError Int) :=
  orRefused (.invalidDuration text) (durationSeconds? k (trimChars text.toList))

/-- Reads an offset from UTC. -/
def parseOffset (k : Ranges) (text : String) : Except Fault (Except MaintenanceError Int) :=
  orRefused (.invalidTimezone text) (zoneSeconds? k (trimChars text.toList))

/-! ## Nothing goes wrong -/

theorem hold_of_mem {t : IntType} {n : Int} (hlow : t.lowest ≤ n) (hhigh : n ≤ t.highest) :
    t.hold n = .ok n :=
  if_pos ⟨hlow, hhigh⟩

theorem hold_of_lt {t : IntType} {n : Int} (h : t.highest < n) : t.hold n = .error .overflow :=
  if_neg fun hmem => absurd hmem.2 (Int.not_le.mpr h)

variable {cs : List Char} {k : Ranges}

/-- The digits are read if the number fits, for then whatever comes before the last digit fits as
well. -/
theorem readDigits_eq_hold {t : IntType} (hlow : t.lowest ≤ 0) (hhigh : 0 ≤ t.highest) :
    t.readDigits cs = t.hold (valueOfDigits cs) := by
  induction cs using List.reverseRecOn with
  | nil => exact (hold_of_mem hlow hhigh).symm
  | append_singleton cs c ih =>
    have hvalue : valueOfDigits (cs ++ [c]) = 10 * valueOfDigits cs + digitValue c := by
      simp [valueOfDigits]
    have hread : t.readDigits (cs ++ [c]) = (t.readDigits cs >>= fun n => do
        let shifted ← t.hold (10 * n)
        t.hold (shifted + digitValue c)) := by
      simp [IntType.readDigits]
    rw [hread, ih, hvalue]
    push_cast
    by_cases hfits : (valueOfDigits cs : Int) ≤ t.highest
    · rw [hold_of_mem (by omega) hfits]
      show (t.hold (10 * _) >>= _) = _
      by_cases hfits' : 10 * (valueOfDigits cs : Int) ≤ t.highest
      · rw [hold_of_mem (by omega) hfits']
        rfl
      · rw [hold_of_lt (by omega), hold_of_lt (by omega)]
        rfl
    · rw [hold_of_lt (by omega), hold_of_lt (by omega)]
      rfl

/-- A numeral below a bound of at most 64 bits is read as what it is, for a larger one is above the
bound. -/
theorem numeralBelow?_eq {bound : Nat} (hbound : bound ≤ 2 ^ 64) :
    numeralBelow? bound cs = (naturalBelow? bound cs).map fun n : Nat => (n : Int) := by
  unfold numeralBelow? naturalBelow? natural?
  by_cases hnumeral : isNumeral cs = true
  · rw [if_pos hnumeral, if_pos hnumeral, readDigits_eq_hold (t := u64) (Int.le_refl 0) (by decide)]
    by_cases hfits : (valueOfDigits cs : Int) ≤ u64.highest
    · rw [hold_of_mem (Int.natCast_nonneg _) hfits]
      by_cases hlt : valueOfDigits cs < bound <;> simp [Except.toOption, Option.filter, hlt]
    · have hbig : ¬ valueOfDigits cs < bound := by
        have hhighest : u64.highest = 2 ^ 64 - 1 := rfl
        omega
      rw [hold_of_lt (Int.not_le.mp hfits)]
      simp [Except.toOption, Option.filter, hbig]
  · rw [if_neg hnumeral, if_neg hnumeral]
    rfl

theorem checked_of_mem {inRange : Int → Bool} {n : Int} (h : inRange n = true) :
    checked inRange n = .ok (some n) :=
  if_pos h

/-- Three numbers below their bounds make a number of seconds that every type on the way holds. -/
theorem durationOf_eq (hk : k.AsDocumented) {h m s : Nat} (hh : h < 100000) (hm : m < 60)
    (hs : s < 60) : durationOf k h m s =
      .ok (if h * 3600 + m * 60 + s = 0 then none else some ((h * 3600 + m * 60 + s : Nat) : Int)) := by
  have hbounds : u64.lowest = 0 ∧ u64.highest = 2 ^ 64 - 1 ∧ i64.lowest = -2 ^ 63 ∧
      i64.highest = 2 ^ 63 - 1 := ⟨rfl, rfl, rfl, rfl⟩
  have hhours : u64.hold (h * 3600) = .ok ((h : Int) * 3600) := hold_of_mem (by omega) (by omega)
  have hminutes : u64.hold (m * 60) = .ok ((m : Int) * 60) := hold_of_mem (by omega) (by omega)
  have hboth : u64.hold (h * 3600 + m * 60) = .ok ((h : Int) * 3600 + m * 60) :=
    hold_of_mem (by omega) (by omega)
  have htotal : u64.hold (h * 3600 + m * 60 + s) = .ok ((h : Int) * 3600 + m * 60 + s) :=
    hold_of_mem (by omega) (by omega)
  have hsigned : i64.hold (h * 3600 + m * 60 + s) = .ok ((h : Int) * 3600 + m * 60 + s) :=
    hold_of_mem (by omega) (by omega)
  have hrange : k.duration (h * 3600 + m * 60 + s) = true := (hk.duration _).mpr (by omega)
  simp only [durationOf, hhours, hminutes, hboth, htotal, hsigned, checked_of_mem hrange, bind,
    Except.bind]
  split
  · rw [if_pos (by omega)]
  · rw [if_neg (by omega)]
    push_cast
    rfl

/-- Every step of reading a duration goes well, and what comes out is the duration. -/
theorem durationSeconds?_eq (hk : k.AsDocumented) : durationSeconds? k cs =
    .ok ((Maintenance.durationSeconds? cs).map fun n : Nat => (n : Int)) := by
  unfold durationSeconds? Maintenance.durationSeconds?
  generalize pieces (· == ':') cs = ps
  rcases ps with _ | ⟨hours, _ | ⟨minutes, _ | ⟨seconds, _ | ⟨fourth, more⟩⟩⟩⟩
  · rfl
  · rfl
  · rfl
  · -- three pieces are a duration if they are three numerals in their bounds
    dsimp only
    rw [numeralBelow?_eq (by decide), numeralBelow?_eq (by decide), numeralBelow?_eq (by decide)]
    cases hh : naturalBelow? 100000 hours with
    | none => rfl
    | some h =>
      cases hm : naturalBelow? 60 minutes with
      | none => rfl
      | some m =>
        cases hs : naturalBelow? 60 seconds with
        | none => rfl
        | some s =>
          have heq := durationOf_eq hk (lt_of_naturalBelow? hh) (lt_of_naturalBelow? hm)
            (lt_of_naturalBelow? hs)
          simp only [Option.map_some, Option.bind_some, bind, heq]
          split
          · rfl
          · rfl
  · rfl

/-- A sign and two numbers below their bounds make less than a day. -/
theorem offsetOf_eq (hk : k.AsDocumented) {sign : Int} (hsign : sign = 1 ∨ sign = -1) {h m : Nat}
    (hh : h < 19) (hm : m < 60) :
    offsetOf k sign h m = .ok (some (sign * (h * 3600 + m * 60 : Nat))) := by
  have hbounds : u64.lowest = 0 ∧ u64.highest = 2 ^ 64 - 1 ∧ i32.lowest = -2 ^ 31 ∧
      i32.highest = 2 ^ 31 - 1 := ⟨rfl, rfl, rfl, rfl⟩
  have hhours : u64.hold (h * 3600) = .ok ((h : Int) * 3600) := hold_of_mem (by omega) (by omega)
  have hminutes : u64.hold (m * 60) = .ok ((m : Int) * 60) := hold_of_mem (by omega) (by omega)
  have htotal : u64.hold (h * 3600 + m * 60) = .ok ((h : Int) * 3600 + m * 60) :=
    hold_of_mem (by omega) (by omega)
  have hnarrow : i32.hold (h * 3600 + m * 60) = .ok ((h : Int) * 3600 + m * 60) :=
    hold_of_mem (by omega) (by omega)
  obtain ⟨hsigned, hrange⟩ : i32.hold (sign * (h * 3600 + m * 60)) =
      .ok (sign * ((h : Int) * 3600 + m * 60)) ∧
        k.offset (sign * (h * 3600 + m * 60)) = true := by
    rcases hsign with rfl | rfl
    · exact ⟨hold_of_mem (by omega) (by omega), (hk.offset _).mpr (by omega)⟩
    · exact ⟨hold_of_mem (by omega) (by omega), (hk.offset _).mpr (by omega)⟩
  simp only [offsetOf, hhours, hminutes, htotal, hnarrow, hsigned, checked_of_mem hrange, bind,
    Except.bind]
  push_cast
  rfl

/-- The sign is one byte long, so that the text is cut behind it. -/
theorem offsetSeconds?_eq (hk : k.AsDocumented) {sign : Int} (hsign : sign = 1 ∨ sign = -1)
    {c : Char} (hc : c.utf8Size = 1) : offsetSeconds? k sign (c :: cs) =
      .ok ((Maintenance.offsetSeconds? cs).map fun n : Nat => sign * (n : Int)) := by
  have hdrop : dropBytes 1 (c :: cs) = .ok cs := by simp [dropBytes, hc]
  unfold offsetSeconds? Maintenance.offsetSeconds?
  rw [hdrop]
  show (match cutAt ':' cs with | none => _ | some (h, m) => _) = _
  cases hcut : cutAt ':' cs with
  | none => rfl
  | some parts =>
    obtain ⟨hours, minutes⟩ := parts
    simp only [numeralBelow?_eq (show 19 ≤ 2 ^ 64 by decide),
      numeralBelow?_eq (show 60 ≤ 2 ^ 64 by decide), Option.bind_some, bind]
    cases hh : naturalBelow? 19 hours with
    | none => rfl
    | some h =>
      cases hm : naturalBelow? 60 minutes with
      | none => rfl
      | some m => exact offsetOf_eq hk hsign (lt_of_naturalBelow? hh) (lt_of_naturalBelow? hm)

/-- Every step of reading an offset goes well, and what comes out is the offset. -/
theorem zoneSeconds?_eq (hk : k.AsDocumented) :
    zoneSeconds? k cs = .ok (Maintenance.zoneSeconds? cs) := by
  unfold zoneSeconds?
  split
  · rename_i hutc
    rw [hutc]
    exact checked_of_mem ((hk.offset 0).mpr (by decide))
  · rename_i hutc
    split
    · rename_i hahead
      obtain ⟨r, rfl⟩ := List.head?_eq_some_iff.mp hahead
      rw [offsetSeconds?_eq hk (.inl rfl) rfl, zoneSeconds?_ahead]
      simp
    · rename_i hbehind
      obtain ⟨r, rfl⟩ := List.head?_eq_some_iff.mp hbehind
      rw [offsetSeconds?_eq hk (.inr rfl) rfl, zoneSeconds?_behind]
      simp
    · rename_i hahead hbehind
      rw [zoneSeconds?_eq_none hutc ⟨hahead, hbehind⟩]

/-- Reading a duration goes wrong nowhere. -/
theorem parseDuration_eq (hk : k.AsDocumented) (text : String) : parseDuration k text =
    .ok ((Maintenance.parseDuration text).map fun n : Nat => (n : Int)) := by
  unfold parseDuration Maintenance.parseDuration orRefused
  rw [durationSeconds?_eq hk]
  cases Maintenance.durationSeconds? (trimChars text.toList) <;> rfl

/-- Reading an offset goes wrong nowhere. -/
theorem parseOffset_eq (hk : k.AsDocumented) (text : String) :
    parseOffset k text = .ok (Maintenance.parseOffset text) := by
  unfold parseOffset Maintenance.parseOffset orRefused
  rw [zoneSeconds?_eq hk]
  cases Maintenance.zoneSeconds? (trimChars text.toList) <;> rfl

end Machine

/-- For every text: it is read as a duration just if, without the blanks around it, it is three
numerals with colons between, in their bounds and not all zero, and then as so many seconds; it is
read as an offset just if it is `Z`, or a sign and two numerals with a colon between, in their bounds.
Otherwise it is refused with an error that has the text as it was given.  A machine comes to the same,
with no step out of the range of its integers, with no cut inside of a character, and with a number of
seconds that durations and offsets take. -/
theorem durations_and_offsets_exact {k : Machine.Ranges} (hk : k.AsDocumented) (text : String) :
    Reads (parseDuration text) (fun n => ∃ core, Trims text.toList core ∧ IsDuration core n)
      (.invalidDuration text) ∧
    Reads (parseOffset text) (fun n => ∃ core, Trims text.toList core ∧ IsOffset core n)
      (.invalidTimezone text) ∧
    Machine.parseDuration k text = .ok ((parseDuration text).map fun n : Nat => (n : Int)) ∧
    Machine.parseOffset k text = .ok (parseOffset text) :=
  ⟨parseDuration_reads text, parseOffset_reads text, Machine.parseDuration_eq hk text,
    Machine.parseOffset_eq hk text⟩

/-- The ranges as they are documented. -/
def Machine.documented : Machine.Ranges where
  duration n := decide (-(2 ^ 63 - 1) ≤ 1000 * n ∧ 1000 * n ≤ 2 ^ 63 - 1)
  offset n := decide (-86400 < n ∧ n < 86400)

theorem Machine.asDocumented_documented : Machine.documented.AsDocumented :=
  ⟨fun _ => decide_eq_true_iff, fun _ => decide_eq_true_iff⟩

/-- The longest duration, with more zeros in front than 64 bits have digits. -/
def longestDuration : String := "\t000000000000000000000099999:59:59 "

/-- The longest duration and the offset that is furthest behind are read as what they are, and a
number of hours that comes round to zero in 64 bits is refused. -/
theorem longest_duration_exact : Machine.documented.AsDocumented ∧
    (∃ core, Trims longestDuration.toList core ∧ IsDuration core 359999999) ∧
    Machine.parseDuration Machine.documented longestDuration = .ok (.ok 359999999) ∧
    (∃ core, Trims "-18:59".toList core ∧ IsOffset core (-68340)) ∧
    Machine.parseOffset Machine.documented "-18:59" = .ok (.ok (-68340)) ∧
    ∀ n core, Trims "18446744073709551616:00:01".toList core → ¬ IsDuration core n := by
  have hk := Machine.asDocumented_documented
  have hduration : parseDuration longestDuration = .ok 359999999 := by decide +kernel
  have hoffset : parseOffset "-18:59" = .ok (-68340) := by decide +kernel
  have hrefused : parseDuration "18446744073709551616:00:01" =
      .error (.invalidDuration "18446744073709551616:00:01") := by decide +kernel
  obtain ⟨hreads, -, hmachine, -⟩ := durations_and_offsets_exact hk longestDuration
  obtain ⟨-, hreads', -, hmachine'⟩ := durations_and_offsets_exact hk "-18:59"
  obtain ⟨hround, -⟩ := durations_and_offsets_exact hk "18446744073709551616:00:01"
  rw [hduration] at hmachine
  rw [hoffset] at hmachine'
  exact ⟨hk, (hreads.ok _).mp hduration, hmachine, (hreads'.ok _).mp hoffset, hmachine',
    fun n core htrims hcore => hround.refused.mp hrefused n ⟨core, htrims, hcore⟩⟩

end FleetUpdate.Maintenance
