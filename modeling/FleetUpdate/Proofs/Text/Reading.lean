import FleetUpdate.Text.Numeral
import FleetUpdate.Text.Split
import Mathlib.Data.List.DropRight
import Mathlib.Data.Nat.Digits.Defs

/-!
# What readers read

The readers of numbers, durations and years drop the blanks around a text, cut what is left at
separators, and read numerals.  Here each of these steps is told from the text alone, by a relation
that does not mention the reader: `Trims`, `Numeral`, and texts put together from pieces that hold no
separator.
-/

namespace FleetUpdate.Text

/-! ## Blanks around a text -/

/-- A text is a core with blanks around it, and the core neither begins nor ends with a blank. -/
structure Trims (cs core : List Char) : Prop where
  around : ∃ before after, cs = before ++ core ++ after ∧
    (∀ c ∈ before, isBlank c = true) ∧ ∀ c ∈ after, isBlank c = true
  first : ∀ c ∈ core.head?, isBlank c = false
  last : ∀ c ∈ core.getLast?, isBlank c = false

/-- A text that begins with something else than a blank keeps all that is dropped at its front. -/
theorem dropWhile_eq_self {cs : List Char} (h : ∀ c ∈ cs.head?, isBlank c = false) :
    cs.dropWhile isBlank = cs := by
  cases cs with
  | nil => rfl
  | cons c r => exact List.dropWhile_cons_of_neg (by simp [h c rfl])

theorem Trims.trimChars_eq {cs core : List Char} (h : Trims cs core) : trimChars cs = core := by
  obtain ⟨before, after, rfl, hbefore, hafter⟩ := h.around
  have hreversed : ∀ c ∈ after.reverse, isBlank c = true := fun c hc =>
    hafter c (List.mem_reverse.mp hc)
  cases core with
  | nil =>
    refine trimChars_eq_nil_of_all (List.all_eq_true.mpr fun c hc => ?_)
    rw [List.append_nil] at hc
    exact (List.mem_append.mp hc).elim (hbefore c) (hafter c)
  | cons c r =>
    have hfront : (before ++ c :: r ++ after).dropWhile isBlank = c :: r ++ after := by
      rw [List.append_assoc, List.dropWhile_append_of_pos hbefore]
      exact dropWhile_eq_self h.first
    have hback : ((c :: r).reverse).dropWhile isBlank = (c :: r).reverse :=
      dropWhile_eq_self fun x hx => h.last x (by rwa [List.head?_reverse] at hx)
    rw [trimChars, hfront, List.reverse_append, List.dropWhile_append_of_pos hreversed, hback,
      List.reverse_reverse]

/-- Dropping blanks stops at something else. -/
theorem isBlank_head?_dropWhile (cs : List Char) :
    ∀ c ∈ (cs.dropWhile isBlank).head?, isBlank c = false := by
  intro c hc
  have hstop := List.head?_dropWhile_not isBlank cs
  rw [Option.mem_def.mp hc] at hstop
  exact hstop

theorem trims_trimChars (cs : List Char) : Trims cs (trimChars cs) := by
  have hcore : trimChars cs = (cs.dropWhile isBlank).rdropWhile isBlank := rfl
  refine ⟨⟨cs.takeWhile isBlank, (cs.dropWhile isBlank).rtakeWhile isBlank, ?_, ?_, ?_⟩, ?_, ?_⟩
  · rw [hcore, List.append_assoc, List.rdropWhile_append_rtakeWhile, List.takeWhile_append_dropWhile]
  · exact fun c hc => List.mem_takeWhile_imp hc
  · exact fun c hc => List.mem_rtakeWhile_imp hc
  · intro c hc
    obtain ⟨after, hafter⟩ : trimChars cs <+: cs.dropWhile isBlank := List.rdropWhile_prefix isBlank _
    refine isBlank_head?_dropWhile cs c ?_
    rw [← hafter, List.head?_append, Option.mem_def.mp hc]
    rfl
  · intro c hc
    rw [trimChars, List.getLast?_reverse] at hc
    exact isBlank_head?_dropWhile _ c hc

theorem trimChars_eq_iff {cs core : List Char} : trimChars cs = core ↔ Trims cs core :=
  ⟨fun h => h ▸ trims_trimChars cs, Trims.trimChars_eq⟩

theorem trimChars_trimChars (cs : List Char) : trimChars (trimChars cs) = trimChars cs :=
  have h := trims_trimChars cs
  trimChars_eq_iff.mpr ⟨⟨[], [], by simp⟩, h.first, h.last⟩

/-- A text without blanks has none around it. -/
theorem trimChars_eq_self {cs : List Char} (h : ∀ c ∈ cs, isBlank c = false) : trimChars cs = cs :=
  trimChars_eq_iff.mpr ⟨⟨[], [], by simp⟩, fun c hc => h c (List.mem_of_mem_head? hc),
    fun c hc => h c (List.mem_of_mem_getLast? hc)⟩

theorem allBlank_iff {s : String} : allBlank s = true ↔ trimChars s.toList = [] := by
  constructor
  · exact trimChars_eq_nil_of_all
  · intro h
    obtain ⟨before, after, hs, hbefore, hafter⟩ := (trimChars_eq_iff.mp h).around
    rw [allBlank, List.all_eq_true, hs, List.append_nil]
    exact fun c hc => (List.mem_append.mp hc).elim (hbefore c) (hafter c)

/-! ## Cutting at separators -/

section Cut

variable {x : Char} {cs : List Char}

theorem cutAt_eq_none (h : x ∉ cs) : cutAt x cs = none := by
  induction cs with
  | nil => rfl
  | cons c r ih =>
    obtain ⟨hne, hr⟩ := not_or.mp (List.mem_cons.not.mp h)
    simp [cutAt, Ne.symm hne, ih hr]

theorem cutAt_append (h : x ∉ cs) (r : List Char) : cutAt x (cs ++ x :: r) = some (cs, r) := by
  induction cs with
  | nil => simp [cutAt]
  | cons c cs ih =>
    obtain ⟨hne, hcs⟩ := not_or.mp (List.mem_cons.not.mp h)
    simp [cutAt, Ne.symm hne, ih hcs]

theorem eq_append_of_cutAt {a b : List Char} (h : cutAt x cs = some (a, b)) :
    cs = a ++ x :: b := by
  induction cs generalizing a with
  | nil => cases h
  | cons c cs ih =>
    unfold cutAt at h
    split at h
    · rename_i hc
      cases h
      rw [hc, List.nil_append]
    · obtain ⟨⟨a', b'⟩, hcut, heq⟩ := Option.map_eq_some_iff.mp h
      cases heq
      rw [ih hcut, List.cons_append]

theorem pieces_of_notMem (h : x ∉ cs) : pieces (· == x) cs = [cs] := by
  induction cs with
  | nil => rfl
  | cons c r ih =>
    obtain ⟨hne, hr⟩ := not_or.mp (List.mem_cons.not.mp h)
    simp [pieces, Ne.symm hne, ih hr]

theorem pieces_append (h : x ∉ cs) (r : List Char) :
    pieces (· == x) (cs ++ x :: r) = cs :: pieces (· == x) r := by
  induction cs with
  | nil => simp [pieces]
  | cons c cs ih =>
    obtain ⟨hne, hcs⟩ := not_or.mp (List.mem_cons.not.mp h)
    simp [pieces, Ne.symm hne, ih hcs]

end Cut

/-! ## Numerals -/

/-- A non-empty run of ASCII digits, and the number that it stands for: a digit counts from `0`, and
the last one is the least significant. -/
structure Numeral (cs : List Char) (n : Nat) : Prop where
  nonempty : cs ≠ []
  digits : ∀ c ∈ cs, '0' ≤ c ∧ c ≤ '9'
  value : n = Nat.ofDigits 10 (cs.reverse.map fun c => c.toNat - '0'.toNat)

theorem valueOfDigits_eq_ofDigits (cs : List Char) :
    valueOfDigits cs = Nat.ofDigits 10 (cs.reverse.map fun c => c.toNat - '0'.toNat) := by
  have hfold : ∀ ds : List Char, ds.foldr (fun c n => 10 * n + digitValue c) 0 =
      Nat.ofDigits 10 (ds.map digitValue) := by
    intro ds
    induction ds with
    | nil => rfl
    | cons d ds ih => rw [List.foldr_cons, ih, List.map_cons, Nat.ofDigits_cons, Nat.add_comm]
  show _ = Nat.ofDigits 10 (cs.reverse.map digitValue)
  rw [valueOfDigits, ← hfold, List.foldr_reverse]

theorem isDigit_iff {c : Char} : c.isDigit = true ↔ '0' ≤ c ∧ c ≤ '9' := by
  simp [Char.isDigit]; rfl

theorem natural?_eq_some_iff_numeral {cs : List Char} {n : Nat} :
    natural? cs = some n ↔ Numeral cs n := by
  rw [natural?_eq_some_iff, valueOfDigits_eq_ofDigits]
  simp only [isNumeral, Bool.and_eq_true, List.all_eq_true, isDigit_iff]
  constructor
  · rintro ⟨⟨hne, hdigits⟩, rfl⟩
    exact ⟨by simpa using hne, hdigits, rfl⟩
  · rintro ⟨hne, hdigits, rfl⟩
    exact ⟨⟨by simpa using hne, hdigits⟩, rfl⟩

/-- No separator is part of a numeral. -/
theorem Numeral.notMem {cs : List Char} {n : Nat} (h : Numeral cs n) {x : Char}
    (hx : x.isDigit = false) : x ∉ cs := by
  intro hmem
  rw [isDigit_iff.mpr (h.digits x hmem)] at hx
  cases hx

end FleetUpdate.Text
