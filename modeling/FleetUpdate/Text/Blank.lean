import FleetUpdate.Text.Ranges

/-!
# Blank characters

Names, settings and schedules come from people, so every text is judged without the blanks around
it, and a schedule is cut into words at runs of blanks.  A blank is a character with the Unicode
property `White_Space`: twenty-five characters, far more than the four that `Char.isWhitespace`
knows.  The table is the whole property; nothing here depends on a language or a locale.
-/

namespace FleetUpdate.Text

/-- The ranges of the Unicode property `White_Space`, first and last code point of each. -/
def blankRanges : List (Nat × Nat) :=
  [(0x09, 0x0D), (0x20, 0x20), (0x85, 0x85), (0xA0, 0xA0), (0x1680, 0x1680), (0x2000, 0x200A),
   (0x2028, 0x2029), (0x202F, 0x202F), (0x205F, 0x205F), (0x3000, 0x3000)]

/-- A character of the property `White_Space`. -/
def isBlank (c : Char) : Bool := inRanges blankRanges c

theorem ascending_blankRanges : ascending blankRanges = true := by decide

/-- What core calls white space is blank. -/
theorem isBlank_of_isWhitespace {c : Char} (h : c.isWhitespace = true) : isBlank c = true := by
  simp only [Char.isWhitespace, Bool.or_eq_true, decide_eq_true_eq] at h
  rcases h with ((rfl | rfl) | rfl) | rfl <;> decide

/-- The characters left when the blanks at both ends are dropped. -/
def trimChars (cs : List Char) : List Char :=
  ((cs.dropWhile isBlank).reverse.dropWhile isBlank).reverse

/-- The text without the blanks at both ends. -/
def trim (s : String) : String :=
  String.ofList (trimChars s.toList)

/-- A text of blanks only; the empty text is one. -/
def allBlank (s : String) : Bool :=
  s.toList.all isBlank

theorem dropWhile_eq_nil_of_all {p : Char → Bool} {cs : List Char} (h : cs.all p = true) :
    cs.dropWhile p = [] := by
  induction cs with
  | nil => rfl
  | cons c r ih =>
    simp only [List.all_cons, Bool.and_eq_true] at h
    simp [h.1, ih h.2]

/-- Nothing is left of a text of blanks. -/
theorem trimChars_eq_nil_of_all {cs : List Char} (h : cs.all isBlank = true) :
    trimChars cs = [] := by
  simp [trimChars, dropWhile_eq_nil_of_all h]

end FleetUpdate.Text
