import FleetUpdate.Text.Blank

/-!
# Cutting texts at separators

`pieces` cuts at every separator and keeps empty pieces, so a text with `n` separators has `n + 1`
pieces; `words` cuts at runs of blanks and keeps no empty word; `cutAt` cuts once, at the first
occurrence of one character.  `intercalate_pieces` says that cutting loses nothing.
-/

namespace FleetUpdate.Text

/-- The pieces between the separators, empty ones included; never the empty list. -/
def pieces (sep : Char → Bool) : List Char → List (List Char)
  | [] => [[]]
  | c :: r =>
    if sep c then [] :: pieces sep r
    else
      match pieces sep r with
      | [] => [[c]]
      | p :: ps => (c :: p) :: ps

/-- The words of a text: its maximal runs of characters that are not blank. -/
def words (s : String) : List String :=
  ((pieces isBlank s.toList).filter fun w => !w.isEmpty).map String.ofList

/-- What stands before and after the first occurrence of a character. -/
def cutAt (x : Char) : List Char → Option (List Char × List Char)
  | [] => none
  | c :: r => if c = x then some ([], r) else (cutAt x r).map fun p => (c :: p.1, p.2)

/-- Every occurrence of the non-empty text `old` is replaced by `new`, reading left to right. -/
def replaceAll (old new : List Char) (cs : List Char) : List Char :=
  go cs 0
where
  /-- `skip` characters belong to an occurrence that has been replaced already. -/
  go : List Char → Nat → List Char
    | [], _ => []
    | _ :: r, skip + 1 => go r skip
    | c :: r, 0 =>
      if old.isEmpty then c :: go r 0
      else if old.isPrefixOf (c :: r) then new ++ go r (old.length - 1)
      else c :: go r 0

theorem pieces_ne_nil (sep : Char → Bool) (cs : List Char) : pieces sep cs ≠ [] := by
  cases cs with
  | nil => simp [pieces]
  | cons c r =>
    simp only [pieces]
    split
    · simp
    · split <;> simp

/-- The pieces hold no separator. -/
theorem not_sep_of_mem_pieces {sep : Char → Bool} {cs p : List Char} (h : p ∈ pieces sep cs) :
    ∀ c ∈ p, sep c = false := by
  induction cs generalizing p with
  | nil => simp [pieces] at h; simp [h]
  | cons c r ih =>
    simp only [pieces] at h
    split at h
    · rcases List.mem_cons.mp h with rfl | h
      · simp
      · exact ih h
    · rename_i hc
      split at h
      · rename_i hp
        exact absurd hp (pieces_ne_nil sep r)
      · rename_i q qs hq
        rcases List.mem_cons.mp h with rfl | h
        · intro x hx
          rcases List.mem_cons.mp hx with rfl | hx
          · simpa using hc
          · exact ih (hq ▸ List.mem_cons_self) x hx
        · exact ih (hq ▸ List.mem_cons_of_mem _ h)

/-- Joining the pieces at a single separating character gives the text back. -/
theorem intercalate_pieces (x : Char) (cs : List Char) :
    List.intercalate [x] (pieces (· == x) cs) = cs := by
  induction cs with
  | nil => rfl
  | cons c r ih =>
    simp only [pieces]
    cases hp : pieces (· == x) r with
    | nil => exact absurd hp (pieces_ne_nil _ r)
    | cons p ps =>
      rw [hp] at ih
      by_cases hc : c = x
      · subst hc
        simp only [beq_self_eq_true, if_true]
        rw [← ih]
        simp [List.intercalate, List.intersperse]
      · have hb : (c == x) = false := by simpa using hc
        simp only [hb]
        rw [← ih]
        cases ps <;> simp [List.intercalate, List.intersperse]

end FleetUpdate.Text
