import FleetUpdate.Text.Blank

/-!
# Statements of a settings file

A settings file is cut into statements before any of them is read.  A statement is a line, and goes
on with the next one as long as a quote is open; a backslash takes the meaning from the character
after it, here between single quotes too.  A number sign right after a single blank begins a remark,
which reaches to the end of its line and belongs to no statement.  The file must not end within a
quote, after a backslash, or after a blank that could still begin a remark: such a statement is not
one, and is left out.
-/

namespace FleetUpdate.DotEnv

open Text

/-- The lines of a text, each with the line feed that ends it. -/
def linesOf : List Char → List (List Char)
  | [] => []
  | c :: r =>
    if c = '\n' then [c] :: linesOf r
    else
      match linesOf r with
      | [] => [[c]]
      | l :: ls => (c :: l) :: ls

/-- Nothing is lost between lines. -/
theorem flatten_linesOf (cs : List Char) : (linesOf cs).flatten = cs := by
  induction cs with
  | nil => rfl
  | cons c r ih =>
    unfold linesOf
    split
    · simp [ih]
    · split
      · rename_i h
        rw [h] at ih
        simp [← ih]
      · rename_i h
        rw [h] at ih
        simp [← ih]

/-- How a statement stands after some of its characters. -/
inductive Standing where
  /-- It could end here. -/
  | settled
  /-- A blank came last, so that a remark may begin. -/
  | blank
  | escaped
  | single
  | singleEscaped
  | double
  | doubleEscaped
  deriving DecidableEq

namespace Standing

/-- How a statement stands after a character outside of quotes that is no blank. -/
def after (c : Char) : Standing :=
  if c = '\\' then escaped
  else if c = '\'' then single
  else if c = '"' then double
  else settled

/-- How a statement stands after one more character, unless a remark begins with it. -/
def next (s : Standing) (c : Char) : Option Standing :=
  match s with
  | settled =>
    if isBlank c ∧ c ≠ '\n' ∧ c ≠ '\r' then some blank else some (after c)
  | blank => if c = '#' then none else some (after c)
  | escaped => some settled
  | single =>
    some (if c = '\\' then singleEscaped else if c = '\'' then settled else single)
  | singleEscaped => some single
  | double =>
    some (if c = '\\' then doubleEscaped else if c = '"' then settled else double)
  | doubleEscaped => some double

end Standing

/-- What a line adds to a statement, and how the statement stands after it, unless a remark has
ended it. -/
def scan : Standing → List Char → List Char × Option Standing
  | s, [] => ([], some s)
  | s, c :: r =>
    match s.next c with
    | none => ([], none)
    | some s => (c :: (scan s r).1, (scan s r).2)

/-- Only a remark is left out of a line. -/
theorem scan_isPrefix (s : Standing) (cs : List Char) : (scan s cs).1 <+: cs := by
  induction cs generalizing s with
  | nil => exact List.nil_prefix
  | cons c r ih =>
    unfold scan
    split
    · exact List.nil_prefix
    · exact List.cons_prefix_cons.mpr ⟨rfl, ih _⟩

/-- The text begins with a remark, but for blanks. -/
def isRemark (cs : List Char) : Bool := (cs.dropWhile isBlank).head? == some '#'

/-- The statements of some lines, the first of which goes on with the open statement `sofar`. -/
def statementsFrom : Standing → (sofar : List Char) → List (List Char) → List (List Char)
  | _, _, [] => []
  | s, sofar, l :: ls =>
    if isRemark (sofar ++ l) then statementsFrom .settled [] ls
    else
      let (kept, s) := scan s l
      match s with
      | none | some .settled => (sofar ++ kept) :: statementsFrom .settled [] ls
      | some s => statementsFrom s (sofar ++ kept) ls

/-- The statements of a file; a byte order mark before them does not count. -/
def statements (file : List Char) : List (List Char) :=
  statementsFrom .settled [] (linesOf (if file.head? = some '\ufeff' then file.tail else file))

end FleetUpdate.DotEnv
