import FleetUpdate.Text.Alphanumeric

/-!
# Values in a settings file

A value may be quoted, wholly or in part.  Between single quotes everything stands for itself.
Elsewhere a backslash escapes a few characters and a dollar sign brings in the value of a variable,
whose name is either in braces or reaches as far as letters and numbers do; what follows a name
without braces is taken as it is, a quote or a blank included.  A blank outside of quotes ends the
value, and only a remark may follow.
-/

namespace FleetUpdate.DotEnv

open Text

/-- Where in a value the reading is; the flag tells whether double quotes are open. -/
inductive Reading where
  | plain (quoted : Bool)
  | single
  | escape (quoted : Bool)
  /-- After a dollar sign and some of a name. -/
  | name (quoted : Bool) (sofar : List Char)
  | braced (quoted : Bool) (sofar : List Char)
  /-- The value has ended. -/
  | ended
  deriving DecidableEq

/-- The character that a backslash makes of the next one. -/
def unescape? (c : Char) : Option Char :=
  if c = 'n' then some '\n'
  else if ['\\', '\'', '"', '$', ' '].contains c then some c
  else none

/-- What the end of the text adds to a value, unless the value is not complete. -/
def atEnd? (valueOf : List Char → List Char) : Reading → Option (List Char)
  | .plain false | .escape false | .ended => some []
  | .name false n => some (valueOf n)
  | .plain true | .escape true | .name true _ | .single | .braced .. => none

/-- What one more character adds to a value, and where the reading is then; nothing, if the
character must not stand there. -/
def step? (valueOf : List Char → List Char) (c : Char) : Reading → Option (List Char × Reading)
  | .plain q =>
    if c = '$' then some ([], .name q [])
    else if c = '\\' then some ([], .escape q)
    else if c = '"' then some ([], .plain !q)
    else if q then some ([c], .plain q)
    else if c = '\'' then some ([], .single)
    else if c = ' ' ∨ c = '\t' then some ([], .ended)
    else some ([c], .plain q)
  | .single => some (if c = '\'' then ([], .plain false) else ([c], .single))
  | .escape q => (unescape? c).map fun d => ([d], .plain q)
  | .name q n =>
    if isAlphanumeric c then some ([], .name q (n ++ [c]))
    else if c = '{' ∧ n = [] then some ([], .braced q [])
    else if c = '$' then some (valueOf n, .name q [])
    else some (valueOf n ++ [c], .plain q)
  | .braced q n =>
    some (if c = '\x7d' then (valueOf n, .plain q) else ([], .braced q (n ++ [c])))
  | .ended => if c = ' ' ∨ c = '\t' then some ([], .ended) else none

/-- Reads on in a value; `valueOf` gives the values of variables. -/
def readValue? (valueOf : List Char → List Char) : Reading → List Char → Option (List Char)
  | r, [] => atEnd? valueOf r
  | r, c :: cs =>
    -- a remark ends the text
    if r = .ended ∧ c = '#' then some []
    else (step? valueOf c r).bind fun (out, r) => (readValue? valueOf r cs).map (out ++ ·)

/-- The value that a text stands for, if it is one. -/
def value? (valueOf : List Char → List Char) (cs : List Char) : Option (List Char) :=
  readValue? valueOf (.plain false) cs

end FleetUpdate.DotEnv
