import ImplicitGlobals.Text.Lines

/-!
# Paths

A path is a text. Slashes separate its names; a path that starts with one is
absolute. `parent?` leaves empty names and later dots out of account, but keeps the
rest of the path as it is written.
-/

namespace ImplicitGlobals.Path

def isAbsolute (path : String) : Bool := path.toList.head? == some '/'

/-- Whether a path can only be a directory. -/
def endsInSlash (path : String) : Bool := path.toList.getLast? == some '/'

/-- `path` as seen from `base`. -/
def join (base path : String) : String :=
  if isAbsolute path || base == "" then path
  else if endsInSlash base then base ++ path
  else base ++ "/" ++ path

/-- The names of a path, without empty ones. -/
def names (path : String) : List String :=
  ((Text.cutAt '/' path.toList).filter (· ≠ [])).map String.ofList

/-- What is kept of a path whatever is taken from its end: the slash of an absolute
path, or the dot of a path that starts with one. -/
def anchor : List Char → List Char × List Char
  | '/' :: rest => (['/'], rest)
  | ['.'] => (['.'], [])
  | '.' :: '/' :: rest => (['.'], '/' :: rest)
  | cs => ([], cs)

/-- Drops the pieces at the end that name nothing. -/
def dropIdle (pieces : List (List Char)) : List (List Char) :=
  (pieces.reverse.dropWhile fun p => p = [] ∨ p = ['.']).reverse

/-- The path without its last name; there is none without a name to drop. -/
def parent? (path : String) : Option String :=
  let (start, rest) := anchor path.toList
  match dropIdle (Text.cutAt '/' rest) with
  | [] => if start = ['.'] then some "" else none
  | pieces => some (String.ofList (start ++ ['/'].intercalate (dropIdle pieces.dropLast)))

end ImplicitGlobals.Path
