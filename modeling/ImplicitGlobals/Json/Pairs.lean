import ImplicitGlobals.Json.Scan

/-!
# Lists of pairs

A table written as JSON: a list of lists of two strings. The text is read from left
to right and the first fault ends the reading, so a value of the wrong type is
reported before later syntax is looked at.
-/

namespace ImplicitGlobals.Json

/-- The value that stands where another kind was wanted, and the text after it; a list
or a record counts as not read. -/
def readFound : List Char → Except Fault (Found × List Char)
  | [] => fault .endOfValue []
  | c :: rest => do
    if c = 'n' then return (.null, ← readLiteral ['u', 'l', 'l'] rest)
    else if c = 't' then return (.boolean true, ← readLiteral ['r', 'u', 'e'] rest)
    else if c = 'f' then return (.boolean false, ← readLiteral ['a', 'l', 's', 'e'] rest)
    else if c = '-' then readNumber false rest
    else if Text.isAsciiDigit c then readNumber true (c :: rest)
    else if c = '"' then
      let (s, after) ← readText rest
      return (.text s, after)
    else if c = '[' then return (.list, c :: rest)
    else if c = '\x7b' then return (.record, c :: rest)
    else faultAt .value (c :: rest)

/-- The fault of a value that is not what was wanted. -/
def refuse {α : Type} (wanted : Wanted) (cs : List Char) : Except Fault α := do
  let (found, rest) ← readFound cs
  fault (.wrongType found wanted) rest

/-- A string. -/
def readString (cs : List Char) : Except Fault (String × List Char) :=
  match skipGaps cs with
  | '"' :: rest => readText rest
  | other => refuse .text other

/-- Steps over a list's opening bracket. -/
def openList (wanted : Wanted) (cs : List Char) : Except Fault (List Char) :=
  match skipGaps cs with
  | '[' :: rest => .ok rest
  | other => refuse wanted other

/-- Steps to the next element of a list, over the comma before it unless it is the
first; there is none where the list closes, and the bracket stays. -/
def nextElement (first : Bool) (cs : List Char) : Except Fault (Option (List Char)) :=
  match skipGaps cs with
  | [] => fault .endOfList []
  | ']' :: _ => .ok none
  | c :: rest =>
    if first then .ok (some (c :: rest))
    else if c = ',' then
      match skipGaps rest with
      | [] => fault .endOfValue []
      | ']' :: more => faultAt .trailingComma (']' :: more)
      | next => .ok (some next)
    else faultAt .commaOrEnd (c :: rest)

/-- Steps over a list's closing bracket, after its last element. -/
def closeList (cs : List Char) : Except Fault (List Char) :=
  match skipGaps cs with
  | [] => fault .endOfList []
  | ']' :: rest => .ok rest
  | ',' :: rest =>
    match skipGaps rest with
    | ']' :: more => faultAt .trailingComma (']' :: more)
    | other => faultAt .trailingCharacters other
  | other => faultAt .trailingCharacters other

/-- The fault of a pair that closes after `n` elements. -/
def short {α : Type} (n : Nat) (cs : List Char) : Except Fault α := do
  fault (.shortPair n) (← closeList cs)

/-- A list of two strings. -/
def readPair (cs : List Char) : Except Fault ((String × String) × List Char) := do
  let inner ← openList .pair cs
  let some atFirst ← nextElement true inner | short 0 inner
  let (first, rest) ← readString atFirst
  let some atSecond ← nextElement false rest | short 1 rest
  let (second, after) ← readString atSecond
  return ((first, second), ← closeList after)

/-- The elements of a list up to its closing bracket; `fuel` bounds their number. -/
def readElements (first : Bool) : Nat → List Char →
    Except Fault (List (String × String) × List Char)
  | 0, cs => fault .endOfList cs
  | fuel + 1, cs => do
    match ← nextElement first cs with
    | none => return ([], cs)
    | some here =>
      let (pair, rest) ← readPair here
      let (more, after) ← readElements false fuel rest
      return (pair :: more, after)

/-- Reads a whole text as a list of pairs. Every element takes a character, so the
length of the text bounds their number. -/
def pairs (source : String) : Except Fault (List (String × String)) := do
  let cs := source.toList
  let inner ← openList .list cs
  let (result, rest) ← readElements true (cs.length + 1) inner
  match skipGaps (← closeList rest) with
  | [] => return result
  | other => faultAt .trailingCharacters other

end ImplicitGlobals.Json
