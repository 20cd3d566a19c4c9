import ImplicitGlobals.Text.Escaped

/-!
# Faults in JSON text

Why a text is not a list of pairs of strings, and where. A fault remembers how
many bytes of the text follow it; with the text, that gives its line and column.
-/

namespace ImplicitGlobals.Json

/-- A value where another kind was wanted. -/
inductive Found where
  | null
  | boolean (b : Bool)
  | integer (digits : String)
  | decimal (digits : String)
  | text (s : String)
  | list
  | record
deriving DecidableEq, Repr, Inhabited

/-- What the shape asks for. -/
inductive Wanted where
  | list
  | pair
  | text
deriving DecidableEq, Repr, Inhabited

inductive Cause where
  | endOfList
  | endOfText
  | endOfValue
  | commaOrEnd
  | literal
  | value
  | escape
  | number
  | numberRange
  | controlCharacter
  | loneSurrogate
  | surrogatePair
  | trailingComma
  | trailingCharacters
  | wrongType (found : Found) (wanted : Wanted)
  | shortPair (length : Nat)
deriving DecidableEq, Repr, Inhabited

/-- A text can stop early, be no JSON at all, or be JSON of another shape. -/
inductive Category where
  | truncated
  | malformed
  | mismatched
deriving DecidableEq, Repr, Inhabited

structure Fault where
  cause : Cause
  /-- The number of bytes after the place of the fault. -/
  left : Nat
deriving DecidableEq, Repr, Inhabited

def Found.describe : Found → String
  | null => "null"
  | boolean b => "boolean `" ++ (if b then "true" else "false") ++ "`"
  | integer digits => "integer `" ++ digits ++ "`"
  | decimal digits => "floating point `" ++ digits ++ "`"
  | text s => "string " ++ Text.Escaped.quote s
  | list => "sequence"
  | record => "map"

def Wanted.describe : Wanted → String
  | list => "a sequence"
  | pair => "a tuple of size 2"
  | text => "a string"

namespace Cause

def category : Cause → Category
  | endOfList | endOfText | endOfValue => .truncated
  | wrongType .. | shortPair _ => .mismatched
  | _ => .malformed

def message : Cause → String
  | endOfList => "EOF while parsing a list"
  | endOfText => "EOF while parsing a string"
  | endOfValue => "EOF while parsing a value"
  | commaOrEnd => "expected `,` or `]`"
  | literal => "expected ident"
  | value => "expected value"
  | escape => "invalid escape"
  | number => "invalid number"
  | numberRange => "number out of range"
  | controlCharacter => "control character (\\u0000-\\u001F) found while parsing a string"
  | loneSurrogate => "lone leading surrogate in hex escape"
  | surrogatePair => "unexpected end of hex escape"
  | trailingComma => "trailing comma"
  | trailingCharacters => "trailing characters"
  | wrongType found wanted =>
    "invalid type: " ++ found.describe ++ ", expected " ++ wanted.describe
  | shortPair n =>
    "invalid length " ++ toString n ++ ", expected " ++ Wanted.pair.describe

end Cause

namespace Fault

/-- The line, from one, and the bytes before the place in it, when `bytes` bytes of
the characters come before the place. -/
def position (bytes line column : Nat) : List Char → Nat × Nat
  | [] => (line, column)
  | c :: rest =>
    if bytes = 0 then (line, column)
    else if bytes < c.utf8Size then (line, column + bytes)
    else if c = '\n' then position (bytes - c.utf8Size) (line + 1) 0 rest
    else position (bytes - c.utf8Size) line (column + c.utf8Size) rest

/-- The fault in the text it was found in. -/
def message (f : Fault) (source : String) : String :=
  let (line, column) := position (source.utf8ByteSize - f.left) 1 0 source.toList
  f.cause.message ++ " at line " ++ toString line ++ " column " ++ toString column

end Fault

end ImplicitGlobals.Json
