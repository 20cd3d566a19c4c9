import ImplicitGlobals.Text.Escaped

/-!
# JSON output

The part of JSON that reports are written in, in one line or indented by two blanks. A record keeps the order of its fields.
-/

namespace ImplicitGlobals

inductive Json where
  | boolean (b : Bool)
  | text (s : String)
  | list (items : List Json)
  | record (fields : List (String × Json))
deriving Repr, Inhabited

namespace Json

/-- `\u` and the four digits of a code point below 65536. -/
def codeUnit (c : Char) : List Char :=
  let digits := Text.Escaped.hex c.toNat
  ['\\', 'u'] ++ List.replicate (4 - digits.length) '0' ++ digits

/-- The way a character is written in a string: the quote, the backslash and the
control characters of ASCII are escaped. -/
def encodeChar (c : Char) : List Char :=
  if c = '"' then ['\\', '"']
  else if c = '\\' then ['\\', '\\']
  else if c = '\n' then ['\\', 'n']
  else if c = '\r' then ['\\', 'r']
  else if c = '\t' then ['\\', 't']
  else if c = '\x08' then ['\\', 'b']
  else if c = '\x0c' then ['\\', 'f']
  else if c < ' ' then codeUnit c
  else [c]

def quote (s : String) : String :=
  String.ofList ('"' :: s.toList.flatMap encodeChar ++ ['"'])

def boolText (b : Bool) : String := if b then "true" else "false"

mutual

/-- The value on one line, without blanks. -/
def compact : Json → String
  | boolean b => boolText b
  | text s => quote s
  | list items => "[" ++ ",".intercalate (compactItems items) ++ "]"
  | record fields => "\x7b" ++ ",".intercalate (compactFields fields) ++ "\x7d"

def compactItems : List Json → List String
  | [] => []
  | v :: rest => compact v :: compactItems rest

def compactFields : List (String × Json) → List String
  | [] => []
  | (key, v) :: rest => (quote key ++ ":" ++ compact v) :: compactFields rest

end

/-- Items between brackets, each on a line of its own; nothing between the brackets
when there are none. -/
def spread (depth : Nat) (opener closer : String) (items : List String) : String :=
  let margin (d : Nat) := "\n" ++ String.ofList (List.replicate (2 * d) ' ')
  if items.isEmpty then opener ++ closer
  else
    opener ++ ",".intercalate (items.map (margin (depth + 1) ++ ·)) ++ margin depth ++ closer

mutual

/-- The value over several lines, its inner lines indented below `depth`. -/
def pretty (depth : Nat) : Json → String
  | boolean b => boolText b
  | text s => quote s
  | list items => spread depth "[" "]" (prettyItems (depth + 1) items)
  | record fields => spread depth "\x7b" "\x7d" (prettyFields (depth + 1) fields)

def prettyItems (depth : Nat) : List Json → List String
  | [] => []
  | v :: rest => pretty depth v :: prettyItems depth rest

def prettyFields (depth : Nat) : List (String × Json) → List String
  | [] => []
  | (key, v) :: rest => (quote key ++ ": " ++ pretty depth v) :: prettyFields depth rest

end

end Json

end ImplicitGlobals
