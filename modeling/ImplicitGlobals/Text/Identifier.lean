/-!
# Identifier names

The names that may stand unquoted as a property key, and the identifier a
bundle's generated module exports. Both look at ASCII alone: a letter outside
it never makes an identifier.
-/

namespace ImplicitGlobals.Text

def isAsciiLetter (c : Char) : Bool :=
  ('a' ≤ c && c ≤ 'z') || ('A' ≤ c && c ≤ 'Z')

def isAsciiDigit (c : Char) : Bool := '0' ≤ c && c ≤ '9'

/-- An ASCII letter, `_` or `$`. -/
def isIdentifierStart (c : Char) : Bool :=
  isAsciiLetter c || c == '_' || c == '$'

def isIdentifierPart (c : Char) : Bool :=
  isIdentifierStart c || isAsciiDigit c

/-- The characters of an identifier name: one that may start it, then any that
may continue it. -/
def isIdentifierList : List Char → Bool
  | [] => false
  | c :: rest => isIdentifierStart c && rest.all isIdentifierPart

def isIdentifier (s : String) : Bool := isIdentifierList s.toList

/-- The identifier that stands for a bundle name: dots become underscores. -/
def exportIdentifier (bundle : String) : String :=
  String.ofList (bundle.toList.map fun c => if c = '.' then '_' else c)

theorem isIdentifierPart_of_start {c : Char} (h : isIdentifierStart c = true) :
    isIdentifierPart c = true := by
  simp [isIdentifierPart, h]

theorem toList_exportIdentifier (bundle : String) :
    (exportIdentifier bundle).toList =
      bundle.toList.map fun c => if c = '.' then '_' else c := by
  simp [exportIdentifier]

end ImplicitGlobals.Text
