/-!
# Kinds of syntax errors

Every kind is an error. The order of declaration is the order of weight: of two
errors that explain each other's place, the earlier kind is kept.
-/

namespace ImplicitGlobals

/-- What is wrong: an opener without its closer, a part that is missing, or a
token that does not belong. -/
inductive DiagnosticKind where
  | unclosedBrace
  | unclosedParen
  | unclosedBracket
  | unclosedAngle
  | expectedDeclaration
  | expectedName
  | expectedType
  | expectedExpression
  | expectedModuleSpecifier
  | expectedSemicolon
  | invalidCharacter
  | mismatchedDelimiter
  | unexpectedToken
deriving DecidableEq, Repr, Inhabited

namespace DiagnosticKind

/-- Every kind, heaviest first. -/
def all : List DiagnosticKind :=
  [unclosedBrace, unclosedParen, unclosedBracket, unclosedAngle, expectedDeclaration,
   expectedName, expectedType, expectedExpression, expectedModuleSpecifier,
   expectedSemicolon, invalidCharacter, mismatchedDelimiter, unexpectedToken]

/-- The place of a kind in the order of weight. -/
def rank : DiagnosticKind → Nat
  | unclosedBrace => 0
  | unclosedParen => 1
  | unclosedBracket => 2
  | unclosedAngle => 3
  | expectedDeclaration => 4
  | expectedName => 5
  | expectedType => 6
  | expectedExpression => 7
  | expectedModuleSpecifier => 8
  | expectedSemicolon => 9
  | invalidCharacter => 10
  | mismatchedDelimiter => 11
  | unexpectedToken => 12

def outranks (a b : DiagnosticKind) : Bool := a.rank < b.rank

def isUnclosed : DiagnosticKind → Bool
  | unclosedBrace | unclosedParen | unclosedBracket | unclosedAngle => true
  | _ => false

def isMissing : DiagnosticKind → Bool
  | expectedDeclaration | expectedName | expectedType | expectedExpression
  | expectedModuleSpecifier | expectedSemicolon => true
  | _ => false

def label : DiagnosticKind → String
  | unclosedBrace => "UnclosedBrace"
  | unclosedParen => "UnclosedParen"
  | unclosedBracket => "UnclosedBracket"
  | unclosedAngle => "UnclosedAngle"
  | expectedDeclaration => "ExpectedDeclaration"
  | expectedName => "ExpectedName"
  | expectedType => "ExpectedType"
  | expectedExpression => "ExpectedExpression"
  | expectedModuleSpecifier => "ExpectedModuleSpecifier"
  | expectedSemicolon => "ExpectedSemicolon"
  | invalidCharacter => "InvalidCharacter"
  | mismatchedDelimiter => "MismatchedDelimiter"
  | unexpectedToken => "UnexpectedToken"

/-- What is said of the kind without further detail. -/
def summary : DiagnosticKind → String
  | unclosedBrace => "missing closing `\x7d`"
  | unclosedParen => "missing closing `)`"
  | unclosedBracket => "missing closing `]`"
  | unclosedAngle => "missing closing `>`"
  | expectedDeclaration => "expected a declaration"
  | expectedName => "expected a name"
  | expectedType => "expected a type"
  | expectedExpression => "expected an expression"
  | expectedModuleSpecifier => "expected a module specifier string"
  | expectedSemicolon => "expected `;`"
  | invalidCharacter => "invalid character"
  | mismatchedDelimiter => "mismatched closing delimiter"
  | unexpectedToken => "unexpected token"

/-- The message of the kind with a detail: quoted behind a mismatched delimiter,
after a semicolon for an unclosed one, after a colon otherwise. -/
def detailed (k : DiagnosticKind) (detail : String) : String :=
  if k = mismatchedDelimiter then k.summary ++ " `" ++ detail ++ "`"
  else if k.isUnclosed then k.summary ++ "; " ++ detail
  else k.summary ++ ": " ++ detail

theorem rank_injective {a b : DiagnosticKind} (h : a.rank = b.rank) : a = b := by
  cases a <;> cases b <;> first | rfl | cases h

theorem outranks_irrefl (a : DiagnosticKind) : a.outranks a = false := by
  simp [outranks]

end DiagnosticKind

end ImplicitGlobals
