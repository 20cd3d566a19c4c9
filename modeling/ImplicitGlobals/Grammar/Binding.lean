import ImplicitGlobals.Grammar.Balanced

/-!
# Bindings and parameters

What introduces names: identifiers and destructuring patterns, the parameters of
functions, and type parameters. Patterns nest, and a pattern within a pattern
costs one level of the nesting budget.
-/

namespace ImplicitGlobals.Grammar

/-- Skips the key of a property in a braced pattern: `key:` before the target. -/
def propertyKey (openKind : TokenKind) : Rule Unit := do
  if openKind != .braceOpen then return
  let kind ← current
  if ← pure (kind == some .ident || kind == some .stringLiteral || kind == some .number) <&&>
      nextIs .colon then
    bump
    bump

/-- One element of a pattern, a hole, or the end. `inner` reads a bound target. -/
def patternTurn (inner : Rule Unit) (openKind closeKind : TokenKind) : Rule Bool := do
  if ← atEnd <||> currentIs closeKind then return false
  if ← eat .comma then return true
  let _ ← eat .dotDotDot
  propertyKey openKind
  if !(← currentIn .bindingStart) then
    errorAndBump .expectedName "in binding pattern"
    return true
  inner
  optional .equals (initializer .listItemEnd)
  eat .comma

def bracePattern : Delimiters :=
  ⟨.braceOpen, .braceClose, .unclosedBrace, "pattern opened here", false⟩

def bracketPattern : Delimiters :=
  ⟨.bracketOpen, .bracketClose, .unclosedBracket, "pattern opened here", false⟩

/-- The elements of a pattern, delimiters included. -/
def patternNode (inner : Rule Unit) (d : Delimiters) : Rule Unit :=
  node .bindingPattern (delimited d (patternTurn inner d.opener d.closer))

/-- `\x7b a, b: c, ...rest \x7d` or `[a, , b = 1]` -/
def bindingPattern (inner : Rule Unit) : Rule Unit := do
  if !(← descend) then return
  patternNode inner (if ← currentIs .braceOpen then bracePattern else bracketPattern)
  ascend

/-- An identifier or a pattern, with patterns nested at most `n` deep. -/
def bindingWithin : Nat → Rule Unit
  | 0 => throw .endless
  | n + 1 => do
    let kind ← current
    if kind == some .braceOpen || kind == some .bracketOpen then
      bindingPattern (bindingWithin n)
    else nameRule

/-- An identifier or a pattern. Every pattern reads a word before the next one opens,
so they nest no deeper than there are words. -/
def binding : Rule Unit := do bindingWithin ((← get).total + 1)

def parameter : Rule Unit :=
  node .parameter do
    let _ ← eat .dotDotDot
    binding
    let _ ← eat .question
    optional .colon (typeAscription .paramTypeEnd)
    optional .equals (initializer .listItemEnd)

def parameterTurn : Rule Bool :=
  itemTurn .parenClose (currentIn .bindingStart <||> currentIs .dotDotDot) "parameter" parameter

def parameterMarks : Delimiters :=
  ⟨.parenOpen, .parenClose, .unclosedParen, "parameter list opened here", false⟩

/-- `(a: T, b?: U, ...rest: V[])` -/
def parameters : Rule Unit := do
  assertAt .parenOpen
  node .parameterList (delimited parameterMarks parameterTurn)

/-- Skips one of the words that may stand before the name of a type parameter. -/
def typeParameterModifier : Rule Bool := do
  if ← (atWord "in" <||> atWord "out" <||> atWord "const") <&&> nextIs .ident then
    bump
    return true
  return false

/-- `extends T` behind a type parameter. -/
def constraint : Rule Unit := do
  takeKeyword .kwExtends
  typeExpr .typeParamConstraintEnd

def typeParameter : Rule Unit :=
  node .typeParameter do
    repeatWhile typeParameterModifier
    nameRule
    whenever (atKeyword .kwExtends) constraint
    whenever (eat .equals) (typeExpr .listItemEnd)

def typeParameterTurn : Rule Bool := do
  if ← atEnd <||> currentIs .angleClose then return false
  typeParameter
  eat .comma

def typeParameterMarks : Delimiters :=
  ⟨.angleOpen, .angleClose, .unclosedAngle, "type parameters opened here", false⟩

/-- `<T, in out U extends K = D>` -/
def typeParameters : Rule Unit := do
  assertAt .angleOpen
  node .typeParameterList (delimited typeParameterMarks typeParameterTurn)

end ImplicitGlobals.Grammar
