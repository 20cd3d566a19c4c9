import ImplicitGlobals.Grammar.Module

/-!
# Statements

A source is a list of statements. A statement is a declaration with its
modifiers, one of the forms of import and export, or `;` alone. What is none of
these is skipped up to the next statement and kept in an error node.
-/

namespace ImplicitGlobals.Grammar

/-- The modifiers read so far: whether there are any, and whether `default` is one. -/
structure Modifiers where
  any : Bool := false
  isDefault : Bool := false
deriving DecidableEq, Repr, Inhabited

/-- Reads one modifier, if there is one. -/
def modifierTurn (m : Modifiers) : Rule (Turn Modifiers) := do
  if ← atKeyword .kwExport then
    takeKeyword .kwExport
    return .again { m with any := true }
  if ← atKeyword .kwDefault <&&> pure m.any then
    takeKeyword .kwDefault
    return .again ⟨true, true⟩
  if ← atKeyword .kwDeclare <&&> nextIs .ident then
    takeKeyword .kwDeclare
    return .again { m with any := true }
  if ← atKeyword .kwAbstract <&&> nthIsKeyword 1 .kwClass then
    takeKeyword .kwAbstract
    return .again { m with any := true }
  return .done m

def modifiers : Rule Modifiers := loop {} modifierTurn

/-- Whether a name or a pattern comes next. -/
def bindingFollows : Rule Bool := do
  return (← kindAt 1).any KindSet.bindingStart.holds

/-- Reads `body` if the test finds it, and tells whether it did. -/
def onlyIf (test : Rule Bool) (body : Rule Unit) : Rule Bool := do
  if ← test then
    body
    return true
  return false

/-- The declaration that `k` announces, if the word behind it agrees. -/
def declarationOf (statement : Rule Unit) (point : Checkpoint) (isDefault : Bool) :
    Option Keyword → Rule Bool
  | some .kwConst => do
    if ← nthIsKeyword 1 .kwEnum then
      enumDeclaration point
      return true
    onlyIf bindingFollows (variableStatement point)
  | some .kwVar | some .kwLet => onlyIf bindingFollows (variableStatement point)
  | some .kwFunction => onlyIf (pure true) (functionDeclaration point isDefault)
  | some .kwClass => onlyIf (pure true) (classDeclaration point isDefault)
  | some .kwInterface => onlyIf (nextIs .ident) (interfaceDeclaration point)
  | some .kwType => onlyIf (nextIs .ident) (typeAlias point)
  | some .kwEnum => onlyIf (nextIs .ident) (enumDeclaration point)
  | some .kwNamespace => onlyIf (nextIs .ident) (moduleDeclaration point statement)
  | some .kwModule => do
    let next ← kindAt 1
    onlyIf (pure (next == some .ident || next == some .stringLiteral))
      (moduleDeclaration point statement)
  | some .kwGlobal => onlyIf (nextIs .braceOpen) (globalDeclaration point statement)
  | some .kwImport => onlyIf (pure !isDefault) (importStatement point)
  | _ => return false

/-- A declaration, chosen by its keyword and the word behind it. Nothing is read
when there is none. -/
def declaration (statement : Rule Unit) (point : Checkpoint) (isDefault : Bool) : Rule Bool := do
  if (← current) ≠ some .ident then return false
  declarationOf statement point isDefault (Keyword.ofWord? (← currentText))

/-! ### Recovery -/

/-- Complains of the word that begins no statement. -/
def complainOfStart (hasModifiers : Bool) : Rule Unit := do
  if ← currentIs .garbage then error .invalidCharacter
  else if hasModifiers then error .expectedDeclaration
  else if ← currentIn .closers then errorWith .mismatchedDelimiter (← currentText)
  else errorWith .expectedDeclaration ("found `" ++ (← currentText) ++ "`")

/-- What recovery knows: how many brackets it is in, and whether it has read a word. -/
structure Skipping where
  depth : Nat := 0
  started : Bool := false
deriving DecidableEq, Repr, Inhabited

/-- Whether skipping stops before a word of the kind: at the end of the enclosing
block or where a statement begins. -/
def skippingEnds (inBlock : Bool) (kind : Option TokenKind) : Rule Bool :=
  pure (kind == some .braceClose && inBlock) <||> atStatementStart

/-- The bracket depth behind a word of the kind. -/
def depthAfter (depth : Nat) (kind : Option TokenKind) : Nat :=
  if kind.any KindSet.openers.holds then depth + 1
  else if kind.any KindSet.closers.holds then depth - 1
  else depth

/-- Skips one word. -/
def skipTurn (inBlock : Bool) (s : Skipping) : Rule (Turn Skipping) := do
  if ← atEnd then return .done s
  let kind ← current
  if ← pure (s.started && s.depth == 0) <&&> skippingEnds inBlock kind then return .done s
  let depth := depthAfter s.depth kind
  bump
  if depth == 0 && kind == some .semicolon then return .done ⟨depth, true⟩
  return .again ⟨depth, true⟩

/-- Skips to the next statement: behind a `;` outside brackets, or before what
looks like a beginning. The first word is always skipped. -/
def recover (point : Checkpoint) (hasModifiers : Bool) : Rule Unit := do
  complainOfStart hasModifiers
  nodeAt point .error do
    let _ ← loop {} (skipTurn (← inBlock))

/-! ### Statements -/

/-- What follows the modifiers, the last resort included. -/
def modified (inner : Rule Unit) (point : Checkpoint) (m : Modifiers) : Rule Unit := do
  if ← declaration inner point m.isDefault then return
  if m.isDefault then exportDefault point
  else recover point m.any

/-- A statement that begins at `point`, given a rule for the statements of inner blocks. -/
def statementAt (inner : Rule Unit) (point : Checkpoint) : Rule Unit := do
  if ← currentIs .semicolon then
    node .emptyStatement bump
    return
  if ← atKeyword .kwExport <&&> exportForm point then return
  modified inner point (← modifiers)

/-- A statement in which blocks are nested at most `n` deep. -/
def statementWithin : Nat → Rule Unit
  | 0 => throw .endless
  | n + 1 => do statementAt (statementWithin n) (← checkpoint)

/-- A statement. Every block reads a brace before an inner statement begins, so
blocks nest no deeper than there are words. -/
def statement : Rule Unit := do statementWithin ((← get).total + 1)

/-- One statement at the top, or the end. -/
def sourceTurn : Rule Bool := do
  if ← atEnd then return false
  statement
  return true

/-- All statements up to the end. -/
def sourceFile : Rule Unit :=
  node .sourceFile do
    repeatWhile sourceTurn
    skipAndPlaceGap

/-- A source from its first word to its last, and the gap that is still to be placed. -/
def source : Rule Unit := do
  sourceFile
  placeGap

end ImplicitGlobals.Grammar
