import ImplicitGlobals.Grammar.Boundary

/-!
# Balanced runs

Types, initializers and bodies are not analysed: they are runs of words in which
the brackets are balanced. A run ends outside all brackets, at a word of a stop
set, at a closer that nothing opened, and in most places where a declaration
begins.
-/

namespace ImplicitGlobals.Grammar

/-- How a run treats the words it passes. -/
structure RunMode where
  /-- Whether `<` and `>` are brackets. -/
  angles : Bool
  /-- Whether the run ends where a declaration begins. -/
  boundary : Bool
deriving DecidableEq, Repr

namespace RunMode

def type : RunMode := ⟨true, true⟩

def expression : RunMode := ⟨false, true⟩

def body : RunMode := ⟨false, false⟩

end RunMode

/-- The state of a run: its open brackets, innermost first, and whether it has
read a word. -/
structure Run where
  stack : List Opener := []
  consumed : Bool := false
deriving Inhabited

/-- The opener that a closer matches. -/
def openerOf : TokenKind → TokenKind
  | .parenClose => .parenOpen
  | .bracketClose => .bracketOpen
  | _ => .braceOpen

/-- The error for a bracket that stays open. -/
def unclosedKind : TokenKind → DiagnosticKind
  | .parenOpen => .unclosedParen
  | .bracketOpen => .unclosedBracket
  | _ => .unclosedBrace

/-- Drops the angles from the top of a stack: without their closers they were no
brackets but comparisons. -/
def dropAngles (stack : List Opener) : List Opener :=
  stack.dropWhile (·.kind == .angleOpen)

/-- Whether a run with no open bracket ends at a word of the kind. -/
def runEnds (stop : KindSet) (mode : RunMode) (consumed : Bool) (kind : Option TokenKind) :
    Rule Bool := do
  if kind.any fun k => stop.holds k || KindSet.closers.holds k then return true
  if mode.angles && kind == some .angleClose then return true
  (pure (mode.boundary && consumed)) <&&> atStatementStart

/-- Opens a bracket at the current word. -/
def openBracket (kind : TokenKind) (stack : List Opener) : Rule (Turn Run) := do
  let i ← mark
  bump
  return .again ⟨⟨kind, i⟩ :: stack, true⟩

/-- Meets a closer of round, square or curly brackets. -/
def closeBracket (kind : TokenKind) (r : Run) : Rule (Turn Run) := do
  match dropAngles r.stack with
  | [] => return .done ⟨[], r.consumed⟩
  | top :: below =>
    if top.kind = openerOf kind then
      bump
      return .again ⟨below, true⟩
    errorAndBump .mismatchedDelimiter (← currentText)
    return .again ⟨top :: below, true⟩

/-- What a run does at a word of the kind. -/
def runWord (mode : RunMode) (r : Run) : Option TokenKind → Rule (Turn Run)
  | some .parenOpen => openBracket .parenOpen r.stack
  | some .bracketOpen => openBracket .bracketOpen r.stack
  | some .braceOpen => openBracket .braceOpen r.stack
  | some .parenClose => closeBracket .parenClose r
  | some .bracketClose => closeBracket .bracketClose r
  | some .braceClose => closeBracket .braceClose r
  | some .garbage => do
    error .invalidCharacter
    bumpAsError
    return .again ⟨r.stack, true⟩
  | some .angleOpen => do
    if mode.angles then openBracket .angleOpen r.stack
    else
      bump
      return .again ⟨r.stack, true⟩
  | some .angleClose => do
    bump
    let closes := mode.angles && r.stack.head?.any (·.kind == .angleOpen)
    return .again ⟨if closes then r.stack.tail else r.stack, true⟩
  | _ => do
    bump
    return .again ⟨r.stack, true⟩

/-- One round of a run. -/
def runTurn (stop : KindSet) (mode : RunMode) (r : Run) : Rule (Turn Run) := do
  if ← atEnd then return .done r
  let kind ← current
  if ← (pure r.stack.isEmpty) <&&> runEnds stop mode r.consumed kind then return .done r
  runWord mode r kind

/-- Complains of what a run left open: the innermost bracket that is not an angle,
or else the innermost angle. -/
def reportOpen (stack : List Opener) : Rule Unit := do
  match stack.find? (·.kind != .angleOpen), stack with
  | some o, _ => errorUnclosed (unclosedKind o.kind) "opened here" o.word
  | none, o :: _ => errorUnclosed .unclosedAngle "opened here" o.word
  | none, [] => return

/-- Reads a balanced run and tells whether it had a word. -/
def balanced (stop : KindSet) (mode : RunMode) : Rule Bool := do
  let r ← loop {} (runTurn stop mode)
  reportOpen r.stack
  return r.consumed

def skipExpression (stop : KindSet) : Rule Bool := balanced stop .expression

/-! ### Parts built from runs -/

/-- An identifier as a name. -/
def nameRule : Rule Unit := do
  if ← currentIs .ident then node .name bump
  else error .expectedName

def typeExpr (stop : KindSet) : Rule Unit :=
  node .typeExpr do
    if !(← balanced stop .type) then error .expectedType

/-- `: type` -/
def typeAscription (stop : KindSet) : Rule Unit := do
  assertAt .colon
  node .typeAscription do
    bump
    typeExpr stop

/-- `= expression` -/
def initializer (stop : KindSet) : Rule Unit := do
  assertAt .equals
  node .initializer do
    bump
    if !(← skipExpression stop) then error .expectedExpression

/-- One round through a braced body: a run, then the end or a stray closer. -/
def bodyTurn : Rule Bool := do
  let _ ← balanced .empty .body
  let kind ← current
  if (← atEnd) || kind == some .braceClose then return false
  errorAndBump .mismatchedDelimiter (← currentText)
  return true

/-- Braces around a run that is not analysed. -/
def bracedBody (kind : NodeKind) : Rule Unit := do
  if !(← currentIs .braceOpen) then
    errorWith .unexpectedToken "expected `\x7b`"
    return
  node kind (delimited ⟨.braceOpen, .braceClose, .unclosedBrace, "body opened here", true⟩ bodyTurn)

end ImplicitGlobals.Grammar
