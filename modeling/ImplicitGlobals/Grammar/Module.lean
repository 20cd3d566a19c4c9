import ImplicitGlobals.Grammar.Declaration

/-!
# Modules, imports and exports

Namespaces and module declarations, whose blocks hold statements again, and the
statements that pass names between modules. The rule for the statements of a
block is a parameter.
-/

namespace ImplicitGlobals.Grammar

def moduleSpecifier : Rule Unit := do
  if !(← eat .stringLiteral) then error .expectedModuleSpecifier

/-! ### Blocks -/

/-- One statement of a block, or its end. -/
def blockTurn (statement : Rule Unit) : Rule Bool := do
  if ← atEnd <||> currentIs .braceClose then return false
  statement
  return true

def blockMarks : Delimiters :=
  ⟨.braceOpen, .braceClose, .unclosedBrace, "block opened here", true⟩

/-- A braced list of statements; it costs one level of the nesting budget. -/
def moduleBlock (statement : Rule Unit) : Rule Unit := do
  assertAt .braceOpen
  if !(← descend) then return
  node .moduleBlock (delimited blockMarks (blockTurn statement))
  ascend

/-- A further name behind a dot. -/
def segmentTurn : Rule Bool := do
  if ← eat .dot then
    nameRule
    return true
  return false

/-- `A.B.C` or `"x"` -/
def moduleName : Rule Unit := do
  if ← currentIs .stringLiteral then node .name bump
  else
    nameRule
    repeatWhile segmentTurn

/-- `namespace A.B.C \x7b .. \x7d`, `module "x" \x7b .. \x7d` or `module "x";` -/
def moduleDeclaration (point : Checkpoint) (statement : Rule Unit) : Rule Unit :=
  nodeAt point .moduleDeclaration do
    bumpKeyword
    moduleName
    if ← currentIs .braceOpen then moduleBlock statement
    else expectSemicolon

/-- `global \x7b .. \x7d` -/
def globalDeclaration (point : Checkpoint) (statement : Rule Unit) : Rule Unit :=
  nodeAt point .moduleDeclaration do
    takeKeyword .kwGlobal
    moduleBlock statement

/-! ### Exports -/

/-- An expression to the end of its statement. -/
def expressionTail : Rule Unit := do
  node .typeExpr do
    if !(← skipExpression .statementEnd) then error .expectedExpression
  expectSemicolon

/-- `export default ..;`, of which the expression is still to be read. -/
def exportDefault (point : Checkpoint) : Rule Unit :=
  nodeAt point .exportAssignment expressionTail

/-- `* as X`, `* as "x"`, `*` or `\x7b .. \x7d` -/
def exportedNames : Rule Unit := do
  if ← eat .star then
    whenever (eatKeyword .kwAs <&&> (!·) <$> eat .stringLiteral) nameRule
  else bracedBody .namedExports

/-- `export \x7b .. \x7d`, `export * ..`, with or without `type` and `from`. -/
def exportDeclaration (point : Checkpoint) : Rule Unit :=
  nodeAt point .exportDeclaration do
    takeKeyword .kwExport
    let _ ← eatKeyword .kwType
    exportedNames
    whenever (eatKeyword .kwFrom) moduleSpecifier
    expectSemicolon

/-- `export = ..;` -/
def exportAssignment (point : Checkpoint) : Rule Unit :=
  nodeAt point .exportAssignment do
    takeKeyword .kwExport
    bump
    expressionTail

/-- `export as namespace X;` -/
def namespaceExport (point : Checkpoint) : Rule Unit :=
  nodeAt point .namespaceExport do
    takeKeyword .kwExport
    takeKeyword .kwAs
    takeKeyword .kwNamespace
    nameRule
    expectSemicolon

/-- The forms in which `export` is no modifier; nothing is read when it is one. -/
def exportForm (point : Checkpoint) : Rule Bool := do
  assertAtKeyword .kwExport
  let next ← kindAt 1
  if ← pure (next == some .braceOpen || next == some .star) <||>
      (nthIsKeyword 1 .kwType <&&> nthIs 2 .braceOpen) then
    exportDeclaration point
    return true
  if next == some .equals then
    exportAssignment point
    return true
  if ← nthIsKeyword 1 .kwAs <&&> nthIsKeyword 2 .kwNamespace then
    namespaceExport point
    return true
  return false

/-! ### Imports -/

/-- `as`, which has to be there. -/
def expectAs : Rule Bool := do
  if ← eatKeyword .kwAs then return true
  errorWith .unexpectedToken "expected `as`"
  return false

/-- `* as X` -/
def namespaceImport : Rule Unit :=
  node .namespaceImport do
    bump
    let _ ← expectAs
    nameRule

/-- Whether `type` at the current word marks an import specifier as type-only. -/
def specifierIsTypeOnly : Rule Bool := do
  if !(← atKeyword .kwType) then return false
  let next ← kindAt 1
  if next != some .ident && next != some .stringLiteral then return false
  return !(← nthIsKeyword 1 .kwAs <&&> (!·) <$> nthIs 2 .ident)

/-- The names of an import specifier: `a`, `a as b` or `"a" as b`. -/
def specifierNames : Rule Unit := do
  let renamed ← nthIsKeyword 1 .kwAs
  if ← pure renamed <||> currentIs .stringLiteral then
    bump
    whenever expectAs nameRule
  else nameRule

/-- `a`, `a as b`, `type a` or `type a as b` -/
def importSpecifier : Rule Unit :=
  node .importSpecifier do
    whenever specifierIsTypeOnly (takeKeyword .kwType)
    specifierNames

/-- Whether an import specifier can start with a word of the kind. -/
def startsSpecifier (kind : Option TokenKind) : Bool := kind == some .ident || kind == some .stringLiteral

def importTurn : Rule Bool :=
  itemTurn .braceClose (return startsSpecifier (← current)) "in import list" importSpecifier

def importMarks : Delimiters :=
  ⟨.braceOpen, .braceClose, .unclosedBrace, "import list opened here", false⟩

/-- `\x7b a, b as c, type D \x7d` -/
def namedImports : Rule Unit := node .namedImports (delimited importMarks importTurn)

/-- Whether `type` at the current word marks a whole import clause as type-only. -/
def clauseIsTypeOnly : Rule Bool := do
  if !(← atKeyword .kwType) then return false
  match ← kindAt 1 with
  | some .braceOpen | some .star => return true
  | some .ident => return !(← nthIsKeyword 1 .kwFrom <&&> nthIs 2 .stringLiteral)
  | _ => return false

/-- The default binding of an import and the comma behind it, if it is there. -/
def defaultImport : Rule Bool := do
  if ← currentIs .ident <&&> (!·) <$> atKeyword .kwFrom then
    nameRule
    let _ ← eat .comma
    return true
  return false

/-- The bindings behind the default one; without that one they have to be there. -/
def furtherImports (hasDefault : Bool) : Rule Unit := do
  if ← currentIs .star then namespaceImport
  else if ← currentIs .braceOpen then namedImports
  else if !hasDefault then error .expectedName

/-- The bindings of an import, of which there must be one. -/
def importClause : Rule Unit :=
  node .importClause do
    whenever clauseIsTypeOnly (takeKeyword .kwType)
    let hasDefault ← defaultImport
    furtherImports hasDefault

/-- Where an import is from. -/
def importSource : Rule Unit := do
  if ← eatKeyword .kwFrom then moduleSpecifier
  else let _ ← expect .ident "`from`"

/-- `with \x7b .. \x7d` or `assert \x7b .. \x7d` -/
def importAttributes : Rule Unit := do
  bump
  bracedBody .importAttributes

/-- The rest of an import declaration behind `import`. -/
def importTail : Rule Unit := do
  if ← eat .stringLiteral then
    expectSemicolon
    return
  importClause
  importSource
  whenever ((atWord "with" <||> atWord "assert") <&&> nextIs .braceOpen) importAttributes
  expectSemicolon

/-- A further name behind a dot of a module reference. -/
def referenceTurn : Rule Bool := do
  if ← eat .dot then
    if ← eat .ident then return true
    error .expectedName
  return false

/-- `require("x")` -/
def requireCall : Rule Unit := do
  takeKeyword .kwRequire
  bump
  moduleSpecifier
  let _ ← expect .parenClose "`)`"

/-- `require("x")` or `A.B` -/
def moduleReference : Rule Unit :=
  node .moduleReference do
    if ← atKeyword .kwRequire <&&> nextIs .parenOpen then requireCall
    else if ← eat .ident then repeatWhile referenceTurn
    else error .expectedName

/-- The rest of an import assignment behind `import`: `[type] X = ..;` -/
def importEqualsTail : Rule Unit := do
  whenever (atKeyword .kwType <&&> nextIs .ident) (takeKeyword .kwType)
  nameRule
  let _ ← expect .equals "`=`"
  moduleReference
  expectSemicolon

/-- Whether `import` at the current word begins an import assignment. -/
def isImportEquals : Rule Bool :=
  (nextIs .ident <&&> nthIs 2 .equals) <||>
    (nthIsKeyword 1 .kwType <&&> nthIs 2 .ident <&&> nthIs 3 .equals)

/-- `import X = ..;` -/
def importAssignment (point : Checkpoint) : Rule Unit :=
  nodeAt point .importEquals do
    takeKeyword .kwImport
    importEqualsTail

/-- `import a, { b } from "x";` -/
def importDeclaration (point : Checkpoint) : Rule Unit :=
  nodeAt point .importDeclaration do
    takeKeyword .kwImport
    importTail

def importStatement (point : Checkpoint) : Rule Unit := do
  if ← isImportEquals then importAssignment point
  else importDeclaration point

end ImplicitGlobals.Grammar
