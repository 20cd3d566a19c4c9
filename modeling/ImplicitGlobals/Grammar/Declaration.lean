import ImplicitGlobals.Grammar.Binding

/-!
# Declarations

The declarations that hold no statements: variables, functions, classes,
interfaces, type aliases and enums. Each rule starts at its keyword, behind the
modifiers, and begins its node before both, at the checkpoint it is given.
-/

namespace ImplicitGlobals.Grammar

def variableDeclarator : Rule Unit :=
  node .variableDeclarator do
    binding
    let _ ← eat .bang
    optional .colon (typeAscription .declaratorTypeEnd)
    optional .equals (initializer .declaratorInitEnd)

def variableTurn : Rule Bool := do
  variableDeclarator
  eat .comma

/-- `var a: T, b = 1;` -/
def variableStatement (point : Checkpoint) : Rule Unit :=
  nodeAt point .variableStatement do
    bumpKeyword
    repeatWhile variableTurn
    expectSemicolon

/-- The name of a function, which may be missing only where `anonymous` allows it. -/
def functionName (anonymous : Bool) : Rule Unit := do
  if ← currentIs .ident then nameRule
  else if !anonymous then error .expectedName

def functionParameters : Rule Unit := do
  if ← currentIs .parenOpen then parameters
  else errorWith .unexpectedToken "expected `(`"

/-- `function f<T>(a: T): R;` -/
def functionDeclaration (point : Checkpoint) (anonymous : Bool) : Rule Unit :=
  nodeAt point .functionDeclaration do
    takeKeyword .kwFunction
    let _ ← eat .star
    functionName anonymous
    optional .angleOpen typeParameters
    functionParameters
    optional .colon (typeAscription .statementEnd)
    expectSemicolon

def heritageTurn : Rule Bool := do
  typeExpr .heritageEnd
  eat .comma

/-- `extends A, B` or `implements A, B` -/
def heritageClause : Rule Unit :=
  node .heritageClause do
    bumpKeyword
    repeatWhile heritageTurn

/-- A heritage clause, if the test finds its keyword. -/
def heritageClauseTurn (test : Rule Bool) : Rule Bool := do
  if ← test then
    heritageClause
    return true
  return false

/-- The name of a class, which may be missing only where `anonymous` allows it. -/
def className (anonymous : Bool) : Rule Unit := do
  if ← currentIs .ident <&&> (!·) <$> atKeyword .kwExtends <&&> (!·) <$> atKeyword .kwImplements then
    nameRule
  else if !anonymous then error .expectedName

/-- A body that has to be there; `what` names it. -/
def requiredBody (kind : NodeKind) (what : String) : Rule Unit := do
  if ← currentIs .braceOpen then bracedBody kind
  else errorWith .unexpectedToken ("expected " ++ what ++ " `\x7b`")

/-- `class C<T> extends B implements I \x7b .. \x7d` -/
def classDeclaration (point : Checkpoint) (anonymous : Bool) : Rule Unit :=
  nodeAt point .classDeclaration do
    takeKeyword .kwClass
    className anonymous
    optional .angleOpen typeParameters
    repeatWhile (heritageClauseTurn (atKeyword .kwExtends <||> atKeyword .kwImplements))
    requiredBody .classBody "class body"

/-- `interface I<T> extends A, B \x7b .. \x7d` -/
def interfaceDeclaration (point : Checkpoint) : Rule Unit :=
  nodeAt point .interfaceDeclaration do
    takeKeyword .kwInterface
    nameRule
    optional .angleOpen typeParameters
    repeatWhile (heritageClauseTurn (atKeyword .kwExtends))
    requiredBody .objectTypeBody "interface body"

/-- `type A<T> = ..;` -/
def typeAlias (point : Checkpoint) : Rule Unit :=
  nodeAt point .typeAliasDeclaration do
    takeKeyword .kwType
    nameRule
    optional .angleOpen typeParameters
    whenever (expect .equals "`=`") (typeExpr .statementEnd)
    expectSemicolon

/-- `[expr]` as the name of an enum member. -/
def computedName : Rule Unit := do
  bump
  let _ ← skipExpression .listItemEnd
  let _ ← expect .bracketClose "`]`"

def enumMemberName : Rule Unit := do
  match ← current with
  | some .ident => nameRule
  | some .stringLiteral | some .number => node .name bump
  | _ => computedName

/-- `A`, `"a"`, `1` or `[expr]`, perhaps with a value. -/
def enumMember : Rule Unit :=
  node .enumMember do
    enumMemberName
    optional .equals (initializer .listItemEnd)

def enumTurn : Rule Bool :=
  itemTurn .braceClose (currentIn .enumMemberName) "enum member" enumMember

def enumMarks : Delimiters :=
  ⟨.braceOpen, .braceClose, .unclosedBrace, "enum body opened here", false⟩

def enumBody : Rule Unit := do
  if ← currentIs .braceOpen then node .enumBody (delimited enumMarks enumTurn)
  else errorWith .unexpectedToken "expected enum body `\x7b`"

/-- `[const] enum E \x7b A, B = 1, "c" \x7d` -/
def enumDeclaration (point : Checkpoint) : Rule Unit :=
  nodeAt point .enumDeclaration do
    let _ ← eatKeyword .kwConst
    takeKeyword .kwEnum
    nameRule
    enumBody

end ImplicitGlobals.Grammar
