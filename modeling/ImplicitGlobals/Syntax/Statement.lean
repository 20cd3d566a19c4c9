import ImplicitGlobals.Syntax.Tree

/-!
# Statements

What a syntax tree says, without its tokens: for each statement the names it
binds and the facts about them. Parts that a malformed source lacks are absent
here as well. Error nodes are no statements.
-/

namespace ImplicitGlobals

/-- A name where it is written. -/
structure Name where
  /-- The identifier, or what stands between the quotes. -/
  text : String
  /-- Whether the name is a string literal. -/
  quoted : Bool
  span : Span
deriving DecidableEq, Repr, Inhabited

/-- The names in the brackets of a type parameter list, one for each parameter. -/
abbrev TypeParameters := List (Option Name)

/-- One `name` or `pattern` of a variable statement. -/
structure Declarator where
  name? : Option Name
  isPattern : Bool
  /-- Every name the declarator introduces. -/
  bound : List Name
deriving DecidableEq, Repr, Inhabited

structure ImportSpecifier where
  typeOnly : Bool
  /-- The local name. -/
  name? : Option Name
deriving DecidableEq, Repr, Inhabited

structure ImportClause where
  typeOnly : Bool
  default? : Option Name
  asNamespace? : Option Name
  specifiers : List ImportSpecifier
deriving DecidableEq, Repr, Inhabited

/-- A statement that holds no other statements. -/
inductive Declaration where
  | variableList (keyword : Option Keyword) (declarators : List Declarator)
  | function (name : Option Name) (typeParameters : Option TypeParameters)
      (parameters : Option (List (List Name)))
  | classType (name : Option Name) (typeParameters : Option TypeParameters) (isAbstract : Bool)
  | interfaceType (name : Option Name) (typeParameters : Option TypeParameters)
  | typeAlias (name : Option Name) (typeParameters : Option TypeParameters)
  | enumType (name : Option Name) (isConst : Bool) (members : List (Option Name))
  | importFrom (specifier : Option String) (clause : Option ImportClause)
  | importEquals (typeOnly : Bool) (name : Option Name)
  | exportNames
  | exportAssignment
  | namespaceExport (name : Option Name)
  | empty
deriving DecidableEq, Repr, Inhabited

/-- What every statement has. -/
structure Head where
  span : Span
  exported : Bool
  declared : Bool
deriving DecidableEq, Repr, Inhabited

inductive Statement where
  | plain (head : Head) (declaration : Declaration)
  /-- A namespace, a module or `declare global`. A module without a block has no
  block span and no body. -/
  | module (head : Head) (names : List Name) (isGlobal : Bool) (block : Option Span)
      (body : List Statement)
deriving Repr, Inhabited

namespace Name

/-- The text without its first and last character, if it has both. -/
def unquoted (text : String) : String :=
  match text.toList with
  | _ :: c :: rest => String.ofList (c :: rest).dropLast
  | _ => text

/-- The name that a name node holds: its first token that is not trivia. -/
def ofTree (t : SyntaxTree) : Name :=
  match (SyntaxTree.leafChildren t).find? (!·.kind.isTrivia) with
  | none => ⟨"", false, SyntaxTree.span t⟩
  | some a =>
    let quoted := a.kind == .token .stringLiteral
    ⟨if quoted then unquoted a.token.text else a.token.text, quoted, SyntaxTree.span t⟩

end Name

namespace SyntaxTree

/-- The first name directly under the root. -/
def name? (t : SyntaxTree) : Option Name := (child? t .name).map Name.ofTree

def names (t : SyntaxTree) : List Name := (childrenOf t .name).map Name.ofTree

/-- The names that a binding under the root introduces: those of a pattern, or the
one name. -/
def boundNames (t : SyntaxTree) : List Name :=
  match child? t .bindingPattern with
  | some pattern => (Tree.descendants .name pattern).map Name.ofTree
  | none => (name? t).toList

def typeParameters? (t : SyntaxTree) : Option TypeParameters :=
  (child? t .typeParameterList).map fun list => (childrenOf list .typeParameter).map name?

def hasKeyword (t : SyntaxTree) (k : Keyword) : Bool := hasLeaf t (.keyword k)

end SyntaxTree

namespace Declaration

open SyntaxTree

def declaratorOfTree (t : SyntaxTree) : Declarator where
  name? := name? t
  isPattern := (child? t .bindingPattern).isSome
  bound := boundNames t

/-- The keyword that introduces the variables of a statement. -/
def variableKeyword? (t : SyntaxTree) : Option Keyword :=
  (leafChildren t).findSome? fun a =>
    match a.kind with
    | .keyword .kwVar => some .kwVar
    | .keyword .kwLet => some .kwLet
    | .keyword .kwConst => some .kwConst
    | _ => none

def specifierOfTree (t : SyntaxTree) : ImportSpecifier :=
  ⟨hasKeyword t .kwType, name? t⟩

def clauseOfTree (t : SyntaxTree) : ImportClause where
  typeOnly := hasKeyword t .kwType
  default? := name? t
  asNamespace? := (child? t .namespaceImport).bind name?
  specifiers :=
    (childrenOf t .namedImports).flatMap fun list =>
      (childrenOf list .importSpecifier).map specifierOfTree

/-- The text of the first string literal directly under the root. -/
def specifierText? (t : SyntaxTree) : Option String :=
  ((leafChildren t).find? (·.kind == .token .stringLiteral)).map (·.token.text)

/-- The declaration that a node of the kind holds. -/
def ofNode? (kind : NodeKind) (t : SyntaxTree) : Option Declaration :=
  match kind with
  | .variableStatement =>
    some (.variableList (variableKeyword? t)
      ((childrenOf t .variableDeclarator).map declaratorOfTree))
  | .functionDeclaration =>
    some (.function (name? t) (typeParameters? t)
      ((child? t .parameterList).map fun list => (childrenOf list .parameter).map boundNames))
  | .classDeclaration =>
    some (.classType (name? t) (typeParameters? t) (hasKeyword t .kwAbstract))
  | .interfaceDeclaration => some (.interfaceType (name? t) (typeParameters? t))
  | .typeAliasDeclaration => some (.typeAlias (name? t) (typeParameters? t))
  | .enumDeclaration =>
    some (.enumType (name? t) (hasKeyword t .kwConst)
      ((childrenOf t .enumBody).flatMap fun body => (childrenOf body .enumMember).map name?))
  | .importDeclaration =>
    some (.importFrom (specifierText? t) ((child? t .importClause).map clauseOfTree))
  | .importEquals => some (.importEquals (hasKeyword t .kwType) (name? t))
  | .exportDeclaration => some .exportNames
  | .exportAssignment => some .exportAssignment
  | .namespaceExport => some (.namespaceExport (name? t))
  | .emptyStatement => some .empty
  | _ => none

/-- The kind of node a declaration is read from. -/
def nodeKind : Declaration → NodeKind
  | variableList .. => .variableStatement
  | function .. => .functionDeclaration
  | classType .. => .classDeclaration
  | interfaceType .. => .interfaceDeclaration
  | typeAlias .. => .typeAliasDeclaration
  | enumType .. => .enumDeclaration
  | importFrom .. => .importDeclaration
  | importEquals .. => .importEquals
  | exportNames => .exportDeclaration
  | exportAssignment => .exportAssignment
  | namespaceExport .. => .namespaceExport
  | empty => .emptyStatement

theorem nodeKind_of_ofNode? {kind : NodeKind} {t : SyntaxTree} {d : Declaration}
    (h : ofNode? kind t = some d) : d.nodeKind = kind := by
  cases kind <;> simp [ofNode?] at h <;> subst h <;> rfl

end Declaration

namespace Statement

def headOfTree (t : SyntaxTree) : Head :=
  ⟨SyntaxTree.span t, SyntaxTree.hasKeyword t .kwExport, SyntaxTree.hasKeyword t .kwDeclare⟩

/-- The span of the first block among some trees. -/
def blockSpan? (ts : List SyntaxTree) : Option Span :=
  (ts.find? (Tree.isNode .moduleBlock)).map SyntaxTree.span

mutual

/-- The statement that a tree holds. -/
def ofTree? : SyntaxTree → Option Statement
  | .leaf _ => none
  | .node kind children =>
    let t : SyntaxTree := .node kind children
    if kind = .moduleDeclaration then
      some (.module (headOfTree t) (SyntaxTree.names t) (SyntaxTree.hasKeyword t .kwGlobal)
        (blockSpan? children) (ofBlock children))
    else (Declaration.ofNode? kind t).map (.plain (headOfTree t))

/-- The statements in the first block among some trees. -/
def ofBlock : List SyntaxTree → List Statement
  | [] => []
  | .leaf _ :: rest => ofBlock rest
  | .node kind children :: rest =>
    if kind = .moduleBlock then ofTrees children else ofBlock rest

/-- The statements among some trees. -/
def ofTrees : List SyntaxTree → List Statement
  | [] => []
  | t :: rest =>
    match ofTree? t with
    | some s => s :: ofTrees rest
    | none => ofTrees rest

end

def head : Statement → Head
  | plain h _ => h
  | module h .. => h

def nodeKind : Statement → NodeKind
  | plain _ d => d.nodeKind
  | module .. => .moduleDeclaration

/-- Whether a module is `module "name"`: its first name is a string. -/
def isAmbientModule (names : List Name) : Bool := names.head?.any (·.quoted)

end Statement

/-- The statements of a source. -/
def SyntaxTree.statements (t : SyntaxTree) : List Statement := Statement.ofTrees t.children

end ImplicitGlobals
