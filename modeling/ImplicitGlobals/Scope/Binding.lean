import ImplicitGlobals.Scope.Tree
import ImplicitGlobals.Syntax.Statement

/-!
# Binding

The scope tree of a list of statements. A name lands in the scope of the statement
that declares it; a declaration with names of its own inside opens a scope for them.
`namespace A.B` opens one scope in another. `declare global` and `module "name"`
name nothing, for what they declare belongs elsewhere.
-/

namespace ImplicitGlobals

/-- Whether top-level names belong to a module or to the global scope. -/
inductive SourceType where
  | module
  | script
deriving DecidableEq, Repr, Inhabited

namespace ScopeTree

/-- Defines a name, unless it is empty. -/
def bind (t : ScopeTree) (scope : ScopeId) (kind : DefinitionKind) (n : Name) : ScopeTree :=
  if n.text = "" then t else t.define scope n.text ⟨kind, n.span⟩

def bindAll (t : ScopeTree) (scope : ScopeId) (kind : DefinitionKind) (ns : List Name) :
    ScopeTree :=
  ns.foldl (fun t n => t.bind scope kind n) t

def bind? (t : ScopeTree) (scope : ScopeId) (kind : DefinitionKind) (n : Option Name) :
    ScopeTree :=
  t.bindAll scope kind n.toList

/-- Opens a scope that holds type parameters. -/
def openWith (t : ScopeTree) (scope : ScopeId) (kind : ScopeKind) (span : Span)
    (ps : Option TypeParameters) : ScopeTree :=
  (t.push scope kind span).bindAll t.size .typeParameter ((ps.getD []).filterMap id)

def bindClause (t : ScopeTree) (scope : ScopeId) (c : ImportClause) : ScopeTree :=
  let t := t.bind? scope (.ofImport c.typeOnly) c.default?
  let t := t.bind? scope (.ofImport c.typeOnly) c.asNamespace?
  c.specifiers.foldl (fun t s => t.bind? scope (.ofImport (c.typeOnly || s.typeOnly)) s.name?) t

def bindDeclaration (t : ScopeTree) (scope : ScopeId) (span : Span) : Declaration → ScopeTree
  | .variableList _ ds => t.bindAll scope .variableName (ds.flatMap (·.bound))
  | .function name types parameters =>
    let t := t.bind? scope .functionName name
    (t.openWith scope .functionBody span types).bindAll t.size .parameter (parameters.getD []).flatten
  | .classType name types _ =>
    (t.bind? scope .className name).openWith scope .classBody span types
  | .interfaceType name types | .typeAlias name types =>
    (t.bind? scope .typeName name).openWith scope .typeBody span types
  | .enumType name _ members =>
    let t := t.bind? scope .enumName name
    (t.push scope .enumBody span).bindAll t.size .enumMember (members.filterMap id)
  | .importFrom _ clause => clause.elim t (t.bindClause scope)
  | .importEquals typeOnly name => t.bind? scope (.ofImport typeOnly) name
  | .exportNames | .exportAssignment | .namespaceExport _ | .empty => t

/-- Opens a namespace for each name, one inside the other, and gives the innermost. -/
def openNamespaces (t : ScopeTree) (scope : ScopeId) (span : Span) :
    List Name → ScopeTree × ScopeId
  | [] => (t, scope)
  | n :: rest =>
    let t := t.bind scope .namespaceName n
    openNamespaces (t.push scope .namespaceBody span) t.size span rest

mutual

def bindStatement (t : ScopeTree) (scope : ScopeId) : Statement → ScopeTree
  | .plain head d => t.bindDeclaration scope head.span d
  | .module head names isGlobal block body =>
    if isGlobal || Statement.isAmbientModule names then
      match block with
      | none => t
      | some span => bindStatements (t.push scope .namespaceBody span) t.size body
    else
      let (t, inner) := t.openNamespaces scope (block.getD head.span) names
      bindStatements t inner body

def bindStatements (t : ScopeTree) (scope : ScopeId) : List Statement → ScopeTree
  | [] => t
  | s :: rest => bindStatements (bindStatement t scope s) scope rest

end

/-- Defines names that are present before anything is declared. -/
def seed (t : ScopeTree) (globals : List (String × Classification)) : ScopeTree :=
  globals.foldl
    (fun t g => t.define globalId g.1 ⟨.implicitGlobal g.2, .point 0⟩) t

/-- The scopes of a source that spans `span` and holds `statements`. The names of a
module source go into a scope under the global one. -/
def ofStatements (type : SourceType) (globals : List (String × Classification)) (span : Span)
    (statements : List Statement) : ScopeTree :=
  let t := (ofSpan span).seed globals
  match type with
  | .module => bindStatements (t.push globalId .moduleBody span) t.size statements
  | .script => bindStatements t globalId statements

end ScopeTree

end ImplicitGlobals
