import ImplicitGlobals.Failure
import ImplicitGlobals.Scope.Binding
import ImplicitGlobals.Source.Reference

/-!
# Source units

A bundle's source, read: its tree and its scopes. Here a syntax error is fatal.
-/

namespace ImplicitGlobals

/-- How a source is read. -/
structure SourceOptions where
  /-- Whether comments count; without them a source has no references. -/
  comments : Bool := true
  type : SourceType := .module
  /-- Names that are present in the global scope before anything is declared. -/
  implicitGlobals : List (String × Classification) := []
  budget : Budget := { nesting := some 512 }
deriving DecidableEq, Repr, Inhabited

structure SourceUnit where
  tree : SyntaxTree
  scopes : ScopeTree
  hasComments : Bool
deriving Repr, Inhabited

namespace SourceUnit

/-- The scopes of a tree. -/
def scopesOf (options : SourceOptions) (tree : SyntaxTree) : ScopeTree :=
  .ofStatements options.type options.implicitGlobals (SyntaxTree.span tree)
    (SyntaxTree.statements tree)

/-- Reads a source; it has to be free of syntax errors. -/
def read (options : SourceOptions) (text : String) : Except Failure SourceUnit :=
  match parseWithin options.budget text with
  | .error r => .error (.refused r)
  | .ok p =>
    let kept := p.diagnostics.filtered
    if kept.isEmpty then .ok ⟨p.tree, scopesOf options p.tree, options.comments⟩
    else .error (.malformed { text, diagnostics := kept })

/-- The comments in source order. -/
def comments (u : SourceUnit) : List Leaf :=
  if u.hasComments then
    u.tree.leaves.filter fun a =>
      a.kind == .token .lineComment || a.kind == .token .blockComment
  else []

/-- The text of each line comment after its two slashes. -/
def lineComments (u : SourceUnit) : List String :=
  (u.comments.filter (·.kind == .token .lineComment)).map fun a =>
    String.ofList (a.token.text.toList.drop 2)

def references (u : SourceUnit) : References := .ofComments u.lineComments

/-- A name with its classification. -/
def classify (v : String × Definitions) : Except Failure (String × Classification) :=
  match v.2.classification? with
  | some c => .ok (v.1, c)
  | none => .error (.unclassifiable v.1)

/-- The module scope: the first child of the global one, if it is of that kind. -/
def moduleScope? (t : ScopeTree) : Option Scope := do
  let root ← t.get? ScopeTree.globalId
  let scope ← t.get? (← root.children.head?)
  if scope.kind = .moduleBody then some scope else none

/-- The names at the top level of the module, in the order of first declaration. -/
def globals (u : SourceUnit) : Except Failure (Table Classification) :=
  match moduleScope? u.scopes with
  | none => .error .noModuleScope
  | some scope => scope.bindings.mapM classify

end SourceUnit

end ImplicitGlobals
