import ImplicitGlobals.Scope.Definition
import ImplicitGlobals.Table

/-!
# Scope trees

A scope tree says which names each scope declares. Scopes are numbered in the order
they are opened; number 0 is the global scope. Every other scope knows its parent,
and a parent lists its children in order.
-/

namespace ImplicitGlobals

inductive ScopeKind where
  | global
  /-- The top level of a module source. -/
  | moduleBody
  | namespaceBody
  | classBody
  | functionBody
  /-- The type parameters of an interface or a type alias. -/
  | typeBody
  | enumBody
deriving DecidableEq, Repr, Inhabited

/-- The number of a scope in its tree. -/
abbrev ScopeId := Nat

structure Scope where
  kind : ScopeKind
  parent? : Option ScopeId
  children : List ScopeId
  /-- The names of the scope in the order they were first declared. -/
  bindings : Table Definitions
  span : Span
deriving DecidableEq, Repr, Inhabited

structure ScopeTree where
  scopes : Array Scope
deriving DecidableEq, Repr, Inhabited

namespace ScopeKind

def label : ScopeKind → String
  | global => "Global"
  | moduleBody => "Module"
  | namespaceBody => "Namespace"
  | classBody => "Class"
  | functionBody => "Function"
  | typeBody => "Type"
  | enumBody => "Enum"

end ScopeKind

namespace Scope

/-- A scope without names and children. -/
def fresh (kind : ScopeKind) (parent? : Option ScopeId) (span : Span) : Scope :=
  ⟨kind, parent?, [], [], span⟩

/-- Adds a definition of a name to those it has. -/
def define (s : Scope) (name : String) (d : Definition) : Scope :=
  { s with bindings := s.bindings.alter name (· ++ [d]) [d] }

end Scope

namespace ScopeTree

def globalId : ScopeId := 0

/-- The tree of the global scope alone. -/
def ofSpan (span : Span) : ScopeTree := ⟨#[.fresh .global none span]⟩

def get? (t : ScopeTree) (id : ScopeId) : Option Scope := t.scopes[id]?

def size (t : ScopeTree) : Nat := t.scopes.size

/-- Opens a scope under `parent`; its number is the size of the tree before. -/
def push (t : ScopeTree) (parent : ScopeId) (kind : ScopeKind) (span : Span) : ScopeTree :=
  ⟨(t.scopes.push (.fresh kind (some parent) span)).modify parent fun s =>
    { s with children := s.children ++ [t.size] }⟩

def define (t : ScopeTree) (id : ScopeId) (name : String) (d : Definition) : ScopeTree :=
  ⟨t.scopes.modify id (·.define name d)⟩

/-- The definitions of a name in a scope. -/
def lookup? (t : ScopeTree) (id : ScopeId) (name : String) : Option Definitions :=
  (t.get? id).bind (·.bindings.get? name)

/-- What an outline says of a name's namespaces. -/
def facts (ds : Definitions) : String := ds.classification?.elim "?" Classification.tag

mutual

/-- A line for the scope, one for each of its names, and those of its children. A
child is opened after its parent, so `fuel` need not exceed the size of the tree. -/
def outlineFrom (t : ScopeTree) : Nat → Nat → ScopeId → List String
  | 0, _, _ => []
  | fuel + 1, depth, id =>
    match t.get? id with
    | none => []
    | some s =>
      let margin := String.ofList (List.replicate (2 * depth) ' ')
      (margin ++ s.kind.label) ::
        s.bindings.map (fun (name, ds) => margin ++ "  " ++ name ++ " " ++ facts ds) ++
        outlineAll t fuel (depth + 1) s.children

def outlineAll (t : ScopeTree) : Nat → Nat → List ScopeId → List String
  | _, _, [] => []
  | fuel, depth, id :: rest => outlineFrom t fuel depth id ++ outlineAll t fuel depth rest

end

/-- The scopes and their names, indented by depth. -/
def outline (t : ScopeTree) : List String := outlineFrom t t.size 0 globalId

@[simp] theorem size_define (t : ScopeTree) (id : ScopeId) (name : String) (d : Definition) :
    (t.define id name d).size = t.size := by
  simp [define, size]

@[simp] theorem size_push (t : ScopeTree) (parent : ScopeId) (kind : ScopeKind) (span : Span) :
    (t.push parent kind span).size = t.size + 1 := by
  simp [push, size]

end ScopeTree

end ImplicitGlobals
