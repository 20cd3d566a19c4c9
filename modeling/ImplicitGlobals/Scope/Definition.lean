import ImplicitGlobals.Classification
import ImplicitGlobals.Syntax.Span

/-!
# Definitions

A declaration defines names. What kind of declaration it is decides whether the
name is a type, a value or both, and a name with several definitions is what any of
them makes it.
-/

namespace ImplicitGlobals

/-- What introduced a name. -/
inductive DefinitionKind where
  | className
  | functionName
  | variableName
  | enumName
  | enumMember
  | namespaceName
  /-- An interface or a type alias. -/
  | typeName
  | importBinding
  | typeImportBinding
  | parameter
  | typeParameter
  /-- Present before anything is declared. -/
  | implicitGlobal (c : Classification)
deriving DecidableEq, Repr, Inhabited

structure Definition where
  kind : DefinitionKind
  /-- The defining name; empty at the start of the source for implicit globals. -/
  span : Span
deriving DecidableEq, Repr, Inhabited

namespace DefinitionKind

def isType : DefinitionKind → Bool
  | className | enumName | namespaceName | typeName | importBinding | typeImportBinding
  | typeParameter => true
  | functionName | variableName | enumMember | parameter => false
  | implicitGlobal c => c.isType

def isValue : DefinitionKind → Bool
  | className | functionName | variableName | enumName | enumMember | namespaceName | importBinding
  | parameter => true
  | typeName | typeImportBinding | typeParameter => false
  | implicitGlobal c => c.isValue

/-- The kind of a name that is imported, as a type only or as it comes. -/
def ofImport (typeOnly : Bool) : DefinitionKind :=
  if typeOnly then typeImportBinding else importBinding

theorem isType_or_isValue (k : DefinitionKind) : (k.isType || k.isValue) = true := by
  cases k with
  | implicitGlobal c => cases c <;> rfl
  | _ => rfl

end DefinitionKind

/-- The definitions that share a name. -/
abbrev Definitions := List Definition

namespace Definitions

def isType (ds : Definitions) : Bool := ds.any (·.kind.isType)

def isValue (ds : Definitions) : Bool := ds.any (·.kind.isValue)

/-- There is none only for a name without definitions. -/
def classification? (ds : Definitions) : Option Classification :=
  Classification.ofFlags? ds.isType ds.isValue

theorem isType_or_isValue {ds : Definitions} (h : ds ≠ []) : (ds.isType || ds.isValue) = true := by
  match ds with
  | [] => exact absurd rfl h
  | d :: rest =>
    have := d.kind.isType_or_isValue
    cases ht : d.kind.isType <;> simp_all [isType, isValue]

end Definitions

end ImplicitGlobals
