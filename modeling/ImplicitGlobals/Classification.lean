/-!
# Classifications of global identifiers

A global identifier lives in the namespace of types, in that of values, or in
both. The three cases are the tags of every generated table.
-/

namespace ImplicitGlobals

/-- The namespaces a global identifier occupies. The order of the cases is the
alphabetical order of their tags. -/
inductive Classification where
  | typeOnly
  | typeAndValue
  | valueOnly
deriving DecidableEq, Repr, Inhabited

namespace Classification

/-- Every classification, sorted by tag. -/
def all : List Classification := [typeOnly, typeAndValue, valueOnly]

/-- The classification with the given facts; there is none for a name that is
neither a type nor a value. -/
def ofFlags? (isType isValue : Bool) : Option Classification :=
  match isType, isValue with
  | true, false => some typeOnly
  | false, true => some valueOnly
  | true, true => some typeAndValue
  | false, false => none

def isType : Classification → Bool
  | typeOnly | typeAndValue => true
  | valueOnly => false

def isValue : Classification → Bool
  | valueOnly | typeAndValue => true
  | typeOnly => false

/-- The shared constant the classification is written as. -/
def tag : Classification → String
  | typeOnly => "TYPE"
  | typeAndValue => "TYPE_VALUE"
  | valueOnly => "VALUE"

/-- The classification written as `text`. -/
def ofTag? (text : String) : Option Classification :=
  all.find? (·.tag == text)

/-- The place of a classification among all of them. -/
def rank : Classification → Nat
  | typeOnly => 0
  | typeAndValue => 1
  | valueOnly => 2

theorem mem_all (c : Classification) : c ∈ all := by
  cases c <;> simp [all]

theorem ofFlags?_isType_isValue (c : Classification) : ofFlags? c.isType c.isValue = some c := by
  cases c <;> rfl

theorem ofTag?_tag (c : Classification) : ofTag? c.tag = some c := by
  cases c <;> decide

theorem all_getElem?_rank (c : Classification) : all[c.rank]? = some c := by
  cases c <;> rfl

end Classification

end ImplicitGlobals
