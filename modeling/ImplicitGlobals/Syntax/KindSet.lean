import ImplicitGlobals.Syntax.Kind

/-!
# Sets of kinds

A set holds kinds with a number below 64, one bit for each. All tokens and all
keywords have such a number. The sets that the grammar stops at are below.
-/

namespace ImplicitGlobals

/-- A set of kinds with numbers below 64. -/
structure KindSet where
  bits : BitVec 64
deriving DecidableEq, Inhabited

namespace KindSet

/-- The first number a set cannot hold. -/
def capacity : Nat := 64

def empty : KindSet := ⟨0⟩

/-- The set of one kind; a kind beyond the capacity makes it empty. -/
def singleton (k : Kind) : KindSet := ⟨BitVec.ofNat 64 (Nat.pow 2 k.number)⟩

def union (a b : KindSet) : KindSet := ⟨a.bits ||| b.bits⟩

def contains (s : KindSet) (k : Kind) : Bool := s.bits.getLsbD k.number

/-- The set of the listed kinds. -/
def ofKinds (kinds : List Kind) : KindSet :=
  kinds.foldl (fun s k => s.union (singleton k)) empty

/-- The set of the listed kinds, or nothing when one of them does not fit. -/
def ofKinds? (kinds : List Kind) : Option KindSet :=
  if kinds.all (·.number < capacity) then some (ofKinds kinds) else none

/-- The members in numbering order. -/
def toList (s : KindSet) : List Kind := (Kind.all.take capacity).filter s.contains

/-- The members' labels between braces. -/
def text (s : KindSet) : String :=
  "\x7b" ++ ", ".intercalate (s.toList.map (·.label)) ++ "\x7d"

/-- Whether a token kind is a member. -/
def holds (s : KindSet) (k : TokenKind) : Bool := s.contains (.leaf (.token k))

def ofTokens (kinds : List TokenKind) : KindSet :=
  ofKinds (kinds.map fun k => .leaf (.token k))

theorem contains_empty (k : Kind) : empty.contains k = false := by
  simp [empty, contains]

theorem contains_union (a b : KindSet) (k : Kind) :
    (a.union b).contains k = (a.contains k || b.contains k) := by
  simp [union, contains]

def openers : KindSet := ofTokens [.parenOpen, .bracketOpen, .braceOpen]

def closers : KindSet := ofTokens [.parenClose, .bracketClose, .braceClose]

/-- Ends the type of a variable declarator. -/
def declaratorTypeEnd : KindSet := ofTokens [.comma, .semicolon, .equals]

def declaratorInitEnd : KindSet := ofTokens [.comma, .semicolon]

def paramTypeEnd : KindSet := ofTokens [.comma, .equals]

def listItemEnd : KindSet := ofTokens [.comma]

def statementEnd : KindSet := ofTokens [.semicolon]

def heritageEnd : KindSet := ofTokens [.comma, .braceOpen]

def typeParamConstraintEnd : KindSet := ofTokens [.comma, .equals]

/-- Begins a bound name or a pattern. -/
def bindingStart : KindSet := ofTokens [.ident, .braceOpen, .bracketOpen]

def enumMemberName : KindSet := ofTokens [.ident, .stringLiteral, .number, .bracketOpen]

/-- The shared sets by name. -/
def named : List (String × KindSet) :=
  [("EMPTY", empty), ("OPENERS", openers), ("CLOSERS", closers),
   ("DECLARATOR_TYPE_END", declaratorTypeEnd), ("DECLARATOR_INIT_END", declaratorInitEnd),
   ("PARAM_TYPE_END", paramTypeEnd), ("LIST_ITEM_END", listItemEnd),
   ("STATEMENT_END", statementEnd), ("HERITAGE_END", heritageEnd),
   ("TYPE_PARAM_CONSTRAINT_END", typeParamConstraintEnd), ("BINDING_START", bindingStart),
   ("ENUM_MEMBER_NAME", enumMemberName)]

end KindSet

end ImplicitGlobals
