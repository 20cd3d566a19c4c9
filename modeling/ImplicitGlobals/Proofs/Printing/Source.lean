import ImplicitGlobals.Proofs.Syntax.Nesting
import ImplicitGlobals.Proofs.Syntax.Places

/-!
# Core declarations and how they are written

The declarations that a declaration file is made of, with types and bodies as balanced runs of
words: what each of them is written as, and the statement that it is.
-/

namespace ImplicitGlobals

/-! ### Words -/

/-- How the signs of the core declarations are written. -/
def TokenKind.sign : TokenKind → String
  | .parenOpen => "("
  | .parenClose => ")"
  | .braceOpen => "\x7b"
  | .braceClose => "\x7d"
  | .semicolon => ";"
  | .comma => ","
  | .dotDotDot => "..."
  | .dot => "."
  | .question => "?"
  | .colon => ":"
  | .equals => "="
  | _ => ""

namespace Lexeme

def ofSign (kind : TokenKind) : Lexeme := ⟨kind, kind.sign⟩

def ofKeyword (k : Keyword) : Lexeme := ⟨.ident, k.word⟩

/-- Whether the grammar may read the word as a keyword. -/
def isKeyword (l : Lexeme) : Bool := l.kind == .ident && (Keyword.ofWord? l.text).isSome

/-- What may not stand in a type outside of all brackets. -/
def endsType (l : Lexeme) : Bool :=
  l.kind == .comma || l.kind == .semicolon || l.kind == .equals || l.isKeyword

/-- What may not stand in a heritage clause outside of all brackets. -/
def endsHeritage (l : Lexeme) : Bool := l.endsType || l.kind == .braceOpen

end Lexeme

/-- A run of words without garbage in which the brackets are well nested. What is barred does
not stand outside of all brackets. -/
structure WordRun (angles : Bool) (barred : Lexeme → Bool) where
  words : List Lexeme
  clean : ∀ l ∈ words, l.kind ≠ .garbage
  nested : WellNested angles (words.map (·.kind))
  free : ∀ i, (h : i < words.length) → WellNested angles ((words.take i).map (·.kind)) →
    barred words[i] = false

/-- A type. -/
structure TypeRun extends WordRun true Lexeme.endsType where
  some : words ≠ []

/-- A type that is extended. -/
structure HeritageRun extends WordRun true Lexeme.endsHeritage where
  some : words ≠ []

/-- What stands between the braces of a body. -/
abbrev BodyRun := WordRun false fun _ => false

/-- An identifier that is no keyword. -/
structure PlainName where
  text : String
  plain : Keyword.ofWord? text = none

/-! ### Declarations -/

/-- What introduces a variable. -/
inductive VariableKeyword where
  | kwVar
  | kwLet
  | kwConst
deriving DecidableEq

def VariableKeyword.keyword : VariableKeyword → Keyword
  | kwVar => .kwVar
  | kwLet => .kwLet
  | kwConst => .kwConst

/-- `[...]name[?]: type` -/
structure CoreParameter where
  isRest : Bool
  name : PlainName
  isOptional : Bool
  type : TypeRun

/-- A declaration that holds no other ones. -/
inductive CoreDeclaration where
  | binding (keyword : VariableKeyword) (name : PlainName) (type : TypeRun)
  | function (name : PlainName) (parameters : List CoreParameter) (type : TypeRun)
  | typeAlias (name : PlainName) (type : TypeRun)
  | interfaceType (name : PlainName) (heritage : List HeritageRun) (body : BodyRun)
  | classType (name : PlainName) (body : BodyRun)
  /-- Each member may have a number for its value. -/
  | enumType (name : PlainName) (members : List (PlainName × Option String))

/-- A declaration, perhaps behind `declare`, or a namespace of such. -/
inductive CoreStatement where
  | plain (declared : Bool) (declaration : CoreDeclaration)
  | module (declared : Bool) (first : PlainName) (more : List PlainName) (body : List CoreStatement)

/-! ### How they are written -/

section

open Lexeme

def PlainName.lexeme (n : PlainName) : Lexeme := ⟨.ident, n.text⟩

/-- `declare`, if it is there. -/
def declareLexemes (declared : Bool) : List Lexeme :=
  if declared then [ofKeyword .kwDeclare] else []

/-- A sign, if it is there. -/
def signIf (kind : TokenKind) (present : Bool) : List Lexeme :=
  if present then [ofSign kind] else []

/-- Items with commas between them. -/
def listed (items : List (List Lexeme)) : List Lexeme := [ofSign .comma].intercalate items

theorem listed_cons_cons (first second : List Lexeme) (more : List (List Lexeme)) :
    listed (first :: second :: more) = first ++ ofSign .comma :: listed (second :: more) := by
  simp [listed, List.intercalate]

def BodyRun.lexemes (b : BodyRun) : List Lexeme :=
  ofSign .braceOpen :: b.words ++ [ofSign .braceClose]

theorem BodyRun.lexemes_append (b : BodyRun) (l : List Lexeme) :
    b.lexemes ++ l = ofSign .braceOpen :: (b.words ++ ofSign .braceClose :: l) := by
  simp [BodyRun.lexemes]

def CoreParameter.lexemes (p : CoreParameter) : List Lexeme :=
  signIf .dotDotDot p.isRest ++ p.name.lexeme :: signIf .question p.isOptional ++
    ofSign .colon :: p.type.words

/-- `name` or `name = value` -/
def memberLexemes (name : PlainName) (value : Option String) : List Lexeme :=
  name.lexeme :: (value.map fun n => [ofSign .equals, ⟨.number, n⟩]).getD []

/-- `extends`, if there is something to extend. -/
def heritageLexemes (heritage : List HeritageRun) : List Lexeme :=
  if heritage.isEmpty then [] else ofKeyword .kwExtends :: listed (heritage.map (·.words))

def CoreDeclaration.lexemes : CoreDeclaration → List Lexeme
  | binding k name type =>
    ofKeyword k.keyword :: name.lexeme :: ofSign .colon :: type.words ++ [ofSign .semicolon]
  | function name parameters type =>
    ofKeyword .kwFunction :: name.lexeme :: ofSign .parenOpen ::
        listed (parameters.map (·.lexemes)) ++
      ofSign .parenClose :: ofSign .colon :: type.words ++ [ofSign .semicolon]
  | typeAlias name type =>
    ofKeyword .kwType :: name.lexeme :: ofSign .equals :: type.words ++ [ofSign .semicolon]
  | interfaceType name heritage body =>
    ofKeyword .kwInterface :: name.lexeme :: heritageLexemes heritage ++ body.lexemes
  | classType name body => ofKeyword .kwClass :: name.lexeme :: body.lexemes
  | enumType name members =>
    ofKeyword .kwEnum :: name.lexeme :: ofSign .braceOpen ::
      listed (members.map fun m => memberLexemes m.1 m.2) ++ [ofSign .braceClose]

/-- The further names of a module. -/
def segmentLexemes (more : List PlainName) : List Lexeme :=
  more.flatMap fun n => [ofSign .dot, n.lexeme]

mutual

def CoreStatement.lexemes : CoreStatement → List Lexeme
  | .plain declared declaration => declareLexemes declared ++ declaration.lexemes
  | .module declared first more body =>
    declareLexemes declared ++ ofKeyword .kwNamespace :: first.lexeme :: segmentLexemes more ++
      ofSign .braceOpen :: lexemesOf body ++ [ofSign .braceClose]

/-- What a list of statements is written as. -/
def CoreStatement.lexemesOf : List CoreStatement → List Lexeme
  | [] => []
  | s :: rest => s.lexemes ++ lexemesOf rest

end

end

/-! ### What they are -/

def PlainName.name (n : PlainName) : Name := ⟨n.text, false, .point 0⟩

def CoreDeclaration.declaration : CoreDeclaration → Declaration
  | binding k name _ => .variableList (some k.keyword) [⟨some name.name, false, [name.name]⟩]
  | function name parameters _ =>
    .function (some name.name) none (some (parameters.map fun p => [p.name.name]))
  | typeAlias name _ => .typeAlias (some name.name) none
  | interfaceType name _ _ => .interfaceType (some name.name) none
  | classType name _ => .classType (some name.name) none false
  | enumType name members => .enumType (some name.name) false (members.map fun m => some m.1.name)

mutual

/-- The statement that is declared, with every span put at the start. -/
def CoreStatement.statement : CoreStatement → Statement
  | .plain declared declaration => .plain ⟨.point 0, false, declared⟩ declaration.declaration
  | .module declared first more body =>
    .module ⟨.point 0, false, declared⟩ ((first :: more).map (·.name)) false (some (.point 0))
      (statementsOf body)

def CoreStatement.statementsOf : List CoreStatement → List Statement
  | [] => []
  | s :: rest => s.statement :: statementsOf rest

end

end ImplicitGlobals
