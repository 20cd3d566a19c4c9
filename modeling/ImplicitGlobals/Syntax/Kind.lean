/-!
# Kinds

The kinds of the declaration syntax: of tokens, of the words that act as
keywords where the grammar expects them, and of the nodes of a syntax tree. Every
keyword is an identifier to the lexer; only the grammar tells them apart.
-/

namespace ImplicitGlobals

/-- The kinds of tokens. `<` and `>` are single tokens, so that nested type
arguments close one level at a time. -/
inductive TokenKind where
  | parenOpen
  | parenClose
  | bracketOpen
  | bracketClose
  | braceOpen
  | braceClose
  | angleOpen
  | angleClose
  | semicolon
  | comma
  | dotDotDot
  | dot
  | question
  | colon
  | fatArrow
  | equals
  | pipe
  | amp
  | bang
  | plus
  | minus
  | star
  | slash
  | percent
  | caret
  | tilde
  | at
  | stringLiteral
  | templateLiteral
  | number
  | privateName
  | ident
  | whitespace
  | newline
  | lineComment
  | blockComment
  | garbage
deriving DecidableEq, Repr, Inhabited

/-- The words that the grammar may read as keywords. -/
inductive Keyword where
  | kwDeclare
  | kwExport
  | kwDefault
  | kwAbstract
  | kwVar
  | kwLet
  | kwConst
  | kwFunction
  | kwClass
  | kwInterface
  | kwType
  | kwEnum
  | kwNamespace
  | kwModule
  | kwGlobal
  | kwImport
  | kwFrom
  | kwAs
  | kwExtends
  | kwImplements
  | kwRequire
deriving DecidableEq, Repr, Inhabited

/-- The kinds of inner nodes of a syntax tree; `error` wraps what was skipped. -/
inductive NodeKind where
  | error
  | sourceFile
  | variableStatement
  | variableDeclarator
  | bindingPattern
  | functionDeclaration
  | classDeclaration
  | interfaceDeclaration
  | typeAliasDeclaration
  | enumDeclaration
  | enumBody
  | enumMember
  | moduleDeclaration
  | moduleBlock
  | importDeclaration
  | importClause
  | namedImports
  | namespaceImport
  | importSpecifier
  | importAttributes
  | importEquals
  | moduleReference
  | exportDeclaration
  | namedExports
  | exportAssignment
  | namespaceExport
  | emptyStatement
  | name
  | typeParameterList
  | typeParameter
  | parameterList
  | parameter
  | typeAscription
  | typeExpr
  | heritageClause
  | classBody
  | objectTypeBody
  | initializer
deriving DecidableEq, Repr, Inhabited

namespace TokenKind

/-- Every token kind, in the order of declaration. -/
def all : List TokenKind :=
  [.parenOpen, .parenClose, .bracketOpen, .bracketClose, .braceOpen, .braceClose, .angleOpen,
   .angleClose, .semicolon, .comma, .dotDotDot, .dot, .question, .colon, .fatArrow, .equals,
   .pipe, .amp, .bang, .plus, .minus, .star, .slash, .percent, .caret, .tilde, .at,
   .stringLiteral, .templateLiteral, .number, .privateName, .ident, .whitespace, .newline,
   .lineComment, .blockComment, .garbage]

def label : TokenKind → String
  | .parenOpen => "ParenOpen"
  | .parenClose => "ParenClose"
  | .bracketOpen => "BracketOpen"
  | .bracketClose => "BracketClose"
  | .braceOpen => "BraceOpen"
  | .braceClose => "BraceClose"
  | .angleOpen => "LAngle"
  | .angleClose => "RAngle"
  | .semicolon => "Semicolon"
  | .comma => "Comma"
  | .dotDotDot => "DotDotDot"
  | .dot => "Dot"
  | .question => "Question"
  | .colon => "Colon"
  | .fatArrow => "FatArrow"
  | .equals => "Equals"
  | .pipe => "Pipe"
  | .amp => "Amp"
  | .bang => "Bang"
  | .plus => "Plus"
  | .minus => "Minus"
  | .star => "Star"
  | .slash => "Slash"
  | .percent => "Percent"
  | .caret => "Caret"
  | .tilde => "Tilde"
  | .at => "At"
  | .stringLiteral => "StringLiteral"
  | .templateLiteral => "TemplateLiteral"
  | .number => "Number"
  | .privateName => "PrivateName"
  | .ident => "Ident"
  | .whitespace => "Whitespace"
  | .newline => "Newline"
  | .lineComment => "LineComment"
  | .blockComment => "BlockComment"
  | .garbage => "Garbage"

/-- Spacing and comments, which the grammar never sees. -/
def isTrivia : TokenKind → Bool
  | .whitespace | .newline | .lineComment | .blockComment => true
  | _ => false

/-- `)`, `]` and `}`. -/
def isCloser : TokenKind → Bool
  | .parenClose | .bracketClose | .braceClose => true
  | _ => false

theorem mem_all (k : TokenKind) : k ∈ all := by
  cases k <;> decide

end TokenKind

namespace Keyword

/-- Every keyword, in the order of declaration. -/
def all : List Keyword :=
  [.kwDeclare, .kwExport, .kwDefault, .kwAbstract, .kwVar, .kwLet, .kwConst, .kwFunction,
   .kwClass, .kwInterface, .kwType, .kwEnum, .kwNamespace, .kwModule, .kwGlobal, .kwImport,
   .kwFrom, .kwAs, .kwExtends, .kwImplements, .kwRequire]

def label : Keyword → String
  | .kwDeclare => "KwDeclare"
  | .kwExport => "KwExport"
  | .kwDefault => "KwDefault"
  | .kwAbstract => "KwAbstract"
  | .kwVar => "KwVar"
  | .kwLet => "KwLet"
  | .kwConst => "KwConst"
  | .kwFunction => "KwFunction"
  | .kwClass => "KwClass"
  | .kwInterface => "KwInterface"
  | .kwType => "KwType"
  | .kwEnum => "KwEnum"
  | .kwNamespace => "KwNamespace"
  | .kwModule => "KwModule"
  | .kwGlobal => "KwGlobal"
  | .kwImport => "KwImport"
  | .kwFrom => "KwFrom"
  | .kwAs => "KwAs"
  | .kwExtends => "KwExtends"
  | .kwImplements => "KwImplements"
  | .kwRequire => "KwRequire"

/-- The word itself. -/
def word : Keyword → String
  | .kwDeclare => "declare"
  | .kwExport => "export"
  | .kwDefault => "default"
  | .kwAbstract => "abstract"
  | .kwVar => "var"
  | .kwLet => "let"
  | .kwConst => "const"
  | .kwFunction => "function"
  | .kwClass => "class"
  | .kwInterface => "interface"
  | .kwType => "type"
  | .kwEnum => "enum"
  | .kwNamespace => "namespace"
  | .kwModule => "module"
  | .kwGlobal => "global"
  | .kwImport => "import"
  | .kwFrom => "from"
  | .kwAs => "as"
  | .kwExtends => "extends"
  | .kwImplements => "implements"
  | .kwRequire => "require"

/-- The keyword spelled `text`. -/
def ofWord? (text : String) : Option Keyword :=
  all.find? (·.word == text)

theorem mem_all (k : Keyword) : k ∈ all := by
  cases k <;> decide

theorem word_of_ofWord? {text : String} {k : Keyword} (h : ofWord? text = some k) :
    k.word = text := by
  simpa using List.find?_some h

theorem ofWord?_word (k : Keyword) : ofWord? k.word = some k := by
  cases k <;> decide

end Keyword

namespace NodeKind

/-- Every node kind other than `error`, in the order of declaration. -/
def all : List NodeKind :=
  [.sourceFile, .variableStatement, .variableDeclarator, .bindingPattern, .functionDeclaration,
   .classDeclaration, .interfaceDeclaration, .typeAliasDeclaration, .enumDeclaration, .enumBody,
   .enumMember, .moduleDeclaration, .moduleBlock, .importDeclaration, .importClause,
   .namedImports, .namespaceImport, .importSpecifier, .importAttributes, .importEquals,
   .moduleReference, .exportDeclaration, .namedExports, .exportAssignment, .namespaceExport,
   .emptyStatement, .name, .typeParameterList, .typeParameter, .parameterList, .parameter,
   .typeAscription, .typeExpr, .heritageClause, .classBody, .objectTypeBody, .initializer]

def label : NodeKind → String
  | .error => "Error"
  | .sourceFile => "SourceFile"
  | .variableStatement => "VariableStatement"
  | .variableDeclarator => "VariableDeclarator"
  | .bindingPattern => "BindingPattern"
  | .functionDeclaration => "FunctionDeclaration"
  | .classDeclaration => "ClassDeclaration"
  | .interfaceDeclaration => "InterfaceDeclaration"
  | .typeAliasDeclaration => "TypeAliasDeclaration"
  | .enumDeclaration => "EnumDeclaration"
  | .enumBody => "EnumBody"
  | .enumMember => "EnumMember"
  | .moduleDeclaration => "ModuleDeclaration"
  | .moduleBlock => "ModuleBlock"
  | .importDeclaration => "ImportDeclaration"
  | .importClause => "ImportClause"
  | .namedImports => "NamedImports"
  | .namespaceImport => "NamespaceImport"
  | .importSpecifier => "ImportSpecifier"
  | .importAttributes => "ImportAttributes"
  | .importEquals => "ImportEquals"
  | .moduleReference => "ModuleReference"
  | .exportDeclaration => "ExportDeclaration"
  | .namedExports => "NamedExports"
  | .exportAssignment => "ExportAssignment"
  | .namespaceExport => "NamespaceExport"
  | .emptyStatement => "EmptyStatement"
  | .name => "Name"
  | .typeParameterList => "TypeParameterList"
  | .typeParameter => "TypeParameter"
  | .parameterList => "ParameterList"
  | .parameter => "Parameter"
  | .typeAscription => "TypeAnnotation"
  | .typeExpr => "TypeExpr"
  | .heritageClause => "HeritageClause"
  | .classBody => "ClassBody"
  | .objectTypeBody => "ObjectTypeBody"
  | .initializer => "Initializer"

end NodeKind

/-- The label of a leaf: the kind of its token, or the keyword the grammar read. -/
inductive LeafKind where
  | token (kind : TokenKind)
  | keyword (word : Keyword)
deriving DecidableEq, Repr, Inhabited

namespace LeafKind

def label : LeafKind → String
  | token k => k.label
  | keyword k => k.label

def isTrivia : LeafKind → Bool
  | token k => k.isTrivia
  | keyword _ => false

end LeafKind

/-- Any kind that labels a part of a tree. -/
inductive Kind where
  | leaf (kind : LeafKind)
  | node (kind : NodeKind)
deriving DecidableEq, Repr, Inhabited

namespace Kind

/-- Every kind in numbering order: tokens, `error`, keywords, then the other nodes. -/
def all : List Kind :=
  TokenKind.all.map (.leaf ∘ .token) ++ [.node .error] ++ Keyword.all.map (.leaf ∘ .keyword) ++
    NodeKind.all.map .node

/-- The number of a kind. -/
def number (k : Kind) : Nat := all.idxOf k

def ofNumber? (n : Nat) : Option Kind := all[n]?

def label : Kind → String
  | leaf k => k.label
  | node k => k.label

def isTrivia : Kind → Bool
  | leaf k => k.isTrivia
  | node _ => false

/-- What recovery skipped, and characters no token starts with. -/
def isError : Kind → Bool
  | leaf (.token .garbage) | node .error => true
  | _ => false

def isKeyword : Kind → Bool
  | leaf (.keyword _) => true
  | _ => false

end Kind

end ImplicitGlobals
