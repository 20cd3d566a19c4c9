import ImplicitGlobals.Grammar.Declaration
import ImplicitGlobals.Proofs.Printing.Runs

/-!
# Reading declarations that are written

What each declaration is written as is read back into one node, which holds a name for each name
that was written.
-/

namespace ImplicitGlobals.Grammar

open Lexeme

variable {l m a : List Lexeme} {ts us : List SyntaxTree}

/-! ### Signs and lists -/

/-- A sign that may be there is read if it is. -/
theorem eat_signIf {kind : TokenKind} (present : Bool) (other : (kindOf l 0 == some kind) = false) :
    Parses (eat kind) (signIf kind present ++ l) l present
        ((signIf kind present).map Lexeme.leaf) := by
  cases present with
  | true => exact eat_hit rfl l
  | false => exact eat_miss other

/-- The semicolon at the end of a statement. -/
theorem expectSemicolon_parses (a : List Lexeme) :
    Parses expectSemicolon (ofSign .semicolon :: a) a () [(ofSign .semicolon).leaf] :=
  (eat_hit rfl a).bind (.pure () a)

/-- The trees of items with commas between them. -/
def listedTrees (items : List SyntaxTree) : List SyntaxTree :=
  items.intersperse (ofSign .comma).leaf

/-- Items that are read one by one, each with the comma behind it. -/
theorem repeats_listed {ι : Type} {turn : Rule Bool} {lexemes : ι → List Lexeme}
    {tree : ι → SyntaxTree}
    (more : ∀ i b, Parses turn (lexemes i ++ ofSign .comma :: b) b true
        [tree i, (ofSign .comma).leaf])
    (last : ∀ i, Parses turn (lexemes i ++ a) a false [tree i]) (i : ι) (items : List ι) :
    Repeats turn (listed ((i :: items).map lexemes) ++ a) a
        (listedTrees ((i :: items).map tree)) := by
  induction items generalizing i with
  | nil => simpa [listed] using .stop (last i)
  | cons j items ih =>
    have whole := Repeats.again (more i (listed ((j :: items).map lexemes) ++ a)) (ih j)
    simpa [listed_cons_cons, listedTrees] using whole

/-- What comes behind an item between delimiters. -/
def BehindItem (closer : TokenKind) (l : List Lexeme) : Prop :=
  kindOf l 0 = some .comma ∨ kindOf l 0 = some closer

/-- How an item between delimiters is read wherever it stands. -/
structure ReadsItem (closer : TokenKind) (starts : Rule Bool) (item : Rule Unit)
    (lexemes : List Lexeme) (tree : SyntaxTree) : Prop where
  inner : ∀ l, ((lexemes ++ l).isEmpty || kindOf (lexemes ++ l) 0 == some closer) = false
  starts : ∀ l, Parses starts (lexemes ++ l) (lexemes ++ l) true []
  item : ∀ l, BehindItem closer l → Parses item (lexemes ++ l) l () [tree]

/-- One item is read, and the comma if it is there. -/
theorem ReadsItem.turn {closer : TokenKind} {starts : Rule Bool} {item : Rule Unit}
    {lexemes : List Lexeme} {tree : SyntaxTree} {b : Bool}
    (reads : ReadsItem closer starts item lexemes tree) (what : String)
    (behind : BehindItem closer l)
    (comma : Parses (eat .comma) l a b us) :
    Parses (itemTurn closer starts what item) (lexemes ++ l) a b (tree :: us) := by
  have going := (atEnd_parses (lexemes ++ l)).or (currentIs_parses (lexemes ++ l) closer)
  rw [reads.inner] at going
  exact going.no ((reads.starts l).bind ((reads.item l behind).seq comma))

/-- Items are read up to the closer. -/
theorem items_repeat {ι : Type} {closer : TokenKind} {starts : Rule Bool} {item : Rule Unit}
    {lexemes : ι → List Lexeme} {tree : ι → SyntaxTree}
    (other : (some closer == some .comma) = false)
    (reads : ∀ i, ReadsItem closer starts item (lexemes i) (tree i)) (what : String)
    (items : List ι)
    (a : List Lexeme) :
    Repeats (itemTurn closer starts what item) (listed (items.map lexemes) ++ ofSign closer :: a)
      (ofSign closer :: a) (listedTrees (items.map tree)) := by
  cases items with
  | nil =>
    have found := (atEnd_parses (ofSign closer :: a)).or
        (currentIs_parses (ofSign closer :: a) closer)
    rw [show (_ || kindOf (ofSign closer :: a) 0 == some closer) = true by
      simp [kindOf, ofSign]] at found
    exact .stop (found.yes (.pure false _))
  | cons i items =>
    refine repeats_listed (fun i b => ?_) (fun i => ?_) i items
    · exact (reads i).turn what (.inl rfl) (eat_hit rfl b)
    · exact (reads i).turn what (.inr rfl) (eat_miss other)

/-! ### Variables -/

/-- An identifier as a binding. -/
theorem identifier_binds (text : String) (a : List Lexeme) :
    Parses binding (⟨.ident, text⟩ :: a) a () [.node .name [Lexeme.leaf ⟨.ident, text⟩]] := by
  have named (k : Nat) : Parses (bindingWithin (k + 1)) (⟨.ident, text⟩ :: a) a () _ :=
    (current_parses _).bind (identifier_parses text a)
  exact fun words c ready here => .get (named _ words c ready here)

theorem binding_parses (n : PlainName) (a : List Lexeme) :
    Parses binding (n.lexeme :: a) a () [nameTree n] :=
  identifier_binds n.text a

/-- `name: type` -/
def declaratorTree (n : PlainName) (type : TypeRun) : SyntaxTree :=
  .node .variableDeclarator [nameTree n, ascriptionTree type.words]

/-- A declared variable, up to its semicolon. -/
theorem variableDeclarator_parses (n : PlainName) (type : TypeRun) (a : List Lexeme) :
    Parses variableDeclarator (n.lexeme :: ofSign .colon :: (type.words ++ ofSign .semicolon :: a))
      (ofSign .semicolon :: a) () [declaratorTree n type] := by
  have ends : Ends .declaratorTypeEnd (ofSign .semicolon :: a) := ends_of_kindOf rfl (by decide)
  have ascribed := typeAscription_parses .declaratorTypeEnd type (typeEnd_of_mem (by simp)) ends
  refine node_parses ?_
  refine (binding_parses n _).seq ?_
  refine (eat_miss rfl).bind ?_
  refine (optional_hit rfl ascribed).seq ?_
  exact optional_miss rfl

/-- `var name: type;`, behind its modifiers -/
def variableTree (us : List SyntaxTree) (k : Keyword) (n : PlainName)
    (type : TypeRun) : SyntaxTree :=
  .node .variableStatement (us ++ [keywordLeaf k, declaratorTree n type, (ofSign .semicolon).leaf])

/-- A variable statement. -/
theorem variableStatement_parses (us : List SyntaxTree) (k : Keyword) (n : PlainName)
    (type : TypeRun) (a : List Lexeme) :
    ParsesFrom us variableStatement
      (ofKeyword k :: n.lexeme :: ofSign .colon :: (type.words ++ ofSign .semicolon :: a)) a ()
      [variableTree us k n type] := by
  have turn : Parses variableTurn _ _ false _ :=
    (variableDeclarator_parses n type a).seq (eat_miss rfl)
  refine nodeAt_parses ?_ us
  refine (bumpKeyword_parses k _).seq ?_
  refine (repeatWhile_parses (.stop turn)).seq ?_
  exact expectSemicolon_parses a

/-! ### Functions -/

/-- `[...]name[?]: type` -/
def parameterTree (p : CoreParameter) : SyntaxTree :=
  .node .parameter ((signIf .dotDotDot p.isRest).map leaf ++ nameTree p.name ::
    (signIf .question p.isOptional).map leaf ++ [ascriptionTree p.type.words])

/-- A parameter. -/
theorem parameter_parses (p : CoreParameter) (behind : BehindItem .parenClose a) :
    Parses parameter (p.lexemes ++ a) a () [parameterTree p] := by
  have ends : Ends .paramTypeEnd a := by
    rcases behind with here | here <;> exact ends_of_kindOf here (by decide)
  have other : (kindOf a 0 == some .equals) = false := by
    rcases behind with here | here <;> rw [here] <;> rfl
  have ascribed := typeAscription_parses .paramTypeEnd p.type (typeEnd_of_mem (by simp)) ends
  have whole : Parses parameter _ a () _ := node_parses <|
    (eat_signIf p.isRest rfl).bind <| (binding_parses p.name _).seq <|
    (eat_signIf p.isOptional rfl).bind <| (optional_hit rfl ascribed).seq <|
    optional_miss other
  simpa [CoreParameter.lexemes, parameterTree] using whole

/-- A parameter begins with a name or with `...`. -/
theorem kindOf_parameter (p : CoreParameter) (l : List Lexeme) :
    kindOf (p.lexemes ++ l) 0 = some .ident ∨ kindOf (p.lexemes ++ l) 0 = some .dotDotDot := by
  rw [CoreParameter.lexemes]
  cases p.isRest with
  | true => exact .inr rfl
  | false => exact .inl rfl

theorem parameter_reads (p : CoreParameter) :
    ReadsItem .parenClose (currentIn .bindingStart <||> currentIs .dotDotDot) parameter p.lexemes
      (parameterTree p) where
  inner l := by
    rcases kindOf_parameter p l with kind | kind <;>
        simp only [isEmpty_of_kindOf kind, kind] <;> rfl
  starts l := by
    have asked := (currentIn_parses (p.lexemes ++ l) .bindingStart).or
      (currentIs_parses (p.lexemes ++ l) .dotDotDot)
    rcases kindOf_parameter p l with kind | kind <;> rw [kind] at asked <;> exact asked
  item _ behind := parameter_parses p behind

/-- Parameters between round brackets. -/
def parametersTree (ps : List CoreParameter) : SyntaxTree :=
  .node .parameterList
    ((ofSign .parenOpen).leaf :: listedTrees (ps.map parameterTree) ++ [(ofSign .parenClose).leaf])

/-- A list of parameters. -/
theorem parameters_parses (ps : List CoreParameter) (a : List Lexeme) :
    Parses parameters (ofSign .parenOpen ::
        (listed (ps.map (·.lexemes)) ++ ofSign .parenClose :: a)) a ()
      [parametersTree ps] :=
  assertAt_seq rfl
      (node_parses (delimited_parses _ _ rfl (items_repeat rfl parameter_reads _ ps a)))

/-- `function name(parameters): type;`, behind its modifiers -/
def functionTree (us : List SyntaxTree) (n : PlainName) (ps : List CoreParameter) (type : TypeRun) :
    SyntaxTree :=
  .node .functionDeclaration (us ++ [keywordLeaf .kwFunction, nameTree n, parametersTree ps,
    ascriptionTree type.words, (ofSign .semicolon).leaf])

/-- A function. -/
theorem functionDeclaration_parses (us : List SyntaxTree) (n : PlainName) (ps : List CoreParameter)
    (type : TypeRun) (a : List Lexeme) :
    ParsesFrom us (functionDeclaration · false)
      (ofKeyword .kwFunction :: n.lexeme :: ofSign .parenOpen :: (listed (ps.map (·.lexemes)) ++
        ofSign .parenClose :: ofSign .colon :: (type.words ++ ofSign .semicolon :: a))) a ()
      [functionTree us n ps type] := by
  have ends : Ends .statementEnd (ofSign .semicolon :: a) := ends_of_kindOf rfl (by decide)
  have ascribed := typeAscription_parses .statementEnd type (typeEnd_of_mem (by simp)) ends
  have named (l : List Lexeme) : Parses (functionName false) (n.lexeme :: l) l () [nameTree n] :=
    (currentIs_parses _ .ident).yes (nameRule_parses n l)
  have bound (l : List Lexeme) :
      Parses functionParameters (ofSign .parenOpen :: (listed _ ++ ofSign .parenClose :: l)) l ()
        [parametersTree ps] :=
    (currentIs_parses _ .parenOpen).yes (parameters_parses ps l)
  refine nodeAt_parses ?_ us
  refine (takeKeyword_parses .kwFunction _).seq ?_
  refine (eat_miss rfl).bind ?_
  refine (named _).seq ?_
  refine (optional_miss rfl).seq ?_
  refine (bound _).seq ?_
  refine (optional_hit rfl ascribed).seq ?_
  exact expectSemicolon_parses a

/-! ### Types -/

/-- `type name = type;`, behind its modifiers -/
def typeAliasTree (us : List SyntaxTree) (n : PlainName) (type : TypeRun) : SyntaxTree :=
  .node .typeAliasDeclaration (us ++ [keywordLeaf .kwType, nameTree n, (ofSign .equals).leaf,
    typeTree type.words, (ofSign .semicolon).leaf])

/-- A type alias. -/
theorem typeAlias_parses (us : List SyntaxTree) (n : PlainName) (type : TypeRun) (a : List Lexeme) :
    ParsesFrom us typeAlias
      (ofKeyword .kwType :: n.lexeme :: ofSign .equals :: (type.words ++ ofSign .semicolon :: a))
      a ()
      [typeAliasTree us n type] := by
  have ends : Ends .statementEnd (ofSign .semicolon :: a) := ends_of_kindOf rfl (by decide)
  have read := type_parses .statementEnd type (typeEnd_of_mem (by simp)) ends
  have expected (l : List Lexeme) :
      Parses (expect .equals "`=`") (ofSign .equals :: l) l true [(ofSign .equals).leaf] :=
    (eat_hit rfl l).bind (.pure true l)
  refine nodeAt_parses ?_ us
  refine (takeKeyword_parses .kwType _).seq ?_
  refine (nameRule_parses n _).seq ?_
  refine (optional_miss rfl).seq ?_
  refine (whenever_parses (expected _) read).seq ?_
  exact expectSemicolon_parses a

/-- What is extended, if anything is. -/
def heritageTrees : List HeritageRun → List SyntaxTree
  | [] => []
  | types => [.node .heritageClause (keywordLeaf .kwExtends ::
      listedTrees (types.map fun type => typeTree type.words))]

/-- The types that are extended are read up to the body. -/
theorem heritage_repeats (type : HeritageRun) (types : List HeritageRun) (a : List Lexeme) :
    Repeats heritageTurn (listed ((type :: types).map (·.words)) ++ ofSign .braceOpen :: a)
      (ofSign .braceOpen :: a)
          (listedTrees ((type :: types).map fun type => typeTree type.words)) := by
  refine repeats_listed (fun type b => ?_) (fun type => ?_) type types
  · have ends : Ends .heritageEnd (ofSign .comma :: b) := ends_of_kindOf rfl (by decide)
    exact (heritageType_parses type ends).seq (eat_hit rfl b)
  · have ends : Ends .heritageEnd (ofSign .braceOpen :: a) := ends_of_kindOf rfl (by decide)
    exact (heritageType_parses type ends).seq (eat_miss rfl)

/-- The heritage clause of an interface. -/
theorem heritage_parses (types : List HeritageRun) (a : List Lexeme) :
    Parses (repeatWhile (heritageClauseTurn (atKeyword .kwExtends)))
      (heritageLexemes types ++ ofSign .braceOpen :: a) (ofSign .braceOpen :: a) ()
          (heritageTrees types) := by
  have none : Parses (heritageClauseTurn (atKeyword .kwExtends)) (ofSign .braceOpen :: a)
      (ofSign .braceOpen :: a) false [] :=
    (atKeyword_parses _ .kwExtends).no (.pure false _)
  cases types with
  | nil => exact repeatWhile_parses (.stop none)
  | cons type types =>
    have clause : Parses heritageClause _ _ () _ := node_parses
      ((bumpKeyword_parses .kwExtends _).seq (repeatWhile_parses (heritage_repeats type types a)))
    have first : Parses (heritageClauseTurn (atKeyword .kwExtends)) _ _ true _ :=
      (atKeyword_parses _ .kwExtends).yes (clause.seq (.pure true _))
    exact repeatWhile_parses (.again first (.stop none))

theorem requiredBody_parses (kind : NodeKind) (what : String) (body : BodyRun) (a : List Lexeme) :
    Parses (requiredBody kind what) (body.lexemes ++ a) a () [bodyTree kind body] :=
  (currentIs_parses _ .braceOpen).yes (bracedBody_parses kind body a)

/-- `interface name [extends types] { body }`, behind its modifiers -/
def interfaceTree (us : List SyntaxTree) (n : PlainName) (types : List HeritageRun)
    (body : BodyRun) : SyntaxTree :=
  .node .interfaceDeclaration (us ++ keywordLeaf .kwInterface :: nameTree n ::
    (heritageTrees types ++ [bodyTree .objectTypeBody body]))

/-- An interface. -/
theorem interfaceDeclaration_parses (us : List SyntaxTree) (n : PlainName)
    (types : List HeritageRun)
    (body : BodyRun) (a : List Lexeme) :
    ParsesFrom us interfaceDeclaration
      (ofKeyword .kwInterface :: n.lexeme :: (heritageLexemes types ++ (body.lexemes ++ a))) a ()
      [interfaceTree us n types body] := by
  have extended : Parses (repeatWhile (heritageClauseTurn (atKeyword .kwExtends)))
      (heritageLexemes types ++ (body.lexemes ++ a)) (body.lexemes ++ a) ()
          (heritageTrees types) := by
    rw [BodyRun.lexemes_append]
    exact heritage_parses types _
  have plain : (kindOf (heritageLexemes types ++ (body.lexemes ++ a)) 0 == some .angleOpen) =
      false := by
    cases types <;> rfl
  refine nodeAt_parses ?_ us
  refine (takeKeyword_parses .kwInterface _).seq ?_
  refine (nameRule_parses n _).seq ?_
  refine (optional_miss plain).seq ?_
  refine extended.seq ?_
  exact requiredBody_parses .objectTypeBody "interface body" body a

/-- `class name { body }`, behind its modifiers -/
def classTree (us : List SyntaxTree) (n : PlainName) (body : BodyRun) : SyntaxTree :=
  .node .classDeclaration (us ++ [keywordLeaf .kwClass, nameTree n, bodyTree .classBody body])

/-- A plain name spells no keyword. -/
theorem spelled_plain (n : PlainName) (k : Keyword) (l : List Lexeme) :
    spelled (n.lexeme :: l) 0 k.word = false := by
  refine Bool.eq_false_iff.2 fun same => ?_
  have same : n.text = k.word := by simpa [spelled, PlainName.lexeme] using same
  have known := Keyword.ofWord?_word k
  rw [← same, n.plain] at known
  cases known

theorem className_parses (n : PlainName) (a : List Lexeme) :
    Parses (className false) (n.lexeme :: a) a () [nameTree n] := by
  have not (k : Keyword) : Parses ((!·) <$> atKeyword k) (n.lexeme :: a)
      (n.lexeme :: a) true [] := by
    have asked := (atKeyword_parses (n.lexeme :: a) k).map (!·)
    rwa [spelled_plain] at asked
  have named := (currentIs_parses (n.lexeme :: a) .ident).and
      ((not .kwExtends).and (not .kwImplements))
  exact Parses.yes named (nameRule_parses n a)

/-- A class. -/
theorem classDeclaration_parses (us : List SyntaxTree) (n : PlainName) (body : BodyRun)
    (a : List Lexeme) :
    ParsesFrom us (classDeclaration · false)
        (ofKeyword .kwClass :: n.lexeme :: (body.lexemes ++ a)) a ()
      [classTree us n body] := by
  have read := requiredBody_parses .classBody "class body" body a
  rw [BodyRun.lexemes_append] at read ⊢
  have none (l : List Lexeme) :
      Parses (heritageClauseTurn (atKeyword .kwExtends <||> atKeyword .kwImplements))
        (ofSign .braceOpen :: l) (ofSign .braceOpen :: l) false [] := by
    have asked := (atKeyword_parses (ofSign .braceOpen :: l) .kwExtends).or
      (atKeyword_parses (ofSign .braceOpen :: l) .kwImplements)
    exact Parses.no asked (.pure false _)
  refine nodeAt_parses ?_ us
  refine (takeKeyword_parses .kwClass _).seq ?_
  refine (className_parses n _).seq ?_
  refine (optional_miss rfl).seq ?_
  refine (repeatWhile_parses (.stop (none _))).seq ?_
  exact read

/-! ### Enums -/

/-- `name` or `name = value` -/
def memberTree (n : PlainName) (value : Option String) : SyntaxTree :=
  .node .enumMember (nameTree n :: (value.map fun v => initializerTree ⟨.number, v⟩).toList)

/-- A member of an enum. -/
theorem enumMember_parses (n : PlainName) (value : Option String)
    (behind : BehindItem .braceClose a) :
    Parses enumMember (memberLexemes n value ++ a) a () [memberTree n value] := by
  have named (l : List Lexeme) : Parses enumMemberName (n.lexeme :: l) l () [nameTree n] :=
    (current_parses _).bind (nameRule_parses n l)
  refine node_parses ?_
  cases value with
  | none =>
    refine (named a).seq (optional_miss ?_)
    rcases behind with here | here <;> rw [here] <;> rfl
  | some v =>
    refine (named _).seq (optional_hit rfl (initializer_parses v ?_))
    rcases behind with here | here <;> exact ends_of_kindOf here (by decide)

theorem enumMember_reads (m : PlainName × Option String) :
    ReadsItem .braceClose (currentIn .enumMemberName) enumMember (memberLexemes m.1 m.2)
      (memberTree m.1 m.2) where
  inner _ := rfl
  starts l := by
    have asked := currentIn_parses (memberLexemes m.1 m.2 ++ l) .enumMemberName
    rwa [show kindOf (memberLexemes m.1 m.2 ++ l) 0 = some .ident from rfl] at asked
  item _ behind := enumMember_parses m.1 m.2 behind

/-- Members between braces. -/
def membersTree (members : List (PlainName × Option String)) : SyntaxTree :=
  .node .enumBody ((ofSign .braceOpen).leaf ::
      listedTrees (members.map fun m => memberTree m.1 m.2) ++
    [(ofSign .braceClose).leaf])

/-- `enum name { members }`, behind its modifiers -/
def enumTree (us : List SyntaxTree) (n : PlainName) (members : List (PlainName × Option String)) :
    SyntaxTree :=
  .node .enumDeclaration (us ++ [keywordLeaf .kwEnum, nameTree n, membersTree members])

/-- An enum. -/
theorem enumDeclaration_parses (us : List SyntaxTree) (n : PlainName)
    (members : List (PlainName × Option String)) (a : List Lexeme) :
    ParsesFrom us enumDeclaration
      (ofKeyword .kwEnum :: n.lexeme :: ofSign .braceOpen ::
        (listed (members.map fun m => memberLexemes m.1 m.2) ++ ofSign .braceClose :: a)) a ()
      [enumTree us n members] := by
  have body (l : List Lexeme) :
      Parses enumBody (ofSign .braceOpen :: (listed _ ++ ofSign .braceClose :: l)) l ()
        [membersTree members] :=
    (currentIs_parses (ofSign .braceOpen :: _) .braceOpen).yes
      (node_parses (delimited_parses _ _ rfl (items_repeat rfl enumMember_reads _ members l)))
  refine nodeAt_parses ?_ us
  refine (eatKeyword_miss rfl).bind ?_
  refine (takeKeyword_parses .kwEnum _).seq ?_
  refine (nameRule_parses n _).seq ?_
  exact body a

end ImplicitGlobals.Grammar
