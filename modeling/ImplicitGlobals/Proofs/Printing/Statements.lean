import ImplicitGlobals.Grammar.Statement
import ImplicitGlobals.Proofs.Grammar.Module
import ImplicitGlobals.Proofs.Printing.Declarations

/-!
# Reading statements that are written

A statement is read back whole, by induction on the number of levels that a source may nest.
-/

namespace ImplicitGlobals.Grammar

open Lexeme

variable {l a : List Lexeme} {ts us : List SyntaxTree}

/-! ### Modifiers -/

theorem spelled_keyword (k k' : Keyword) (l : List Lexeme) :
    spelled (ofKeyword k :: l) 0 k'.word = decide (k = k') := by
  have same : k.word = k'.word ↔ k = k' := by
    refine ⟨fun same => ?_, congrArg Keyword.word⟩
    have known := Keyword.ofWord?_word k
    rw [same, Keyword.ofWord?_word] at known
    exact (Option.some.inj known).symm
  simp [spelled, ofKeyword, ← same, Bool.beq_eq_decide_eq]

/-- `declare`, if it is there. -/
def declareTrees (declared : Bool) : List SyntaxTree :=
  if declared then [keywordLeaf .kwDeclare] else []

/-- What is read as a modifier wherever it stands. -/
def isModifier (k : Keyword) : Bool :=
  k = .kwExport ∨ k = .kwDefault ∨ k = .kwDeclare ∨ k = .kwAbstract

/-- `declare` in front of a declaration is a modifier. -/
theorem modifierTurn_declare (m : Modifiers) (k : Keyword) (l : List Lexeme) :
    Parses (modifierTurn m) (ofKeyword .kwDeclare :: ofKeyword k :: l) (ofKeyword k :: l)
      (.again { m with any := true }) [keywordLeaf .kwDeclare] := by
  have here := atKeyword_parses (ofKeyword .kwDeclare :: ofKeyword k :: l)
  simp only [spelled_keyword] at here
  refine Parses.no (here .kwExport) ?_
  refine Parses.no ((here .kwDefault).andFails _) ?_
  refine Parses.yes ((here .kwDeclare).and (nextIs_parses _ .ident)) ?_
  exact (takeKeyword_parses .kwDeclare _).seq (.pure _ _)

/-- No modifier is left in front of another keyword. -/
theorem modifierTurn_done (m : Modifiers) {k : Keyword} (other : isModifier k = false)
    (l : List Lexeme) :
    Parses (modifierTurn m) (ofKeyword k :: l) (ofKeyword k :: l) (.done m) [] := by
  have here := atKeyword_parses (ofKeyword k :: l)
  simp only [spelled_keyword] at here
  simp only [isModifier, decide_eq_false_iff_not, not_or] at other
  obtain ⟨notExport, notDefault, notDeclare, notAbstract⟩ := other
  have not {k' : Keyword} (other : k ≠ k') :
      Parses (atKeyword k') (ofKeyword k :: l) (ofKeyword k :: l) false [] := by
    simpa [other] using here k'
  refine Parses.no (not notExport) ?_
  refine Parses.no ((not notDefault).andFails _) ?_
  refine Parses.no ((not notDeclare).andFails _) ?_
  refine Parses.no ((not notAbstract).andFails _) ?_
  exact .pure _ _

/-- The modifiers of a printed statement. -/
theorem modifiers_parses (declared : Bool) {k : Keyword} (other : isModifier k = false)
    (l : List Lexeme) :
    Parses modifiers (declareLexemes declared ++ ofKeyword k :: l)
        (ofKeyword k :: l) ⟨declared, false⟩
      (declareTrees declared) := by
  have last (m : Modifiers) : Rounds modifierTurn m (ofKeyword k :: l)
      (ofKeyword k :: l) (· = m) [] :=
    .done ((modifierTurn_done m other l).imp fun t is => ⟨m, is, rfl⟩)
  cases declared with
  | false => exact (last {}).loop
  | true =>
    have whole : Rounds modifierTurn {} (ofKeyword .kwDeclare :: ofKeyword k :: l)
        (ofKeyword k :: l)
        (· = ⟨true, false⟩) ([keywordLeaf .kwDeclare] ++ []) :=
      .again ((modifierTurn_declare {} k l).imp fun t is => ⟨_, is, rfl⟩) fun m is => is ▸ last _
    exact whole.loop

/-! ### Modules -/

/-- The further names of a module, each behind a dot. -/
def dottedLexemes (more : List String) : List Lexeme := more.flatMap fun a => [ofSign .dot, ⟨.ident, a⟩]

/-- The tree of one identifier. -/
def identifierTree (a : String) : SyntaxTree := .node .name [Lexeme.leaf ⟨.ident, a⟩]

/-- The trees of the further segments. -/
def dottedTrees (more : List String) : List SyntaxTree :=
  more.flatMap fun a => [(ofSign .dot).leaf, identifierTree a]

/-- The segments of a dotted name. -/
theorem segments_parse (more : List String) (other : (kindOf a 0 == some .dot) = false) :
    Repeats segmentTurn (dottedLexemes more ++ a) a (dottedTrees more) := by
  induction more with
  | nil => exact .stop ((eat_miss other).no (.pure false a))
  | cons n more ih =>
    have first (l : List Lexeme) : Parses segmentTurn (ofSign .dot :: ⟨.ident, n⟩ :: l) l true
        [(ofSign .dot).leaf, identifierTree n] :=
      (eat_hit rfl _).bind ((identifier_parses n l).seq (.pure true l))
    exact .again (first _) ih

/-- A module may have any identifiers for its names. -/
theorem moduleName_parses (first : String) (more : List String) (other : (kindOf a 0 == some .dot) = false) :
    Parses moduleName (⟨.ident, first⟩ :: (dottedLexemes more ++ a)) a ()
      (identifierTree first :: dottedTrees more) :=
  (currentIs_parses (⟨.ident, first⟩ :: _) .stringLiteral).no
    ((identifier_parses first _).seq (repeatWhile_parses (segments_parse more other)))

/-- Statements between braces. -/
def blockTree (body : List SyntaxTree) : SyntaxTree :=
  .node .moduleBlock ((ofSign .braceOpen).leaf :: body ++ [(ofSign .braceClose).leaf])

/-- What stands between braces where a module may have it is read as its block. -/
theorem ReadsIn.moduleBlock {words : List Word} {statement : Rule Unit} {m : List Lexeme}
    (h : ReadsIn words (Grammar.node .moduleBlock (Grammar.delimited blockMarks (blockTurn statement)))
      (ofSign .braceOpen :: m) a () ts) :
    ReadsIn words (Grammar.moduleBlock statement) (ofSign .braceOpen :: m) a () ts := by
  have assert : Parses (assertAt .braceOpen) (ofSign .braceOpen :: m) (ofSign .braceOpen :: m) () [] :=
    assertAt_parses rfl m
  have whole : ReadsIn words (Grammar.moduleBlock statement) (ofSign .braceOpen :: m) a () (ts ++ []) :=
    .ask assert <| .ask (descend_parses _) <| h.bind (ascend_parses a words)
  rwa [List.append_nil] at whole

theorem ReadsIn.moduleRest {words : List Word} {statement : Rule Unit} {m : List Lexeme} (first : String)
    (more : List String) (block : ReadsIn words (Grammar.moduleBlock statement) (ofSign .braceOpen :: m) a () ts) :
    ReadsIn words (Grammar.moduleRest statement) (⟨.ident, first⟩ :: (dottedLexemes more ++ ofSign .braceOpen :: m))
      a () (identifierTree first :: (dottedTrees more ++ ts)) := by
  have braced : ReadsIn words
      (do if ← currentIs .braceOpen then Grammar.moduleBlock statement else expectSemicolon)
      (ofSign .braceOpen :: m) a () ts := .ask (currentIs_parses (ofSign .braceOpen :: m) .braceOpen) block
  exact .bind (moduleName_parses first more rfl words) braced

/-- `namespace`, and what may stand behind it. -/
theorem ReadsInFrom.moduleDeclaration {words : List Word} {statement : Rule Unit} (us : List SyntaxTree)
    (rest : ReadsIn words (Grammar.moduleRest statement) l a () ts) :
    ReadsInFrom words us (Grammar.moduleDeclaration · statement) (ofKeyword .kwNamespace :: l) a ()
      [.node .moduleDeclaration (us ++ keywordLeaf .kwNamespace :: ts)] :=
  ReadsIn.nodeAt (.bind (bumpKeyword_parses .kwNamespace _ words) rest) us

/-- The trees of the further names of a module. -/
def segmentTrees (more : List PlainName) : List SyntaxTree :=
  more.flatMap fun n => [(ofSign .dot).leaf, nameTree n]

/-- The parts of a module before its block. -/
def moduleHead (us : List SyntaxTree) (first : PlainName) (more : List PlainName) :
    List SyntaxTree :=
  us ++ [keywordLeaf .kwNamespace, nameTree first] ++ segmentTrees more

/-- `namespace first.more { statements }`, behind its modifiers -/
def moduleTree (us : List SyntaxTree) (first : PlainName) (more : List PlainName)
    (body : List SyntaxTree) : SyntaxTree :=
  .node .moduleDeclaration (moduleHead us first more ++ [blockTree body])

/-- A namespace with its block. -/
theorem moduleDeclaration_parses {statement : Rule Unit} {m : List Lexeme} (us : List SyntaxTree)
    (first : PlainName) (more : List PlainName)
    (body : Repeats (blockTurn statement) m (ofSign .braceClose :: a) ts) :
    ParsesFrom us (moduleDeclaration · statement)
      (ofKeyword .kwNamespace :: first.lexeme :: (segmentLexemes more ++ ofSign .braceOpen :: m))
      a ()
      [moduleTree us first more ts] := by
  intro words
  have block : ReadsIn words (moduleBlock statement) (ofSign .braceOpen :: m) a () [blockTree ts] :=
    .moduleBlock (node_parses (delimited_parses _ _ rfl body) words)
  have whole := ReadsInFrom.moduleDeclaration us (.moduleRest first.text (more.map (·.text)) block)
  simpa [moduleTree, moduleHead, identifierTree, nameTree, segmentTrees, dottedTrees,
    dottedLexemes, segmentLexemes, PlainName.lexeme, List.flatMap_map] using whole

/-! ### Declarations -/

/-- What announces the declaration. -/
def announcer : CoreDeclaration → Keyword
  | .binding k .. => k.keyword
  | .function .. => .kwFunction
  | .typeAlias .. => .kwType
  | .interfaceType .. => .kwInterface
  | .classType .. => .kwClass
  | .enumType .. => .kwEnum

/-- The node of a declaration, behind its modifiers. -/
def declarationTree (us : List SyntaxTree) : CoreDeclaration → SyntaxTree
  | .binding k n type => variableTree us k.keyword n type
  | .function n ps type => functionTree us n ps type
  | .typeAlias n type => typeAliasTree us n type
  | .interfaceType n types body => interfaceTree us n types body
  | .classType n body => classTree us n body
  | .enumType n members => enumTree us n members

theorem isModifier_announcer (d : CoreDeclaration) : isModifier (announcer d) = false := by
  cases d with
  | binding k => cases k <;> rfl
  | _ => rfl

theorem exists_lexemes (d : CoreDeclaration) : ∃ l, d.lexemes = ofKeyword (announcer d) :: l := by
  cases d <;> exact ⟨_, rfl⟩

theorem ReadsInFrom.onlyIf {words : List Word} {test : Rule Bool} {r : Checkpoint → Rule Unit}
    (found : Parses test l l true []) (h : ReadsInFrom words us r l a () ts) :
    ReadsInFrom words us (fun p => Grammar.onlyIf test (r p)) l a true ts :=
  .ask (fun _ => found) (h.answer true)

theorem onlyIf_parses {test : Rule Bool} {r : Checkpoint → Rule Unit}
    (found : Parses test l l true [])
    (h : ParsesFrom us r l a () ts) : ParsesFrom us (fun p => onlyIf test (r p)) l a true ts := fun words =>
  .onlyIf found (h words)

/-- A name follows. -/
theorem bindingFollows_parses (w : Lexeme) (n : PlainName) (l : List Lexeme) :
    Parses bindingFollows (w :: n.lexeme :: l) (w :: n.lexeme :: l) true [] := by
  have asked := (kindAt_parses (w :: n.lexeme :: l) 1).map fun k => k.any KindSet.bindingStart.holds
  rwa [show kindOf (w :: n.lexeme :: l) 1 = some .ident from rfl,
    show (some TokenKind.ident).any KindSet.bindingStart.holds = true by decide] at asked

/-- The word behind is a name and no keyword. -/
theorem nextPlain_parses (w : Lexeme) (n : PlainName) (k : Keyword) (l : List Lexeme) :
    Parses (nthIsKeyword 1 k) (w :: n.lexeme :: l) (w :: n.lexeme :: l) false [] := by
  have asked := nthIsKeyword_parses (w :: n.lexeme :: l) 1 k
  rwa [show spelled (w :: n.lexeme :: l) 1 k.word = false from spelled_plain n k l] at asked

/-- The word behind the keyword agrees with it, for it is a name. -/
theorem declarationOf_parses (statement : Rule Unit) (us : List SyntaxTree) (d : CoreDeclaration)
    (a : List Lexeme) :
    ParsesFrom us (declarationOf statement · false (some (announcer d))) (d.lexemes ++ a) a true
      [declarationTree us d] := by
  cases d with
  | binding k n type =>
    simp only [CoreDeclaration.lexemes, List.cons_append, List.append_assoc, List.nil_append]
    have read := onlyIf_parses (bindingFollows_parses _ n _)
      (variableStatement_parses us k.keyword n type a)
    cases k with
    | kwVar => exact read
    | kwLet => exact read
    | kwConst => exact .no (fun _ => nextPlain_parses _ n .kwEnum _) read
  | function n ps type =>
    simp only [CoreDeclaration.lexemes, List.cons_append, List.append_assoc, List.nil_append]
    exact onlyIf_parses (.pure true _) (functionDeclaration_parses us n ps type a)
  | typeAlias n type =>
    simp only [CoreDeclaration.lexemes, List.cons_append, List.append_assoc, List.nil_append]
    exact onlyIf_parses (nextIs_parses (ofKeyword .kwType :: n.lexeme :: _) .ident)
      (typeAlias_parses us n type a)
  | interfaceType n types body =>
    simp only [CoreDeclaration.lexemes, List.cons_append, List.append_assoc]
    exact onlyIf_parses (nextIs_parses (ofKeyword .kwInterface :: n.lexeme :: _) .ident)
      (interfaceDeclaration_parses us n types body a)
  | classType n body => exact onlyIf_parses (.pure true _) (classDeclaration_parses us n body a)
  | enumType n members =>
    simp only [CoreDeclaration.lexemes, List.cons_append, List.append_assoc, List.nil_append]
    exact onlyIf_parses (nextIs_parses (ofKeyword .kwEnum :: n.lexeme :: _) .ident)
      (enumDeclaration_parses us n members a)

/-! ### Statements -/

theorem ReadsInFrom.declaration {words : List Word} {statement : Rule Unit} {k : Keyword}
    (h : ReadsInFrom words us (declarationOf statement · false (some k)) (ofKeyword k :: l) a true ts) :
    ReadsInFrom words us (Grammar.declaration statement · false) (ofKeyword k :: l) a true ts := by
  have text : Parses currentText (ofKeyword k :: l) (ofKeyword k :: l) k.word [] :=
    currentText_parses _
  refine .ask (fun _ => current_parses (ofKeyword k :: l)) (.ask (fun _ => text) ?_)
  rwa [Keyword.ofWord?_word]

theorem spelled_export (declared : Bool) {k : Keyword} (other : isModifier k = false)
    (l : List Lexeme) :
    spelled (declareLexemes declared ++ ofKeyword k :: l) 0 Keyword.kwExport.word = false := by
  cases declared with
  | true => exact spelled_keyword .kwDeclare .kwExport _
  | false =>
    have plain : k ≠ .kwExport := fun is => by simp [is, isModifier] at other
    exact (spelled_keyword k .kwExport l).trans (decide_eq_false plain)

/-- A statement is the declaration behind its modifiers. -/
theorem ReadsInFrom.statementAt {words : List Word} {inner : Rule Unit} {declared : Bool} {k : Keyword}
    (other : isModifier k = false)
    (h : ReadsInFrom words (declareTrees declared) (declarationOf inner · false (some k))
      (ofKeyword k :: l) a true ts) :
    ReadsInFrom words [] (Grammar.statementAt inner) (declareLexemes declared ++ ofKeyword k :: l) a () ts := by
  have first : kindOf (declareLexemes declared ++ ofKeyword k :: l) 0 = some .ident := by
    cases declared <;> rfl
  have notEmpty := currentIs_parses (declareLexemes declared ++ ofKeyword k :: l) .semicolon
  have notExport := atKeyword_parses (declareLexemes declared ++ ofKeyword k :: l) .kwExport
  rw [first] at notEmpty
  rw [spelled_export declared other] at notExport
  have whole : ReadsInFrom words [] (Grammar.statementAt inner) (declareLexemes declared ++ ofKeyword k :: l) a ()
      (ts ++ []) := by
    refine .ask (fun _ => notEmpty) ?_
    refine .ask (fun p => notExport.andFails (exportForm p)) ?_
    refine .behind (fun _ => modifiers_parses declared other l words) ?_
    exact h.declaration.bind fun _ => Parses.pure () a words
  rwa [List.append_nil] at whole

/-- A statement is read if its declaration is. -/
theorem statementAt_parses {inner : Rule Unit} {declared : Bool} {k : Keyword}
    (other : isModifier k = false)
    (h : ParsesFrom (declareTrees declared) (declarationOf inner · false (some k))
      (ofKeyword k :: l) a true ts) :
    ParsesFrom [] (statementAt inner) (declareLexemes declared ++ ofKeyword k :: l) a () ts := fun words =>
  .statementAt other (h words)

mutual

/-- The node of a statement. -/
def statementTree : CoreStatement → SyntaxTree
  | .plain declared d => declarationTree (declareTrees declared) d
  | .module declared first more body =>
    moduleTree (declareTrees declared) first more (statementTrees body)

def statementTrees : List CoreStatement → List SyntaxTree
  | [] => []
  | s :: rest => statementTree s :: statementTrees rest

end

/-- A statement begins with an identifier. -/
theorem kindOf_lexemes (s : CoreStatement) (l : List Lexeme) :
    kindOf (s.lexemes ++ l) 0 = some .ident := by
  cases s with
  | plain declared d =>
    obtain ⟨more, lexemes⟩ := exists_lexemes d
    rw [CoreStatement.lexemes, lexemes]
    cases declared <;> rfl
  | module declared first more body =>
    rw [CoreStatement.lexemes]
    cases declared <;> rfl

/-- Statements one after the other, up to what ends them. -/
theorem statements_parse {turn : Rule Bool} (body : List CoreStatement)
    (first : ∀ (s : CoreStatement) l, Parses turn (s.lexemes ++ l) l true [statementTree s])
    (last : Parses turn a a false []) :
    Repeats turn (CoreStatement.lexemesOf body ++ a) a (statementTrees body) := by
  induction body with
  | nil => exact .stop last
  | cons s rest ih =>
    rw [CoreStatement.lexemesOf, List.append_assoc]
    exact .again (first s _) ih

/-- A statement is one turn of a block. -/
theorem blockTurn_parses {statement : Rule Unit} (s : CoreStatement) (l : List Lexeme)
    (h : Parses statement (s.lexemes ++ l) l () [statementTree s]) :
    Parses (blockTurn statement) (s.lexemes ++ l) l true [statementTree s] := by
  have first := kindOf_lexemes s l
  have going := (atEnd_parses (s.lexemes ++ l)).or (currentIs_parses (s.lexemes ++ l) .braceClose)
  rw [isEmpty_of_kindOf first, first] at going
  exact going.no (h.seq (.pure true l))

/-- Nothing is left before the closing brace. -/
theorem blockTurn_ends (statement : Rule Unit) (a : List Lexeme) :
    Parses (blockTurn statement) (ofSign .braceClose :: a) (ofSign .braceClose :: a) false [] := by
  have found := (atEnd_parses (ofSign .braceClose :: a)).or
    (currentIs_parses (ofSign .braceClose :: a) .braceClose)
  exact Parses.yes found (.pure false _)

/-- A statement is read back, however many levels there may be. -/
theorem statementWithin_parses (n : Nat) (s : CoreStatement) (a : List Lexeme) :
    Parses (statementWithin n) (s.lexemes ++ a) a () [statementTree s] := by
  induction n generalizing s a with
  | zero => exact fun _ _ _ _ => .throw _
  | succ n ih =>
    refine checkpoint_parses ?_
    cases s with
    | plain declared d =>
      obtain ⟨more, lexemes⟩ := exists_lexemes d
      have read := declarationOf_parses (statementWithin n) (declareTrees declared) d a
      rw [lexemes, List.cons_append] at read
      rw [CoreStatement.lexemes, List.append_assoc, lexemes, List.cons_append]
      exact statementAt_parses (isModifier_announcer d) read
    | module declared first more body =>
      have turns := statements_parse body (fun s l => blockTurn_parses s l (ih s l))
        (blockTurn_ends (statementWithin n) a)
      have read := onlyIf_parses
          (nextIs_parses (ofKeyword .kwNamespace :: first.lexeme :: _) .ident)
        (moduleDeclaration_parses (declareTrees declared) first more turns)
      simp only [CoreStatement.lexemes, List.append_assoc, List.cons_append, List.nil_append]
      exact statementAt_parses rfl read

/-! ### Sources -/

/-- A turn reads a statement that is read however many levels there may be. -/
theorem sourceTurn_of_statement {kind : TokenKind} (first : kindOf l 0 = some kind)
    (read : ∀ n, Parses (statementWithin n) l a () ts) : Parses sourceTurn l a true ts := by
  have whole : Parses statement l a () ts := fun words c ready here =>
    .get (read _ words c ready here)
  have going := atEnd_parses l
  rw [isEmpty_of_kindOf first] at going
  have turn : Parses sourceTurn l a true (ts ++ []) := going.no (whole.seq (.pure true a))
  rwa [List.append_nil] at turn

/-- And of the source. -/
theorem sourceTurn_parses (s : CoreStatement) (l : List Lexeme) :
    Parses sourceTurn (s.lexemes ++ l) l true [statementTree s] :=
  sourceTurn_of_statement (kindOf_lexemes s l) fun n => statementWithin_parses n s l

/-- The source ends with its words. -/
theorem sourceTurn_ends : Parses sourceTurn [] [] false [] := (atEnd_parses []).yes (.pure false [])

/-- What the turns read up to the end is the source. -/
theorem source_of_turns (turns : Repeats sourceTurn l [] ts) :
    Parses source l [] () [.node .sourceFile ts] := by
  have file : Parses sourceFile l [] () _ :=
    node_parses ((repeatWhile_parses turns).seq (skipAndPlaceGap_parses []))
  rw [List.append_nil] at file
  exact file.seq (placeGap_parses [])

/-- A source of one statement that is read however many levels there may be. -/
theorem ReadsIn.source {words : List Word} {kind : TokenKind} (first : kindOf l 0 = some kind)
    (h : ∀ n, ReadsIn words (statementWithin n) l [] () ts) :
    ReadsIn words Grammar.source l [] () [.node .sourceFile ts] := by
  have statement : ReadsIn words statement l [] () ts := fun c ready here => .get (h _ c ready here)
  have going := atEnd_parses l
  rw [isEmpty_of_kindOf first] at going
  have turn : ReadsIn words sourceTurn l [] true ts := .ask going (statement.answer true)
  have turns := ReadsIn.repeatWhile turn (.stop sourceTurn_ends)
  have file : ReadsIn words sourceFile l [] () _ := .node (.bind turns (skipAndPlaceGap_parses [] words))
  have whole : ReadsIn words Grammar.source l [] () _ := .bind file (placeGap_parses [] words)
  simpa using whole

/-- A source is read back into one tree. -/
theorem source_parses (body : List CoreStatement) :
    Parses source (CoreStatement.lexemesOf body) [] ()
        [.node .sourceFile (statementTrees body)] := by
  have turns := statements_parse body sourceTurn_parses sourceTurn_ends
  rw [List.append_nil] at turns
  exact source_of_turns turns

end ImplicitGlobals.Grammar
