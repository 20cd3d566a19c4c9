import ImplicitGlobals.Grammar.Statement
import ImplicitGlobals.Proofs.Budget.Steps

/-!
# The rules of the grammar within a budget and without one

Only blocks and patterns are levels; every other node may begin anywhere. The lemma of a rule
follows its text.
-/

namespace ImplicitGlobals.Grammar

variable {b : Budget}

/-! ### Balanced runs -/

/-- Whether a run ends is asked of the words ahead, and costs nothing. -/
theorem runEnds_metered (stop : KindSet) (mode : RunMode) (consumed : Bool)
    (kind : Option TokenKind) : Metered b (runEnds stop mode consumed kind) := by
  refine .ite (.pure true) ?_
  refine .ite (.pure true) ?_
  exact (Metered.pure _).and atStatementStart_metered

/-- A word that is passed. -/
theorem bumpRound_metered (r : Run) : Metered b (do bump; return Turn.again r) :=
  bump_metered.bind fun _ => .pure _

/-- An opening bracket is passed and kept in mind with its place. -/
theorem openBracket_metered (kind : TokenKind) (stack : List Opener) :
    Metered b (openBracket kind stack) := mark_metered.bind fun _ => bumpRound_metered _

/-- A closing bracket closes the innermost open one, or is reported as stray. -/
theorem closeBracket_metered (kind : TokenKind) (r : Run) : Metered b (closeBracket kind r) := by
  unfold closeBracket
  split
  · exact .pure _
  · exact .ite (bumpRound_metered _) <| currentText_metered.bind fun _ =>
      (errorAndBump_metered _ _).bind fun _ => .pure _

/-- One word of a run, by its kind: the brackets are matched and garbage is reported. -/
theorem runWord_metered (mode : RunMode) (r : Run) (kind : Option TokenKind) :
    Metered b (runWord mode r kind) := by
  cases kind with
  | none => exact bumpRound_metered _
  | some kind =>
    cases kind with
    | parenOpen | bracketOpen | braceOpen => exact openBracket_metered _ r.stack
    | parenClose | bracketClose | braceClose => exact closeBracket_metered _ r
    | garbage =>
      exact (error_metered _).bind fun _ => bumpAsError_metered.bind fun _ => .pure _
    | angleOpen => exact .ite (openBracket_metered _ r.stack) (bumpRound_metered _)
    | _ => exact bumpRound_metered _

/-- One turn of a run within its budget. -/
theorem runTurn_metered (stop : KindSet) (mode : RunMode) (r : Run) :
    Metered b (runTurn stop mode r) := by
  refine atEnd_metered.branch (.pure _) ?_
  refine current_metered.bind fun kind => ?_
  -- What ends the run is asked for only where no bracket is open.
  have ends := (Metered.pure r.stack.isEmpty).and (runEnds_metered (b := b) stop mode r.consumed kind)
  refine ends.branch (.pure _) ?_
  exact runWord_metered mode r kind

/-- The innermost bracket still open at the end of a run is reported. -/
theorem reportOpen_metered (stack : List Opener) : Metered b (reportOpen stack) := by
  unfold reportOpen
  split
  · exact errorUnclosed_metered ..
  · exact errorUnclosed_metered ..
  · exact .pure ()

/-- A whole run: its turns, and what it leaves open. -/
theorem balanced_metered (stop : KindSet) (mode : RunMode) : Metered b (balanced stop mode) := by
  refine (Metered.loop (runTurn_metered stop mode) {}).bind fun r => ?_
  refine (reportOpen_metered r.stack).bind fun _ => ?_
  exact .pure _

/-- A run that has to have a word. -/
theorem balancedOr_metered (stop : KindSet) (mode : RunMode) (kind : DiagnosticKind) :
    Metered b (do if !(← balanced stop mode) then error kind) :=
  (balanced_metered stop mode).bind fun _ => .ite (error_metered kind) (.pure ())

/-- A name is one node over one word. -/
theorem nameRule_metered : Metered b nameRule :=
  (currentIs_metered .ident).branch (node_metered rfl bump_metered) (error_metered _)

/-- A type is a run of words that may not be empty. -/
theorem typeExpr_metered (stop : KindSet) : Metered b (typeExpr stop) :=
  node_metered rfl (balancedOr_metered stop _ _)

/-- The type behind a colon. -/
theorem typeAscription_metered (stop : KindSet) : Metered b (typeAscription stop) := by
  refine (assertAt_metered _).bind fun _ => ?_
  refine node_metered rfl ?_
  refine bump_metered.bind fun _ => ?_
  exact typeExpr_metered stop

/-- The value behind an equals sign. -/
theorem initializer_metered (stop : KindSet) : Metered b (initializer stop) := by
  refine (assertAt_metered _).bind fun _ => ?_
  refine node_metered rfl ?_
  refine bump_metered.bind fun _ => ?_
  exact balancedOr_metered stop _ _

/-- Between braces runs alternate with stray closing brackets. -/
theorem bodyTurn_metered : Metered b bodyTurn := by
  refine (balanced_metered _ _).bind fun _ => ?_
  refine current_metered.bind fun _ => ?_
  refine atEnd_metered.bind fun _ => ?_
  refine .ite (.pure false) ?_
  refine currentText_metered.bind fun _ => ?_
  refine (errorAndBump_metered _ _).bind fun _ => ?_
  exact .pure true

/-- A body between braces, as a node that is no level of its own. -/
theorem bracedBody_metered {kind : NodeKind} (flat : kind.level = 0) :
    Metered b (bracedBody kind) := by
  refine (currentIs_metered .braceOpen).bind fun _ => .ite ?_ ?_
  · exact (errorWith_metered _ _).bind fun _ => .pure ()
  · exact node_metered flat (delimited_metered _ bodyTurn_metered)

/-! ### Bindings -/

/-- A key with its colon in front of a nested pattern. -/
theorem propertyKey_metered (openKind : TokenKind) : Metered b (propertyKey openKind) := by
  refine .ite (.pure ()) ?_
  refine current_metered.bind fun _ => ?_
  refine ((Metered.pure _).and (nextIs_metered .colon)).branch ?_ (.pure ())
  exact bump_metered.bind fun _ => bump_metered

/-- One element of a pattern, where the nested pattern is within the budget. -/
theorem patternTurn_metered {inner : Rule Unit} (h : Metered b inner)
    (openKind closeKind : TokenKind) : Metered b (patternTurn inner openKind closeKind) := by
  refine (atEnd_metered.or (currentIs_metered closeKind)).branch (.pure false) ?_
  refine (eat_metered .comma).branch (.pure true) ?_
  refine (eat_metered .dotDotDot).bind fun _ => ?_
  refine (propertyKey_metered openKind).bind fun _ => ?_
  refine (currentIn_metered .bindingStart).bind fun _ => .ite ?_ ?_
  · exact (errorAndBump_metered _ _).bind fun _ => .pure true
  -- The nested pattern is within the budget by assumption.
  refine h.bind fun _ => ?_
  refine (optional_metered .equals (initializer_metered .listItemEnd)).bind fun _ => ?_
  exact eat_metered .comma

/-- A pattern is a level: it is where the nesting limit is met. -/
theorem bindingPattern_metered {inner : Rule Unit} (h : Metered b inner) :
    Metered b (bindingPattern inner) :=
  level_metered rfl (currentIs_steady .braceOpen) fun _ =>
    delimited_metered _ (patternTurn_metered h _ _)

/-- Bindings to a depth, by induction on it. -/
theorem bindingWithin_metered (n : Nat) : Metered b (bindingWithin n) := by
  induction n with
  | zero => exact .throw _
  | succ n ih =>
    exact current_metered.bind fun _ => .ite (bindingPattern_metered ih) nameRule_metered

theorem binding_metered : Metered b binding := .bounded bindingWithin_metered

/-- A parameter with all its optional parts. -/
theorem parameter_metered : Metered b parameter := by
  refine node_metered rfl ?_
  refine (eat_metered .dotDotDot).bind fun _ => ?_
  refine binding_metered.bind fun _ => ?_
  refine (eat_metered .question).bind fun _ => ?_
  refine (optional_metered .colon (typeAscription_metered .paramTypeEnd)).bind fun _ => ?_
  exact optional_metered .equals (initializer_metered .listItemEnd)

/-- The parameters between their parentheses. -/
theorem parameters_metered : Metered b parameters := by
  refine (assertAt_metered _).bind fun _ => ?_
  refine node_metered rfl ?_
  refine delimited_metered _ ?_
  exact itemTurn_metered _ _ ((currentIn_metered _).or (currentIs_metered _)) parameter_metered

/-- A variance word or `const` in front of a type parameter. -/
theorem typeParameterModifier_metered : Metered b typeParameterModifier := by
  have named := (atWord_metered (b := b) "in").or ((atWord_metered "out").or (atWord_metered "const"))
  refine (named.and (nextIs_metered .ident)).branch ?_ (.pure false)
  exact bump_metered.bind fun _ => .pure true

theorem constraint_metered : Metered b constraint :=
  (takeKeyword_metered _).bind fun _ => typeExpr_metered _

/-- A type parameter with its constraint and its default. -/
theorem typeParameter_metered : Metered b typeParameter := by
  refine node_metered rfl ?_
  refine typeParameterModifier_metered.repeatWhile.bind fun _ => ?_
  refine nameRule_metered.bind fun _ => ?_
  refine (Metered.whenever (atKeyword_metered _) constraint_metered).bind fun _ => ?_
  exact .whenever (eat_metered .equals) (typeExpr_metered .listItemEnd)

theorem typeParameterTurn_metered : Metered b typeParameterTurn := by
  refine (atEnd_metered.or (currentIs_metered .angleClose)).branch (.pure false) ?_
  refine typeParameter_metered.bind fun _ => ?_
  exact eat_metered .comma

/-- The type parameters between their angle brackets. -/
theorem typeParameters_metered : Metered b typeParameters := by
  refine (assertAt_metered _).bind fun _ => ?_
  refine node_metered rfl ?_
  exact delimited_metered _ typeParameterTurn_metered

/-! ### Variables and functions -/

/-- One declared variable: its binding, type and value. -/
theorem variableDeclarator_metered : Metered b variableDeclarator := by
  refine node_metered rfl ?_
  refine binding_metered.bind fun _ => ?_
  refine (eat_metered .bang).bind fun _ => ?_
  refine (optional_metered .colon (typeAscription_metered _)).bind fun _ => ?_
  exact optional_metered .equals (initializer_metered _)

theorem variableTurn_metered : Metered b variableTurn :=
  variableDeclarator_metered.bind fun _ => eat_metered .comma

/-- A `var`, `let` or `const` statement from its checkpoint on. -/
theorem variableStatement_metered (point : Checkpoint) : Metered b (variableStatement point) := by
  refine nodeAt_metered rfl point ?_
  refine bumpKeyword_metered.bind fun _ => ?_
  refine variableTurn_metered.repeatWhile.bind fun _ => ?_
  exact expectSemicolon_metered

/-- A function without a name is quiet behind `default` only. -/
theorem functionName_metered (anonymous : Bool) : Metered b (functionName anonymous) :=
  (currentIs_metered .ident).branch nameRule_metered (.ite (error_metered _) (.pure ()))

/-- The parameter list a function has to have. -/
theorem functionParameters_metered : Metered b functionParameters :=
  (currentIs_metered .parenOpen).branch parameters_metered (errorWith_metered _ _)

/-- A function from its checkpoint on, up to its semicolon. -/
theorem functionDeclaration_metered (point : Checkpoint) (anonymous : Bool) :
    Metered b (functionDeclaration point anonymous) := by
  refine nodeAt_metered rfl point ?_
  refine (takeKeyword_metered _).bind fun _ => ?_
  refine (eat_metered .star).bind fun _ => ?_
  refine (functionName_metered anonymous).bind fun _ => ?_
  refine (optional_metered .angleOpen typeParameters_metered).bind fun _ => ?_
  refine functionParameters_metered.bind fun _ => ?_
  refine (optional_metered .colon (typeAscription_metered _)).bind fun _ => ?_
  exact expectSemicolon_metered

/-! ### Classes, interfaces and types -/

/-- One type of a heritage clause and its comma. -/
theorem heritageTurn_metered : Metered b heritageTurn :=
  (typeExpr_metered _).bind fun _ => eat_metered .comma

/-- A heritage clause over all its types. -/
theorem heritageClause_metered : Metered b heritageClause := by
  refine node_metered rfl ?_
  refine bumpKeyword_metered.bind fun _ => ?_
  exact heritageTurn_metered.repeatWhile

/-- Heritage clauses are read as long as their test holds. -/
theorem heritageClauseTurn_metered {test : Rule Bool} (h : Metered b test) :
    Metered b (heritageClauseTurn test) :=
  h.branch (heritageClause_metered.bind fun _ => .pure true) (.pure false)

/-- The words `extends` and `implements` are no class name. -/
theorem className_metered (anonymous : Bool) : Metered b (className anonymous) := by
  have heritage (k : Keyword) : Metered b ((!·) <$> atKeyword k) := (atKeyword_metered k).not
  refine ((currentIs_metered .ident).and ((heritage _).and (heritage _))).branch nameRule_metered ?_
  exact .ite (error_metered _) (.pure ())

/-- The body a class or an interface has to have. -/
theorem requiredBody_metered {kind : NodeKind} (flat : kind.level = 0) (what : String) :
    Metered b (requiredBody kind what) :=
  (currentIs_metered .braceOpen).branch (bracedBody_metered flat) (errorWith_metered _ _)

/-- A class: name, type parameters, clauses and body. -/
theorem classDeclaration_metered (point : Checkpoint) (anonymous : Bool) :
    Metered b (classDeclaration point anonymous) := by
  refine nodeAt_metered rfl point ?_
  refine (takeKeyword_metered _).bind fun _ => ?_
  refine (className_metered anonymous).bind fun _ => ?_
  refine (optional_metered .angleOpen typeParameters_metered).bind fun _ => ?_
  have clauses := heritageClauseTurn_metered ((atKeyword_metered (b := b) .kwExtends).or (atKeyword_metered .kwImplements))
  refine clauses.repeatWhile.bind fun _ => ?_
  exact requiredBody_metered rfl _

/-- An interface: its clauses begin with `extends` alone. -/
theorem interfaceDeclaration_metered (point : Checkpoint) :
    Metered b (interfaceDeclaration point) := by
  refine nodeAt_metered rfl point ?_
  refine (takeKeyword_metered _).bind fun _ => ?_
  refine nameRule_metered.bind fun _ => ?_
  refine (optional_metered .angleOpen typeParameters_metered).bind fun _ => ?_
  refine (heritageClauseTurn_metered (atKeyword_metered _)).repeatWhile.bind fun _ => ?_
  exact requiredBody_metered rfl _

/-- A type alias: what stands behind its equals sign is a type. -/
theorem typeAlias_metered (point : Checkpoint) : Metered b (typeAlias point) := by
  refine nodeAt_metered rfl point ?_
  refine (takeKeyword_metered _).bind fun _ => ?_
  refine nameRule_metered.bind fun _ => ?_
  refine (optional_metered .angleOpen typeParameters_metered).bind fun _ => ?_
  refine (Metered.whenever (expect_metered .equals _) (typeExpr_metered _)).bind fun _ => ?_
  exact expectSemicolon_metered

/-! ### Enums -/

/-- A computed member name between square brackets. -/
theorem computedName_metered : Metered b computedName := by
  refine bump_metered.bind fun _ => ?_
  refine (balanced_metered _ _).bind fun _ => ?_
  refine (expect_metered .bracketClose _).bind fun _ => ?_
  exact .pure ()

/-- The forms of an enum member's name, one case each. -/
theorem enumMemberName_metered : Metered b enumMemberName := by
  refine current_metered.bind fun kind => ?_
  split
  · exact nameRule_metered
  · exact node_metered rfl bump_metered
  · exact node_metered rfl bump_metered
  · exact computedName_metered

theorem enumMember_metered : Metered b enumMember := by
  refine node_metered rfl ?_
  refine enumMemberName_metered.bind fun _ => ?_
  exact optional_metered .equals (initializer_metered _)

/-- The members between the braces of an enum. -/
theorem enumBody_metered : Metered b enumBody := by
  refine (currentIs_metered .braceOpen).branch ?_ (errorWith_metered _ _)
  refine node_metered rfl ?_
  refine delimited_metered _ ?_
  exact itemTurn_metered _ _ (currentIn_metered _) enumMember_metered

/-- An enum, with `const` or without. -/
theorem enumDeclaration_metered (point : Checkpoint) : Metered b (enumDeclaration point) := by
  refine nodeAt_metered rfl point ?_
  refine (eatKeyword_metered _).bind fun _ => ?_
  refine (takeKeyword_metered _).bind fun _ => ?_
  refine nameRule_metered.bind fun _ => ?_
  exact enumBody_metered

/-! ### Modules -/

/-- The text a module is named by. -/
theorem moduleSpecifier_metered : Metered b moduleSpecifier :=
  (eat_metered .stringLiteral).bind fun _ => .ite (error_metered _) (.pure ())

/-- One statement of a block, where statements are within the budget. -/
theorem blockTurn_metered {statement : Rule Unit} (h : Metered b statement) :
    Metered b (blockTurn statement) := by
  refine (atEnd_metered.or (currentIs_metered .braceClose)).branch (.pure false) ?_
  refine h.bind fun _ => ?_
  exact .pure true

/-- A block is a level, as a pattern is. -/
theorem moduleBlock_metered {statement : Rule Unit} (h : Metered b statement) :
    Metered b (moduleBlock statement) := by
  refine (assertAt_metered _).bind fun _ => ?_
  exact level_metered rfl (.pure ()) fun _ => delimited_metered _ (blockTurn_metered h)

/-- One further segment of a dotted name. -/
theorem segmentTurn_metered : Metered b segmentTurn :=
  (eat_metered .dot).branch (nameRule_metered.bind fun _ => .pure true) (.pure false)

/-- The name of a module: a text, or names with dots between. -/
theorem moduleName_metered : Metered b moduleName := by
  refine (currentIs_metered .stringLiteral).branch (node_metered rfl bump_metered) ?_
  refine nameRule_metered.bind fun _ => ?_
  exact segmentTurn_metered.repeatWhile

/-- A module or namespace around its block. -/
theorem moduleDeclaration_metered (point : Checkpoint) {statement : Rule Unit}
    (h : Metered b statement) : Metered b (moduleDeclaration point statement) := by
  refine nodeAt_metered rfl point ?_
  refine bumpKeyword_metered.bind fun _ => ?_
  refine moduleName_metered.bind fun _ => ?_
  exact (currentIs_metered .braceOpen).branch (moduleBlock_metered h) expectSemicolon_metered

/-- The global scope around its block. -/
theorem globalDeclaration_metered (point : Checkpoint) {statement : Rule Unit}
    (h : Metered b statement) : Metered b (globalDeclaration point statement) := by
  refine nodeAt_metered rfl point ?_
  refine (takeKeyword_metered _).bind fun _ => ?_
  exact moduleBlock_metered h

/-! ### Exports -/

/-- The expression behind `export default` or `export =`. -/
theorem expressionTail_metered : Metered b expressionTail :=
  (node_metered rfl (balancedOr_metered _ _ _)).bind fun _ => expectSemicolon_metered

theorem exportDefault_metered (point : Checkpoint) : Metered b (exportDefault point) :=
  nodeAt_metered rfl point expressionTail_metered

/-- What an export lists: a star with its name, or names between braces. -/
theorem exportedNames_metered : Metered b exportedNames := by
  refine (eat_metered .star).branch ?_ (bracedBody_metered rfl)
  exact .whenever ((eatKeyword_metered _).and (eat_metered .stringLiteral).not) nameRule_metered

/-- An export list, with the module it is taken from. -/
theorem exportDeclaration_metered (point : Checkpoint) : Metered b (exportDeclaration point) := by
  refine nodeAt_metered rfl point ?_
  refine (takeKeyword_metered _).bind fun _ => ?_
  refine (eatKeyword_metered _).bind fun _ => ?_
  refine exportedNames_metered.bind fun _ => ?_
  refine (Metered.whenever (eatKeyword_metered _) moduleSpecifier_metered).bind fun _ => ?_
  exact expectSemicolon_metered

theorem exportAssignment_metered (point : Checkpoint) : Metered b (exportAssignment point) := by
  refine nodeAt_metered rfl point ?_
  refine (takeKeyword_metered _).bind fun _ => ?_
  refine bump_metered.bind fun _ => ?_
  exact expressionTail_metered

/-- `export as namespace` and its name. -/
theorem namespaceExport_metered (point : Checkpoint) : Metered b (namespaceExport point) := by
  refine nodeAt_metered rfl point ?_
  refine (takeKeyword_metered _).bind fun _ => ?_
  refine (takeKeyword_metered _).bind fun _ => ?_
  refine (takeKeyword_metered _).bind fun _ => ?_
  refine nameRule_metered.bind fun _ => ?_
  exact expectSemicolon_metered

/-- The forms of an export that is no modifier, told apart by the words ahead. -/
theorem exportForm_metered (point : Checkpoint) : Metered b (exportForm point) := by
  have found {r : Rule Unit} (h : Metered b r) : Metered b (do r; return true) :=
    h.bind fun _ => .pure true
  refine (assertAtKeyword_metered _).bind fun _ => (kindAt_metered 1).bind fun next => ?_
  refine Metered.branch ((Metered.pure _).or ((nthIsKeyword_metered 1 _).and (nthIs_metered 2 _)))
    (found (exportDeclaration_metered point)) ?_
  refine .ite (found (exportAssignment_metered point)) ?_
  exact ((nthIsKeyword_metered 1 _).and (nthIsKeyword_metered 2 _)).branch
    (found (namespaceExport_metered point)) (.pure false)

/-! ### Imports -/

/-- The word `as`, reported where it is missing. -/
theorem expectAs_metered : Metered b expectAs :=
  (eatKeyword_metered _).branch (.pure true) ((errorWith_metered _ _).bind fun _ => .pure false)

/-- A star import with its name. -/
theorem namespaceImport_metered : Metered b namespaceImport := by
  refine node_metered rfl ?_
  refine bump_metered.bind fun _ => ?_
  refine expectAs_metered.bind fun _ => ?_
  exact nameRule_metered

/-- Whether `type` marks a specifier is looked up in the words behind it. -/
theorem specifierIsTypeOnly_metered : Metered b specifierIsTypeOnly := by
  refine (atKeyword_metered _).bind fun _ => ?_
  refine .ite (.pure false) ?_
  refine (kindAt_metered 1).bind fun _ => ?_
  refine .ite (.pure false) ?_
  refine ((nthIsKeyword_metered 1 _).and (nthIs_metered 2 .ident).not).bind fun _ => ?_
  exact .pure _

/-- The names of a specifier, the second behind `as`. -/
theorem specifierNames_metered : Metered b specifierNames := by
  refine (nthIsKeyword_metered 1 _).bind fun _ => ?_
  refine ((Metered.pure _).or (currentIs_metered .stringLiteral)).branch ?_ nameRule_metered
  exact bump_metered.bind fun _ => .whenever expectAs_metered nameRule_metered

theorem importSpecifier_metered : Metered b importSpecifier := by
  refine node_metered rfl ?_
  refine (Metered.whenever specifierIsTypeOnly_metered (takeKeyword_metered _)).bind fun _ => ?_
  exact specifierNames_metered

/-- The specifiers between their braces. -/
theorem namedImports_metered : Metered b namedImports := by
  refine node_metered rfl ?_
  refine delimited_metered _ ?_
  exact itemTurn_metered _ _ (current_metered.map startsSpecifier) importSpecifier_metered

/-- Whether `type` marks a clause is looked up in the words behind it. -/
theorem clauseIsTypeOnly_metered : Metered b clauseIsTypeOnly := by
  refine (atKeyword_metered _).bind fun _ => .ite (.pure false) ?_
  refine (kindAt_metered 1).bind fun next => ?_
  split
  · exact .pure true
  · exact .pure true
  · exact ((nthIsKeyword_metered 1 _).and (nthIs_metered 2 _)).bind fun _ => .pure _
  · exact .pure false

/-- The name in front of the lists, with its comma. -/
theorem defaultImport_metered : Metered b defaultImport := by
  refine ((currentIs_metered .ident).and (atKeyword_metered _).not).branch ?_ (.pure false)
  refine nameRule_metered.bind fun _ => ?_
  exact (eat_metered .comma).bind fun _ => .pure true

/-- A star or a list behind the default name, or an error if there was none. -/
theorem furtherImports_metered (hasDefault : Bool) : Metered b (furtherImports hasDefault) :=
  (currentIs_metered .star).branch namespaceImport_metered <|
    (currentIs_metered .braceOpen).branch namedImports_metered (.ite (error_metered _) (.pure ()))

theorem importClause_metered : Metered b importClause := by
  refine node_metered rfl ?_
  refine (Metered.whenever clauseIsTypeOnly_metered (takeKeyword_metered _)).bind fun _ => ?_
  refine defaultImport_metered.bind fun _ => ?_
  exact furtherImports_metered _

/-- The module behind `from`. -/
theorem importSource_metered : Metered b importSource :=
  (eatKeyword_metered _).branch moduleSpecifier_metered
    ((expect_metered .ident _).bind fun _ => .pure ())

/-- The attributes behind `with` or `assert`. -/
theorem importAttributes_metered : Metered b importAttributes :=
  bump_metered.bind fun _ => bracedBody_metered rfl

/-- All that follows the word `import`. -/
theorem importTail_metered : Metered b importTail := by
  refine (eat_metered .stringLiteral).branch (expectSemicolon_metered.bind fun _ => .pure ()) ?_
  refine importClause_metered.bind fun _ => ?_
  refine importSource_metered.bind fun _ => ?_
  have announced := ((atWord_metered (b := b) "with").or (atWord_metered "assert")).and (nextIs_metered .braceOpen)
  refine (Metered.whenever announced importAttributes_metered).bind fun _ => ?_
  exact expectSemicolon_metered

/-- One further segment of a referenced name. -/
theorem referenceTurn_metered : Metered b referenceTurn := by
  refine (eat_metered .dot).branch ?_ (.pure false)
  refine (eat_metered .ident).branch (.pure true) ?_
  exact (error_metered _).bind fun _ => .pure false

/-- A call of `require`. -/
theorem requireCall_metered : Metered b requireCall := by
  refine (takeKeyword_metered _).bind fun _ => ?_
  refine bump_metered.bind fun _ => ?_
  refine moduleSpecifier_metered.bind fun _ => ?_
  refine (expect_metered .parenClose _).bind fun _ => ?_
  exact .pure ()

/-- What an alias refers to: a call of `require`, or a dotted name. -/
theorem moduleReference_metered : Metered b moduleReference := by
  refine node_metered rfl ?_
  refine ((atKeyword_metered _).and (nextIs_metered .parenOpen)).branch requireCall_metered ?_
  exact (eat_metered .ident).branch referenceTurn_metered.repeatWhile (error_metered _)

theorem importEqualsTail_metered : Metered b importEqualsTail := by
  have marked := (atKeyword_metered (b := b) .kwType).and (nextIs_metered .ident)
  refine (Metered.whenever marked (takeKeyword_metered _)).bind fun _ => ?_
  refine nameRule_metered.bind fun _ => ?_
  refine (expect_metered .equals _).bind fun _ => ?_
  refine moduleReference_metered.bind fun _ => ?_
  exact expectSemicolon_metered

/-- An import is told from an alias by up to three words ahead. -/
theorem isImportEquals_metered : Metered b isImportEquals := by
  refine ((nextIs_metered .ident).and (nthIs_metered 2 .equals)).or ?_
  exact (nthIsKeyword_metered 1 _).and ((nthIs_metered 2 _).and (nthIs_metered 3 _))

/-- An import in both its forms from its checkpoint on. -/
theorem importStatement_metered (point : Checkpoint) : Metered b (importStatement point) := by
  have behind {kind : NodeKind} (flat : kind.level = 0) {tail : Rule Unit} (h : Metered b tail) :
      Metered b (nodeAt point kind do takeKeyword .kwImport; tail) :=
    nodeAt_metered flat point ((takeKeyword_metered _).bind fun _ => h)
  refine isImportEquals_metered.branch ?_ ?_
  · exact behind rfl importEqualsTail_metered
  · exact behind rfl importTail_metered

/-! ### Statements -/

/-- One modifier is taken if the word behind it allows that. -/
theorem modifierTurn_metered (m : Modifiers) : Metered b (modifierTurn m) := by
  have read (k : Keyword) (m : Modifiers) : Metered b (do takeKeyword k; return Turn.again m) :=
    (takeKeyword_metered k).bind fun _ => .pure _
  refine (atKeyword_metered _).branch (read _ _) ?_
  refine ((atKeyword_metered _).and (.pure m.any)).branch (read _ _) ?_
  refine ((atKeyword_metered _).and (nextIs_metered .ident)).branch (read _ _) ?_
  exact ((atKeyword_metered _).and (nthIsKeyword_metered 1 _)).branch (read _ _) (.pure _)

/-- A form that is read only where its test holds. -/
theorem onlyIf_metered {t : Rule Bool} {body : Rule Unit} (asks : Metered b t)
    (h : Metered b body) : Metered b (onlyIf t body) :=
  asks.branch (h.bind fun _ => .pure true) (.pure false)

section

variable {inner : Rule Unit} (h : Metered b inner)
include h

/-- The declarations by their first keyword. -/
theorem declarationOf_metered (point : Checkpoint) (isDefault : Bool) (keyword : Option Keyword) :
    Metered b (declarationOf inner point isDefault keyword) := by
  have follows : Metered b bindingFollows :=
    (kindAt_metered 1).map fun k : Option TokenKind => k.any KindSet.bindingStart.holds
  cases keyword with
  | none => exact .pure false
  | some k =>
    cases k with
    | kwConst =>
      exact (nthIsKeyword_metered 1 _).branch
        ((enumDeclaration_metered point).bind fun _ => .pure true)
        (onlyIf_metered follows (variableStatement_metered point))
    | kwVar | kwLet => exact onlyIf_metered follows (variableStatement_metered point)
    | kwFunction => exact onlyIf_metered (.pure true) (functionDeclaration_metered point isDefault)
    | kwClass => exact onlyIf_metered (.pure true) (classDeclaration_metered point isDefault)
    | kwInterface =>
      exact onlyIf_metered (nextIs_metered _) (interfaceDeclaration_metered point)
    | kwType => exact onlyIf_metered (nextIs_metered _) (typeAlias_metered point)
    | kwEnum => exact onlyIf_metered (nextIs_metered _) (enumDeclaration_metered point)
    | kwNamespace => exact onlyIf_metered (nextIs_metered _) (moduleDeclaration_metered point h)
    | kwModule =>
      exact (kindAt_metered 1).bind fun _ =>
        onlyIf_metered (.pure _) (moduleDeclaration_metered point h)
    | kwGlobal => exact onlyIf_metered (nextIs_metered _) (globalDeclaration_metered point h)
    | kwImport => exact onlyIf_metered (.pure _) (importStatement_metered point)
    | _ => exact .pure false

/-- A declaration where its keyword stands, or nothing. -/
theorem declaration_metered (point : Checkpoint) (isDefault : Bool) :
    Metered b (declaration inner point isDefault) := by
  refine current_metered.bind fun _ => ?_
  refine .ite (.pure false) ?_
  refine currentText_metered.bind fun _ => ?_
  exact declarationOf_metered h point isDefault _

end

/-- The complaint about a word that begins no statement costs nothing. -/
theorem complainOfStart_metered (hasModifiers : Bool) : Metered b (complainOfStart hasModifiers) := by
  refine (currentIs_metered .garbage).branch (error_metered _) ?_
  refine .ite (error_metered _) ?_
  have saying (kind : DiagnosticKind) (f : String → String) :
      Metered b (do errorWith kind (f (← currentText))) :=
    currentText_metered.bind fun _ => errorWith_metered _ _
  refine (currentIn_metered .closers).branch ?_ ?_
  · exact saying _ _
  · exact saying _ _

/-- One word of a recovery, if it does not end there. -/
theorem skipTurn_metered (inBlock : Bool) (s : Skipping) : Metered b (skipTurn inBlock s) := by
  refine atEnd_metered.branch (.pure _) ?_
  refine current_metered.bind fun _ => ?_
  -- Recovery stops where a statement begins, if no bracket is open.
  refine ((Metered.pure _).and ((Metered.pure _).or atStatementStart_metered)).branch (.pure _) ?_
  refine bump_metered.bind fun _ => ?_
  exact .ite (.pure _) (.pure _)

/-- A recovery puts all it skips into one node. -/
theorem recover_metered (point : Checkpoint) (hasModifiers : Bool) :
    Metered b (recover point hasModifiers) := by
  refine (complainOfStart_metered hasModifiers).bind fun _ => ?_
  refine nodeAt_metered rfl point ?_
  refine inBlock_metered.bind fun inBlock => ?_
  refine (Metered.loop (skipTurn_metered inBlock) {}).bind fun _ => ?_
  exact .pure ()

section

variable {inner : Rule Unit} (h : Metered b inner)
include h

/-- Behind the modifiers stands a declaration, or recovery begins. -/
theorem modified_metered (point : Checkpoint) (m : Modifiers) :
    Metered b (modified inner point m) := by
  refine (declaration_metered h point m.isDefault).branch (.pure ()) ?_
  refine .ite ?_ ?_
  · exact exportDefault_metered point
  · exact recover_metered point m.any

/-- One statement from its checkpoint on. -/
theorem statementAt_metered (point : Checkpoint) : Metered b (statementAt inner point) := by
  refine (currentIs_metered .semicolon).branch ?_ ?_
  · exact (node_metered rfl bump_metered).bind fun _ => .pure ()
  refine ((atKeyword_metered _).and (exportForm_metered point)).branch (.pure ()) ?_
  refine (Metered.loop modifierTurn_metered {}).bind fun m => ?_
  exact modified_metered h point m

end

/-- Statements to a depth, by induction on it: the blocks inside are read by the level below. -/
theorem statementWithin_metered (n : Nat) : Metered b (statementWithin n) := by
  induction n with
  | zero => exact .throw _
  | succ n ih => exact checkpoint_metered.bind fun point => statementAt_metered ih point

theorem statement_metered : Metered b statement := .bounded statementWithin_metered

/-- The statements of a source, up to its end. -/
theorem sourceTurn_metered : Metered b sourceTurn :=
  atEnd_metered.branch (.pure false) (statement_metered.bind fun _ => .pure true)

/-- A whole source within its budget and without one. -/
theorem source_metered : Metered b source := by
  have statements := sourceTurn_metered.repeatWhile.bind fun _ => skipAndPlaceGap_metered (b := b)
  refine (node_metered rfl statements).bind fun _ => ?_
  -- The trivia behind the root is free.
  exact .ofSteady placeGap_steady

end ImplicitGlobals.Grammar
