import ImplicitGlobals.Grammar.Declaration
import ImplicitGlobals.Proofs.Setting.Runs

/-!
# Declarations in a setting

A declaration is entered at a word that is no semicolon. One that ends with a body ends within
the words; one that ends as a statement may read the last of them.
-/

namespace ImplicitGlobals.Grammar

variable {S : Setting} {s : Ending} {p : Entry} {c : Cursor}

/-! ### Bindings -/

/-- Two words are looked at, and a semicolon is neither of them. -/
theorem propertyKey_follows (openKind : TokenKind) :
    S.Follows .firm .any id (propertyKey openKind) (propertyKey openKind) := by
  refine .ite (fun _ => .pure rfl) fun _ => ?_
  refine current_follows.ask current_answers fun kind => ?_
  rw [and_eq_branch, pure_bind]
  by_cases key : (kind == some .ident || kind == some .stringLiteral || kind == some .number) = true
  · have goesOn (ws : List Word) (n : Nat) (here : kindIn ws 0 = kind) : Entry.goesOn ws n := by
      refine (clear_zero ws).succ ?_
      rw [here]
      rintro rfl
      cases key
    rw [if_pos key]
    refine Setting.Follows.branch
      ((nextIs_follows .colon).given fun ws n here => goesOn ws n here.2)
      (nextIs_answers .colon) ?_ (.pure rfl)
    refine .behindWord bump_one (q := .current .colon)
      (bump_follows.given fun ws n here => goesOn ws n here.1.2) (fun ws n here => ?_)
      (bump_follows.given fun _ _ => Entry.goesOn_of_current (by decide))
    rw [Entry.current, kindIn_tail]
    exact eq_of_beq here.2
  · rw [if_neg key]
    exact .pure rfl

section

variable {inner inner' : Rule Unit} (h : S.Follows .firm .any id inner inner')
include h

/-- A round within the delimiters of a pattern. -/
theorem patternTurn_follows (openKind closeKind : TokenKind) : S.Follows .loose .any id
    (patternTurn inner openKind closeKind) (patternTurn inner' openKind closeKind) := by
  refine (atEnd_follows.or (currentIs_follows closeKind)).choose (.pure rfl) ?_
  refine (eat_follows (by decide)).choose (.pure rfl) ?_
  refine (eat_follows (by decide)).bind fun _ => (propertyKey_follows openKind).bind fun _ => ?_
  refine (currentIn_follows .bindingStart).bind fun found => .ite (fun _ => ?_) fun _ => ?_
  · exact (errorAndBump_follows (s := .firm) _ _).bind fun _ => .pure rfl
  refine h.bind fun _ => ?_
  exact (optional_follows (initializer_follows (by decide)).anywhere).bindLoose fun _ =>
    (eat_follows (by decide)).weaken

/-- Delimiters shield a pattern from what stands around it. -/
theorem patternNode_follows {m : Delimiters} (opener : m.opener ≠ .semicolon)
    (closer : m.closer ≠ .semicolon) :
    S.Follows s (.current m.opener) id (patternNode inner m) (patternNode inner' m) :=
  node_follows (by decide) (delimited_follows opener closer (patternTurn_follows h _ _))

/-- The word at which a pattern opens. -/
def Entry.opens : Entry := fun ws _ =>
  kindIn ws 0 = some .braceOpen ∨ kindIn ws 0 = some .bracketOpen

/-- A pattern is a level, which is counted alike in both settings. -/
theorem bindingPattern_follows :
    S.Follows .firm .opens id (bindingPattern inner) (bindingPattern inner') := by
  refine descend_follows.bindTo (fun _ => descend_keeps) fun deeper =>
    .ite (fun _ => .pure rfl) fun _ => ?_
  refine (currentIs_follows .braceOpen).ask (currentIs_answers .braceOpen) fun brace => ?_
  have elements : S.Follows .firm
      (fun ws n => Entry.opens ws n ∧ (kindIn ws 0 == some .braceOpen) = brace) id
      (patternNode inner (if brace = true then bracePattern else bracketPattern))
      (patternNode inner' (if brace = true then bracePattern else bracketPattern)) := by
    cases brace with
    | true =>
      exact (patternNode_follows h (m := bracePattern) (by decide) (by decide)).given
        fun _ _ here => eq_of_beq here.2
    | false =>
      refine (patternNode_follows h (m := bracketPattern) (by decide) (by decide)).given
        fun _ _ here => here.1.resolve_left fun brace => ?_
      simp [brace] at here
  exact elements.bind fun _ => ascend_follows

end

/-- By induction on the fuel, which may differ in the two settings. -/
theorem bindingWithin_follows (n m : Nat) :
    S.Follows .firm .any id (bindingWithin n) (bindingWithin m) := by
  induction n generalizing m with
  | zero => exact .throw _
  | succ n ih =>
    have more (m : Nat) :
        S.Follows .firm .any id (bindingWithin (n + 1)) (bindingWithin (m + 1)) := by
      refine current_follows.ask current_answers fun kind =>
        .ite (fun opens => ?_) fun _ => nameRule_follows
      refine (bindingPattern_follows (ih m)).given fun ws _ here => ?_
      simpa [Entry.opens, here.2] using opens
    cases m with
    | zero => exact (more 0).outOfBound _
    | succ m => exact more m

theorem binding_follows : S.Follows .firm p id binding binding :=
  .bounded fun n m => (bindingWithin_follows n m).anywhere

/-! ### Parameters -/

/-- A binding with its type and its default, which end at a comma or a parenthesis. -/
theorem parameter_follows : S.Follows .loose p id parameter parameter := by
  refine node_follows (by decide) ?_
  refine (eat_follows (by decide)).bind fun _ => ?_
  refine binding_follows.bind fun _ => ?_
  refine (eat_follows (by decide)).bind fun _ => ?_
  refine (optional_follows (typeAscription_follows (by decide)).anywhere).bindLoose fun _ => ?_
  exact optional_follows (initializer_follows (by decide)).anywhere

/-- A round over the parameters. -/
theorem parameterTurn_follows : S.Follows .loose .any id parameterTurn parameterTurn := by
  have starts : Answers (currentIn .bindingStart <||> currentIs .dotDotDot) fun ws _ =>
      (kindIn ws 0).any KindSet.bindingStart.holds || kindIn ws 0 == some .dotDotDot :=
    (currentIn_answers .bindingStart).or (currentIs_answers .dotDotDot)
  exact itemTurn_follows ((currentIn_follows .bindingStart).or (currentIs_follows .dotDotDot))
    starts parameter_follows

/-- Parameters are shielded by their parentheses. -/
theorem parameters_follows : S.Follows s .any id parameters parameters := by
  refine assertAt_follows ?_
  refine node_follows (by decide) ?_
  exact delimited_follows (m := parameterMarks) (by decide) (by decide) parameterTurn_follows

theorem typeParameterModifier_follows :
    S.Follows .firm .any id typeParameterModifier typeParameterModifier := by
  let found (ws : List Word) : Bool :=
    spells ws 0 "in" || (spells ws 0 "out" || spells ws 0 "const")
  have goesOn (ws : List Word) (n : Nat) (h : found ws = true) : Entry.goesOn ws n := by
    simp only [found, Bool.or_eq_true] at h
    exact h.elim goesOn_of_spelt fun more => more.elim goesOn_of_spelt goesOn_of_spelt
  have words : Answers (atWord "in" <||> atWord "out" <||> atWord "const") fun ws _ => found ws :=
    (atWord_answers "in").or ((atWord_answers "out").or (atWord_answers "const"))
  have both : Answers ((atWord "in" <||> atWord "out" <||> atWord "const") <&&> nextIs .ident)
      fun ws _ => found ws && kindIn ws 1 == some .ident := words.and (nextIs_answers .ident)
  have asked : S.Follows .firm .any id (atWord "in" <||> atWord "out" <||> atWord "const")
      (atWord "in" <||> atWord "out" <||> atWord "const") :=
    (atWord_follows _).or ((atWord_follows _).or (atWord_follows _))
  refine Setting.Follows.branch (asked.andAt words ?_) both ?_ (.pure rfl)
  · exact (nextIs_follows .ident).given fun ws n h => goesOn ws n h.2
  · exact (bump_follows.given fun ws n h => goesOn ws n (Bool.and_eq_true_iff.1 h.2).1).bind
      fun _ => .pure rfl

/-- `extends` and a type, up to the end of the type parameter. -/
theorem constraint_follows : S.Follows .loose .goesOn id constraint constraint :=
  (takeKeyword_follows _).bind fun _ => typeExpr_follows (by decide)

/-- A name with its constraint and its default. -/
theorem typeParameter_follows : S.Follows .loose p id typeParameter typeParameter := by
  have bounded : S.Follows .loose .any id (whenever (atKeyword .kwExtends) constraint)
      (whenever (atKeyword .kwExtends) constraint) :=
    whenever_follows (atKeyword_follows _) (atKeyword_answers _)
      (constraint_follows.given fun _ _ found => goesOn_of_spelt found.2)
  exact node_follows (by decide) <|
    (repeatWhile_follows (by decide) typeParameterModifier_follows).bind fun _ =>
    nameRule_follows.bind fun _ => bounded.bindLoose fun _ =>
    wheneverAny_follows (eat_follows (by decide)) (typeExpr_follows (by decide))

theorem typeParameterTurn_follows : S.Follows .loose .any id typeParameterTurn typeParameterTurn := by
  refine (atEnd_follows.or (currentIs_follows .angleClose)).choose (.pure rfl) ?_
  refine typeParameter_follows.bindLoose fun _ => ?_
  exact (eat_follows (by decide)).weaken

/-- Type parameters are shielded by their angles. -/
theorem typeParameters_follows : S.Follows s .any id typeParameters typeParameters := by
  refine assertAt_follows ?_
  refine node_follows (by decide) ?_
  exact delimited_follows (m := typeParameterMarks) (by decide) (by decide) typeParameterTurn_follows

/-! ### Variables and functions -/

/-- A word that is read, and what comes behind it in its statement. -/
theorem begun_tail (ws : List Word) (n : Nat) (_ : p ws n) : Entry.begun ws.tail (n + 1) :=
  Nat.succ_pos n

/-- Type and initializer are runs that the setting may end. -/
theorem variableDeclarator_follows :
    S.Follows .firm p id variableDeclarator variableDeclarator := by
  refine node_follows (by decide) ?_
  refine binding_follows.bind fun _ => ?_
  refine (eat_follows (by decide)).bind fun _ => ?_
  refine (optional_follows (typeAscription_follows (by decide)).anywhere).bind fun _ => ?_
  exact optional_follows (initializer_follows (by decide)).anywhere

/-- A declarator, and whether a comma follows it. -/
theorem variableTurn_follows : S.Follows .firm p id variableTurn variableTurn :=
  variableDeclarator_follows.bind fun _ => eat_follows (by decide)

/-- Keyword and declarators, and then a semicolon or what stands in for it. -/
theorem variableStatement_follows (point : Checkpoint) : S.Follows .final .goesOn id
    (variableStatement point) (variableStatement (point + S.parts.length)) := by
  refine nodeAt_follows (by decide) point ?_
  refine .behindWord bumpKeyword_one bumpKeyword_follows begun_tail ?_
  refine (repeatWhile_follows (by decide) variableTurn_follows).bindOn fun _ => ?_
  exact expectSemicolon_follows

theorem functionName_follows (anonymous : Bool) :
    S.Follows s p id (functionName anonymous) (functionName anonymous) := by
  refine (currentIs_follows .ident).choose nameRule_follows ?_
  refine .ite (fun _ => error_follows _) fun _ => ?_
  exact .pure rfl

/-- Parameters in parentheses, or a complaint. -/
theorem functionParameters_follows : S.Follows s p id functionParameters functionParameters :=
  (currentIs_follows .parenOpen).choose parameters_follows (errorWith_follows _ _)

/-- A function from its keyword to the semicolon behind its result type. -/
theorem functionDeclaration_follows (point : Checkpoint) (anonymous : Bool) :
    S.Follows .final .goesOn id (functionDeclaration point anonymous)
      (functionDeclaration (point + S.parts.length) anonymous) := by
  refine nodeAt_follows (by decide) point ?_
  refine .behindWord (takeKeyword_one _) (takeKeyword_follows _) begun_tail ?_
  refine (eat_follows (by decide)).bindOn fun _ => ?_
  refine (functionName_follows anonymous).bindOn fun _ => ?_
  refine (optional_follows typeParameters_follows.anywhere).bindOn fun _ => ?_
  refine functionParameters_follows.bindOn fun _ => ?_
  refine (optional_follows (typeAscription_follows (by decide)).anywhere).bindOn fun _ => ?_
  exact expectSemicolon_follows

/-! ### Classes, interfaces and types -/

/-- A type of a heritage clause, and whether a comma follows it. -/
theorem heritageTurn_follows : S.Follows .loose .any id heritageTurn heritageTurn :=
  (typeExpr_follows (by decide)).bindLoose fun _ => (eat_follows (by decide)).weaken

/-- Heritage types end at a brace or a comma, so a setting that ends a run later is not seen. -/
theorem heritageClause_follows : S.Follows .loose .goesOn id heritageClause heritageClause := by
  refine node_follows (by decide) ?_
  refine bumpKeyword_follows.bind fun _ => ?_
  exact repeatWhile_follows (by decide) heritageTurn_follows

/-- The clause is there in both settings or in neither. -/
theorem heritageClauseTurn_follows {test : Rule Bool} {v : List Word → Bool}
    (h : S.Follows .firm .any id test test) (answers : Answers test fun ws _ => v ws)
    (goesOn : ∀ ws n, v ws = true → Entry.goesOn ws n) :
    S.Follows .loose .any id (heritageClauseTurn test) (heritageClauseTurn test) :=
  h.branch answers ((heritageClause_follows.given fun ws n found => goesOn ws n found.2).bindLoose
    fun _ => .pure rfl) (.pure rfl)

theorem className_follows (anonymous : Bool) :
    S.Follows s p id (className anonymous) (className anonymous) := by
  refine Setting.Follows.choose ?_ nameRule_follows <|
    .ite (fun _ => error_follows _) fun _ => .pure rfl
  exact (currentIs_follows .ident).and ((atKeyword_follows _).not.and (atKeyword_follows _).not)

/-- The body, or a complaint where no brace follows. -/
theorem requiredBody_follows {kind : NodeKind} (inner : kind ≠ .sourceFile) (what : String) :
    S.Follows s p id (requiredBody kind what) (requiredBody kind what) :=
  (currentIs_follows .braceOpen).choose (bracedBody_follows inner) (errorWith_follows _ _)

/-- At the end of the words the body is missed. -/
theorem requiredBody_strict {kind : NodeKind} {what : String} (none : c.rest = []) :
    Yields (requiredBody kind what) c fun _ d => ¬d.Tidy := by
  refine (currentIs_answers .braceOpen c).bind fun found d asked => .ite (fun brace => ?_) fun _ =>
    complain_spoils _ d
  simp [asked.1, none, kindIn] at brace

/-- A class ends with its body, so nothing behind it matters. -/
theorem classDeclaration_follows (point : Checkpoint) (anonymous : Bool) :
    S.Follows s .goesOn id (classDeclaration point anonymous)
      (classDeclaration (point + S.parts.length) anonymous) := by
  refine nodeAt_follows (by decide) point <| (takeKeyword_follows _).bind fun _ =>
    (className_follows anonymous).bind fun _ =>
    (optional_follows typeParameters_follows.anywhere).bind fun _ => ?_
  refine (repeatWhile_follows (by decide) ?_).bindStrict
    (fun _ => requiredBody_follows (by decide) _) fun _ _ => requiredBody_strict
  have either : Answers (atKeyword .kwExtends <||> atKeyword .kwImplements) fun ws _ =>
      spells ws 0 Keyword.kwExtends.word || spells ws 0 Keyword.kwImplements.word :=
    (atKeyword_answers .kwExtends).or (atKeyword_answers .kwImplements)
  refine heritageClauseTurn_follows ((atKeyword_follows _).or (atKeyword_follows _)) either
    fun ws n found => ?_
  exact (Bool.or_eq_true_iff.1 found).elim goesOn_of_spelt goesOn_of_spelt

/-- An interface ends with its body as well. -/
theorem interfaceDeclaration_follows (point : Checkpoint) : S.Follows s .goesOn id
    (interfaceDeclaration point) (interfaceDeclaration (point + S.parts.length)) := by
  refine nodeAt_follows (by decide) point <| (takeKeyword_follows _).bind fun _ =>
    nameRule_follows.bind fun _ =>
    (optional_follows typeParameters_follows.anywhere).bind fun _ => ?_
  refine (repeatWhile_follows (by decide) ?_).bindStrict
    (fun _ => requiredBody_follows (by decide) _) fun _ _ => requiredBody_strict
  exact heritageClauseTurn_follows (atKeyword_follows _) (atKeyword_answers _) fun _ _ =>
    goesOn_of_spelt

/-- The type behind `=` is a run that the setting may end. -/
theorem typeAlias_follows (point : Checkpoint) :
    S.Follows .final .goesOn id (typeAlias point) (typeAlias (point + S.parts.length)) := by
  refine nodeAt_follows (by decide) point ?_
  refine .behindWord (takeKeyword_one _) (takeKeyword_follows _) begun_tail ?_
  refine nameRule_follows.bindOn fun _ => ?_
  refine (optional_follows typeParameters_follows.anywhere).bindOn fun _ => ?_
  refine (wheneverAny_follows (expect_follows (by decide) _) (typeExpr_follows (by decide))).bindOn fun _ => ?_
  exact expectSemicolon_follows

/-! ### Enums -/

theorem computedName_follows : S.Follows .loose .goesOn id computedName computedName := by
  refine bump_follows.bind fun _ => ?_
  refine (balanced_follows (by decide)).bindLoose fun _ => ?_
  refine (expect_follows (by decide) _).bind fun _ => ?_
  exact .pure rfl

theorem enumMember_follows :
    S.Follows .loose (fun ws _ => (kindIn ws 0).any KindSet.enumMemberName.holds = true) id
      enumMember enumMember := by
  have name : S.Follows .loose
      (fun ws _ => (kindIn ws 0).any KindSet.enumMemberName.holds = true) id
      enumMemberName enumMemberName := by
    refine Setting.Follows.given (p := .goesOn) ?_ fun ws n begins => ?_
    · refine current_follows.ask current_answers fun kind =>
        .given (p := .goesOn) ?_ fun _ _ h => h.1
      split
      · exact nameRule_follows
      · exact node_follows (by decide) bump_follows
      · exact node_follows (by decide) bump_follows
      · exact computedName_follows
    · refine (clear_zero ws).succ fun semi => ?_
      rw [semi] at begins
      revert begins
      decide
  exact node_follows (by decide) <| name.bindLoose fun _ =>
    optional_follows (initializer_follows (by decide)).anywhere

/-- A round over the members inside the braces. -/
theorem enumTurn_follows : S.Follows .loose .any id enumTurn enumTurn :=
  itemTurn_follows (currentIn_follows _) (currentIn_answers _) enumMember_follows

theorem enumBody_follows : S.Follows s p id enumBody enumBody := by
  refine (currentIs_follows .braceOpen).branch (currentIs_answers .braceOpen) ?_
    (errorWith_follows _ _)
  exact node_follows (by decide) <|
    (delimited_follows (m := enumMarks) (by decide) (by decide) enumTurn_follows).given
      fun _ _ found => eq_of_beq found.2

/-- The word behind the first one of an enum is known. -/
theorem enumDeclaration_follows (point : Checkpoint) : S.Follows s (fun ws _ => Clear 2 ws) id
    (enumDeclaration point) (enumDeclaration (point + S.parts.length)) := by
  refine nodeAt_follows (by decide) point ?_
  refine (eatKeyword_follows _).bindTo (q := .goesOn) (fun c here => ?_) fun _ =>
    (takeKeyword_follows _).bind fun _ => nameRule_follows.bind fun _ => enumBody_follows
  refine (eatKeyword_yields _ c).imp fun b d eaten => ?_
  cases b with
  | true =>
    obtain ⟨w, -, took⟩ := eaten
    have next := here 1 (by decide)
    rw [took.rest, ← kindIn_tail] at next
    exact (clear_zero _).succ next
  | false =>
    obtain ⟨⟨_, _, _, rfl⟩, -⟩ := eaten
    exact fun j lt => here j (by omega)

end ImplicitGlobals.Grammar
