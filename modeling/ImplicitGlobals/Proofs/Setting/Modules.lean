import ImplicitGlobals.Proofs.Acceptance.Modules
import ImplicitGlobals.Proofs.Setting.Declarations

/-!
# Modules, imports and exports in a setting

These rules look up to three words ahead. What they find on the way is no semicolon, so that
they stay within their statement.
-/

namespace ImplicitGlobals.Grammar

variable {S : Setting} {s : Ending} {p : Entry} {c : Cursor}

/-- Behind one word there is one word less of which it is known. -/
theorem Clear.tail {n : Nat} {ws : List Word} (h : Clear (n + 1) ws) : Clear n ws.tail :=
  fun j lt => kindIn_tail ws j ▸ h (j + 1) (Nat.succ_lt_succ lt)

/-- Where a word is known to follow, the rule goes on. -/
theorem Clear.goesOn {n m : Nat} {ws : List Word} (h : Clear (n + 1) ws) : Entry.goesOn ws m :=
  fun j lt => h j (by omega)

/-- A word that is found ahead is clear, if it is no semicolon. -/
theorem Clear.found {n : Nat} {kind : TokenKind} {ws : List Word} (h : Clear n ws)
    (other : kind ≠ .semicolon) (here : (kindIn ws n == some kind) = true) : Clear (n + 1) ws :=
  h.succ (by rw [eq_of_beq here]; simpa using other)

/-- A word that is spelled out ahead is clear as well. -/
theorem Clear.spelt {n : Nat} {text : String} {ws : List Word} (h : Clear n ws)
    (here : spells ws n text = true) : Clear (n + 1) ws :=
  h.succ (by rw [kindIn_of_spells here]; decide)

theorem moduleSpecifier_follows : S.Follows s p id moduleSpecifier moduleSpecifier := by
  refine (eat_follows (by decide)).bind fun _ => ?_
  refine .ite (fun _ => error_follows _) fun _ => ?_
  exact .pure rfl

/-! ### Blocks -/

/-- A dot and a name. -/
theorem segmentTurn_follows : S.Follows .firm .any id segmentTurn segmentTurn :=
  (eat_follows (by decide)).choose (nameRule_follows.bind fun _ => .pure rfl) (.pure rfl)

/-- A string, or names with dots between them. -/
theorem moduleName_follows : S.Follows .firm p id moduleName moduleName :=
  (currentIs_follows .stringLiteral).branch (currentIs_answers .stringLiteral)
    (node_follows (by decide) (bump_follows.given fun _ _ h => goesOn_of_found (by decide) h.2))
    (nameRule_follows.bind fun _ => repeatWhile_follows (by decide) segmentTurn_follows)

section

variable {statement statement' : Rule Unit} (h : S.Follows .final .any id statement statement')
include h

/-- A block goes on where a statement ended, and a block that is not closed is complained of. -/
theorem blockTurn_follows : S.Follows .loose .any id (blockTurn statement) (blockTurn statement') := by
  refine (atEnd_follows.or (currentIs_follows .braceClose)).choose (.pure rfl) ?_
  refine h.loosen.bindLoose fun _ => ?_
  exact .pure rfl

/-- Inside its braces a block does not see what stands around it. -/
theorem moduleBlock_follows :
    S.Follows s .any id (moduleBlock statement) (moduleBlock statement') := by
  refine assertAt_follows ?_
  refine descend_follows.bindTo (fun _ => descend_keeps) fun _ =>
    .ite (fun _ => .pure rfl) fun _ => ?_
  have block : S.Follows .firm (.current .braceOpen) id
      (node .moduleBlock (delimited blockMarks (blockTurn statement)))
      (node .moduleBlock (delimited blockMarks (blockTurn statement'))) :=
    node_follows (by decide)
      (delimited_follows (m := blockMarks) (by decide) (by decide) (blockTurn_follows h))
  exact block.bind fun _ => ascend_follows

/-- A body in braces ends the declaration; else a semicolon does, or what stands in for it. -/
theorem moduleDeclaration_follows (point : Checkpoint) : S.Follows .final .goesOn id
    (moduleDeclaration point statement) (moduleDeclaration (point + S.parts.length) statement') := by
  refine nodeAt_follows (by decide) point ?_
  refine .behindWord bumpKeyword_one bumpKeyword_follows begun_tail ?_
  refine moduleName_follows.bindOn fun _ => ?_
  refine (currentIs_follows .braceOpen).branch (currentIs_answers .braceOpen) ?_ ?_
  · exact (moduleBlock_follows h).anywhere
  · exact expectSemicolon_follows.given fun _ _ found => found.1

/-- The block ends the declaration. -/
theorem globalDeclaration_follows (point : Checkpoint) : S.Follows s .goesOn id
    (globalDeclaration point statement) (globalDeclaration (point + S.parts.length) statement') := by
  refine nodeAt_follows (by decide) point ?_
  refine (takeKeyword_follows _).bind fun _ => ?_
  exact moduleBlock_follows h

end

/-! ### Exports -/

/-- The run of an expression reaches as far as the setting lets it. -/
theorem expressionTail_follows : S.Follows .final .begun id expressionTail expressionTail :=
  (node_follows (by decide) (balancedOr_follows (by decide))).bindOn fun _ =>
    expectSemicolon_follows

theorem exportDefault_follows (point : Checkpoint) : S.Follows .final .begun id
    (exportDefault point) (exportDefault (point + S.parts.length)) :=
  nodeAt_follows (by decide) point expressionTail_follows

/-- A star with a name, or names in braces. -/
theorem exportedNames_follows : S.Follows s p id exportedNames exportedNames :=
  (eat_follows (by decide)).choose
    (wheneverAny_follows ((eatKeyword_follows _).and (eat_follows (by decide)).not)
      nameRule_follows)
    (bracedBody_follows (by decide))

/-- Behind the names `from` may follow, and then a semicolon or what stands in for it. -/
theorem exportDeclaration_follows (point : Checkpoint) : S.Follows .final .goesOn id
    (exportDeclaration point) (exportDeclaration (point + S.parts.length)) := by
  refine nodeAt_follows (by decide) point ?_
  refine .behindWord (takeKeyword_one _) (takeKeyword_follows _) begun_tail ?_
  refine (eatKeyword_follows _).bindOn fun _ => ?_
  refine exportedNames_follows.bindOn fun _ => ?_
  refine (wheneverAny_follows (eatKeyword_follows _) moduleSpecifier_follows).bindOn fun _ => ?_
  exact expectSemicolon_follows

/-- A keyword is read where one more word that is no semicolon is known to stand behind it. -/
theorem takeKeyword_further (k : Keyword) {i : Nat} {r r' : Rule Unit} {s : Ending}
    (h : S.Follows s (fun ws _ => Clear (i + 1) ws) id r r') :
    S.Follows s (fun ws _ => Clear (i + 2) ws) id (do takeKeyword k; r) (do takeKeyword k; r') :=
  have read := (takeKeyword_follows k).given fun _ _ => Clear.goesOn
  .behindWord (takeKeyword_one k) read (fun _ _ => Clear.tail) h

/-- `export` and `=` are known to stand there. -/
theorem exportAssignment_follows (point : Checkpoint) : S.Follows .final (fun ws _ => Clear 2 ws) id
    (exportAssignment point) (exportAssignment (point + S.parts.length)) := by
  refine nodeAt_follows (by decide) point ?_
  refine takeKeyword_further _ ?_
  exact .behindWord bump_one bump_follows begun_tail expressionTail_follows

/-- All three words of the form are known to stand there. -/
theorem namespaceExport_follows (point : Checkpoint) : S.Follows .final (fun ws _ => Clear 3 ws) id
    (namespaceExport point) (namespaceExport (point + S.parts.length)) := by
  refine nodeAt_follows (by decide) point ?_
  refine takeKeyword_further _ ?_
  refine takeKeyword_further _ ?_
  refine .behindWord (takeKeyword_one _) (takeKeyword_follows _) begun_tail ?_
  refine nameRule_follows.bindOn fun _ => ?_
  exact expectSemicolon_follows

/-- Goes on with `r` unless the attempt came to something. -/
def orElse (attempt : Rule Bool) (r : Rule Unit) : Rule Unit := do
  if ← attempt then return
  r

namespace orElse

variable {α : Type} (r : Rule Unit)

/-- The further rule waits until the first one has answered. -/
theorem bind (t : Rule α) (f : α → Rule Bool) :
    orElse (t >>= f) r = t >>= fun x => orElse (f x) r :=
  bind_assoc ..

/-- Either branch may be followed by the further rule. -/
theorem ite (b : Prop) [Decidable b] (t u : Rule Bool) :
    orElse (if b then t else u) r = if b then orElse t r else orElse u r := by
  split <;> rfl

/-- What was read is all there is. -/
theorem found (body : Rule Unit) : (do body; orElse (pure true) r) = body := bind_pure_unit

/-- Where the first rule declines, the further one is next. -/
theorem none : orElse (pure false) r = r := rfl

end orElse

/-- The assertion holds where the word is spelled out. -/
theorem assertAtKeyword_follows {k : Keyword} {r r' : Unit → Rule Unit}
    (h : S.Follows s (fun ws n => p ws n ∧ spells ws 0 k.word = true) id (r ()) (r' ())) :
    S.Follows s p id (assertAtKeyword k >>= r) (assertAtKeyword k >>= r') := by
  unfold assertAtKeyword
  rw [bind_assoc, bind_assoc]
  refine (atKeyword_follows k).ask (atKeyword_answers k) fun found => ?_
  cases found with
  | false => exact .throw _
  | true => exact h

/-- The forms in which `export` is no modifier, or what follows when there is none of them. -/
theorem exportForm_follows (point : Checkpoint) {r r' : Rule Unit}
    (h : S.Follows .final p id r r') :
    S.Follows .final p id (orElse (exportForm point) r)
      (orElse (exportForm (point + S.parts.length)) r') := by
  simp only [exportForm, orElse.bind, orElse.ite, orElse.found, orElse.none]
  refine assertAtKeyword_follows ?_
  have behind := kindAt_follows (S := S) (s := .firm) (n := 1)
    fun ws n (here : p ws n ∧ spells ws 0 Keyword.kwExport.word = true) =>
      (clear_zero ws).spelt here.2
  refine behind.ask (kindAt_answers 1) fun next => ?_
  have first (ws : List Word) (n : Nat) (here : (p ws n ∧
      spells ws 0 Keyword.kwExport.word = true) ∧ kindIn ws 1 = next) : Clear 1 ws :=
    (clear_zero ws).spelt here.1.2
  have list := (Answers.pure (next == some .braceOpen || next == some .star)).or
    ((nthIsKeyword_answers 1 .kwType).and (nthIs_answers 2 .braceOpen))
  have asNamespace := (nthIsKeyword_answers 1 .kwAs).and (nthIsKeyword_answers 2 .kwNamespace)
  refine Setting.Follows.branch ?_ list ?_ (.ite (fun equals => ?_) fun _ => ?_)
  · exact (Setting.Follows.pure rfl).orAt (.pure _) <|
      (nthIsKeyword_follows first _).andAt (nthIsKeyword_answers 1 _) <|
      nthIs_follows (fun ws n here => (first ws n here.1).spelt here.2) _
  · exact (exportDeclaration_follows point).given fun ws n here => first ws n here.1
  · refine (exportAssignment_follows point).given fun ws n here => ?_
    exact (first ws n here.1).found (show .equals ≠ TokenKind.semicolon by decide)
      (here.1.2 ▸ equals)
  refine Setting.Follows.branch ?_ asNamespace ?_ (h.given fun _ _ here => here.1.1.1.1)
  · exact (nthIsKeyword_follows (fun ws n here => first ws n here.1) _).andAt
      (nthIsKeyword_answers 1 _) <|
      nthIsKeyword_follows (fun ws n here => (first ws n here.1.1).spelt here.2) _
  · refine (namespaceExport_follows point).given fun ws n here => ?_
    have both := Bool.and_eq_true_iff.1 here.2
    exact ((first ws n here.1.1).spelt both.1).spelt both.2

/-! ### Imports -/

/-- `as`, or a complaint where something else follows. -/
theorem expectAs_follows : S.Follows .firm p id expectAs expectAs :=
  (eatKeyword_follows _).choose (.pure rfl) (.behindError fun _ => .pure rfl)

theorem namespaceImport_follows : S.Follows s .goesOn id namespaceImport namespaceImport := by
  refine node_follows (by decide) ?_
  refine bump_follows.bind fun _ => ?_
  refine expectAs_follows.bind fun _ => ?_
  exact nameRule_follows

/-- A specifier begins with a word that is no semicolon. -/
theorem goesOn_of_specifier {ws : List Word} {n : Nat} (h : AtSpecifier ws) : Entry.goesOn ws n :=
  h.elim (Entry.goesOn_of_current (by decide) (n := n))
    (Entry.goesOn_of_current (by decide) (n := n))

theorem specifierIsTypeOnly_follows :
    S.Follows .firm p id specifierIsTypeOnly specifierIsTypeOnly := by
  refine (atKeyword_follows _).ask (atKeyword_answers _) fun type => ?_
  cases type with
  | false => exact .pure rfl
  | true =>
  have behind (ws : List Word) (n : Nat) (here : p ws n ∧ spells ws 0 Keyword.kwType.word = true) :
      Clear 1 ws := (clear_zero ws).spelt here.2
  refine Setting.Follows.ask (kindAt_follows behind) (kindAt_answers 1) fun next =>
    .ite (fun _ => .pure rfl) fun _ => ?_
  refine Setting.Follows.bind ?_ fun _ => .pure rfl
  refine (nthIsKeyword_follows (fun ws n here => behind ws n here.1) _).andAt
    (nthIsKeyword_answers 1 _) ?_
  exact (nthIs_follows (fun ws n here => (behind ws n here.1.1).spelt here.2) _).not

/-- Where `as` follows there are two names, else one. -/
theorem specifierNames_follows : S.Follows s .goesOn id specifierNames specifierNames := by
  refine (nthIsKeyword_follows (fun _ _ => id) _).ask (nthIsKeyword_answers 1 _) fun renamed => ?_
  have quoted := (Answers.pure renamed).or (currentIs_answers .stringLiteral)
  refine Setting.Follows.branch
    ((Setting.Follows.pure rfl).orAt (.pure _) (currentIs_follows _)) quoted ?_ nameRule_follows
  exact (bump_follows.given fun _ _ here => here.1.1).bind fun _ =>
    wheneverAny_follows expectAs_follows nameRule_follows

theorem importSpecifier_follows :
    S.Follows s (fun ws _ => AtSpecifier ws) id importSpecifier importSpecifier := by
  obtain ⟨v, answers, found⟩ := specifierIsTypeOnly_answers
  refine node_follows (by decide) ?_
  rw [whenever_then]
  refine specifierIsTypeOnly_follows.branch answers ?_
    (specifierNames_follows.given fun _ _ here => goesOn_of_specifier here.1)
  exact .behindWord (q := .goesOn) (takeKeyword_one _)
    ((takeKeyword_follows _).given fun _ _ here => goesOn_of_specifier here.1)
    (fun ws _ here => goesOn_of_specifier (found ws here.2).2) specifierNames_follows

/-- A round over the list inside its braces. -/
theorem importTurn_follows : S.Follows .loose .any id importTurn importTurn :=
  itemTurn_follows (current_follows.mapId startsSpecifier) (current_answers.map startsSpecifier)
    (importSpecifier_follows.given fun _ _ => atSpecifier_of_starts)

theorem namedImports_follows : S.Follows s (.current .braceOpen) id namedImports namedImports :=
  node_follows (by decide)
    (delimited_follows (m := importMarks) (by decide) (by decide) importTurn_follows)

/-- The mark is read off three words, which the setting leaves alone. -/
theorem clauseIsTypeOnly_follows : S.Follows .firm p id clauseIsTypeOnly clauseIsTypeOnly := by
  refine (atKeyword_follows _).ask (atKeyword_answers _) fun type => ?_
  cases type with
  | false => exact .pure rfl
  | true =>
  have behind (ws : List Word) (n : Nat) (here : p ws n ∧ spells ws 0 Keyword.kwType.word = true) :
      Clear 1 ws := (clear_zero ws).spelt here.2
  refine Setting.Follows.ask (kindAt_follows behind) (kindAt_answers 1) fun next => ?_
  split
  · exact .pure rfl
  · exact .pure rfl
  · refine Setting.Follows.bind ?_ fun _ => .pure rfl
    refine (nthIsKeyword_follows (fun ws n here => behind ws n here.1) _).andAt
      (nthIsKeyword_answers 1 _) ?_
    exact nthIs_follows (fun ws n here => (behind ws n here.1.1).spelt here.2) _
  · exact .pure rfl

theorem defaultImport_follows : S.Follows .firm p id defaultImport defaultImport :=
  ((currentIs_follows .ident).and (atKeyword_follows _).not).choose
    (nameRule_follows.bind fun _ => (eat_follows (by decide)).bind fun _ => .pure rfl) (.pure rfl)

theorem furtherImports_follows (hasDefault : Bool) :
    S.Follows s p id (furtherImports hasDefault) (furtherImports hasDefault) := by
  refine (currentIs_follows .star).branch (currentIs_answers .star)
    (namespaceImport_follows.given fun _ _ here => goesOn_of_found (by decide) here.2) ?_
  refine (currentIs_follows .braceOpen).branch (currentIs_answers .braceOpen)
    (namedImports_follows.given fun _ _ here => eq_of_beq here.2) ?_
  exact .ite (fun _ => error_follows _) fun _ => .pure rfl

theorem importClause_follows : S.Follows s p id importClause importClause := by
  obtain ⟨v, answers, found⟩ := clauseIsTypeOnly_answers
  refine node_follows (by decide) <| Setting.Follows.bind (φ := id) ?_ fun _ =>
    defaultImport_follows.bind fun _ => furtherImports_follows _
  exact whenever_follows clauseIsTypeOnly_follows answers
    ((takeKeyword_follows _).given fun ws n here =>
      Entry.goesOn_of_current (by decide) (n := n) (found ws here.2))

theorem importSource_follows : S.Follows s p id importSource importSource :=
  (eatKeyword_follows _).choose moduleSpecifier_follows
    ((expect_follows (by decide) _).bind fun _ => .pure rfl)

theorem importAttributes_follows : S.Follows s .goesOn id importAttributes importAttributes :=
  bump_follows.bind fun _ => bracedBody_follows (by decide)

/-- Behind the source attributes may follow, and then the end of the statement. -/
theorem importTail_follows : S.Follows .final .begun id importTail importTail := by
  let found (ws : List Word) : Bool := spells ws 0 "with" || spells ws 0 "assert"
  have goesOn (ws : List Word) (n : Nat) (h : found ws = true) : Entry.goesOn ws n :=
    (Bool.or_eq_true_iff.1 h).elim goesOn_of_spelt goesOn_of_spelt
  have words : Answers (atWord "with" <||> atWord "assert") fun ws _ => found ws :=
    (atWord_answers "with").or (atWord_answers "assert")
  have both := words.and (nextIs_answers .braceOpen)
  have attributes : S.Follows .firm .any id
      (whenever ((atWord "with" <||> atWord "assert") <&&> nextIs .braceOpen) importAttributes)
      (whenever ((atWord "with" <||> atWord "assert") <&&> nextIs .braceOpen)
        importAttributes) := by
    refine whenever_follows
      (Setting.Follows.andAt ((atWord_follows _).or (atWord_follows _)) words ?_) both ?_
    · exact (nextIs_follows _).given fun ws n here => goesOn ws n here.2
    · exact importAttributes_follows.given fun ws n here =>
        goesOn ws n (Bool.and_eq_true_iff.1 here.2).1
  refine (eat_follows (by decide)).bindOn fun text => .ite (fun _ => ?_) fun _ => ?_
  · rw [bind_pure_unit]
    exact expectSemicolon_follows
  · exact importClause_follows.bindOn fun _ => importSource_follows.bindOn fun _ =>
      attributes.bindOn fun _ => expectSemicolon_follows

theorem referenceTurn_follows : S.Follows .firm .any id referenceTurn referenceTurn :=
  (eat_follows (by decide)).choose
    ((eat_follows (by decide)).choose (.pure rfl) (.behindError fun _ => .pure rfl)) (.pure rfl)

theorem requireCall_follows : S.Follows s (fun ws _ => Clear 2 ws) id requireCall requireCall := by
  refine takeKeyword_further _ ?_
  refine bump_follows.bind fun _ => ?_
  refine moduleSpecifier_follows.bind fun _ => ?_
  refine (expect_follows (by decide) _).bind fun _ => ?_
  exact .pure rfl

theorem moduleReference_follows : S.Follows .firm p id moduleReference moduleReference := by
  have call := (atKeyword_answers .kwRequire).and (nextIs_answers .parenOpen)
  refine node_follows (by decide) (Setting.Follows.branch
    ((atKeyword_follows _).andAt (atKeyword_answers _) ?_) call ?_ ?_)
  · exact (nextIs_follows _).given fun _ _ here => goesOn_of_spelt here.2
  · refine requireCall_follows.given fun ws _ here => ?_
    have both := Bool.and_eq_true_iff.1 here.2
    exact ((clear_zero ws).spelt both.1).found (by decide) both.2
  · exact (eat_follows (by decide)).choose (repeatWhile_follows (by decide) referenceTurn_follows)
      (error_follows _)

theorem importEqualsTail_follows :
    S.Follows .final .begun id importEqualsTail importEqualsTail := by
  have type := (atKeyword_answers .kwType).and (nextIs_answers .ident)
  have keyword : S.Follows .firm .any id
      (whenever (atKeyword .kwType <&&> nextIs .ident) (takeKeyword .kwType))
      (whenever (atKeyword .kwType <&&> nextIs .ident) (takeKeyword .kwType)) := by
    refine whenever_follows ((atKeyword_follows _).andAt (atKeyword_answers _) ?_) type ?_
    · exact (nextIs_follows _).given fun _ _ here => goesOn_of_spelt here.2
    · exact (takeKeyword_follows _).given fun _ _ here =>
        goesOn_of_spelt (Bool.and_eq_true_iff.1 here.2).1
  exact keyword.bindOn fun _ => nameRule_follows.bindOn fun _ =>
    (expect_follows (by decide) _).bindOn fun _ =>
    moduleReference_follows.bindOn fun _ => expectSemicolon_follows

/-- Three words ahead tell the two kinds of import apart. -/
theorem isImportEquals_follows : S.Follows .firm .goesOn id isImportEquals isImportEquals := by
  have name := (nextIs_answers .ident).and (nthIs_answers 2 .equals)
  refine Setting.Follows.orAt ((nextIs_follows .ident).andAt (nextIs_answers _) ?_) name ?_
  · exact nthIs_follows (fun ws n here => Clear.found here.1 (by decide) here.2) _
  · refine (nthIsKeyword_follows (fun _ _ => id) _).andAt (nthIsKeyword_answers 1 _) ?_
    refine (nthIs_follows (fun ws n here => Clear.spelt here.1 here.2) _).andAt
      (nthIs_answers 2 _) ?_
    exact nthIs_follows
      (fun ws n here => (Clear.spelt here.1.1 here.1.2).found (by decide) here.2) _

/-- Whichever kind it is, the node begins at the moved checkpoint. -/
theorem importStatement_follows (point : Checkpoint) : S.Follows .final .goesOn id
    (importStatement point) (importStatement (point + S.parts.length)) := by
  have test := ((nextIs_answers .ident).and (nthIs_answers 2 .equals)).or
    ((nthIsKeyword_answers 1 .kwType).and ((nthIs_answers 2 .ident).and (nthIs_answers 3 .equals)))
  refine isImportEquals_follows.branch test (.given (p := .goesOn) ?_ fun _ _ here => here.1)
    (.given (p := .goesOn) ?_ fun _ _ here => here.1)
  · exact nodeAt_follows (by decide) point <|
      .behindWord (takeKeyword_one _) (takeKeyword_follows _) begun_tail importEqualsTail_follows
  · exact nodeAt_follows (by decide) point <|
      .behindWord (takeKeyword_one _) (takeKeyword_follows _) begun_tail importTail_follows

end ImplicitGlobals.Grammar
