import ImplicitGlobals.Grammar.Module
import ImplicitGlobals.Proofs.Acceptance.Declarations

/-!
# Modules, imports and exports without complaint

Blocks hold statements again. Of the rule for these it is only asked that it adds flawless parts
over well nested brackets, wherever it is entered.
-/

namespace ImplicitGlobals.Grammar

variable {inner : Rule Unit}

/-- No claim is made of the tokens of a module specifier. -/
theorem moduleSpecifier_forms : Forms Anywhere moduleSpecifier fun _ => ⊤ := by
  refine .both (eat_forms (by decide)) fun _ => ?_
  refine .ite (fun _ => .error _ _) fun _ => ?_
  exact (Forms.pure ()).any

/-! ### Blocks -/

/-- A module name has at least one name node, or is a string in one. -/
theorem moduleName_forms : Forms Anywhere moduleName fun _ =>
    {ks | ks.contains (.node .name) = true} := by
  have segments : Forms Anywhere (repeatWhile segmentTurn) fun _ => ⊤ := repeatWhile_forms <|
    .both (eat_forms (by decide)) fun b => .ite
      (fun _ => .both nameRule_forms fun _ => (Forms.pure true).any) fun _ => (Forms.pure false).any
  refine .branch (currentIs_answers .stringLiteral) ?_ ?_
  · refine Forms.mono (Forms.given (node_forms (bump_forms (by decide)) fun _ _ => rfl)
      fun ws found =>
      eq_of_beq found.2) fun _ => ?_
    rintro ks rfl
    rfl
  · exact (nameRule_forms.seq fun _ => segments).anywhere.mono fun _ ks mem =>
      (Has.single _).left ks mem

section

variable (h : Forms Anywhere inner fun _ => ⊤)
include h

/-- A round of a block adds a statement or nothing. -/
theorem blockTurn_forms : Forms Anywhere (blockTurn inner) fun _ => ⊤ :=
  .branch (atEnd_answers.or (currentIs_answers _)) (Forms.pure false).any
    (.both h.anywhere fun _ => (Forms.pure true).any)

/-- A block is one node. -/
theorem moduleBlock_forms : Forms Anywhere (moduleBlock inner) fun _ => {[.node .moduleBlock]} := by
  have block : Forms (At .braceOpen)
      (do node .moduleBlock (delimited blockMarks (blockTurn inner)); ascend)
      fun _ => {[.node .moduleBlock]} := by
    refine (node_forms (delimited_forms (d := blockMarks) (by decide) (blockTurn_forms h))
        fun _ _ => rfl).bind
      (fun _ => Forms.ascend) fun _ _ => by simp
  exact assertAt_forms (.descend block)

/-- `module`, a name and a body or a semicolon. -/
theorem moduleDeclaration_encloses (L : Language Kind) :
    Encloses (At .ident) (fun point => moduleDeclaration point inner) L := by
  have body :
      Forms Anywhere (do if ← currentIs .braceOpen then moduleBlock inner else expectSemicolon)
      fun _ => ⊤ :=
    .branch (currentIs_answers _) (moduleBlock_forms h).any.anywhere expectSemicolon_forms.anywhere
  refine nodeAt_encloses (.seq bumpKeyword_forms fun _ => .seq moduleName_forms fun _ => body)
      fun ks mem => ?_
  have named : Has (.node .name) {ks : List Kind | ks.contains (.node .name) = true} := fun _ => id
  exact Bool.or_eq_true_iff.2 (.inl (named.left.right.right ks mem))

/-- `global` and its block. -/
theorem globalDeclaration_encloses (L : Language Kind) :
    Encloses (At .ident) (fun point => globalDeclaration point inner) L := by
  refine nodeAt_encloses (.seq (takeKeyword_forms _) fun _ => moduleBlock_forms h) fun ks mem => ?_
  have keyword := Has.right (Has.left (Has.single (.leaf (.keyword .kwGlobal)))) ks mem
  have block := Has.right (Has.right (Has.single (.node .moduleBlock))) ks mem
  exact Bool.or_eq_true_iff.2 (.inr (Bool.and_eq_true_iff.2 ⟨keyword, block⟩))

end

/-! ### Exports -/

theorem expressionTail_forms : Forms Anywhere expressionTail fun _ => ⊤ :=
  .both (node_forms (balancedOr_forms .statementEnd .expression .expectedExpression)
      fun _ mem => mem) fun _ =>
    expectSemicolon_forms

theorem exportDefault_encloses (L : Language Kind) : Encloses Anywhere exportDefault L :=
  nodeAt_encloses expressionTail_forms fun _ _ => rfl

/-- Names in braces, or a star with a name. -/
theorem exportedNames_forms : Forms Anywhere exportedNames fun _ => ⊤ := by
  have asName : Forms Anywhere (eatKeyword .kwAs <&&> (!·) <$> eat .stringLiteral) fun _ => ⊤ := by
    rw [and_eq_branch, ← bind_pure_comp]
    refine .both (eatKeyword_forms _) fun b => .ite (fun _ => ?_) fun _ => (Forms.pure false).any
    exact .both (eat_forms (by decide)) fun b => (Forms.pure _).any
  refine .both (eat_forms (by decide)) fun b => .ite (fun _ => ?_) fun _ =>
      (bracedBody_forms fun _ => rfl).any
  exact Forms.both asName fun b => .ite (fun _ => nameRule_forms.any) fun _ => (Forms.pure ()).any

/-- The export form with names, down to where they come from. -/
theorem exportDeclaration_encloses (L : Language Kind) :
    Encloses (At .ident) exportDeclaration L := by
  refine nodeAt_encloses (.both (takeKeyword_forms _) fun _ => .both (eatKeyword_forms _) fun _ =>
    .both exportedNames_forms fun _ =>
        .both (.both (eatKeyword_forms _) fun b => .ite (fun _ => ?_) fun _ => ?_)
    fun _ => expectSemicolon_forms) fun _ _ => rfl
  · exact moduleSpecifier_forms
  · exact (Forms.pure ()).any

/-- `export =` and an expression. -/
theorem exportAssignment_encloses (L : Language Kind) :
    Encloses (fun ws => At .ident ws ∧ At .equals ws.tail) exportAssignment L := by
  have body : Forms (fun ws => At .ident ws ∧ At .equals ws.tail)
      (do takeKeyword .kwExport; bump; expressionTail) fun _ => ⊤ :=
    (Forms.thenAt (takeKeyword_one _) (takeKeyword_forms _)
      (.both (bump_forms (by decide)) fun _ => expressionTail_forms)).any
  exact nodeAt_encloses body fun _ _ => rfl

/-- `export as namespace` and a name. -/
theorem namespaceExport_encloses (L : Language Kind) :
    Encloses (fun ws => At .ident ws ∧ At .ident ws.tail ∧ At .ident ws.tail.tail)
        namespaceExport L := by
  have body : Forms (fun ws => At .ident ws ∧ At .ident ws.tail ∧ At .ident ws.tail.tail)
      (do takeKeyword .kwExport; takeKeyword .kwAs; takeKeyword .kwNamespace; nameRule;
          expectSemicolon)
      fun _ => ⊤ :=
    Forms.any (.thenAt (q := fun ws => At .ident ws ∧ At .ident ws.tail) (takeKeyword_one _)
        (takeKeyword_forms _)
      (.thenAt (q := At .ident) (takeKeyword_one _) (takeKeyword_forms _)
        (.both (takeKeyword_forms _) fun _ => .both nameRule_forms fun _ => expectSemicolon_forms)))
  exact nodeAt_encloses body fun _ _ => rfl

theorem assertAtKeyword_answers (k : Keyword) :
    Answers (assertAtKeyword k) fun _ _ => () := by
  refine fun c => (atKeyword_answers k c).bind fun _ _ post => ?_
  refine .ite (fun _ => .throw _) fun _ => ?_
  exact .pure ⟨rfl, post.2⟩

/-- The forms in which `export` is no modifier are told apart by the words behind it. -/
theorem exportForm_attempts (L : Language Kind) : Attempts (At .ident) exportForm L := by
  refine .ask (assertAtKeyword_answers _) fun _ => .ask (kindAt_answers 1) fun next => ?_
  have list := (Answers.pure (next == some .braceOpen || next == some .star)).or
    ((nthIsKeyword_answers 1 .kwType).and (nthIs_answers 2 .braceOpen))
  refine .branch list
      (.ofEncloses ((exportDeclaration_encloses L).given fun ws found => found.1.1.1)) ?_
  split
  · next equals =>
    refine .ofEncloses ((exportAssignment_encloses L).given fun ws found => ⟨found.1.1.1, ?_⟩)
    simpa [At, kindIn_tail, found.1.2] using equals
  refine .branch ((nthIsKeyword_answers 1 .kwAs).and (nthIsKeyword_answers 2 .kwNamespace)) ?_
      .declines
  refine .ofEncloses ((namespaceExport_encloses L).given fun ws found => ⟨found.1.1.1.1, ?_⟩)
  have both := Bool.and_eq_true_iff.1 found.2
  exact ⟨by simpa [At, kindIn_tail] using kindIn_of_spells both.1,
    by simpa [At, kindIn_tail] using kindIn_of_spells both.2⟩

/-! ### Imports -/

/-- Where no `as` is read the rule has complained, so nothing is asked of its parts. -/
theorem expectAs_forms :
    Forms Anywhere expectAs fun b => if b = true then {[.leaf (.keyword .kwAs)]} else 0 :=
  required_forms (eatKeyword_forms _) _ _

theorem namespaceImport_forms : Forms (At .star) namespaceImport fun _ => ⊤ := by
  refine (node_forms (.seq (bump_forms (by decide)) fun _ => .seq expectAs_forms.any fun _ =>
      nameRule_forms)
    fun ks mem => ?_).any
  exact Has.right (Has.right (Has.single (.node .name))) ks mem

/-- A specifier of an import can begin here. -/
def AtSpecifier (ws : List Word) : Prop := At .ident ws ∨ At .stringLiteral ws

/-- What may begin a specifier is a name or a string. -/
theorem atSpecifier_of_starts {ws : List Word} (h : startsSpecifier (kindIn ws 0) = true) :
    AtSpecifier ws := by
  simpa [startsSpecifier, AtSpecifier, At] using h

/-- `type` marks a specifier only if one begins behind it. -/
theorem specifierIsTypeOnly_answers : ∃ v : List Word → Bool,
    (Answers specifierIsTypeOnly fun ws _ => v ws) ∧
      ∀ ws, v ws = true → At .ident ws ∧ AtSpecifier ws.tail := by
  have behind := (kindAt_answers 1).bind fun next =>
    .ite (p := (next != some .ident && next != some .stringLiteral) = true) (.pure false)
      ((nthIsKeyword_answers 1 .kwAs).and (nthIs_answers 2 .ident).not).not
  have whole := (atKeyword_answers .kwType).guarded behind
  refine ⟨_, whole, fun ws found => ?_⟩
  obtain ⟨type, begins⟩ := Bool.and_eq_true_iff.1 found
  refine ⟨kindIn_of_spells type, ?_⟩
  split at begins
  · cases begins
  · next specifier =>
    simp only [AtSpecifier, At, kindIn_tail]
    simpa [or_iff_not_imp_left] using specifier

/-- The last name is the one that is bound. -/
theorem specifierNames_forms :
    Forms AtSpecifier specifierNames fun _ => {ks | ks.contains (.node .name) = true} := by
  refine .ask (nthIsKeyword_answers 1 .kwAs) fun renamed => ?_
  refine .branch ((Answers.pure renamed).or (currentIs_answers .stringLiteral)) ?_ ?_
  · have first : Forms AtSpecifier bump fun _ => ⊤ :=
      (bump_forms (by decide)).any.either (bump_forms (by decide)).any
    refine Forms.mono (.seq (first.given fun ws asked => asked.1.1) fun _ =>
      insist_forms expectAs_forms nameRule_forms) fun _ ks mem => ?_
    exact Has.right (Has.right (Has.single _)) ks mem
  · exact nameRule_forms.anywhere.mono fun _ ks mem => Has.single _ ks mem

/-- A specifier is one node with a name in it. -/
theorem importSpecifier_forms : Forms AtSpecifier importSpecifier fun _ =>
    {[.node .importSpecifier]} := by
  obtain ⟨v, answers, found⟩ := specifierIsTypeOnly_answers
  refine node_forms (wheneverThen_forms answers (takeKeyword_one _)
    ((takeKeyword_forms _).given fun ws type => (found ws type.2).1) specifierNames_forms
    (fun ws _ type => (found ws type).2) fun ws here _ => here) fun ks mem => ?_
  have named : Has (.node .name) {ks : List Kind | ks.contains (.node .name) = true} := fun _ => id
  exact named.right ks mem

/-- A round over the import list. -/
theorem importTurn_forms : Forms Anywhere importTurn fun _ => ⊤ :=
  itemTurn_forms (current_answers.map startsSpecifier)
      (importSpecifier_forms.given fun _ => atSpecifier_of_starts)

theorem namedImports_forms : Forms (At .braceOpen) namedImports fun _ => ⊤ :=
  (node_forms (delimited_forms (d := importMarks) (by decide) importTurn_forms) fun _ _ => rfl).any

/-- The mark is asked for in front of an identifier only. -/
theorem clauseIsTypeOnly_answers : ∃ v : List Word → Bool,
    (Answers clauseIsTypeOnly fun ws _ => v ws) ∧ ∀ ws, v ws = true → At .ident ws := by
  have source := ((nthIsKeyword_answers 1 .kwFrom).and (nthIs_answers 2 .stringLiteral)).not
  refine (atKeyword_answers .kwType).exists_guarded (fun _ => kindIn_of_spells)
    ((kindAt_answers 1).exists_bind fun next => ?_)
  split
  · exact ⟨_, .pure true⟩
  · exact ⟨_, .pure true⟩
  · exact ⟨_, source⟩
  · exact ⟨_, .pure false⟩

theorem defaultImport_forms : Forms Anywhere defaultImport fun _ => ⊤ :=
  .branch ((currentIs_answers _).and (atKeyword_answers _).not)
    (.both nameRule_forms.anywhere fun _ => .both (eat_forms (by decide)) fun _ =>
        (Forms.pure true).any)
    (Forms.pure false).any

/-- A namespace, a list of names, or nothing behind a default name. -/
theorem furtherImports_forms (hasDefault : Bool) :
    Forms Anywhere (furtherImports hasDefault) fun _ => ⊤ := by
  refine .branch (currentIs_answers .star)
      (namespaceImport_forms.given fun ws found => eq_of_beq found.2) ?_
  refine .branch (currentIs_answers .braceOpen)
      (namedImports_forms.given fun ws found => eq_of_beq found.2) ?_
  exact .ite (fun _ => .error _ _) fun _ => (Forms.pure ()).any

/-- An import clause is one node. -/
theorem importClause_forms : Forms Anywhere importClause fun _ => {[.node .importClause]} := by
  obtain ⟨v, answers, found⟩ := clauseIsTypeOnly_answers
  exact node_forms (.both (whenever_forms answers
      ((takeKeyword_forms _).given fun ws type => found ws type.2))
    fun _ => .both defaultImport_forms furtherImports_forms) fun _ _ => rfl

/-- `from` and a string, or a complaint. -/
theorem importSource_forms : Forms Anywhere importSource fun _ => ⊤ := by
  refine .both (eatKeyword_forms _) fun b => .ite (fun _ => moduleSpecifier_forms) fun _ => ?_
  exact .both (expect_forms (by decide) _) fun _ => (Forms.pure ()).any

theorem importAttributes_forms : Forms (At .ident) importAttributes fun _ => ⊤ :=
  .both (bump_forms (by decide)) fun _ => (bracedBody_forms fun _ => rfl).any

/-- The tail of an import, whatever it imports. -/
theorem importTail_forms : Forms Anywhere importTail fun _ => ⊤ := by
  refine .both (eat_forms (by decide)) fun b => .ite (fun _ => ?_) fun _ => ?_
  · exact .both expectSemicolon_forms fun _ => (Forms.pure ()).any
  have test := ((atWord_answers "with").or (atWord_answers "assert")).and
      (nextIs_answers .braceOpen)
  have attributes := whenever_forms (p := Anywhere) test
      (importAttributes_forms.given fun ws found => ?_)
  · exact .both importClause_forms fun _ => .both importSource_forms fun _ =>
      .both attributes fun _ =>
      expectSemicolon_forms
  exact (Bool.or_eq_true_iff.1 (Bool.and_eq_true_iff.1 found.2).1).elim kindIn_of_spells
      kindIn_of_spells

theorem referenceTurn_forms : Forms Anywhere referenceTurn fun _ => ⊤ := by
  refine .both (eat_forms (by decide)) fun b => .ite (fun _ => ?_) fun _ => (Forms.pure false).any
  refine .both (eat_forms (by decide)) fun b => .ite (fun _ => (Forms.pure true).any) fun _ => ?_
  exact .both (.error _ fun _ => ⊤) fun _ => (Forms.pure false).any

/-- `require`, a string in parentheses. -/
theorem requireCall_forms :
    Forms (fun ws => At .ident ws ∧ At .parenOpen ws.tail) requireCall fun _ => ⊤ :=
  (Forms.thenAt (takeKeyword_one _) (takeKeyword_forms _)
    (bracketed_forms (by decide) (by decide) moduleSpecifier_forms)).any

theorem moduleReference_forms : Forms Anywhere moduleReference fun _ => ⊤ := by
  have call := (atKeyword_answers .kwRequire).and (nextIs_answers .parenOpen)
  refine (node_forms (.branch call (requireCall_forms.given fun ws found => ?_) ?_)
      fun _ _ => rfl).any
  · have both := Bool.and_eq_true_iff.1 found.2
    exact ⟨kindIn_of_spells both.1, by simpa [At, kindIn_tail] using both.2⟩
  · refine .anywhere (.both (eat_forms (by decide)) fun b => .ite (fun _ => ?_) fun _ => .error _ _)
    exact repeatWhile_forms referenceTurn_forms

/-- The name that the assignment binds. -/
theorem importEqualsTail_forms :
    Forms Anywhere importEqualsTail fun _ => {ks | ks.contains (.node .name) = true} := by
  have type := (atKeyword_answers .kwType).and (nextIs_answers .ident)
  have keyword : Forms Anywhere
      (whenever (atKeyword .kwType <&&> nextIs .ident) (takeKeyword .kwType)) fun _ => ⊤ :=
    (whenever_forms type ((takeKeyword_forms _).given fun ws found =>
      kindIn_of_spells (Bool.and_eq_true_iff.1 found.2).1)).any
  refine Forms.mono (.seq keyword fun _ => .seq nameRule_forms fun _ =>
      .both (expect_forms (by decide) _) fun _ =>
    .both moduleReference_forms fun _ => expectSemicolon_forms) fun _ ks mem => ?_
  exact Has.right (Has.left (Has.single _)) ks mem

/-- Both kinds of import are one node behind `import`. -/
theorem importStatement_encloses (L : Language Kind) : Encloses (At .ident) importStatement L := by
  have test := ((nextIs_answers .ident).and (nthIs_answers 2 .equals)).or
    ((nthIsKeyword_answers 1 .kwType).and ((nthIs_answers 2 .ident).and (nthIs_answers 3 .equals)))
  refine .branch test
      (.given (nodeAt_encloses (.seq (takeKeyword_forms _) fun _ => importEqualsTail_forms) ?_)
    fun _ found => found.1) (nodeAt_encloses (.both (takeKeyword_forms _) fun _ => importTail_forms)
        fun _ _ => rfl)
  have named : Has (.node .name) {ks : List Kind | ks.contains (.node .name) = true} := fun _ => id
  exact named.right.right

end ImplicitGlobals.Grammar
