import ImplicitGlobals.Proofs.Acceptance.Runs

/-!
# Declarations without complaint

Each rule for a declaration, followed from its text: what it adds, in the order in which it adds
it, and from that the parts that its node has.
-/

namespace ImplicitGlobals.Grammar

variable {β : Type}

/-! ### Bindings -/

/-- One name, or one pattern. -/
def bound : Language Kind := {[.node .name]} + {[.node .bindingPattern]}

/-- What is bound is a name or a pattern. -/
theorem binds_bound : Binds 1 bound := by
  rintro ks (rfl | rfl) <;> rfl

theorem propertyKey_forms (openKind : TokenKind) :
    Forms Anywhere (propertyKey openKind) fun _ => ⊤ := by
  refine .ite (fun _ => (Forms.pure ()).any) fun _ => ?_
  refine .ask current_answers fun kind => ?_
  have key : Answers
      (pure (kind == some .ident || kind == some .stringLiteral || kind == some .number) <&&>
      nextIs .colon) _ := (Answers.pure _).and (nextIs_answers .colon)
  have both (k : TokenKind) (plain : Plain k) :
      Forms (fun ws => At k ws ∧ At .colon ws.tail) (do bump; bump) fun _ => ⊤ :=
    (Forms.thenAt bump_one (bump_forms plain) (bump_forms (by decide))).any
  refine .branch key (fun c entry => ?_) (Forms.pure ()).any
  -- the key is of one of the three kinds that the test admits
  by_cases is : ∃ k, kind = some k ∧ Plain k
  · obtain ⟨k, rfl, plain⟩ := is
    refine both k plain c fun tidy => ⟨(entry tidy).1.2, ?_⟩
    have next := (Bool.and_eq_true_iff.1 (entry tidy).2).2
    simpa [At, kindIn_tail] using next
  · refine both .ident (by decide) c fun tidy => absurd ?_ is
    have first := (Bool.and_eq_true_iff.1 (entry tidy).2).1
    simp only [Bool.or_eq_true, beq_iff_eq] at first
    rcases first with (rfl | rfl) | rfl <;> exact ⟨_, rfl, by decide⟩

section

variable {inner : Rule Unit} (h : Forms Anywhere inner fun _ => bound)
include h

/-- A round adds an element or a comma. -/
theorem patternTurn_forms (openKind closeKind : TokenKind) :
    Forms Anywhere (patternTurn inner openKind closeKind) fun _ => ⊤ := by
  refine .branch (atEnd_answers.or (currentIs_answers closeKind)) (Forms.pure false).any ?_
  refine .anywhere ?_
  refine .both (eat_forms (by decide)) fun b => .ite (fun _ => (Forms.pure true).any) fun _ => ?_
  refine .both (eat_forms (by decide)) fun _ => .both (propertyKey_forms openKind) fun _ => ?_
  refine .ask (currentIn_answers .bindingStart) fun found => ?_
  refine .ite (fun _ => .spoilt (fun c => errorAndBump_accepts _ _ c _) fun _ => .pure true)
      fun _ => ?_
  refine .anywhere ?_
  refine .both h fun _ => .both (optional_forms (initializer_forms _).anywhere) fun _ => ?_
  exact (eat_forms (by decide)).any

/-- A pattern is one node with its delimiters. -/
theorem patternNode_forms {d : Delimiters} (paired : d.Paired) :
    Forms (At d.opener) (patternNode inner d) fun _ => {[.node .bindingPattern]} :=
  node_forms (delimited_forms paired (patternTurn_forms h _ _)) fun _ _ => rfl

/-- Going down a level adds nothing. -/
theorem bindingPattern_forms :
    Forms (fun ws => At .braceOpen ws ∨ At .bracketOpen ws) (bindingPattern inner) fun _ =>
      {[.node .bindingPattern]} := by
  refine .descend (.ask (currentIs_answers .braceOpen) fun found => ?_)
  refine Forms.bind (L := fun _ => {[.node .bindingPattern]}) (M := fun _ _ => 1)
      (fun c entry => ?_)
    (fun _ => Forms.ascend) fun _ _ => by simp
  cases found with
  | true =>
    exact patternNode_forms h (d := bracePattern) (by decide) c fun tidy => eq_of_beq (entry tidy).2
  | false =>
    refine patternNode_forms h (d := bracketPattern) (by decide) c fun tidy => ?_
    exact (entry tidy).1.resolve_left fun brace => absurd brace (by simpa [At] using (entry tidy).2)

end

/-- By induction on the fuel. -/
theorem bindingWithin_forms (n : Nat) : Forms Anywhere (bindingWithin n) fun _ => bound := by
  induction n with
  | zero => exact fun c _ => .throw _
  | succ n ih =>
    refine .ask current_answers fun kind => .ite (fun opens => ?_) fun _ => ?_
    · refine Forms.mono (Forms.given (bindingPattern_forms ih) fun ws asked => ?_)
        fun _ => le_add_self
      simpa [At, asked.2] using opens
    · exact (nameRule_forms.mono fun _ => le_self_add).anywhere

theorem binding_forms : Forms Anywhere binding fun _ => bound := fun c entry =>
  Yields.get (bindingWithin_forms (c.total + 1) c entry)

/-! ### Parameters -/

/-- A parameter is one node, whatever its type and its default. -/
theorem parameter_forms : Forms Anywhere parameter fun _ => {[.node .parameter]} := by
  refine node_forms (.seq (eat_forms (by decide)).atMost fun _ => .seq binding_forms fun _ =>
    .seq (eat_forms (by decide)).atMost fun _ =>
    .seq (optional_forms (typeAscription_forms _).anywhere) fun _ =>
    optional_forms (initializer_forms _).anywhere) fun ks mem => ?_
  have one := (Binds.atMost rfl).mul (binds_bound.mul ((Binds.atMost rfl).mul
    ((Binds.atMost rfl).mul (Binds.atMost rfl)))) ks mem
  simpa [NodeKind.complete] using one

/-- A round over the parameters. -/
theorem parameterTurn_forms : Forms Anywhere parameterTurn fun _ => ⊤ :=
  itemTurn_forms ((currentIn_answers _).or (currentIs_answers _)) parameter_forms.anywhere

/-- The parameters stand in one list node. -/
theorem parameters_forms : Forms Anywhere parameters fun _ => {[.node .parameterList]} :=
  assertAt_forms (node_forms (delimited_forms (d := parameterMarks) (by decide) parameterTurn_forms)
      fun _ _ => rfl)

theorem typeParameterModifier_forms : Forms Anywhere typeParameterModifier fun _ => ⊤ := by
  have test : Answers ((atWord "in" <||> atWord "out" <||> atWord "const") <&&> nextIs .ident) _ :=
    ((atWord_answers _).or ((atWord_answers _).or (atWord_answers _))).and (nextIs_answers _)
  refine .branch test
      (.both (Forms.given (p := At .ident) (bump_forms (by decide)) fun ws asked => ?_)
        fun _ => (Forms.pure true).any)
    (Forms.pure false).any
  have first := (Bool.and_eq_true_iff.1 asked.2).1
  simp only [Bool.or_eq_true] at first
  exact first.elim kindIn_of_spells fun more => more.elim kindIn_of_spells kindIn_of_spells

/-- A type parameter is one node. -/
theorem typeParameter_forms : Forms Anywhere typeParameter fun _ => {[.node .typeParameter]} := by
  have constraint : Forms (At .ident) constraint fun _ => ⊤ :=
    .both (takeKeyword_forms _) fun _ => (typeExpr_forms _).any
  have default : Forms Anywhere (whenever (eat .equals) (typeExpr .listItemEnd)) fun _ => ⊤ :=
    .both (eat_forms (by decide)) fun b => .ite (fun _ => (typeExpr_forms _).any) fun _ =>
        (Forms.pure ()).any
  have name : Has (.node .name) (⊤ * ({[.node .name]} * (⊤ * ⊤)) : Language Kind) :=
    (Has.single _).left.right
  refine node_forms (.seq (repeatWhile_forms typeParameterModifier_forms) fun _ =>
    .seq nameRule_forms fun _ =>
    .seq (whenever_forms (atKeyword_answers _) (constraint.given fun _ found => ?_)).any
        fun _ => default) name
  exact kindIn_of_spells found.2

theorem typeParameterTurn_forms : Forms Anywhere typeParameterTurn fun _ => ⊤ :=
  .branch (atEnd_answers.or (currentIs_answers _)) (Forms.pure false).any
    (.both typeParameter_forms.anywhere fun _ => (eat_forms (by decide)).any)

/-- The type parameters stand in one list node. -/
theorem typeParameters_forms : Forms Anywhere typeParameters fun _ =>
    {[.node .typeParameterList]} :=
  assertAt_forms (node_forms (delimited_forms (d := typeParameterMarks) (by decide)
      typeParameterTurn_forms) fun _ _ => rfl)

/-! ### Variables -/

/-- A semicolon is a part that nothing asks for. -/
theorem expectSemicolon_forms : Forms Anywhere expectSemicolon fun _ => ⊤ := by
  refine .both (eat_forms (by decide)) fun b => .ite (fun _ => (Forms.pure ()).any) fun _ => ?_
  refine .branch (atEnd_answers.or ((currentIs_answers _).or onFreshLine_answers))
      (Forms.pure ()).any ?_
  exact fun c _ => complain_accepts _ _

/-- A declarator binds something. -/
theorem variableDeclarator_forms : Forms Anywhere variableDeclarator fun _ =>
    {[.node .variableDeclarator]} := by
  refine node_forms (.seq binding_forms fun _ => .seq (eat_forms (by decide)).atMost fun _ =>
    .seq (optional_forms (typeAscription_forms _).anywhere) fun _ =>
    optional_forms (initializer_forms _).anywhere) fun ks mem => ?_
  have one :=
    binds_bound.mul ((Binds.atMost rfl).mul ((Binds.atMost rfl).mul (Binds.atMost rfl))) ks mem
  simpa [NodeKind.complete] using one

theorem variableTurn_forms : Forms Anywhere variableTurn fun _ => ⊤ :=
  .both variableDeclarator_forms fun _ => (eat_forms (by decide)).any

/-- A variable statement has a declarator, as its keyword is never alone. -/
theorem variableStatement_encloses (L : Language Kind) : Encloses (At .ident) variableStatement L :=
  nodeAt_encloses (.both bumpKeyword_forms fun _ =>
      .both (repeatWhile_forms variableTurn_forms) fun _ =>
    expectSemicolon_forms) fun _ _ => rfl

/-! ### Functions and classes -/

/-- The modifiers before a declaration; `isDefault` tells whether `default` is among them. -/
def modifiersOf (isDefault : Bool) : Language Kind :=
  {ks | isDefault = true → ks.contains (.leaf (.keyword .kwDefault)) = true}

/-- A name, unless it may be missing. -/
def namedUnless (anonymous : Bool) : Language Kind :=
  {ks | anonymous = false → ks.contains (.node .name) = true}

/-- What has modifiers and then a name has one unless it is the default. -/
theorem default_or_name {anonymous : Bool} {L M : Language Kind} {ks : List Kind}
    (mem : ks ∈ modifiersOf anonymous * (L * (namedUnless anonymous * M))) :
    ks.contains (.leaf (.keyword .kwDefault)) = true ∨ ks.contains (.node .name) = true := by
  cases anonymous with
  | true =>
    have default : Has (.leaf (.keyword .kwDefault)) (modifiersOf true) := fun _ mem => mem rfl
    exact .inl (default.left ks mem)
  | false =>
    have name : Has (.node .name) (namedUnless false) := fun _ mem => mem rfl
    exact .inr (name.left.right.right ks mem)

/-- A name that the test finds, and that may be missing only where `anonymous` allows it. -/
theorem nameUnless_forms {test : Rule Bool} {v : List Word → Option Limit → Bool}
    (h : Answers test v)
    (anonymous : Bool) :
    Forms Anywhere (do if ← test then nameRule else if !anonymous then error .expectedName) fun _ =>
      namedUnless anonymous := by
  refine .branch h (nameRule_forms.mono fun _ => ?_).anywhere ?_
  · rintro ks rfl _
    rfl
  · refine .ite (fun _ => .error _ _) fun named => (Forms.pure ()).mono fun _ => ?_
    rintro ks rfl required
    simp [required] at named

/-- Only an exported default may go without a name. -/
theorem functionName_forms (anonymous : Bool) :
    Forms Anywhere (functionName anonymous) fun _ => namedUnless anonymous :=
  nameUnless_forms (currentIs_answers _) anonymous

/-- A function without parameters has complained. -/
theorem functionParameters_forms : Forms Anywhere functionParameters fun _ =>
    {[.node .parameterList]} :=
  .branch (currentIs_answers _) parameters_forms.anywhere (.errorWith _ _ _)

theorem optionalTypeParameters_forms :
    Forms Anywhere (optional .angleOpen typeParameters) fun _ => ⊤ :=
  (optional_forms typeParameters_forms.anywhere).any

/-- A function that is accepted has its parameters, and a name unless it is anonymous. -/
theorem functionDeclaration_encloses (anonymous : Bool) :
    Encloses (At .ident) (functionDeclaration · anonymous) (modifiersOf anonymous) := by
  refine nodeAt_encloses (.seq (takeKeyword_forms _) fun _ =>
      .seq (eat_forms (by decide)).any fun _ =>
    .seq (functionName_forms anonymous) fun _ => .seq optionalTypeParameters_forms fun _ =>
    .seq functionParameters_forms fun _ =>
        .both (optional_forms (typeAscription_forms _).anywhere) fun _ =>
    expectSemicolon_forms) fun ks mem => ?_
  have parameters := Has.right
      (Has.right (Has.right (Has.right (Has.right (Has.left (Has.single _)))))) ks mem
  rw [← mul_assoc {[_]}] at mem
  exact Bool.and_eq_true_iff.2 ⟨parameters, Bool.or_eq_true_iff.2 (default_or_name mem)⟩

theorem heritageTurn_forms : Forms Anywhere heritageTurn fun _ => ⊤ :=
  .both (typeExpr_forms _) fun _ => (eat_forms (by decide)).any

/-- A heritage clause is one node behind its keyword. -/
theorem heritageClause_forms : Forms (At .ident) heritageClause fun _ =>
    {[.node .heritageClause]} :=
  node_forms (.both bumpKeyword_forms fun _ => repeatWhile_forms heritageTurn_forms) fun _ _ => rfl

/-- The clause is read only where its keyword stands. -/
theorem heritageClauseTurn_forms {test : Rule Bool} {v : List Word → Option Limit → Bool}
    (h : Answers test v)
    (word : ∀ ws, v ws none = true → At .ident ws) :
    Forms Anywhere (heritageClauseTurn test) fun _ => ⊤ :=
  .branch h (.both (heritageClause_forms.given fun ws found => word ws found.2) fun _ =>
      (Forms.pure true).any)
    (Forms.pure false).any

/-- A class may go without a name as a function may. -/
theorem className_forms (anonymous : Bool) :
    Forms Anywhere (className anonymous) fun _ => namedUnless anonymous :=
  nameUnless_forms ((currentIs_answers _).and
      ((atKeyword_answers _).not.and (atKeyword_answers _).not)) anonymous

/-- A body is one node, or its absence was complained of. -/
theorem requiredBody_forms {kind : NodeKind} (what : String)
    (free : ∀ ks, kind.complete ks = true) :
    Forms Anywhere (requiredBody kind what) fun _ => {[.node kind]} :=
  .branch (currentIs_answers _) (bracedBody_forms free).anywhere (.errorWith _ _ _)

/-- A class that is accepted has its body, and a name unless it is anonymous. -/
theorem classDeclaration_encloses (anonymous : Bool) :
    Encloses (At .ident) (classDeclaration · anonymous) (modifiersOf anonymous) := by
  have heritage := heritageClauseTurn_forms
      ((atKeyword_answers .kwExtends).or (atKeyword_answers .kwImplements))
    fun ws found => (Bool.or_eq_true_iff.1 found).elim kindIn_of_spells kindIn_of_spells
  refine nodeAt_encloses (.seq (takeKeyword_forms _) fun _ =>
      .seq (className_forms anonymous) fun _ =>
    .seq optionalTypeParameters_forms fun _ => .seq (repeatWhile_forms heritage) fun _ =>
    requiredBody_forms _ fun _ => rfl) fun ks mem => ?_
  have body := Has.right (Has.right (Has.right (Has.right (Has.right (Has.single _))))) ks mem
  exact Bool.and_eq_true_iff.2 ⟨body, Bool.or_eq_true_iff.2 (default_or_name mem)⟩

/-! ### Interfaces, type aliases and enums -/

/-- An interface that is accepted has a name and a body. -/
theorem interfaceDeclaration_encloses (L : Language Kind) :
    Encloses (At .ident) interfaceDeclaration L := by
  have heritage := heritageClauseTurn_forms (atKeyword_answers .kwExtends) fun ws found =>
      kindIn_of_spells found
  refine nodeAt_encloses (.seq (takeKeyword_forms _) fun _ => .seq nameRule_forms fun _ =>
    .seq optionalTypeParameters_forms fun _ => .seq (repeatWhile_forms heritage) fun _ =>
    requiredBody_forms _ fun _ => rfl) fun ks mem => ?_
  have name := Has.right (Has.right (Has.left (Has.single _))) ks mem
  have body := Has.right (Has.right (Has.right (Has.right (Has.right (Has.single _))))) ks mem
  exact Bool.and_eq_true_iff.2 ⟨name, body⟩

/-- A type alias that is accepted has a name. -/
theorem typeAlias_encloses (L : Language Kind) : Encloses (At .ident) typeAlias L := by
  have sign : Plain .equals := by decide
  have type := insist_forms (expect_forms sign "`=`") (typeExpr_forms .statementEnd)
  refine nodeAt_encloses (.seq (takeKeyword_forms _) fun _ => .seq nameRule_forms fun _ =>
    .seq optionalTypeParameters_forms fun _ => .seq type fun _ =>
        expectSemicolon_forms) fun ks mem => ?_
  have name := Has.right (Has.right (Has.left (Has.single _))) ks mem
  have body :=
    Has.right (Has.right (Has.right (Has.right (Has.left (Has.right (Has.single _)))))) ks mem
  exact Bool.and_eq_true_iff.2 ⟨name, body⟩

/-- What comes behind an opener, and the closer, which has to be there. -/
theorem bracketed_forms {opener closer : TokenKind} {body : Rule β} {what : String}
    (paired : nest false [] [opener, closer] = some [])
    (clean : opener ≠ .garbage ∧ closer ≠ .garbage)
    (h : Forms Anywhere body fun _ => ⊤) :
    Forms (At opener) (do bump; let _ ← body; let _ ← expect closer what) fun _ => ⊤ := by
  obtain ⟨stack, opens, closes⟩ := Option.bind_eq_some_iff.1 paired
  replace closes : nestStep false stack closer = some [] := by simpa [nest] using closes
  intro c entry
  refine Yields.bind (bump_yields c) fun _ d read =>
      Yields.bind (h d fun _ => trivial) fun _ e inside => ?_
  obtain ⟨w, took⟩ := read
  refine Yields.bind (Yields.bind (eat_yields closer e) fun b f eaten => ?_)
      fun _ f closed => .pure closed
  cases b with
  | true =>
    obtain ⟨v, is, closed⟩ := eaten
    refine .pure fun tidy => ?_
    obtain ⟨between, fills⟩ := inside (closed.tidy tidy)
    have began := took.tidy between
    have first : w.kind = opener := by simpa [At, kindIn, took.rest] using entry began
    have opened := (Fills.refl c).took took (first ▸ opens) (by simpa [first] using clean.1)
    have whole := (opened.trans fills).took closed (is ▸ closes) (by simpa using clean.2)
    exact ⟨began, whole.mono le_top⟩
  | false =>
    exact Yields.bind (errorWith_accepts _ _ fun _ _ => False) fun _ f never =>
      .pure fun tidy => (never tidy).2.elim

/-- A computed name begins with a bracket. -/
theorem computedName_forms : Forms (At .bracketOpen) computedName fun _ => ⊤ :=
  bracketed_forms (by decide) (by decide) (balanced_forms .listItemEnd .expression).any

/-- The kinds with which the name of an enum member begins. -/
theorem holds_enumMemberName (kind : TokenKind)
    (member : KindSet.enumMemberName.holds kind = true) :
    kind = .ident ∨ kind = .stringLiteral ∨ kind = .number ∨ kind = .bracketOpen := by
  revert member
  cases kind <;> decide

/-- An enum member can begin here. -/
abbrev AtMember (ws : List Word) : Prop := (kindIn ws 0).any KindSet.enumMemberName.holds = true

/-- A member is named by a word, a string, a number or an expression in brackets. -/
theorem enumMemberName_forms : Forms AtMember enumMemberName fun _ => ⊤ := by
  refine .ask current_answers fun kind => ?_
  split
  · exact nameRule_forms.any.anywhere
  · exact ((node_forms (bump_forms (by decide)) fun _ _ => rfl).given fun ws asked => asked.2).any
  · exact ((node_forms (bump_forms (by decide)) fun _ _ => rfl).given fun ws asked => asked.2).any
  · next ident string number =>
    refine computedName_forms.given fun ws asked => ?_
    obtain ⟨member, rfl⟩ := asked
    cases is : kindIn ws 0 with
    | none => simp [AtMember, is] at member
    | some k =>
      rw [AtMember, is] at member
      rcases holds_enumMemberName k member with rfl | rfl | rfl | rfl
      · exact absurd is ident
      · exact absurd is string
      · exact absurd is number
      · exact is

/-- A member is one node. -/
theorem enumMember_forms : Forms AtMember enumMember fun _ => {[.node .enumMember]} :=
  node_forms (.both enumMemberName_forms fun _ =>
      (optional_forms (initializer_forms _).anywhere).any)
    fun _ _ => rfl

theorem enumTurn_forms : Forms Anywhere enumTurn fun _ => ⊤ :=
  itemTurn_forms (currentIn_answers _) enumMember_forms

/-- The members stand in one body node. -/
theorem enumBody_forms : Forms Anywhere enumBody fun _ => {[.node .enumBody]} := by
  refine .branch (currentIs_answers .braceOpen) (node_forms (.given
    (delimited_forms (d := enumMarks) (by decide) enumTurn_forms) ?_) fun _ _ => rfl)
        (.errorWith _ _ _)
  exact fun ws found => eq_of_beq found.2

/-- An enum can begin here. -/
def AtEnum (ws : List Word) : Prop :=
  spells ws 0 "enum" = true ∨ spells ws 0 "const" = true ∧ spells ws 1 "enum" = true

/-- `const` is read only before `enum`. -/
theorem enumKeyword_forms :
    Forms AtEnum (do let _ ← eatKeyword .kwConst; takeKeyword .kwEnum) fun _ => ⊤ := by
  have choice : (do let _ ← eatKeyword .kwConst; takeKeyword .kwEnum) =
      (do whenever (atKeyword .kwConst) (takeKeyword .kwConst); takeKeyword .kwEnum) := by
    unfold eatKeyword whenever
    rw [bind_assoc, bind_assoc]
    refine bind_congr fun found => ?_
    cases found <;> simp
  rw [choice]
  refine Forms.any (wheneverThen_forms (q := At .ident) (atKeyword_answers _) (takeKeyword_one _)
    ((takeKeyword_forms _).given fun ws found => kindIn_of_spells found.2) (takeKeyword_forms _)
    (fun ws enum const => ?_) fun ws enum other => ?_)
  · obtain enum | ⟨-, enum⟩ := enum
    · exact absurd (eq_of_spells enum const) (by decide)
    · simpa [At, kindIn_tail] using kindIn_of_spells enum
  · obtain enum | ⟨const, -⟩ := enum
    · exact kindIn_of_spells enum
    · have both : false = true := other.symm.trans const
      cases both

/-- An enum that is accepted has a name and a body. -/
theorem enumDeclaration_encloses (L : Language Kind) : Encloses AtEnum enumDeclaration L := by
  have body : Forms AtEnum (do let _ ← eatKeyword .kwConst; takeKeyword .kwEnum; nameRule; enumBody)
      fun _ =>
      ⊤ * ({[.node .name]} * {[.node .enumBody]}) := by
    rw [← bind_assoc]
    exact enumKeyword_forms.seq fun _ => nameRule_forms.seq fun _ => enumBody_forms
  refine nodeAt_encloses body fun ks mem => ?_
  have name := Has.right (Has.right (Has.left (Has.single _))) ks mem
  have body := Has.right (Has.right (Has.right (Has.single _))) ks mem
  exact Bool.and_eq_true_iff.2 ⟨name, body⟩

end ImplicitGlobals.Grammar
