import ImplicitGlobals.Grammar.Statement
import ImplicitGlobals.Proofs.Acceptance.Modules
import ImplicitGlobals.Proofs.Grammar.Declaration

/-!
# Statements without complaint

A statement is a declaration, one of the forms of import and export, or `;` alone. The last
resort complains, so where there is no complaint it was not taken.
-/

namespace ImplicitGlobals.Grammar

variable {c d o : Cursor} {inner : Rule Unit}

/-! ### Modifiers -/

/-- A round of the modifiers, whether it goes on or not. -/
abbrev ModifierRound (c : Cursor) : Turn Modifiers → Cursor → Prop
  | .again m, d => Fills c d [] (modifiersOf m.isDefault)
  | .done m, d => Fills c d [] (modifiersOf m.isDefault)

/-- One modifier more is still a list of modifiers. -/
theorem modifiersOf_mul_le {isDefault : Bool} (label : LeafKind) :
    modifiersOf isDefault * {[.leaf label]} ≤ modifiersOf isDefault := by
  intro ks mem needed
  subst needed
  have default : Has (.leaf (.keyword .kwDefault)) (modifiersOf true) := fun _ mem => mem rfl
  exact default.left ks mem

/-- A modifier that the test finds is read, and otherwise the next one is looked for. -/
theorem modifierChoice_accepts {m m' : Modifiers} {k : Keyword} {test : Rule Bool}
    {v : List Word → Option Limit → Bool} {others : Rule (Turn Modifiers)} (h : Answers test v)
    (finds : ∀ ws, v ws none = true → At .ident ws)
    (kept : d.Tidy → Fills c d [] (modifiersOf m.isDefault))
    (le : modifiersOf m.isDefault * {[.leaf (.keyword k)]} ≤ modifiersOf m'.isDefault)
    (next : ∀ e, (e.Tidy → Fills c e [] (modifiersOf m.isDefault)) →
        Accepts others e (ModifierRound c)) :
    Accepts (do if ← test then (do takeKeyword k; return .again m') else others) d
        (ModifierRound c) := by
  refine .ask h fun e same => ?_
  have kept (tidy : e.Tidy) : Fills c e [] (modifiersOf m.isDefault) := by
    simpa using (kept (same.tidy tidy)).trans (.same same)
  refine .ite (fun found => ?_) fun _ => next e kept
  have here (tidy : e.Tidy) : At .ident e.rest :=
    same.at (finds _ (by rwa [(same.tidy tidy).refused] at found))
  refine (takeKeyword_forms k e here).bind fun _ f post => .pure fun tidy => ?_
  obtain ⟨between, fills⟩ := post tidy
  simpa using ((kept between).trans fills).mono le

/-- A round reads a modifier or ends the list. -/
theorem modifierTurn_accepts {m : Modifiers}
    (kept : d.Tidy → Fills c d [] (modifiersOf m.isDefault)) :
    Accepts (modifierTurn m) d (ModifierRound c) := by
  refine modifierChoice_accepts (atKeyword_answers .kwExport) (fun _ => kindIn_of_spells) kept
    (modifiersOf_mul_le _) fun d kept => ?_
  refine modifierChoice_accepts ((atKeyword_answers .kwDefault).and (.pure m.any))
    (fun _ found => kindIn_of_spells (Bool.and_eq_true_iff.1 found).1) kept ?_ fun d kept => ?_
  · exact fun ks mem _ => Has.right (Has.single _) ks mem
  refine modifierChoice_accepts ((atKeyword_answers .kwDeclare).and (nextIs_answers .ident))
    (fun _ found => kindIn_of_spells (Bool.and_eq_true_iff.1 found).1) kept (modifiersOf_mul_le _)
    fun d kept => ?_
  refine modifierChoice_accepts
      ((atKeyword_answers .kwAbstract).and (nthIsKeyword_answers 1 .kwClass))
    (fun _ found => kindIn_of_spells (Bool.and_eq_true_iff.1 found).1) kept (modifiersOf_mul_le _)
    fun d kept => ?_
  exact .pure kept

/-- The modifiers are read one after the other, and `default` is among them if they say so. -/
theorem modifiers_forms : Forms Anywhere modifiers fun m => modifiersOf m.isDefault := by
  intro c _
  refine Accepts.loop (I := fun m d => Fills c d [] (modifiersOf m.isDefault))
    (fun _ => (Fills.refl c).mono fun _ _ needed => Bool.noConfusion needed) fun m d inv => ?_
  exact (modifierTurn_accepts fun tidy => (inv tidy).2).imp fun t _ _ _ post => by
    cases t <;> exact post

/-! ### Declarations -/

/-- A rule that is tried only where the test holds. -/
theorem onlyIf_attempts {p : List Word → Prop} {L : Language Kind} {test : Rule Bool}
    {v : List Word → Option Limit → Bool} {r : Checkpoint → Rule Unit} (h : Answers test v)
    (g : Encloses p r L) : Attempts p (fun point => onlyIf test (r point)) L :=
  .branch h (.ofEncloses (g.given fun _ found => found.1)) .declines

/-- What is known where a declaration is chosen: the keyword, if it is one. -/
structure Faced (k : Option Keyword) (ws : List Word) : Prop where
  ident : At .ident ws
  announces : ∀ j, k = some j → spells ws 0 j.word = true

/-- By the keyword, which the word ahead spells out. -/
theorem declarationOf_attempts (h : Forms Anywhere inner fun _ => ⊤) (isDefault : Bool)
    (k : Option Keyword) :
    Attempts (Faced k) (fun point => declarationOf inner point isDefault k)
        (modifiersOf isDefault) := by
  have follows : Answers bindingFollows fun ws _ => (kindIn ws 1).any KindSet.bindingStart.holds :=
    (kindAt_answers 1).bind fun next => .pure (next.any KindSet.bindingStart.holds)
  cases k with
  | none => exact .declines
  | some k =>
    -- Behind a keyword the first word is an identifier, whichever keyword it is.
    have at_ {r : Checkpoint → Rule Unit} (g : Encloses (At .ident) r (modifiersOf isDefault)) :
        Encloses (Faced (some k)) r (modifiersOf isDefault) := g.given fun _ faced => faced.ident
    cases k with
    | kwConst =>
      refine .branch (nthIsKeyword_answers 1 .kwEnum) ?_ ?_
      · refine .ofEncloses ((enumDeclaration_encloses _).given fun ws found => .inr ?_)
        exact ⟨found.1.announces _ rfl, found.2⟩
      · exact onlyIf_attempts follows
          ((variableStatement_encloses _).given fun ws found => found.1.ident)
    | kwVar | kwLet => exact onlyIf_attempts follows (at_ (variableStatement_encloses _))
    | kwFunction =>
      exact onlyIf_attempts (.pure true)
        (at_ (functionDeclaration_encloses isDefault))
    | kwClass => exact onlyIf_attempts (.pure true) (at_ (classDeclaration_encloses isDefault))
    | kwInterface =>
      exact onlyIf_attempts (nextIs_answers .ident)
        (at_ (interfaceDeclaration_encloses _))
    | kwType => exact onlyIf_attempts (nextIs_answers .ident) (at_ (typeAlias_encloses _))
    | kwEnum =>
      exact onlyIf_attempts (nextIs_answers .ident)
        ((enumDeclaration_encloses _).given fun ws faced => .inl (faced.announces _ rfl))
    | kwNamespace =>
      exact onlyIf_attempts (nextIs_answers .ident)
        (at_ (moduleDeclaration_encloses h _))
    | kwModule =>
      refine .ask (kindAt_answers 1) fun next => onlyIf_attempts (.pure _) ?_
      exact (moduleDeclaration_encloses h _).given fun ws found => found.1.ident
    | kwGlobal =>
      exact onlyIf_attempts (nextIs_answers .braceOpen)
        (at_ (globalDeclaration_encloses h _))
    | kwImport => exact onlyIf_attempts (.pure _) (at_ (importStatement_encloses _))
    | _ => exact .declines

theorem declaration_attempts (h : Forms Anywhere inner fun _ => ⊤) (isDefault : Bool) :
    Attempts Anywhere (fun point => declaration inner point isDefault) (modifiersOf isDefault) := by
  refine .ask current_answers fun kind => ?_
  split
  · exact .declines
  · next ident =>
    refine .ask currentText_answers fun text => ?_
    refine (declarationOf_attempts h isDefault _).given fun ws found => ?_
    obtain ⟨⟨-, rfl⟩, rfl⟩ := found
    have ident : At .ident ws := Classical.not_not.1 ident
    exact ⟨ident, fun k spelt => announces_of_ofWord? ident spelt⟩

/-! ### Recovery -/

/-- A recovery begins with a complaint, so it never accepts. -/
theorem complainOfStart_accepts (hasModifiers : Bool) (c : Cursor) :
    Accepts (complainOfStart hasModifiers) c fun _ _ => False := by
  refine .ask (currentIs_answers .garbage) fun c _ => .ite (fun _ => error_accepts _ _) fun _ => ?_
  refine .ite (fun _ => error_accepts _ _) fun _ => ?_
  refine .ask (currentIn_answers .closers) fun c _ => .ite (fun _ => ?_) fun _ => ?_
  · exact .ask currentText_answers fun c _ => errorWith_accepts _ _ _
  · exact .ask currentText_answers fun c _ => errorWith_accepts _ _ _

theorem skipTurn_keeps (inBlock : Bool) (s : Skipping) : Keeps (skipTurn inBlock s) := by
  have start : Keeps atStatementStart := fun c =>
    Yields.imp (atStatementStart_yields c) fun _ _ post tidy => ⟨post.1.tidy tidy, trivial⟩
  have ends (kind : Option TokenKind) : Keeps (skippingEnds inBlock kind) := .or (.pure _) start
  refine .bind (.ofAnswers atEnd_answers) fun _ => .ite (.pure _) ?_
  refine .bind (.ofAnswers current_answers) fun kind => .bind (.and (.pure _) (ends kind)) fun _ =>
    .ite (.pure _) ?_
  exact .bind bump_keeps fun _ => .ite (.pure _) (.pure _)

/-- Recovery complains before anything else. -/
theorem recover_accepts (point : Checkpoint) (hasModifiers : Bool) (c : Cursor)
    (Q : Unit → Cursor → Prop) :
    Accepts (recover point hasModifiers) c Q := by
  have body : Keeps (do let _ ← loop {} (skipTurn (← inBlock))) :=
    .bind (fun c => Yields.get (.pure fun tidy => ⟨tidy, trivial⟩)) fun _ =>
      .bind (loop_keeps fun _ => skipTurn_keeps _ _) fun _ => .pure ()
  exact (complainOfStart_accepts hasModifiers c).bind fun _ _ post =>
    (nodeAt_keeps body).spoilt fun tidy => (post tidy).2

/-! ### Statements -/

/-- A declaration, an exported expression, or a recovery. -/
theorem modified_encloses (h : Forms Anywhere inner fun _ => ⊤) (m : Modifiers) :
    Encloses Anywhere (fun point => modified inner point m) (modifiersOf m.isDefault) := by
  refine (declaration_attempts h m.isDefault).orElse fun o c entry => .ite (fun _ => ?_) fun _ => ?_
  · exact exportDefault_encloses _ o c entry
  · exact recover_accepts _ _ _ _

/-- The one part that a statement adds is its node. -/
theorem statementAt_encloses (h : Forms Anywhere inner fun _ => ⊤) :
    Encloses Anywhere (fun point => statementAt inner point) 1 := by
  have empty : Forms (At .semicolon) (do node .emptyStatement bump; return) fun _ => ⊤ :=
    .both (node_forms (bump_forms (by decide)) fun _ _ => rfl) fun _ => (Forms.pure ()).any
  have form : Attempts Anywhere (fun point => atKeyword .kwExport <&&> exportForm point) 1 := by
    simp only [and_eq_branch]
    exact .branch (atKeyword_answers .kwExport)
      ((exportForm_attempts 1).given fun _ found => kindIn_of_spells found.2) .declines
  refine .branch (currentIs_answers .semicolon) ?_ (form.orElse ?_)
  · exact .ofForms (empty.given fun _ found => eq_of_beq found.2)
  · exact .behind modifiers_forms (modified_encloses h) fun m => by simp

/-- Settling the gap comes before the checkpoint is taken. -/
theorem checkpoint_yields (c : Cursor) :
    Yields checkpoint c fun point d => point = d.parts.size ∧ d = c.skipGap.placeGap := by
  intro x d run
  cases run
  exact ⟨rfl, rfl⟩

theorem skipAndPlaceGap_yields (c : Cursor) :
    Yields skipAndPlaceGap c fun _ d => d = c.skipGap.placeGap := by
  intro x d run
  cases run
  rfl

/-- Settling a gap adds trivia, which is no part. -/
theorem Fills.settled (c : Cursor) : Fills c c.skipGap.placeGap [] 1 := by
  simpa using (Fills.same (d := c.skipGap) ⟨_, _, _, rfl⟩).trans (.placeGap _)

/-- Settling a gap complains of nothing. -/
theorem Cursor.Tidy.ofSettled (h : c.skipGap.placeGap.Tidy) : c.Tidy :=
  ⟨h.complaints, h.lastPlace, h.refused⟩

/-- By induction on the fuel; what the inner statements form is known by then. -/
theorem statementWithin_forms (n : Nat) : Forms Anywhere (statementWithin n) fun _ => ⊤ := by
  induction n with
  | zero => exact fun _ _ => .throw _
  | succ n ih =>
    intro c _
    refine (checkpoint_yields c).bind fun point d begun => ?_
    obtain ⟨rfl, rfl⟩ := begun
    have whole := statementAt_encloses ih c.skipGap.placeGap c.skipGap.placeGap fun tidy =>
      ⟨tidy, .refl _, trivial⟩
    refine Yields.imp whole fun _ d post tidy => ?_
    obtain ⟨began, fills⟩ := post tidy
    exact ⟨began.ofSettled, by simpa using (Fills.settled c).trans fills⟩

/-- Statement after statement, up to the end. -/
theorem sourceTurn_forms : Forms Anywhere sourceTurn fun _ => ⊤ := by
  have statement : Forms Anywhere statement fun _ => ⊤ := fun c entry =>
    Yields.get (statementWithin_forms (c.total + 1) c entry)
  exact .branch atEnd_answers (Forms.pure false).any
    (.both statement.anywhere fun _ => (Forms.pure true).any)

/-- Everything that was read stands in the one node of the source. -/
theorem sourceFile_forms : Forms Anywhere sourceFile fun _ => {[.node .sourceFile]} := by
  have placed : Forms Anywhere skipAndPlaceGap fun _ => ⊤ := fun c _ =>
    Yields.imp (skipAndPlaceGap_yields c) fun _ d settled tidy => by
      subst settled
      exact ⟨tidy.ofSettled, (Fills.settled c).mono le_top⟩
  exact node_forms (.both (repeatWhile_forms sourceTurn_forms) fun _ => placed) fun _ _ => rfl

end ImplicitGlobals.Grammar
