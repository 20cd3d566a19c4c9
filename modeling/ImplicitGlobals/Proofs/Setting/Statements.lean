import ImplicitGlobals.Proofs.Acceptance.Statements
import ImplicitGlobals.Proofs.Setting.Modules

/-!
# Statements in a setting

A statement does the same in every setting, and where other words follow it ends before them. It
may read the last word before those, and then it has looked at none of them.
-/

namespace ImplicitGlobals.Grammar

variable {S : Setting} {s : Ending} {p : Entry} {c : Cursor}

/-! ### Modifiers -/

/-- The tests for a modifier of two words. -/
theorem declares_answers : Answers (atKeyword .kwDeclare <&&> nextIs .ident) fun ws _ =>
    spells ws 0 Keyword.kwDeclare.word && kindIn ws 1 == some .ident :=
  (atKeyword_answers .kwDeclare).and (nextIs_answers .ident)

/-- Whether an abstract class is announced is seen from two words. -/
theorem abstract_answers : Answers (atKeyword .kwAbstract <&&> nthIsKeyword 1 .kwClass) fun ws _ =>
    spells ws 0 Keyword.kwAbstract.word && spells ws 1 Keyword.kwClass.word :=
  (atKeyword_answers .kwAbstract).and (nthIsKeyword_answers 1 .kwClass)

/-- Whether `default` is taken for a modifier depends on `export` before it. -/
theorem default_answers (b : Bool) : Answers (atKeyword .kwDefault <&&> pure b) fun ws _ =>
    spells ws 0 Keyword.kwDefault.word && b :=
  (atKeyword_answers .kwDefault).and (.pure b)

/-- A modifier is read alike in every setting. -/
theorem modifierTurn_follows (m : Modifiers) :
    S.Follows .firm .any (Turn.map id) (modifierTurn m) (modifierTurn m) := by
  have read {q : Entry} {u : List Word → Bool} (k : Keyword) (m : Modifiers)
      (spelt : ∀ ws, u ws = true → spells ws 0 k.word = true) :
      S.Follows .firm (fun ws n => q ws n ∧ u ws = true) (Turn.map id)
        (do takeKeyword k; return Turn.again m) (do takeKeyword k; return Turn.again m) :=
    ((takeKeyword_follows k).given fun ws _ here => goesOn_of_spelt (spelt ws here.2)).bind
      fun _ => .pure rfl
  refine (atKeyword_follows _).branch (atKeyword_answers _) (read _ _ fun _ => id) ?_
  refine Setting.Follows.branch ((atKeyword_follows _).and (.pure rfl)) (default_answers m.any)
    (read _ _ fun _ both => (Bool.and_eq_true_iff.1 both).1) ?_
  refine Setting.Follows.branch
    ((atKeyword_follows _).andAt (atKeyword_answers _) ?_) declares_answers
    (read _ _ fun _ both => (Bool.and_eq_true_iff.1 both).1) ?_
  · exact (nextIs_follows _).given fun _ _ here => goesOn_of_spelt here.2
  refine Setting.Follows.branch
    ((atKeyword_follows _).andAt (atKeyword_answers _) ?_) abstract_answers
    (read _ _ fun _ both => (Bool.and_eq_true_iff.1 both).1) (.pure rfl)
  exact nthIsKeyword_follows (fun ws _ here => (clear_zero ws).spelt here.2) _

/-- All modifiers are read alike. -/
theorem modifiers_follows : S.Follows .firm p id modifiers modifiers :=
  loop_follows (by decide) modifierTurn_follows {}

/-- `default` is a modifier only if it was read. -/
theorem modifiers_begun (c : Cursor) :
    Yields modifiers c fun m d => m.isDefault = true → 0 < d.passed := by
  have turn (m : Modifiers) (c : Cursor) : Yields (modifierTurn m) c fun t d =>
      (∃ m', t = .again m' ∧ 0 < d.passed) ∨ t = .done m := by
    have read (k : Keyword) (m' : Modifiers) (d : Cursor) :
        Yields (do takeKeyword k; return Turn.again m') d fun t e =>
          (∃ m', t = .again m' ∧ 0 < e.passed) ∨ t = .done m := by
      refine (takeKeyword_yields k d).bind fun _ e taken => .pure (.inl ⟨m', rfl, ?_⟩)
      obtain ⟨_, took⟩ := taken
      rw [took.passed]
      exact Nat.succ_pos _
    refine (atKeyword_answers .kwExport c).bind fun _ d _ => .ite (fun _ => read _ _ d) fun _ => ?_
    refine (default_answers m.any d).bind fun _ d _ => .ite (fun _ => read _ _ d) fun _ => ?_
    refine (declares_answers d).bind fun _ d _ => .ite (fun _ => read _ _ d) fun _ => ?_
    refine (abstract_answers d).bind fun _ d _ => .ite (fun _ => read _ _ d) fun _ => ?_
    exact .pure (.inr rfl)
  have onward := fun m => (modifierTurn_follows (S := .alone) m).onward
  refine loop_yields (I := fun m d => m.isDefault = true → 0 < d.passed) nofun
    fun m c inv t d run => ?_
  rcases turn m c t d run with ⟨_, rfl, passed⟩ | rfl
  · exact fun _ => passed
  · exact fun isDefault => Nat.lt_of_lt_of_le (inv isDefault) (onward m c _ d run).passed

/-! ### Declarations -/

variable {inner inner' r r' : Rule Unit}

/-- A form that is read where its test holds, if the test is asked alike. -/
theorem onlyIf_follows {t : Rule Bool} {v : List Word → Bool} {body body' : Rule Unit}
    (asked : S.Follows .firm p id t t) (answers : Answers t fun ws _ => v ws)
    (yes : S.Follows .final (fun ws n => p ws n ∧ v ws = true) id body body')
    (no : S.Follows .final p id r r') :
    S.Follows .final p id (orElse (onlyIf t body) r) (orElse (onlyIf t body') r') := by
  simp only [onlyIf, orElse.bind, orElse.ite, orElse.found, orElse.none]
  exact asked.branch answers yes (no.given fun _ _ here => here.1)

/-- A declaration that its keyword announces, or what follows when there is none. -/
theorem declarationOf_follows (h : S.Follows .final .any id inner inner') (point : Checkpoint)
    (isDefault : Bool) (keyword : Option Keyword) (ident : ∀ ws n, p ws n → Entry.goesOn ws n)
    (rest : S.Follows .final p id r r') :
    S.Follows .final p id (orElse (declarationOf inner point isDefault keyword) r)
      (orElse (declarationOf inner' (point + S.parts.length) isDefault keyword) r') := by
  have follows : S.Follows .firm p id bindingFollows bindingFollows :=
    (kindAt_follows ident).mapId _
  have bindings := (kindAt_answers 1).map fun k : Option TokenKind =>
    k.any KindSet.bindingStart.holds
  have next (kind : TokenKind) : S.Follows .firm p id (nextIs kind) (nextIs kind) :=
    (nextIs_follows kind).given ident
  -- Behind its test a declaration is entered at an identifier, which is no semicolon.
  have here {body body' : Rule Unit} {q : List Word → Bool}
    (h : S.Follows .final .goesOn id body body') :
      S.Follows .final (fun ws n => p ws n ∧ q ws = true) id body body' :=
    h.given fun ws n here => ident ws n here.1
  cases keyword with
  | none => exact rest
  | some k =>
    cases k with
    | kwConst =>
      simp only [declarationOf, orElse.bind, orElse.ite, orElse.found]
      refine Setting.Follows.branch (nthIsKeyword_follows ident _) (nthIsKeyword_answers 1 _) ?_ ?_
      · exact (enumDeclaration_follows point).given fun ws n found =>
          Clear.spelt (ident ws n found.1) found.2
      · exact (onlyIf_follows follows bindings (here (variableStatement_follows point)) rest).given
          fun _ _ found => found.1
    | kwVar | kwLet =>
      exact onlyIf_follows follows bindings (here (variableStatement_follows point)) rest
    | kwFunction =>
      exact onlyIf_follows (.pure rfl) (.pure true)
        (here (functionDeclaration_follows point isDefault)) rest
    | kwClass =>
      exact onlyIf_follows (.pure rfl) (.pure true)
        (here (classDeclaration_follows point isDefault)) rest
    | kwInterface =>
      exact onlyIf_follows (next _) (nextIs_answers _)
        (here (interfaceDeclaration_follows point)) rest
    | kwType =>
      exact onlyIf_follows (next _) (nextIs_answers _) (here (typeAlias_follows point)) rest
    | kwEnum =>
      refine onlyIf_follows (next _) (nextIs_answers _) ?_ rest
      exact (enumDeclaration_follows point).given fun ws n found =>
        Clear.found (ident ws n found.1) (by decide) found.2
    | kwNamespace =>
      exact onlyIf_follows (next _) (nextIs_answers _)
        (here (moduleDeclaration_follows h point)) rest
    | kwModule =>
      simp only [declarationOf, orElse.bind]
      refine Setting.Follows.past (kindAt_follows ident) (kindAt_answers 1) fun next => ?_
      exact onlyIf_follows (.pure rfl) (.pure _) (here (moduleDeclaration_follows h point)) rest
    | kwGlobal =>
      exact onlyIf_follows (next _) (nextIs_answers _)
        (here (globalDeclaration_follows h point)) rest
    | kwImport =>
      exact onlyIf_follows (.pure rfl) (.pure _) (here (importStatement_follows point)) rest
    | _ => exact rest

/-- A declaration, or what follows when there is none. -/
theorem declaration_follows (h : S.Follows .final .any id inner inner') (point : Checkpoint)
    (isDefault : Bool) (rest : S.Follows .final p id r r') :
    S.Follows .final p id (orElse (declaration inner point isDefault) r)
      (orElse (declaration inner' (point + S.parts.length) isDefault) r') := by
  simp only [declaration, orElse.bind, orElse.ite, orElse.none]
  refine current_follows.ask current_answers fun kind => .ite (fun _ => ?_) fun ident => ?_
  · exact rest.given fun _ _ found => found.1
  obtain rfl : kind = some .ident := Classical.not_not.1 ident
  refine currentText_follows.past currentText_answers fun text => ?_
  exact declarationOf_follows h point isDefault _
    (fun ws n found => Entry.goesOn_of_current (by decide) (n := n) found.2)
    (rest.given fun _ _ found => found.1)

/-! ### Recovery -/

/-- What is complained of at the start of a statement is the same. -/
theorem complainOfStart_follows (hasModifiers : Bool) :
    S.Follows s p id (complainOfStart hasModifiers) (complainOfStart hasModifiers) := by
  refine (currentIs_follows .garbage).choose (error_follows _)
    (.ite (fun _ => error_follows _) fun _ => ?_)
  refine (currentIn_follows .closers).choose ?_ ?_
  · exact currentText_follows.bind fun _ => errorWith_follows _ _
  · exact currentText_follows.bind fun _ => errorWith_follows _ _

/-- A word is passed over alike, until the first run is at its end. -/
theorem skipTurn_follows (inBlock : Bool) (k : Skipping) :
    S.Follows .loose .any (Turn.map id) (skipTurn inBlock k) (skipTurn inBlock k) := by
  have ends (kind : Option TokenKind) :
      S.Follows .firm .any id (skippingEnds inBlock kind) (skippingEnds inBlock kind) :=
    Setting.Follows.or (.pure rfl) atStatementStart_follows
  refine atEnd_follows.choose (.pure rfl) (current_follows.bind fun kind => ?_)
  refine Setting.Follows.choose (Setting.Follows.and (.pure rfl) (ends kind)) (.pure rfl) ?_
  exact bump_final.loosen.bindLoose fun _ => .ite (fun _ => .pure rfl) fun _ => .pure rfl

/-- Recovery may run to the end, but it complains before anything else. -/
theorem recover_follows (point : Checkpoint) (hasModifiers : Bool) : S.Follows s p id
    (recover point hasModifiers) (recover (point + S.parts.length) hasModifiers) := by
  have body : S.Follows .loose .any id (do let _ ← loop {} (skipTurn (← inBlock)))
      (do let _ ← loop {} (skipTurn (← inBlock))) :=
    inBlock_follows.bind fun inBlock =>
      (loop_follows (φ := id) (by decide) (skipTurn_follows inBlock) {}).bindLoose fun _ =>
        .pure rfl
  have skipped := nodeAt_follows (show .error ≠ NodeKind.sourceFile by decide) point body
  refine .spoilt ((complainOfStart_follows hasModifiers).bind fun _ => skipped) ?_
  exact Onward.spoils
    (fun c x d run tidy => (complainOfStart_accepts hasModifiers c x d run tidy).2)
    fun _ => skipped.onward

/-! ### Statements -/

/-- The declaration behind the modifiers, whose node begins as many parts further on. -/
theorem modified_follows (h : S.Follows .final .any id inner inner') (point : Checkpoint)
    (m : Modifiers) :
    S.Follows .final (fun _ n => m.isDefault = true → 0 < n) id (modified inner point m)
      (modified inner' (point + S.parts.length) m) := by
  refine declaration_follows h point m.isDefault
    (.ite (fun isDefault => ?_) fun _ => recover_follows point m.any)
  exact (exportDefault_follows point).given fun _ _ begun => begun isDefault

/-- A statement from its checkpoint, whose node begins as many parts further on. -/
theorem statementAt_follows (h : S.Follows .final .any id inner inner') (point : Checkpoint) :
    S.Follows .final .any id (statementAt inner point)
      (statementAt inner' (point + S.parts.length)) := by
  have plain : S.Follows .final .any id (modifiers >>= modified inner point)
      (modifiers >>= modified inner' (point + S.parts.length)) :=
    modifiers_follows.bindAs (fun c _ => modifiers_begun c) (modified_follows h point)
  have empty : S.Follows .final .any id (do node .emptyStatement bump; return)
      (do node .emptyStatement bump; return) := by
    rw [bind_pure_unit]
    exact node_follows (by decide) bump_final
  refine (currentIs_follows .semicolon).choose empty ?_
  have form (point : Checkpoint) (r : Rule Unit) :
      orElse (atKeyword .kwExport <&&> exportForm point) r =
        (atKeyword .kwExport >>= fun b => if b = true then orElse (exportForm point) r else r) := by
    simp only [and_eq_branch, orElse.bind, orElse.ite, orElse.none]
  have both : S.Follows .final .any id
      (orElse (atKeyword .kwExport <&&> exportForm point) (modifiers >>= modified inner point))
      (orElse (atKeyword .kwExport <&&> exportForm (point + S.parts.length))
        (modifiers >>= modified inner' (point + S.parts.length))) := by
    rw [form, form]
    exact (atKeyword_follows _).choose (exportForm_follows point plain) plain
  exact both

/-- Statements to depths that may differ. -/
theorem statementWithin_follows (n m : Nat) :
    S.Follows .final .any id (statementWithin n) (statementWithin m) := by
  induction n generalizing m with
  | zero => exact .throw _
  | succ n ih =>
    have more (m : Nat) :
        S.Follows .final .any id (statementWithin (n + 1)) (statementWithin (m + 1)) :=
      checkpoint_follows.bind fun point => statementAt_follows (ih m) point
    cases m with
    | zero => exact (more 0).outOfBound _
    | succ m => exact more m

/-- A statement is read alike in every setting. -/
theorem statement_follows : S.Follows .final p id statement statement :=
  .bounded fun n m => (statementWithin_follows n m).anywhere

end ImplicitGlobals.Grammar
