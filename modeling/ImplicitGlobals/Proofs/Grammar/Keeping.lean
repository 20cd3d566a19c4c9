import ImplicitGlobals.Grammar.Statement
import ImplicitGlobals.Proofs.Acceptance.Logic

/-!
# What all rules keep

A fact about what is ahead, what has been read and what is in the tree, kept by every word that is
read and every node that is closed, is kept by every rule of the grammar, as long as nothing is
complained of. Type expressions and the two exports that hold an expression are steps of their own
here: what a fact says of types, it has to say of these three.
-/

namespace ImplicitGlobals.Grammar

variable {α β : Type} {P : Cursor → Prop} {c d : Cursor}

/-- Where the rule ends tidy, the open nodes are the same and what held still holds. -/
def Upholds (P : Cursor → Prop) (r : Rule α) : Prop :=
  ∀ c, Accepts r c fun _ d => d.opened = c.opened ∧ (P c → P d)

/-- The nodes that are closed by a step of their own. -/
def Ordinary (kind : NodeKind) : Prop := kind ≠ .typeExpr ∧ kind ≠ .exportAssignment

instance (kind : NodeKind) : Decidable (Ordinary kind) := inferInstanceAs (Decidable (_ ∧ _))

/-- A fact that all steps keep. -/
structure Lasting (P : Cursor → Prop) : Prop where
  /-- It is about the words and the parts only. -/
  congr {c d : Cursor} (rest : d.rest = c.rest) (passed : d.passed = c.passed)
    (parts : d.parts = c.parts) : P c → P d
  took {label : LeafKind} {w : Word} {c d : Cursor} (took : Took label w c d) : P c → P d
  placeGap {c : Cursor} : P c → P c.placeGap
  close {c : Cursor} {kind : NodeKind} (ordinary : Ordinary kind) (first : Nat) :
    P c → P (c.closeNode kind first)
  typeExpr (stop : KindSet) : Upholds P (typeExpr stop)
  exportDefault (point : Checkpoint) : Upholds P (exportDefault point)
  exportAssignment (point : Checkpoint) : Upholds P (exportAssignment point)

namespace Upholds

variable {r : Rule α}

/-- An answer alone moves nothing. -/
theorem pure (x : α) : Upholds P (Pure.pure x : Rule α) := fun _ => .pure fun _ => ⟨rfl, id⟩

/-- A broken promise has no cursor behind it to ask about. -/
theorem throw (b : Breach) : Upholds P (throw b : Rule α) := fun _ => .throw b

/-- What both rules uphold, the one behind the other upholds. -/
theorem bind {f : α → Rule β} (h : Upholds P r) (next : ∀ x, Upholds P (f x)) :
    Upholds P (r >>= f) := fun c => by
  refine (h c).bind fun x d post => (next x d).imp fun _ e between _ more => ?_
  obtain ⟨-, same, keeps⟩ := post between
  exact ⟨more.1.trans same, fun holds => more.2 (keeps holds)⟩

/-- Whichever branch is taken upholds it. -/
theorem ite {p : Prop} [Decidable p] {s t : Rule α} (yes : Upholds P s) (no : Upholds P t) :
    Upholds P (if p then s else t) := fun c => .ite (fun _ => yes c) fun _ => no c

/-- The second test is asked only where the first one holds, and upholds it there. -/
theorem and {s t : Rule Bool} (h : Upholds P s) (g : Upholds P t) : Upholds P (s <&&> t) := by
  rw [and_eq_branch]
  exact h.bind fun _ => .ite g (.pure false)

/-- The second test is asked only where the first one fails, and upholds it there. -/
theorem or {s t : Rule Bool} (h : Upholds P s) (g : Upholds P t) : Upholds P (s <||> t) :=
  h.bind fun b => by
    cases b with
    | false => exact g
    | true => exact .pure true

/-- A look at the cursor changes nothing; what follows may depend on all of it. -/
theorem get {f : Cursor → Rule α} (h : ∀ c, Upholds P (f c)) : Upholds P (MonadState.get >>= f) :=
  fun c => Yields.get (h c c)

/-- What complains does not end tidy. -/
theorem complain (k : Nat → Option Nat → Complaint) : Upholds P (complain k) :=
  fun _ => complain_accepts k _

/-- A complaint leaves the tree that is built alone. -/
theorem error (kind : DiagnosticKind) : Upholds P (error kind) := .complain _

theorem errorWith (kind : DiagnosticKind) (detail : String) : Upholds P (errorWith kind detail) :=
  .complain _

/-- A part that is read only where the test finds it. -/
theorem whenever {test : Rule Bool} {body : Rule Unit} (h : Upholds P test) (g : Upholds P body) :
    Upholds P (whenever test body) := h.bind fun _ => .ite g (.pure ())

/-- A declaration that is read only where its keyword is followed by what it needs. -/
theorem onlyIf {test : Rule Bool} {body : Rule Unit} (asks : Upholds P test) (does : Upholds P body) :
    Upholds P (onlyIf test body) := asks.bind fun _ => .ite (does.bind fun _ => .pure _) (.pure _)

/-- By induction on the rounds, for any state that they hand on. -/
theorem loop {σ : Type} {s : σ} {step : σ → Rule (Turn σ)} (turn : ∀ s, Upholds P (step s)) :
    Upholds P (loop s step) := by
  intro c
  refine Accepts.loop (I := fun _ d => d.opened = c.opened ∧ (P c → P d))
    (Q := fun _ d => d.opened = c.opened ∧ (P c → P d)) (fun _ => ⟨rfl, id⟩) fun s d inv => ?_
  refine (turn s d).imp fun t e tidy _ more => ?_
  obtain ⟨-, same, keeps⟩ := inv tidy
  have both : e.opened = c.opened ∧ (P c → P e) :=
    ⟨more.1.trans same, fun holds => more.2 (keeps holds)⟩
  cases t <;> exact both

/-- The round may stop the loop or go on, and upholds the property in both cases. -/
theorem repeatWhile {turn : Rule Bool} (h : Upholds P turn) : Upholds P (repeatWhile turn) := by
  refine .loop fun _ => ?_
  refine h.bind fun _ => ?_
  exact .ite (.pure _) (.pure _)

end Upholds

namespace Lasting

/-! ### Steps -/

section

variable (h : Lasting P)
include h

/-- Between cursors that agree there is nothing to prove. -/
theorem same (same : Same c d) : d.opened = c.opened ∧ (P c → P d) := by
  obtain ⟨_, _, _, rfl⟩ := same
  exact ⟨rfl, h.congr rfl rfl rfl⟩

/-- A rule that only looks ahead leaves the tree alone. -/
theorem look {t : Rule β} (looks : ∀ c, Yields t c fun _ d => Same c d) : Upholds P t :=
  fun c => Yields.imp (looks c) fun _ _ same tidy => ⟨same.tidy tidy, h.same same⟩

/-- A test is read off the words ahead. -/
theorem ask {t : Rule β} {v : List Word → Option Limit → β} (answers : Answers t v) :
    Upholds P t := by
  refine h.look fun c => ?_
  refine (answers c).imp fun _ _ post => ?_
  exact post.2

/-- Reading one word adds one leaf, and a leaf is no node that the property could be of. -/
theorem reads {r : Rule Unit} (one : ∀ c, Yields r c fun _ d => ∃ w label, Took label w c d) :
    Upholds P r := fun c => Yields.imp (one c) fun _ _ ⟨_, _, took⟩ tidy =>
  ⟨took.tidy tidy, took.opened, h.took took⟩

theorem bump : Upholds P bump := h.reads bump_one

theorem takeKeyword (k : Keyword) : Upholds P (takeKeyword k) := h.reads (takeKeyword_one k)

theorem bumpKeyword : Upholds P bumpKeyword := h.reads bumpKeyword_one

/-- Such a word is read if it is there, and nothing happens else. -/
theorem eaten {is : Word → Prop} {label : LeafKind} {t : Rule Bool}
    (eats : ∀ c, Yields t c (Eaten is label c)) : Upholds P t :=
  fun c => Yields.imp (eats c) fun b d eaten tidy => by
    cases b with
    | false => exact ⟨eaten.1.tidy tidy, h.same eaten.1⟩
    | true =>
      obtain ⟨w, -, took⟩ := eaten
      exact ⟨took.tidy tidy, took.opened, h.took took⟩

theorem eat (kind : TokenKind) : Upholds P (eat kind) := h.eaten (eat_yields kind)

theorem eatKeyword (k : Keyword) : Upholds P (eatKeyword k) := h.eaten (eatKeyword_yields k)

/-- The word is read, or complained of in its absence. -/
theorem expect (kind : TokenKind) (what : String) : Upholds P (expect kind what) :=
  (h.eat kind).bind fun _ => .ite (.pure true) ((Upholds.errorWith _ _).bind fun _ => .pure false)

/-- The assertion looks at one word. -/
theorem assertAt (kind : TokenKind) : Upholds P (assertAt kind) :=
  (h.ask current_answers).bind fun _ => .ite (.throw _) (.pure ())

/-- The part is there or nothing is read. -/
theorem optional (kind : TokenKind) {body : Rule Unit} (inner : Upholds P body) :
    Upholds P (optional kind body) := (h.ask (currentIs_answers kind)).whenever inner

/-! ### Nodes -/

/-- A node of an ordinary kind is closed over what was upheld within. -/
theorem closed {kind : NodeKind} (ordinary : Ordinary kind) {first : Nat} {e : Cursor}
    {opened : Opened} {outer : List Opened}
    (inner : e.opened = (c.openNode kind first).opened ∧ (P (c.openNode kind first) → P e))
    (innermost : e.opened = opened :: outer) :
    (e.closeNode opened.kind opened.first).opened = c.opened ∧
      (P c → P (e.closeNode opened.kind opened.first)) := by
  obtain ⟨rfl, rfl⟩ := List.cons.inj (innermost.symm.trans inner.1)
  refine ⟨by simp [Cursor.closeNode, innermost], fun holds => h.close ordinary first ?_⟩
  exact inner.2 (h.congr (c := c) rfl rfl rfl holds)

/-- The node begins at a checkpoint further back, which only moves parts into it. -/
theorem nodeAt {kind : NodeKind} {body : Rule Unit} (ordinary : Ordinary kind) (point : Checkpoint)
    (inner : Upholds P body) : Upholds P (nodeAt point kind body) := fun c => by
  refine Yields.imp (nodeAt_yields (inner _)) fun _ d closed tidy => ?_
  obtain ⟨e, o, os, post, opened, rfl⟩ := closed
  obtain ⟨began, inner⟩ := post tidy.ofClose
  exact ⟨⟨began.complaints, began.lastPlace, began.refused⟩, h.closed ordinary inner opened⟩

/-- The node begins here, so the checkpoint is the cursor's own place. -/
theorem node {kind : NodeKind} {body : Rule Unit} (ordinary : Ordinary kind)
    (inner : Upholds P body) : Upholds P (node kind body) := fun c => by
  refine Yields.imp (node_yields (inner _)) fun _ d closed tidy => ?_
  obtain ⟨e, o, os, post, opened, rfl⟩ := closed
  obtain ⟨began, inner⟩ := post tidy.ofClose
  obtain ⟨same, keeps⟩ := h.closed ordinary inner opened
  refine ⟨⟨began.complaints, began.lastPlace, began.refused⟩, same, fun holds => ?_⟩
  exact keeps (h.placeGap holds)

/-- The error node is ordinary, and holds one word. -/
theorem bumpAsError : Upholds P bumpAsError :=
  (h.ask (peek_answers 0)).bind fun _ => .ite (h.node (by decide) h.bump) (.pure ())

theorem errorAndBump (kind : DiagnosticKind) (detail : String) :
    Upholds P (errorAndBump kind detail) := (Upholds.errorWith _ _).bind fun _ => h.bumpAsError

/-! ### Nesting -/

/-- Counting a level is no part of the tree. -/
theorem descend : Upholds P descend := fun c =>
  Yields.imp (descend_yields c) fun b d level tidy => by
    cases b with
    | false => exact absurd tidy.refused level.2
    | true => exact ⟨Same.tidy level tidy, h.same level⟩

theorem ascend : Upholds P ascend := h.look ascend_yields

/-- Remembering the opener is no part of the tree either. -/
theorem inside (kind : TokenKind) {body : Rule Unit} (inner : Upholds P body) :
    Upholds P (inside kind body) := by
  have push : Upholds P (pushOpener kind) := fun c =>
    Yields.imp (pushOpener_yields kind c) fun _ d pushed tidy => by
      obtain ⟨_, _, _, _, rfl⟩ := pushed
      exact ⟨⟨tidy.complaints, tidy.lastPlace, tidy.refused⟩, rfl, h.congr rfl rfl rfl⟩
  have pop : Upholds P popOpener := fun c => Yields.modify fun tidy =>
    ⟨⟨tidy.complaints, tidy.lastPlace, tidy.refused⟩, rfl, h.congr rfl rfl rfl⟩
  exact push.bind fun _ => h.bump.bind fun _ => inner.bind fun _ => pop

/-- The opener, rounds of items and the closer, or a complaint of its absence. -/
theorem delimited (marks : Delimiters) {turn : Rule Bool} (inner : Upholds P turn) :
    Upholds P (delimited marks turn) := by
  have mark : Upholds P mark := h.look fun c => (mark_yields c).imp fun _ _ post => post.2
  refine mark.bind fun _ => (h.inside _ inner.repeatWhile).bind fun _ => (h.eat _).bind fun _ => ?_
  exact (h.ask isRefused_answers).bind fun _ => .ite (.complain _) (.pure ())

/-- Either the list ends, a stray word is passed over, or an item is read up to its comma. -/
theorem itemTurn (closer : TokenKind) {starts : Rule Bool} (what : String) {item : Rule Unit}
    (test : Upholds P starts) (inner : Upholds P item) :
    Upholds P (itemTurn closer starts what item) := by
  refine (h.ask (atEnd_answers.or (currentIs_answers closer))).bind fun _ => .ite (.pure false) ?_
  refine test.bind fun _ => .ite ((h.errorAndBump _ _).bind fun _ => .pure true) ?_
  exact inner.bind fun _ => h.eat .comma

/-! ### Runs -/

theorem atStatementStart : Upholds P atStatementStart := by
  refine h.look fun c => ?_
  refine (atStatementStart_yields c).imp fun _ _ post => ?_
  exact post.1

/-- The semicolon is read, or left out where a line break, a closing brace or the end allows it. -/
theorem expectSemicolon : Upholds P expectSemicolon := by
  have ends := atEnd_answers.or ((currentIs_answers .braceClose).or onFreshLine_answers)
  exact (h.eat _).bind fun _ => .ite (.pure ()) <|
    (h.ask ends).bind fun _ => .ite (.pure ()) (.complain _)

/-- A round that takes one word and goes on with the given brackets open. -/
theorem goesOn (stack : List Opener) : Upholds P (do Grammar.bump; return Turn.again (⟨stack, true⟩ : Run)) :=
  h.bump.bind fun _ => .pure _

theorem openBracket (kind : TokenKind) (stack : List Opener) : Upholds P (openBracket kind stack) :=
  (h.look fun c => (mark_yields c).imp fun _ _ post => post.2).bind fun _ => h.goesOn _

/-- The closer closes its bracket, ends the run, or stands in an error node. -/
theorem closeBracket (kind : TokenKind) (r : Run) : Upholds P (closeBracket kind r) := by
  unfold Grammar.closeBracket
  split
  · exact .pure _
  · exact .ite (h.goesOn _) <| (h.ask currentText_answers).bind fun _ =>
      (h.errorAndBump _ _).bind fun _ => .pure _

/-- By the kind of the word: a bracket is remembered or forgotten, garbage complained of, and all else
taken. -/
theorem runWord (mode : RunMode) (r : Run) (kind : Option TokenKind) : Upholds P (runWord mode r kind) := by
  unfold Grammar.runWord
  split
  case h_7 => exact (Upholds.error _).bind fun _ => h.bumpAsError.bind fun _ => .pure _
  case h_8 => exact .ite (h.openBracket _ _) (h.goesOn _)
  all_goals first | exact h.openBracket _ _ | exact h.closeBracket _ _ | exact h.goesOn _

/-- The run ends in front of the word, or the word is taken. -/
theorem runTurn (stop : KindSet) (mode : RunMode) (r : Run) : Upholds P (runTurn stop mode r) := by
  have ends (kind : Option TokenKind) : Upholds P (runEnds stop mode r.consumed kind) :=
    h.look fun c => (runEnds_yields _ _ _ _ c).imp fun _ _ post => post.2
  refine (h.ask atEnd_answers).bind fun _ => .ite (.pure _) ?_
  refine (h.ask current_answers).bind fun kind => ((Upholds.pure _).and (ends kind)).bind fun _ => ?_
  exact .ite (.pure _) (h.runWord _ _ _)

/-- By induction on the rounds of the run; what is left open is only complained of. -/
theorem balanced (stop : KindSet) (mode : RunMode) : Upholds P (balanced stop mode) := by
  refine (Upholds.loop fun r => h.runTurn stop mode r).bind fun r => .bind ?_ fun _ => .pure _
  unfold reportOpen
  split
  · exact .complain _
  · exact .complain _
  · exact .pure ()

/-- A name node holds one identifier. -/
theorem nameRule : Upholds P nameRule :=
  (h.ask (currentIs_answers _)).bind fun _ => .ite (h.node (by decide) h.bump) (.error _)

theorem typeAscription (stop : KindSet) : Upholds P (typeAscription stop) :=
  (h.assertAt _).bind fun _ => h.node (by decide) (h.bump.bind fun _ => h.typeExpr stop)

/-- `=` and a run that must not be empty. -/
theorem initializer (stop : KindSet) : Upholds P (initializer stop) := by
  refine (h.assertAt _).bind fun _ => ?_
  refine h.node (by decide) ?_
  refine h.bump.bind fun _ => ?_
  refine (h.balanced _ _).bind fun _ => ?_
  exact .ite (.error _) (.pure ())

/-- A body in braces is one node of an ordinary kind. -/
theorem bracedBody {kind : NodeKind} (ordinary : Ordinary kind) : Upholds P (bracedBody kind) := by
  have turn : Upholds P bodyTurn := (h.balanced _ _).bind fun _ => (h.ask current_answers).bind fun _ =>
    (h.ask atEnd_answers).bind fun _ => .ite (.pure _) <| (h.ask currentText_answers).bind fun _ =>
      (h.errorAndBump _ _).bind fun _ => .pure _
  exact (h.ask (currentIs_answers _)).bind fun _ =>
    .ite ((Upholds.errorWith _ _).bind fun _ => .pure ()) (h.node ordinary (h.delimited _ turn))

/-! ### Bindings -/

/-- The name of a property and a colon, if both are there. -/
theorem propertyKey (openKind : TokenKind) : Upholds P (propertyKey openKind) := by
  refine .ite (.pure ()) ?_
  refine (h.ask current_answers).bind fun _ => ?_
  refine ((Upholds.pure _).and (h.ask (nextIs_answers _))).bind fun _ => ?_
  exact .ite (h.bump.bind fun _ => h.bump) (.pure ())

/-- One round over the elements of a pattern. -/
theorem patternTurn {inner : Rule Unit} (nested : Upholds P inner) (openKind closeKind : TokenKind) :
    Upholds P (patternTurn inner openKind closeKind) := by
  refine (h.ask (atEnd_answers.or (currentIs_answers _))).bind fun _ => .ite (.pure _) ?_
  refine (h.eat _).bind fun _ => .ite (.pure _) <| (h.eat _).bind fun _ => (h.propertyKey _).bind fun _ => ?_
  refine (h.ask (currentIn_answers _)).bind fun _ => .ite ((h.errorAndBump _ _).bind fun _ => .pure _) ?_
  exact nested.bind fun _ => (h.optional _ (h.initializer _)).bind fun _ => h.eat _

/-- By induction on how deep patterns are nested. -/
theorem bindingWithin (n : Nat) : Upholds P (bindingWithin n) := by
  induction n with
  | zero => exact .throw _
  | succ n ih =>
    have pattern (marks : Delimiters) : Upholds P (patternNode (Grammar.bindingWithin n) marks) :=
      h.node (by decide) (h.delimited _ (h.patternTurn ih _ _))
    refine (h.ask current_answers).bind fun _ => .ite ?_ h.nameRule
    exact h.descend.bind fun _ => .ite (.pure ()) <| (h.ask (currentIs_answers _)).bind fun _ =>
      (pattern _).bind fun _ => h.ascend

theorem binding : Upholds P binding := .get fun c => h.bindingWithin (c.total + 1)

/-- A list of parameters in parentheses. -/
theorem parameters : Upholds P parameters := by
  have parameter : Upholds P parameter := h.node (by decide) <| (h.eat _).bind fun _ => h.binding.bind fun _ =>
    (h.eat _).bind fun _ => (h.optional _ (h.typeAscription _)).bind fun _ =>
      h.optional _ (h.initializer _)
  have starts := (currentIn_answers .bindingStart).or (currentIs_answers .dotDotDot)
  exact (h.assertAt _).bind fun _ => h.node (by decide) <| h.delimited _ <|
    h.itemTurn _ _ (h.ask starts) parameter

/-- A list of type parameters in angles. -/
theorem typeParameters : Upholds P typeParameters := by
  have modifier : Upholds P typeParameterModifier := by
    have test := ((atWord_answers "in").or ((atWord_answers "out").or (atWord_answers "const"))).and
      (nextIs_answers .ident)
    exact (h.ask test).bind fun _ => .ite (h.bump.bind fun _ => .pure _) (.pure _)
  have constraint : Upholds P constraint := (h.takeKeyword _).bind fun _ => h.typeExpr _
  have parameter : Upholds P typeParameter := h.node (by decide) <| modifier.repeatWhile.bind fun _ =>
    h.nameRule.bind fun _ => ((h.ask (atKeyword_answers _)).whenever constraint).bind fun _ =>
      (h.eat _).whenever (h.typeExpr _)
  have turn : Upholds P typeParameterTurn := (h.ask (atEnd_answers.or (currentIs_answers _))).bind fun _ =>
    .ite (.pure _) (parameter.bind fun _ => h.eat _)
  exact (h.assertAt _).bind fun _ => h.node (by decide) (h.delimited _ turn)

/-! ### Declarations -/

theorem variableStatement (point : Checkpoint) : Upholds P (variableStatement point) := by
  have declarator : Upholds P variableDeclarator := h.node (by decide) <| h.binding.bind fun _ =>
    (h.eat _).bind fun _ => (h.optional _ (h.typeAscription _)).bind fun _ => h.optional _ (h.initializer _)
  exact h.nodeAt (by decide) point <| h.bumpKeyword.bind fun _ =>
    (declarator.bind fun _ => h.eat _).repeatWhile.bind fun _ => h.expectSemicolon

theorem functionDeclaration (point : Checkpoint) (anonymous : Bool) :
    Upholds P (functionDeclaration point anonymous) := by
  have name : Upholds P (functionName anonymous) := (h.ask (currentIs_answers _)).bind fun _ =>
    .ite h.nameRule (.ite (.error _) (.pure ()))
  have list : Upholds P functionParameters := (h.ask (currentIs_answers _)).bind fun _ =>
    .ite h.parameters (.errorWith _ _)
  exact h.nodeAt (by decide) point <| (h.takeKeyword _).bind fun _ => (h.eat _).bind fun _ =>
    name.bind fun _ => (h.optional _ h.typeParameters).bind fun _ => list.bind fun _ =>
      (h.optional _ (h.typeAscription _)).bind fun _ => h.expectSemicolon

/-- One heritage clause, if its keyword is there. -/
theorem heritageClauseTurn {test : Rule Bool} (asks : Upholds P test) :
    Upholds P (heritageClauseTurn test) := by
  have clause : Upholds P heritageClause := h.node (by decide) <| h.bumpKeyword.bind fun _ =>
    ((h.typeExpr _).bind fun _ => h.eat _).repeatWhile
  exact asks.bind fun _ => .ite (clause.bind fun _ => .pure _) (.pure _)

/-- The body, or a complaint where no brace follows. -/
theorem requiredBody {kind : NodeKind} (ordinary : Ordinary kind) (what : String) :
    Upholds P (requiredBody kind what) :=
  (h.ask (currentIs_answers _)).bind fun _ => .ite (h.bracedBody ordinary) (.errorWith _ _)

theorem classDeclaration (point : Checkpoint) (anonymous : Bool) :
    Upholds P (classDeclaration point anonymous) := by
  have test := (currentIs_answers .ident).and ((atKeyword_answers .kwExtends).not.and
    (atKeyword_answers .kwImplements).not)
  have name : Upholds P (className anonymous) := (h.ask test).bind fun _ =>
    .ite h.nameRule (.ite (.error _) (.pure ()))
  have heritage := (atKeyword_answers .kwExtends).or (atKeyword_answers .kwImplements)
  exact h.nodeAt (by decide) point <| (h.takeKeyword _).bind fun _ => name.bind fun _ =>
    (h.optional _ h.typeParameters).bind fun _ =>
      (h.heritageClauseTurn (h.ask heritage)).repeatWhile.bind fun _ => h.requiredBody (by decide) _

theorem interfaceDeclaration (point : Checkpoint) : Upholds P (interfaceDeclaration point) := by
  refine h.nodeAt (by decide) point ?_
  refine (h.takeKeyword _).bind fun _ => ?_
  refine h.nameRule.bind fun _ => ?_
  refine (h.optional _ h.typeParameters).bind fun _ => ?_
  refine (h.heritageClauseTurn (h.ask (atKeyword_answers _))).repeatWhile.bind fun _ => ?_
  exact h.requiredBody (by decide) _

theorem typeAlias (point : Checkpoint) : Upholds P (typeAlias point) := by
  refine h.nodeAt (by decide) point ?_
  refine (h.takeKeyword _).bind fun _ => ?_
  refine h.nameRule.bind fun _ => ?_
  refine (h.optional _ h.typeParameters).bind fun _ => ?_
  refine ((h.expect _ _).whenever (h.typeExpr _)).bind fun _ => ?_
  exact h.expectSemicolon

theorem enumDeclaration (point : Checkpoint) : Upholds P (enumDeclaration point) := by
  have computed : Upholds P computedName := h.bump.bind fun _ => (h.balanced _ _).bind fun _ =>
    (h.expect _ _).bind fun _ => .pure ()
  have name : Upholds P enumMemberName := (h.ask current_answers).bind fun kind => by
    split
    · exact h.nameRule
    · exact h.node (by decide) h.bump
    · exact h.node (by decide) h.bump
    · exact computed
  have member : Upholds P enumMember := h.node (by decide) <| name.bind fun _ =>
    h.optional _ (h.initializer _)
  have body : Upholds P enumBody := (h.ask (currentIs_answers _)).bind fun _ =>
    .ite (h.node (by decide) (h.delimited _ (h.itemTurn _ _ (h.ask (currentIn_answers _)) member)))
      (.errorWith _ _)
  exact h.nodeAt (by decide) point <| (h.eatKeyword _).bind fun _ => (h.takeKeyword _).bind fun _ =>
    h.nameRule.bind fun _ => body

/-! ### Imports and exports -/

theorem moduleSpecifier : Upholds P moduleSpecifier :=
  (h.eat _).bind fun _ => .ite (.error _) (.pure ())

/-- The forms of an export are chosen two words ahead, and each is an ordinary node. -/
theorem exportForm (point : Checkpoint) : Upholds P (exportForm point) := by
  have named : Upholds P (Bool.not <$> Grammar.eat .stringLiteral) := by
    rw [← bind_pure_comp]
    exact (h.eat _).bind fun _ => .pure _
  have names : Upholds P exportedNames := (h.eat _).bind fun _ => .ite
    (((h.eatKeyword _).and named).whenever h.nameRule) (h.bracedBody (by decide))
  have declaration : Upholds P (exportDeclaration point) := h.nodeAt (by decide) point <|
    (h.takeKeyword _).bind fun _ => (h.eatKeyword _).bind fun _ => names.bind fun _ =>
      ((h.eatKeyword _).whenever h.moduleSpecifier).bind fun _ => h.expectSemicolon
  have global : Upholds P (namespaceExport point) := h.nodeAt (by decide) point <|
    (h.takeKeyword _).bind fun _ => (h.takeKeyword _).bind fun _ => (h.takeKeyword _).bind fun _ =>
      h.nameRule.bind fun _ => h.expectSemicolon
  have keyword : Upholds P (assertAtKeyword .kwExport) :=
    (h.ask (atKeyword_answers _)).bind fun _ => .ite (.throw _) (.pure ())
  refine keyword.bind fun _ => (h.ask (kindAt_answers 1)).bind fun next => ?_
  have typed := (nthIsKeyword_answers 1 .kwType).and (nthIs_answers 2 .braceOpen)
  have spaced := (nthIsKeyword_answers 1 .kwAs).and (nthIsKeyword_answers 2 .kwNamespace)
  refine (h.ask (.or (.pure _) typed)).bind fun _ => .ite (declaration.bind fun _ => .pure _) ?_
  refine .ite ((h.exportAssignment _).bind fun _ => .pure _) ?_
  exact (h.ask spaced).bind fun _ => .ite (global.bind fun _ => .pure _) (.pure _)

/-- An import clause: a mark, a default name, and a namespace or a list of names. -/
theorem importClause : Upholds P importClause := by
  have asWord : Upholds P expectAs := (h.eatKeyword _).bind fun _ =>
    .ite (.pure _) ((Upholds.errorWith _ _).bind fun _ => .pure _)
  have specifierTyped : Upholds P specifierIsTypeOnly := by
    have renamed := (nthIsKeyword_answers 1 .kwAs).and (nthIs_answers 2 .ident).not
    exact (h.ask (atKeyword_answers _)).bind fun _ => .ite (.pure _) <|
      (h.ask (kindAt_answers 1)).bind fun _ => .ite (.pure _) <| (h.ask renamed).bind fun _ => .pure _
  have names : Upholds P specifierNames := (h.ask (nthIsKeyword_answers 1 .kwAs)).bind fun _ =>
    (h.ask (.or (.pure _) (currentIs_answers _))).bind fun _ =>
      .ite (h.bump.bind fun _ => asWord.whenever h.nameRule) h.nameRule
  have specifier : Upholds P importSpecifier := h.node (by decide) <|
    (specifierTyped.whenever (h.takeKeyword _)).bind fun _ => names
  have list : Upholds P namedImports := h.node (by decide) <| h.delimited _ <|
    h.itemTurn _ _ ((h.ask current_answers).bind fun _ => .pure _) specifier
  have space : Upholds P namespaceImport := h.node (by decide) <| h.bump.bind fun _ =>
    asWord.bind fun _ => h.nameRule
  have typed : Upholds P clauseIsTypeOnly := by
    have named := (nthIsKeyword_answers 1 .kwFrom).and (nthIs_answers 2 .stringLiteral)
    refine (h.ask (atKeyword_answers _)).bind fun _ => .ite (.pure _) ?_
    refine (h.ask (kindAt_answers 1)).bind fun kind => ?_
    split
    · exact .pure _
    · exact .pure _
    · exact (h.ask named).bind fun _ => .pure _
    · exact .pure _
  have first : Upholds P defaultImport := by
    have test := (currentIs_answers .ident).and (atKeyword_answers .kwFrom).not
    exact (h.ask test).bind fun _ =>
      .ite (h.nameRule.bind fun _ => (h.eat _).bind fun _ => .pure _) (.pure _)
  exact h.node (by decide) <| (typed.whenever (h.takeKeyword _)).bind fun _ => first.bind fun _ =>
    (h.ask (currentIs_answers _)).bind fun _ => .ite space <|
      (h.ask (currentIs_answers _)).bind fun _ => .ite list (.ite (.error _) (.pure ()))

/-- An import or an import assignment, chosen three words ahead. -/
theorem importStatement (point : Checkpoint) : Upholds P (importStatement point) := by
  have source : Upholds P importSource := (h.eatKeyword _).bind fun _ =>
    .ite h.moduleSpecifier ((h.expect _ _).bind fun _ => .pure ())
  have attributes : Upholds P importAttributes := h.bump.bind fun _ => h.bracedBody (by decide)
  have announced := ((atWord_answers "with").or (atWord_answers "assert")).and (nextIs_answers .braceOpen)
  have tail : Upholds P importTail := (h.eat _).bind fun _ =>
    .ite (h.expectSemicolon.bind fun _ => .pure ()) <| h.importClause.bind fun _ => source.bind fun _ =>
      ((h.ask announced).whenever attributes).bind fun _ => h.expectSemicolon
  have further : Upholds P referenceTurn := (h.eat _).bind fun _ => .ite
    ((h.eat _).bind fun _ => .ite (.pure _) ((Upholds.error _).bind fun _ => .pure _)) (.pure _)
  have call : Upholds P requireCall := (h.takeKeyword _).bind fun _ => h.bump.bind fun _ =>
    h.moduleSpecifier.bind fun _ => (h.expect _ _).bind fun _ => .pure ()
  have called := (atKeyword_answers .kwRequire).and (nextIs_answers .parenOpen)
  have reference : Upholds P moduleReference := h.node (by decide) <| (h.ask called).bind fun _ =>
    .ite call <| (h.eat _).bind fun _ => .ite further.repeatWhile (.error _)
  have typed := (atKeyword_answers .kwType).and (nextIs_answers .ident)
  have equals : Upholds P importEqualsTail := ((h.ask typed).whenever (h.takeKeyword _)).bind fun _ =>
    h.nameRule.bind fun _ => (h.expect _ _).bind fun _ => reference.bind fun _ => h.expectSemicolon
  have plain := (nextIs_answers .ident).and (nthIs_answers 2 .equals)
  have marked := (nthIsKeyword_answers 1 .kwType).and ((nthIs_answers 2 .ident).and (nthIs_answers 3 .equals))
  exact (h.ask (plain.or marked)).bind fun _ => .ite
    (h.nodeAt (by decide) point ((h.takeKeyword _).bind fun _ => equals))
    (h.nodeAt (by decide) point ((h.takeKeyword _).bind fun _ => tail))

/-! ### Statements -/

/-- The statements of a block, each of which upholds the property by assumption. -/
theorem moduleBlock {inner : Rule Unit} (statement : Upholds P inner) : Upholds P (moduleBlock inner) := by
  have turn : Upholds P (blockTurn inner) := (h.ask (atEnd_answers.or (currentIs_answers _))).bind fun _ =>
    .ite (.pure _) (statement.bind fun _ => .pure _)
  exact (h.assertAt _).bind fun _ => h.descend.bind fun _ => .ite (.pure ()) <|
    (h.node (by decide) (h.delimited _ turn)).bind fun _ => h.ascend

theorem moduleDeclaration {inner : Rule Unit} (statement : Upholds P inner) (point : Checkpoint) :
    Upholds P (moduleDeclaration point inner) := by
  have further : Upholds P segmentTurn := (h.eat _).bind fun _ =>
    .ite (h.nameRule.bind fun _ => .pure _) (.pure _)
  have name : Upholds P moduleName := (h.ask (currentIs_answers _)).bind fun _ =>
    .ite (h.node (by decide) h.bump) (h.nameRule.bind fun _ => further.repeatWhile)
  exact h.nodeAt (by decide) point <| h.bumpKeyword.bind fun _ => name.bind fun _ =>
    (h.ask (currentIs_answers _)).bind fun _ => .ite (h.moduleBlock statement) h.expectSemicolon

theorem globalDeclaration {inner : Rule Unit} (statement : Upholds P inner) (point : Checkpoint) :
    Upholds P (globalDeclaration point inner) :=
  h.nodeAt (by decide) point ((h.takeKeyword _).bind fun _ => h.moduleBlock statement)

/-- The keyword chooses the declaration. -/
theorem declaration {inner : Rule Unit} (statement : Upholds P inner) (point : Checkpoint)
    (isDefault : Bool) : Upholds P (declaration inner point isDefault) := by
  have follows : Upholds P bindingFollows := (h.ask (kindAt_answers 1)).bind fun _ => .pure _
  have next := h.ask (nextIs_answers .ident)
  refine (h.ask current_answers).bind fun _ => .ite (.pure _) ?_
  refine (h.ask currentText_answers).bind fun text => ?_
  cases Keyword.ofWord? text with
  | none => exact .pure _
  | some k =>
    cases k with
    | kwConst =>
      exact (h.ask (nthIsKeyword_answers 1 .kwEnum)).bind fun _ =>
        .ite ((h.enumDeclaration _).bind fun _ => .pure _) (Upholds.onlyIf follows (h.variableStatement _))
    | kwVar | kwLet => exact Upholds.onlyIf follows (h.variableStatement _)
    | kwFunction => exact Upholds.onlyIf (.pure _) (h.functionDeclaration _ _)
    | kwClass => exact Upholds.onlyIf (.pure _) (h.classDeclaration _ _)
    | kwInterface => exact Upholds.onlyIf next (h.interfaceDeclaration _)
    | kwType => exact Upholds.onlyIf next (h.typeAlias _)
    | kwEnum => exact Upholds.onlyIf next (h.enumDeclaration _)
    | kwNamespace => exact Upholds.onlyIf next (h.moduleDeclaration statement _)
    | kwModule =>
      exact (h.ask (kindAt_answers 1)).bind fun _ => Upholds.onlyIf (.pure _) (h.moduleDeclaration statement _)
    | kwGlobal => exact Upholds.onlyIf (h.ask (nextIs_answers _)) (h.globalDeclaration statement _)
    | kwImport => exact Upholds.onlyIf (.pure _) (h.importStatement _)
    | _ => exact .pure _

/-- What recovery passes over lies in one error node. -/
theorem recover (point : Checkpoint) (hasModifiers : Bool) : Upholds P (recover point hasModifiers) := by
  have complains : Upholds P (complainOfStart hasModifiers) := (h.ask (currentIs_answers _)).bind fun _ =>
    .ite (.error _) <| .ite (.error _) <| (h.ask (currentIn_answers _)).bind fun _ =>
      .ite ((h.ask currentText_answers).bind fun _ => .errorWith _ _)
        ((h.ask currentText_answers).bind fun _ => .errorWith _ _)
  have ends (block : Bool) (kind : Option TokenKind) : Upholds P (skippingEnds block kind) :=
    (Upholds.pure _).or h.atStatementStart
  have turn (block : Bool) (s : Skipping) : Upholds P (skipTurn block s) :=
    (h.ask atEnd_answers).bind fun _ => .ite (.pure _) <| (h.ask current_answers).bind fun kind =>
      ((Upholds.pure _).and (ends block kind)).bind fun _ => .ite (.pure _) <| h.bump.bind fun _ =>
        .ite (.pure _) (.pure _)
  have block : Upholds P inBlock := .get fun _ => .pure _
  exact complains.bind fun _ => h.nodeAt (by decide) point <| block.bind fun b =>
    (Upholds.loop (turn b)).bind fun _ => .pure ()

theorem modifiers : Upholds P modifiers := by
  have reads (k : Keyword) (m : Modifiers) : Upholds P (do Grammar.takeKeyword k; return Turn.again m) :=
    (h.takeKeyword k).bind fun _ => .pure _
  have default (m : Modifiers) := (atKeyword_answers .kwDefault).and (.pure m.any)
  have declares := (atKeyword_answers .kwDeclare).and (nextIs_answers .ident)
  have abstracts := (atKeyword_answers .kwAbstract).and (nthIsKeyword_answers 1 .kwClass)
  exact .loop fun m => (h.ask (atKeyword_answers _)).bind fun _ => .ite (reads _ _) <|
    (h.ask (default m)).bind fun _ => .ite (reads _ _) <| (h.ask declares).bind fun _ =>
      .ite (reads _ _) <| (h.ask abstracts).bind fun _ => .ite (reads _ _) (.pure _)

/-- Modifiers and a declaration, or recovery. -/
theorem statementAt {inner : Rule Unit} (statement : Upholds P inner) (point : Checkpoint) :
    Upholds P (statementAt inner point) := by
  have last (m : Modifiers) : Upholds P (modified inner point m) :=
    (h.declaration statement _ _).bind fun _ => .ite (.pure ()) (.ite (h.exportDefault _) (h.recover _ _))
  refine (h.ask (currentIs_answers _)).bind fun _ =>
    .ite ((h.node (by decide) h.bump).bind fun _ => .pure ()) ?_
  exact ((h.ask (atKeyword_answers _)).and (h.exportForm _)).bind fun _ =>
    .ite (.pure ()) (h.modifiers.bind last)

/-- The trivia at the end is settled without a node. -/
theorem settles : Upholds P skipAndPlaceGap := fun c => by
  intro x d run tidy
  cases run
  refine ⟨⟨tidy.complaints, tidy.lastPlace, tidy.refused⟩, rfl, fun holds => h.placeGap ?_⟩
  exact h.congr (c := c) rfl rfl rfl holds

/-- By induction on how deep blocks are nested. -/
theorem statementWithin (n : Nat) : Upholds P (statementWithin n) := by
  induction n with
  | zero => exact .throw _
  | succ n ih =>
    exact (h.settles.bind fun _ => .get fun _ => .pure _).bind fun point => h.statementAt ih point

/-- Every source keeps what all steps keep. -/
theorem source : Upholds P source := by
  have statement : Upholds P statement := .get fun c => h.statementWithin (c.total + 1)
  have turn : Upholds P sourceTurn := (h.ask atEnd_answers).bind fun _ =>
    .ite (.pure _) (statement.bind fun _ => .pure _)
  have placed : Upholds P Grammar.placeGap := fun c => Yields.modify fun tidy =>
    ⟨⟨tidy.complaints, tidy.lastPlace, tidy.refused⟩, rfl, h.placeGap⟩
  exact (h.node (by decide) (turn.repeatWhile.bind fun _ => h.settles)).bind fun _ => placed

end

end Lasting

end ImplicitGlobals.Grammar
