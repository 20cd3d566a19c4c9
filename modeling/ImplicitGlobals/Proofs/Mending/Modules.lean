import ImplicitGlobals.Proofs.Mending.Declarations

/-!
# Two runs over imports and exports

The forms of an export are told apart two words ahead. Where the word decides, the first run reads it as a
part of that form.

An import is told apart from an import assignment three words ahead, and whether `type` marks its names two
words ahead. Where the word decides, the first run comes to it.
-/

namespace ImplicitGlobals.Grammar

namespace Mending

variable {m : Mending} {α β : Type} {u v : Word} {us : List Word} {c c' d d' e e' : Cursor} {p : List Word → Prop}
  {early : Bool}

/-! ### Small parts -/

/-- The text of a module asks for no semicolon. -/
theorem moduleSpecifier_mends : m.Mends p never moduleSpecifier moduleSpecifier :=
  (Mends.eat .stringLiteral nofun).onward fun _ => .ite (fun _ => .error rfl) fun _ => .pure ()

/-- Neither does a segment of a name. -/
theorem segmentTurn_mends : m.Mends p never segmentTurn segmentTurn :=
  (Mends.eat .dot nofun).choose (Mends.nameRule.onward fun _ => .pure true) (.pure false)

/-- Nor the whole name. -/
theorem moduleName_mends : m.Mends p never moduleName moduleName :=
  .branch (currentIs_answers .stringLiteral) (currentIs_near .stringLiteral) rfl (.node .bump steady_never)
    (Mends.nameRule.onward fun _ => segmentTurn_mends.repeatWhile) (.node .bump)

/-- A name is asked for: the word is read or complained of. -/
theorem moduleName_judges : m.Judges moduleName :=
  .either (currentIs_answers .stringLiteral) (.node .bump)
    (Judges.nameRule.bind fun _ => (segmentTurn_mends (m := m)).repeatWhile.notes)

/-! ### Exports -/

/-- Behind an expression a semicolon is asked for. -/
theorem expressionTail_mends : m.Mends p m.after expressionTail expressionTail := by
  have run : m.Mends p (m.off true ()) (runOr .statementEnd .expression .expectedExpression)
      (runOr .statementEnd .expression .expectedExpression) := (runOr_parts rfl rfl).ended (by decide)
  have node : m.Mends p (m.off true ()) (node .typeExpr (runOr .statementEnd .expression .expectedExpression))
      (node .typeExpr (runOr .statementEnd .expression .expectedExpression)) := .node run steady_off
  exact node.ending

/-- So it is behind the node around the expression. -/
theorem exportDefault_mends (point point' : Checkpoint) : m.Mends p m.after (exportDefault point) (exportDefault point') :=
  .nodeAt expressionTail_mends steady_after point point'

/-- The name behind a star asks for no semicolon. -/
theorem starName_mends : m.Mends p never (whenever (eatKeyword .kwAs <&&> (!·) <$> eat .stringLiteral) nameRule)
    (whenever (eatKeyword .kwAs <&&> (!·) <$> eat .stringLiteral) nameRule) :=
  .choose ((Mends.eatKeyword .kwAs).and (Mends.eat .stringLiteral nofun).not) .nameRule (.pure ())

/-- What an export lists asks for none. -/
theorem exportedNames_mends : m.Mends p never exportedNames exportedNames :=
  (Mends.eat .star nofun).choose starName_mends (bracedBody_mends _)

/-- Something to export is asked for. -/
theorem exportedNames_judges : m.Judges exportedNames :=
  .eaten (eat_yields .star) (starName_mends (m := m)).notes (bracedBody_judges _)

/-- The module behind `from` asks for none. -/
theorem exportSource_mends : m.Mends p never (whenever (eatKeyword .kwFrom) moduleSpecifier)
    (whenever (eatKeyword .kwFrom) moduleSpecifier) := (Mends.eatKeyword .kwFrom).choose moduleSpecifier_mends (.pure ())

/-- What comes behind the names of an export. -/
theorem exportRest_mends : m.Mends p m.after (do whenever (eatKeyword .kwFrom) moduleSpecifier; expectSemicolon)
    (do whenever (eatKeyword .kwFrom) moduleSpecifier; expectSemicolon) :=
  exportSource_mends.onward fun _ => expectSemicolon_mends

/-- The forms of an export that are no modifiers. -/
inductive ExportForm where
  | names
  | assignment
  | asNamespace

/-- The rule of a form. -/
def ExportForm.rule : ExportForm → Checkpoint → Rule Unit
  | names => exportDeclaration
  | assignment => exportAssignment
  | asNamespace => namespaceExport

/-- The form that an export takes, judged by the two words behind it. -/
def exportFormOf (ws : List Word) : Option ExportForm :=
  if (kindIn ws 1 == some .braceOpen || kindIn ws 1 == some .star) ||
      (spells ws 1 Keyword.kwType.word && kindIn ws 2 == some .braceOpen) then some .names
  else if kindIn ws 1 == some .equals then some .assignment
  else if spells ws 1 Keyword.kwAs.word && spells ws 2 Keyword.kwNamespace.word then some .asNamespace
  else none

/-- What comes behind `as` in `export as namespace X;`. -/
theorem asNamespace_judges : m.Judges (do takeKeyword .kwNamespace; nameRule; expectSemicolon) :=
  (Judges.takeAs _).bind fun _ => (Mends.nameRule (p := Anywhere).onward fun _ => expectSemicolon_mends (m := m)).left

/-- What comes behind the keyword, or behind `type`. -/
theorem exportNames_judges :
    m.Judges (do exportedNames; whenever (eatKeyword .kwFrom) moduleSpecifier; expectSemicolon) :=
  exportedNames_judges.bind fun _ => (exportRest_mends (m := m)).notes

/-- Each form of an export comes out as a declaration does. -/
theorem ExportForm.rule_declares (f : ExportForm) (point point' : Checkpoint) :
    m.Declares True (f.rule point) (f.rule point') := by
  cases f with
  | names =>
    have behind : m.Mends Anywhere m.after _ _ := exportedNames_mends.onward fun _ => exportRest_mends
    exact .of (takeKeyword_heads _) ((Mends.eatKeyword .kwType).onward fun _ => behind)
      (fun _ => .ate (eatKeyword_yields _) behind.left exportNames_judges) point point'
  | assignment =>
    exact .of (takeKeyword_heads _) (Mends.bump.onward fun _ => expressionTail_mends)
      (fun _ => Judges.bump.bind fun _ => (expressionTail_mends (m := m)).notes) point point'
  | asNamespace =>
    have behind : m.Mends Anywhere m.after _ _ := (Mends.takeKeyword .kwNamespace).onward fun _ =>
      Mends.nameRule.onward fun _ => expectSemicolon_mends
    exact .of (takeKeyword_heads _) ((Mends.takeKeyword .kwAs).onward fun _ => behind)
      (fun _ => (Judges.takeAs _).bind fun _ => behind.left) point point'

/-- Which form is read, and that nothing is read of another one. -/
theorem exportForm_steps (point : Checkpoint) (c : Cursor) : Yields (exportForm point) c fun x d =>
    spells c.rest 0 Keyword.kwExport.word = true ∧ ∃ e, Same c e ∧
      match exportFormOf c.rest with
      | some f => x = true ∧ (f.rule point).run e = .ok ((), d)
      | none => x = false ∧ d = e := by
  refine ((atKeyword_answers .kwExport c).bind fun b d post => ?_ : Yields (assertAtKeyword .kwExport) c fun _ d =>
    spells c.rest 0 Keyword.kwExport.word = true ∧ Same c d).bind fun _ d post => ?_
  · refine .ite (fun _ => .throw _) fun found => .pure ⟨?_, post.2⟩
    exact post.1.symm.trans (by simpa using found)
  obtain ⟨announced, same⟩ := post
  have names (e : Cursor) := (Answers.pure (kindIn c.rest 1 == some .braceOpen || kindIn c.rest 1 == some .star)).or
    ((nthIsKeyword_answers 1 .kwType).and (nthIs_answers 2 .braceOpen)) e
  have spaces := (nthIsKeyword_answers 1 .kwAs).and (nthIsKeyword_answers 2 .kwNamespace)
  have reads (f : ExportForm) (e : Cursor) (whole : Same c e) (form : exportFormOf c.rest = some f) :
      Yields (do f.rule point; return true) e fun x d => spells c.rest 0 Keyword.kwExport.word = true ∧ ∃ e, Same c e ∧
        match exportFormOf c.rest with
        | some f => x = true ∧ (f.rule point).run e = .ok ((), d)
        | none => x = false ∧ d = e := by
    refine Yields.bind (P := fun _ d => (f.rule point).run e = .ok ((), d)) (fun _ _ run => run) fun _ g run => .pure ?_
    rw [form]
    exact ⟨announced, e, whole, rfl, run⟩
  -- The forms in the order in which the rule asks for them.
  refine (kindAt_answers 1 d).bind fun next e post => ?_
  obtain ⟨found, same'⟩ := post
  obtain rfl : next = kindIn c.rest 1 := found.trans (congrArg (kindIn · 1) same.stays.rest)
  replace same := same.trans same'
  refine (names e).bind fun b f post => ?_
  obtain ⟨found, same'⟩ := post
  rw [same.stays.rest] at found
  replace same := same.trans same'
  by_cases first : b = true
  · rw [if_pos first]
    exact reads .names f same (if_pos (found.symm.trans first))
  rw [if_neg first]
  replace first := fun yes => first (found.trans yes)
  refine .ite (fun equals => ?_) fun unequal => ?_
  · exact reads .assignment f same ((if_neg first).trans (if_pos equals))
  refine (spaces f).bind fun b g post => ?_
  obtain ⟨found, same'⟩ := post
  rw [same.stays.rest] at found
  replace same := same.trans same'
  refine .ite (fun named => ?_) fun unnamed => .pure ?_
  · exact reads .asNamespace g same ((if_neg first).trans ((if_neg unequal).trans (if_pos (found.symm.trans named))))
  · have form : exportFormOf c.rest = none :=
      (if_neg first).trans ((if_neg unequal).trans (if_neg fun yes => unnamed (found.trans yes)))
    rw [form]
    exact ⟨announced, g, same, rfl, rfl⟩

/-! ### Where the word decides on the form -/

/-- Which form it is shows in the first three words. -/
theorem exportFormOf_near : Near 2 exportFormOf := fun us xs ys far => by
  have next : kindIn (us ++ xs) 1 = kindIn (us ++ ys) 1 := near_kindIn 1 us xs ys (by omega)
  have second : kindIn (us ++ xs) 2 = kindIn (us ++ ys) 2 := near_kindIn 2 us xs ys far
  have spelled (text : String) : spells (us ++ xs) 1 text = spells (us ++ ys) 1 text :=
    near_spells 1 text us xs ys (by omega)
  have spelled' (text : String) : spells (us ++ xs) 2 text = spells (us ++ ys) 2 text := near_spells 2 text us xs ys far
  simp only [exportFormOf, next, second, spelled, spelled']

/-- The semicolon is no part of a form. Where it makes a difference, the first run reads the word in the form that
it takes. -/
theorem exportForm_decides (some : us ≠ []) (differs : exportFormOf (us ++ m.ahead) ≠ exportFormOf (us ++ m.ahead'))
    (point : Checkpoint) : ∃ f, exportFormOf (us ++ m.ahead) = .some f ∧ m.Decides us (f.rule point) := by
  -- The form is told from three words, so the semicolon comes after one or two of them.
  match us, some, exportFormOf_near.length_le differs with
  | [u], _, _ =>
    have none : exportFormOf ([u] ++ m.ahead') = none := by
      simp [exportFormOf, ahead', semicolon, kindIn, spells, Word.isWord]
    rw [none] at differs
    obtain ⟨f, form⟩ := Option.ne_none_iff_exists'.1 differs
    exact ⟨f, form, (f.rule_declares point point).decides trivial u⟩
  | [u, v], _, _ =>
    have braces : kindIn ([u, v] ++ m.ahead') 2 = .some .semicolon := rfl
    have named : spells ([u, v] ++ m.ahead') 2 Keyword.kwNamespace.word = false := rfl
    have next : kindIn ([u, v] ++ m.ahead') 1 = kindIn ([u, v] ++ m.ahead) 1 := rfl
    have spelled (text : String) : spells ([u, v] ++ m.ahead') 1 text = spells ([u, v] ++ m.ahead) 1 text := rfl
    have form : exportFormOf ([u, v] ++ m.ahead) ≠ exportFormOf ([u, v] ++ m.ahead') := differs
    simp only [exportFormOf, braces, named, next, spelled] at differs
    simp only [exportFormOf]
    split at differs
    · next first =>
      rw [if_pos first]
      refine ⟨_, rfl, ?_⟩
      have typed : v.isWord Keyword.kwType.word = true := by
        have typed : spells ([u, v] ++ m.ahead) 1 Keyword.kwType.word = true := by
          by_contra untyped
          simp_all
        exact typed
      exact .nodeAt (.take (.eatKeyword typed exportNames_judges)) point
    · next other =>
      rw [if_neg other]
      by_cases equals : (kindIn ([u, v] ++ m.ahead) 1 == .some .equals) = true
      · simp_all
      rw [if_neg equals]
      by_cases spaced : (spells ([u, v] ++ m.ahead) 1 Keyword.kwAs.word &&
          spells ([u, v] ++ m.ahead) 2 Keyword.kwNamespace.word) = true
      · rw [if_pos spaced]
        exact ⟨_, rfl, .nodeAt (.take (.take asNamespace_judges)) point⟩
      · simp_all

/-- A question that is settled stays settled under other answers. -/
theorem Settled.answer {x : α} {y : β} (h : m.Settled x x d d') : m.Settled y y d d' :=
  h.imp id (.imp id fun mended => mended.imp fun _ rest => rest.imp fun _ rest =>
    ⟨rest.1, rest.2.1, rest.2.2.1, rest.2.2.2.1, fun begins => ⟨rfl, (rest.2.2.2.2 begins).2⟩⟩)

/-- Behind a form both runs have read it, or the question is settled. -/
theorem exportForm_mends (point point' : Checkpoint) :
    m.Mends p (fun x y d d' => x = true ∧ y = true ∧ m.after () () d d') (exportForm point) (exportForm point') where
  left := @GrammarRelation.exportForm noting Anywhere point point trivial
  right := @GrammarRelation.exportForm noting Anywhere point' point' trivial
  shifts i old old' := (shifting i old old').exportForm (p := Anywhere) trivial
  goes us c c' twin _ := by
    refine Yields.imp ((exportForm_steps point c).both (exportForm_steps point' c')) fun x d post => ?_
    refine post.imp fun y d' posts => ?_
    obtain ⟨⟨-, e, same, read⟩, announced, e', same', read'⟩ := posts
    rw [twin.rest'] at announced read'
    rw [twin.rest] at read
    have some : us ≠ [] := fun none => by
      rw [none] at announced
      exact Bool.false_ne_true announced
    have twin := twin.same same same'
    by_cases alike : exportFormOf (us ++ m.ahead) = exportFormOf (us ++ m.ahead')
    · rw [← alike] at read'
      cases form : exportFormOf (us ++ m.ahead) with
      | none =>
        rw [form] at read read'
        obtain ⟨rfl, rfl⟩ := read
        obtain ⟨rfl, rfl⟩ := read'
        exact .inl ⟨rfl, us, twin⟩
      | some f =>
        rw [form] at read read'
        obtain ⟨rfl, run⟩ := read
        obtain ⟨rfl, run'⟩ := read'
        rcases (f.rule_declares point point').goes us e e' twin trivial () d run () d' run' with both | settled | after
        · exact .inl ⟨rfl, both.2⟩
        · exact .inr (.inl settled.answer)
        · exact .inr (.inr ⟨rfl, rfl, after⟩)
    · obtain ⟨f, form, decides⟩ := exportForm_decides some alike point
      rw [form] at read
      exact .inr (.inl (.inl (decides e twin.toBefore () d read.2)))

/-- At the word a form reads it, or nothing is read. -/
theorem exportForm_word (before : m.Before [] c) (point : Checkpoint) : Yields (exportForm point) c fun x d =>
    d.Silent m.place ∨ x = false ∧ m.Before [] d := by
  refine (exportForm_steps point c).imp fun x d post => ?_
  obtain ⟨-, e, same, read⟩ := post
  cases form : exportFormOf c.rest with
  | none =>
    rw [form] at read
    obtain ⟨rfl, rfl⟩ := read
    exact .inr ⟨rfl, before.same same⟩
  | some f =>
    rw [form] at read
    exact .inl ((f.rule_declares point point).reads e (before.same same) () d read.2)

/-- One word before the word a form reads up to it, or nothing is read. -/
theorem exportForm_next (before : m.Before [u] c) (point : Checkpoint) : Yields (exportForm point) c fun x d =>
    d.Judged m.place ∨ x = false ∧ m.Before [u] d := by
  refine (exportForm_steps point c).imp fun x d post => ?_
  obtain ⟨-, e, same, read⟩ := post
  cases form : exportFormOf c.rest with
  | none =>
    rw [form] at read
    obtain ⟨rfl, rfl⟩ := read
    exact .inr ⟨rfl, before.same same⟩
  | some f =>
    rw [form] at read
    exact .inl ((f.rule_declares point point).decides trivial u e (before.same same) () d read.2)

/-! ### Import specifiers -/

/-- Where a test is answered differently in front of the word, `split` says how the
first run goes on. -/
theorem Drifts.askAhead {t : Rule α} {v : List Word → Option Limit → α} {f g : α → Rule β} (answers : Answers t v)
    (next : ∀ x, m.Drifts early (f x) (g x))
    (split : ∀ us c, us ≠ [] → m.Before us c → v (us ++ m.ahead) none ≠ v (us ++ m.ahead') none →
      Yields (f (v (us ++ m.ahead) none)) c fun _ d => d.Judged m.place ∨ m.Adrift early d) :
    m.Drifts early (t >>= f) (t >>= g) where
  toMends := .ask answers (fun x => (next x).toMends.given fun _ _ => trivial) fun us c c' twin _ differs => by
    cases us with
    | nil => exact .alone ((next _).toRests.adrift (.inl twin.toBefore)) fun _ _ _ _ => id
    | cons u us =>
      exact .alone (split (u :: us) c (List.cons_ne_nil u us) twin.toBefore differs)
        fun _ _ _ _ => id
  rests := ((Rests.answers answers).bind fun x => (next x).toRests).rests

/-- The word `as` is read or complained of. -/
theorem expectAs_mends : m.Mends p never expectAs expectAs :=
  (Mends.eatKeyword .kwAs).choose (.pure true) ((Mends.errorWith rfl _).onward fun _ => .pure false)

/-- In neither case is it said that a semicolon is missing. -/
theorem expectAs_rests : m.Rests expectAs :=
  (Rests.eatKeyword .kwAs).bind fun _ => .ite (.pure true) ((Rests.errorWith rfl _).bind fun _ => .pure false)

/-- A renaming may be begun where the first run is adrift. -/
theorem renaming_drifts : m.Drifts early (do bump; whenever expectAs nameRule) (do bump; whenever expectAs nameRule) := by
  refine .of (Mends.bump.onward fun _ => expectAs_mends.choose .nameRule (.pure ())) ?_
  refine Rests.bump.bind fun _ => ?_
  refine expectAs_rests.bind fun _ => ?_
  exact .ite .nameRule (.pure ())

/-- So may the names of a specifier. -/
theorem specifierNames_drifts : m.Drifts early specifierNames specifierNames := by
  have names (renamed : Bool) : m.Drifts early
      (do if ← pure renamed <||> currentIs .stringLiteral then (do bump; whenever expectAs nameRule) else nameRule)
      (do if ← pure renamed <||> currentIs .stringLiteral then (do bump; whenever expectAs nameRule) else nameRule) :=
    .choose ((Answers.pure renamed).or (currentIs_answers .stringLiteral))
      (.or (fun _ _ _ _ => rfl) (currentIs_near .stringLiteral)) renaming_drifts .nameRule
  refine .askNext (nthIsKeyword_answers 1 .kwAs) (near_spells 1 _) names fun u c before differs => ?_
  rw [eq_true_of_differs rfl differs]
  refine ((Answers.pure true).or (currentIs_answers .stringLiteral) c).bind fun b d post => ?_
  obtain ⟨rfl, same⟩ := post
  refine (before.same same).bump.bind fun _ e before => ?_
  exact (expectAs_rests.bind fun _ => Rests.ite .nameRule (.pure ())).adrift (.inl before)

/-- A name is read. -/
theorem specifierNames_reads (ident : u.kind = .ident) (before : m.Before [u] c) :
    Yields specifierNames c fun _ d => d.Judged m.place ∨ m.Adrift early d := by
  refine (nthIsKeyword_answers 1 .kwAs c).bind fun renamed d post => ?_
  refine ((Answers.pure renamed).or (currentIs_answers .stringLiteral) d).bind fun b e post' => ?_
  have before := (before.same post.2).same post'.2
  cases b with
  | true =>
    refine before.bump.bind fun _ e before => ?_
    exact (expectAs_rests.bind fun _ => Rests.ite .nameRule (.pure ())).adrift (.inl before)
  | false => exact (before.nameRule ident).imp fun _ _ before => .inr (.inl before)

/-- Whether `type` as the first of the words marks an import specifier as type-only. -/
def marksSpecifier (ws : List Word) : Bool :=
  spells ws 0 Keyword.kwType.word &&
    if kindIn ws 1 != some .ident && kindIn ws 1 != some .stringLiteral then false
    else !(spells ws 1 Keyword.kwAs.word && !(kindIn ws 2 == some .ident))

/-- Whether `type` marks a specifier, as a question about the words. -/
theorem specifierIsTypeOnly_marks : Answers specifierIsTypeOnly fun ws _ => marksSpecifier ws :=
  (atKeyword_answers .kwType).guarded <| (kindAt_answers 1).bind fun next =>
    .ite (p := (next != some .ident && next != some .stringLiteral) = true) (.pure false)
      ((nthIsKeyword_answers 1 .kwAs).and (nthIs_answers 2 .ident).not).not

/-- It shows in the first three words. -/
theorem marksSpecifier_near : Near 2 marksSpecifier := fun us xs ys far => by
  have next : kindIn (us ++ xs) 1 = kindIn (us ++ ys) 1 := near_kindIn 1 us xs ys (by omega)
  have second : kindIn (us ++ xs) 2 = kindIn (us ++ ys) 2 := near_kindIn 2 us xs ys far
  have first : spells (us ++ xs) 0 Keyword.kwType.word = spells (us ++ ys) 0 _ := near_spells 0 _ us xs ys (by omega)
  have named : spells (us ++ xs) 1 Keyword.kwAs.word = spells (us ++ ys) 1 _ := near_spells 1 _ us xs ys (by omega)
  simp only [marksSpecifier, next, second, first, named]

/-- The semicolon makes a difference only where the word shows that the specifier is type-only. -/
theorem marksSpecifier_differs (some : us ≠ [])
    (differs : marksSpecifier (us ++ m.ahead) ≠ marksSpecifier (us ++ m.ahead')) :
    marksSpecifier (us ++ m.ahead) = true ∧ ∃ u vs, us = u :: vs ∧ (vs = [] ∨ ∃ v, vs = [v] ∧ v.kind = .ident) := by
  match us, some, marksSpecifier_near.length_le differs with
  | [u], _, _ =>
    have plain : marksSpecifier ([u] ++ m.ahead') = false := by
      simp [marksSpecifier, ahead', semicolon, kindIn]
    exact ⟨eq_true_of_differs plain differs, u, [], rfl, .inl rfl⟩
  | [u, v], _, _ =>
    have second : kindIn (u :: v :: m.ahead') 2 = .some .semicolon := rfl
    have next : kindIn (u :: v :: m.ahead') 1 = kindIn (u :: v :: m.ahead) 1 := rfl
    have first (text : String) : spells (u :: v :: m.ahead') 0 text = spells (u :: v :: m.ahead) 0 text := rfl
    have behind (text : String) : spells (u :: v :: m.ahead') 1 text = spells (u :: v :: m.ahead) 1 text := rfl
    have named : spells (u :: v :: m.ahead) 1 Keyword.kwAs.word = true := by
      by_contra other
      exact differs (by simp [marksSpecifier, next, first, behind, other])
    have plain : marksSpecifier (u :: v :: m.ahead') = false := by
      simp [marksSpecifier, second, next, behind, named]
    exact ⟨eq_true_of_differs plain differs, u, [v], rfl, .inr ⟨v, rfl, Option.some.inj (kindIn_of_spells named)⟩⟩

/-- A specifier may be begun where the first run is adrift. -/
theorem importSpecifier_drifts : m.Drifts early importSpecifier importSpecifier := by
  have names (typed : Bool) : m.Drifts early (do whenever (pure typed) (takeKeyword .kwType); specifierNames)
      (do whenever (pure typed) (takeKeyword .kwType); specifierNames) :=
    (Drifts.choose (.pure typed) (fun _ _ _ _ => rfl) (.takeKeyword _) (.pure ())).bind fun _ => specifierNames_drifts
  unfold importSpecifier
  rw [whenever_bind]
  refine .node (.askAhead specifierIsTypeOnly_marks names fun us c some before differs => ?_)
  obtain ⟨marked, u, vs, rfl, behind⟩ := marksSpecifier_differs some differs
  rw [marked]
  refine (before.take _).bind fun _ d before => ?_
  rcases behind with rfl | ⟨v, rfl, ident⟩
  · exact (@specifierNames_drifts m early).toRests.adrift (.inl before)
  · exact specifierNames_reads ident before

/-- So may one turn of their list, behind a run that did not end early. -/
theorem importTurn_drifts : m.Drifts false importTurn importTurn :=
  itemTurn_drifts (current_answers.bind fun kind => .pure (startsSpecifier kind))
    ((near_kindIn 0).map startsSpecifier) importSpecifier_drifts

/-- The braces of a list are no ends of a statement. -/
theorem importMarks_closable : Closable importMarks := ⟨nofun, nofun, rfl⟩

/-! ### Import clauses -/

/-- A list of imports asks for no semicolon. -/
theorem namedImports_mends : m.Mends p never namedImports namedImports :=
  .node ((importTurn_drifts.delimited_off importMarks_closable).imp fun _ _ _ _ off => absurd off.2.1 Bool.false_ne_true)
    steady_never

/-- Its opening brace is read, so the word is. -/
theorem namedImports_judges : m.Judges namedImports := .node (importTurn_drifts.delimited_judges importMarks_closable)

/-- A star import asks for no semicolon. -/
theorem namespaceImport_mends : m.Mends p never namespaceImport namespaceImport :=
  .node (Mends.bump.onward fun _ => expectAs_mends.onward fun _ => .nameRule) steady_never

/-- Its star is read. -/
theorem namespaceImport_judges : m.Judges namespaceImport :=
  .node (Judges.bump.bind fun _ => (expectAs_rests.bind fun _ => Rests.nameRule (m := m)).left)

/-- Whether there is a default name shows in the current word. -/
theorem hasDefault_answers : Answers (currentIs .ident <&&> (!·) <$> atKeyword .kwFrom) fun ws _ =>
    kindIn ws 0 == some .ident && !spells ws 0 Keyword.kwFrom.word :=
  (currentIs_answers .ident).and (atKeyword_answers .kwFrom).not

/-- A default name asks for no semicolon. -/
theorem defaultImport_mends : m.Mends p never defaultImport defaultImport :=
  .branch hasDefault_answers (.and (currentIs_near .ident) ((near_spells 0 _).map (!·))) rfl
    (Mends.nameRule.onward fun _ => (Mends.eat .comma nofun).onward fun _ => .pure true) (.pure false)
    (Judges.nameRule.bind fun _ => ((Rests.eat (m := m) .comma).bind fun _ => .pure true).left)

/-- Nor does what stands behind it. -/
theorem furtherImports_mends (hasDefault : Bool) :
    m.Mends p never (furtherImports hasDefault) (furtherImports hasDefault) :=
  .branch (currentIs_answers .star) (currentIs_near .star) rfl namespaceImport_mends
    (.branch (currentIs_answers .braceOpen) (currentIs_near .braceOpen) rfl namedImports_mends
      (.ite (fun _ => .error rfl) fun _ => .pure ()) namedImports_judges) namespaceImport_judges

/-- The bindings of an import behind `type`. -/
theorem bindings_mends : m.Mends p never (defaultImport >>= furtherImports) (defaultImport >>= furtherImports) :=
  defaultImport_mends.onward furtherImports_mends

/-- One of the two is there or complained of. -/
theorem bindings_judges : m.Judges (defaultImport >>= furtherImports) := by
  have further : m.Judges (furtherImports false) :=
    .either (currentIs_answers .star) namespaceImport_judges <|
      .either (currentIs_answers .braceOpen) namedImports_judges (.error _)
  have named : m.Judges (do nameRule; let _ ← eat .comma; return true) :=
    Judges.nameRule.bind fun _ => ((Rests.eat (m := m) .comma).bind fun _ => .pure true).left
  rw [defaultImport, bind_assoc]
  refine .look (fun c => (hasDefault_answers c).imp fun _ _ post => post.2) fun found => ?_
  cases found with
  | true => exact named.bind fun hasDefault => (furtherImports_mends (m := m) hasDefault).notes
  | false => exact further

/-! ### Where the word decides -/

/-- Whether `type` as the first of the words marks an import clause as type-only. -/
def marksClause (ws : List Word) : Bool :=
  spells ws 0 Keyword.kwType.word &&
    match kindIn ws 1 with
    | some .braceOpen | some .star => true
    | some .ident => !(spells ws 1 Keyword.kwFrom.word && kindIn ws 2 == some .stringLiteral)
    | _ => false

/-- Whether `type` marks a clause, as a question about the words. -/
theorem clauseIsTypeOnly_marks : Answers clauseIsTypeOnly fun ws _ => marksClause ws := by
  refine (atKeyword_answers .kwType).guarded (Answers.bind (u := fun next ws _ => match next with
    | some .braceOpen | some .star => true
    | some .ident => !(spells ws 1 Keyword.kwFrom.word && kindIn ws 2 == some TokenKind.stringLiteral)
    | _ => false) (kindAt_answers 1) fun next => ?_)
  cases next with
  | none => exact .pure false
  | some kind =>
    cases kind with
    | ident => exact ((nthIsKeyword_answers 1 .kwFrom).and (nthIs_answers 2 .stringLiteral)).not
    | _ => exact .pure _

/-- It shows in the first three words. -/
theorem marksClause_near : Near 2 marksClause := fun us xs ys far => by
  have next : kindIn (us ++ xs) 1 = kindIn (us ++ ys) 1 := near_kindIn 1 us xs ys (by omega)
  have second : kindIn (us ++ xs) 2 = kindIn (us ++ ys) 2 := near_kindIn 2 us xs ys far
  have first : spells (us ++ xs) 0 Keyword.kwType.word = spells (us ++ ys) 0 _ := near_spells 0 _ us xs ys (by omega)
  have named : spells (us ++ xs) 1 Keyword.kwFrom.word = spells (us ++ ys) 1 _ := near_spells 1 _ us xs ys (by omega)
  simp only [marksClause, next, second, first, named]

/-- The run stands at `from` in front of the word. -/
def AtFrom (m : Mending) (d : Cursor) : Prop := ∃ u, u.isWord Keyword.kwFrom.word = true ∧ m.Before [u] d

/-- In front of a string `type from` is no mark. -/
theorem marksClause_differs (differs : marksClause (us ++ m.ahead) ≠ marksClause (us ++ m.ahead')) :
    us = [] ∧ marksClause m.ahead = true ∨ (∃ u, us = [u] ∧ marksClause (u :: m.ahead) = true) ∨
      ∃ u v, us = [u, v] ∧ u.isWord Keyword.kwType.word = true ∧ v.isWord Keyword.kwFrom.word = true ∧
        marksClause (u :: v :: m.ahead) = false := by
  match us, marksClause_near.length_le differs with
  | [], _ => exact .inl ⟨rfl, eq_true_of_differs rfl differs⟩
  | [u], _ => exact .inr (.inl ⟨u, rfl, eq_true_of_differs (Bool.and_false _) differs⟩)
  | [u, v], _ =>
    have next : kindIn (u :: v :: m.ahead') 1 = kindIn (u :: v :: m.ahead) 1 := rfl
    have second : kindIn (u :: v :: m.ahead') 2 = some .semicolon := rfl
    have first (text : String) : spells (u :: v :: m.ahead') 0 text = spells (u :: v :: m.ahead) 0 text := rfl
    have behind (text : String) : spells (u :: v :: m.ahead') 1 text = spells (u :: v :: m.ahead) 1 text := rfl
    have typed : spells (u :: v :: m.ahead) 0 Keyword.kwType.word = true := by
      by_contra other
      exact differs (by simp [marksClause, first, other])
    have named : spells (u :: v :: m.ahead) 1 Keyword.kwFrom.word = true := by
      by_contra other
      exact differs (by simp [marksClause, first, behind, next, other])
    have ident : kindIn (u :: v :: m.ahead) 1 = some .ident := kindIn_of_spells named
    have marked : marksClause (u :: v :: m.ahead') = true := by
      simp [marksClause, first, next, second, typed, ident]
    exact .inr (.inr ⟨u, v, rfl, typed, named, eq_false_of_ne_true fun other => differs (other.trans marked.symm)⟩)

/-- The name `type` is read as a default binding, and nothing behind it. -/
theorem bindings_named (typed : u.isWord Keyword.kwType.word = true) (named : v.isWord Keyword.kwFrom.word = true)
    (before : m.Before [u, v] c) : Yields (defaultImport >>= furtherImports) c fun _ d => AtFrom m d := by
  have ident {w : Word} {text : String} (is : w.isWord text = true) : w.kind = .ident :=
    beq_iff_eq.1 (Bool.and_eq_true_iff.1 is).1
  have other {kind : TokenKind} (punctuation : kind ≠ .ident) : v.kind ≠ kind := fun is =>
    punctuation (is.symm.trans (ident named))
  have reads : Yields defaultImport c fun hasDefault d => hasDefault = true ∧ m.Before [v] d := by
    refine (before.tests hasDefault_answers).bind fun b d post => ?_
    obtain ⟨rfl, before⟩ := post
    have found : (kindIn ([u, v] ++ m.ahead) 0 == some .ident &&
        !spells ([u, v] ++ m.ahead) 0 Keyword.kwFrom.word) = true := by
      simp_all [kindIn, spells, Word.isWord, Keyword.word]
    refine .ite (fun _ => ?_) fun none => absurd found none
    refine (before.nameRule (ident typed)).bind fun _ d before => ?_
    have behind : Yields (eat .comma) d fun _ e => m.Before [v] e := by
      refine (before.lacks (other (by decide))).bind fun b e post => ?_
      obtain ⟨rfl, before⟩ := post
      exact .pure before
    exact behind.bind fun _ e before => .pure ⟨rfl, before⟩
  refine reads.bind fun hasDefault d post => ?_
  obtain ⟨rfl, before⟩ := post
  refine (before.lacks (other (by decide))).bind fun b d post => ?_
  obtain ⟨rfl, before⟩ := post
  refine (before.lacks (other (by decide))).bind fun b d post => ?_
  obtain ⟨rfl, before⟩ := post
  exact .pure ⟨v, named, before⟩

/-- A clause may end before its `from`, which is then the word before. -/
theorem importClause_mends : m.Mends p (fun _ _ d _ => AtFrom m d) importClause importClause := by
  have rest (typed : Bool) : m.Mends p (fun _ _ d _ => AtFrom m d)
      (do whenever (pure typed) (takeKeyword .kwType); defaultImport >>= furtherImports)
      (do whenever (pure typed) (takeKeyword .kwType); defaultImport >>= furtherImports) :=
    ((Mends.pure typed).whenever (.takeKeyword .kwType)).onward fun _ => bindings_mends.only
  have steady : Steady fun _ _ d _ => AtFrom m d := fun _ _ _ _ stands left _ =>
    stands.imp fun _ stands => ⟨stands.1, stands.2.stays left⟩
  unfold importClause
  rw [whenever_bind]
  refine .node (.ask clauseIsTypeOnly_marks (fun typed => (rest typed).given fun _ both => both.1) ?_) steady
  intro us c c' twin _ differs
  rcases marksClause_differs differs with ⟨rfl, marked⟩ | ⟨u, rfl, marked⟩ | ⟨u, v, rfl, typed, named, unmarked⟩
  · have reads : m.Judges (do whenever (pure true) (takeKeyword .kwType); defaultImport >>= furtherImports) :=
      (Judges.takeAs _).bind fun _ => (bindings_mends (m := m)).notes
    exact .judged (marked ▸ reads c twin.toBefore)
  · have reads : m.Decides [u] (do whenever (pure true) (takeKeyword .kwType); defaultImport >>= furtherImports) :=
      .take bindings_judges
    exact .judged (marked ▸ reads c twin.toBefore)
  · exact .alone (unmarked ▸ bindings_named typed named twin.toBefore) fun _ _ _ _ => .inr

/-! ### Import declarations -/

/-- A text is asked for. -/
theorem moduleSpecifier_judges : m.Judges moduleSpecifier :=
  .ate (eat_yields .stringLiteral) ((Rests.ite (m := m) (.error rfl) (.pure ())).left) (.error _)

/-- The source of an import asks for no semicolon. -/
theorem importSource_mends : m.Mends p never importSource importSource :=
  (Mends.eatKeyword .kwFrom).choose moduleSpecifier_mends ((Mends.expect .ident nofun _).onward fun _ => .pure ())

/-- Its `from` decides the word behind it, which has to be a text. -/
theorem importSource_decides (named : u.isWord Keyword.kwFrom.word = true) : m.Decides [u] importSource :=
  fun _ before => (before.eatKeyword named).bind fun b d post => by
    obtain ⟨rfl, before⟩ := post
    exact moduleSpecifier_judges d before

/-- Whether attributes come next. -/
def attributesFollow (ws : List Word) : Bool :=
  (spells ws 0 "with" || spells ws 0 "assert") && kindIn ws 1 == some .braceOpen

/-- Whether attributes follow shows in two words. -/
theorem attributesFollow_answers :
    Answers ((atWord "with" <||> atWord "assert") <&&> nextIs .braceOpen) fun ws _ => attributesFollow ws :=
  ((atWord_answers "with").or (atWord_answers "assert")).and (nextIs_answers .braceOpen)

/-- Attributes ask for no semicolon. -/
theorem importAttributes_mends : m.Mends p never importAttributes importAttributes :=
  Mends.bump.onward fun _ => bracedBody_mends _

/-- Attributes, and the end of the import. -/
theorem importRest_mends : m.Mends p m.after
    (do whenever ((atWord "with" <||> atWord "assert") <&&> nextIs .braceOpen) importAttributes; expectSemicolon)
    (do whenever ((atWord "with" <||> atWord "assert") <&&> nextIs .braceOpen) importAttributes; expectSemicolon) := by
  have rest (found : Bool) : m.Mends p m.after (do whenever (pure found) importAttributes; expectSemicolon)
      (do whenever (pure found) importAttributes; expectSemicolon) :=
    ((Mends.pure found).whenever importAttributes_mends).onward fun _ => expectSemicolon_mends
  have ends : Trails Notes expectSemicolon := (expectSemicolon_mends (m := m)).notes
  have near : Near 1 attributesFollow :=
    .and (.mono (.or (near_spells 0 _) (near_spells 0 _)) (Nat.zero_le 1)) ((near_kindIn 1).map (· == some .braceOpen))
  rw [whenever_bind]
  refine .askNext attributesFollow_answers near rfl (fun _ => Bool.and_false _) rest ?_ fun u => ?_
  · exact (Judges.bump.bind fun _ => (bracedBody_rests (m := m) _).left).bind fun _ => ends
  · exact (Decides.bump (bracedBody_judges _)).bind fun _ => ends

/-- Behind an import a semicolon is asked for. -/
theorem importTail_mends : m.Mends p m.after importTail importTail := by
  refine (Mends.eat .stringLiteral nofun).choose expectSemicolon_mends.quit ?_
  have rest : m.Mends Anywhere m.after
      (do
        importSource
        whenever ((atWord "with" <||> atWord "assert") <&&> nextIs .braceOpen) importAttributes
        expectSemicolon)
      (do
        importSource
        whenever ((atWord "with" <||> atWord "assert") <&&> nextIs .braceOpen) importAttributes
        expectSemicolon) := importSource_mends.onward fun _ => importRest_mends
  refine importClause_mends.bind (fun _ => rest) fun _ _ d _ stands => ?_
  obtain ⟨u, named, before⟩ := stands
  exact .judged (((importSource_decides named).bind fun _ => (importRest_mends (m := m)).notes) d before)

/-- A clause is asked for. -/
theorem importClause_judges : m.Judges importClause := by
  have typed (typed : Bool) : m.Judges (do whenever (pure typed) (takeKeyword .kwType); defaultImport >>= furtherImports) := by
    cases typed with
    | true => exact (Judges.takeAs _).bind fun _ => (bindings_mends (m := m)).notes
    | false => exact bindings_judges
  unfold importClause
  rw [whenever_bind]
  exact .node (.look (fun c => (clauseIsTypeOnly_marks c).imp fun _ _ post => post.2) typed)

/-- So is all that stands behind `import`. -/
theorem importTail_judges : m.Judges importTail := by
  have behind : m.Mends Anywhere m.after _ _ := importSource_mends.onward fun _ => importRest_mends
  exact .ate (eat_yields .stringLiteral) (expectSemicolon_mends (m := m) (p := Anywhere)).quit.left
    (importClause_judges.bind fun _ => behind.left)

/-! ### Import assignments -/

/-- A segment of a reference asks for no semicolon. -/
theorem referenceTurn_mends : m.Mends p never referenceTurn referenceTurn :=
  have named := (Mends.eat (m := m) (p := Anywhere) .ident nofun).choose (.pure true)
    ((Mends.error rfl).onward fun _ => .pure false)
  (Mends.eat .dot nofun).choose named (.pure false)

/-- The argument of `require` and what closes it. -/
theorem argument_mends : m.Mends p never (do moduleSpecifier; discard (expect .parenClose "`)`"))
    (do moduleSpecifier; discard (expect .parenClose "`)`")) :=
  moduleSpecifier_mends.onward fun _ => (Mends.expect .parenClose nofun _).onward fun _ => .pure ()

/-- A call asks for none. -/
theorem requireCall_mends : m.Mends p never requireCall requireCall :=
  (Mends.takeKeyword _).onward fun _ => Mends.bump.onward fun _ => argument_mends

/-- Its first word is read. -/
theorem requireCall_judges : m.Judges requireCall :=
  (Judges.takeAs _).bind fun _ => ((Mends.bump (m := m) (p := Anywhere)).onward fun _ => argument_mends).left

/-- Entered at the word `require` it comes to the one behind it. -/
theorem requireCall_decides : m.Decides [u] requireCall :=
  .take (Judges.bump.bind fun _ => (argument_mends (m := m)).notes)

/-- Whether `require(` comes next. -/
def requireFollows (ws : List Word) : Bool := spells ws 0 Keyword.kwRequire.word && kindIn ws 1 == some .parenOpen

/-- A reference asks for no semicolon. -/
theorem moduleReference_mends : m.Mends p never moduleReference moduleReference := by
  have names : m.Mends Anywhere never (do if ← eat .ident then repeatWhile referenceTurn else error .expectedName)
      (do if ← eat .ident then repeatWhile referenceTurn else error .expectedName) :=
    (Mends.eat .ident nofun).choose referenceTurn_mends.repeatWhile (.error rfl)
  have answers : Answers (atKeyword .kwRequire <&&> nextIs .parenOpen) fun ws _ => requireFollows ws :=
    (atKeyword_answers .kwRequire).and (nextIs_answers .parenOpen)
  have near : Near 1 requireFollows :=
    .and (.mono (near_spells 0 _) (Nat.zero_le 1)) ((near_kindIn 1).map (· == some .parenOpen))
  refine .node (.askNext answers near rfl (fun _ => Bool.and_false _) (fun _ => ?_) ?_ fun u => ?_) steady_never
  · exact .ite (fun _ => requireCall_mends) fun _ => names.given fun _ _ => trivial
  · exact requireCall_judges
  · exact requireCall_decides

/-- An import assignment from its name on. -/
def assigned : Rule Unit := do
  nameRule
  let _ ← expect .equals "`=`"
  moduleReference
  expectSemicolon

/-- Behind it one is asked for. -/
theorem reference_mends : m.Mends p m.after (do moduleReference; expectSemicolon) (do moduleReference; expectSemicolon) :=
  moduleReference_mends.onward fun _ => expectSemicolon_mends

/-- So it is behind the whole assignment. -/
theorem assigned_mends : m.Mends p m.after assigned assigned :=
  Mends.nameRule.onward fun _ => (Mends.expect .equals nofun _).onward fun _ => reference_mends

/-- Its name is asked for. -/
theorem assigned_judges : m.Judges assigned :=
  Judges.nameRule.bind fun _ =>
    ((Mends.expect (m := m) (p := Anywhere) .equals nofun "`=`").onward fun _ => reference_mends).left

/-- Behind its name the assignment reads the word, or complains that no `=` is there. -/
theorem assigned_decides (ident : u.kind = .ident) : m.Decides [u] assigned := fun _ before =>
  (before.nameRule ident).bind fun _ d before => ((Judges.expect .equals "`=`").bind fun _ =>
    (reference_mends (m := m)).notes) d before

/-- Whether `type` and a name come next. -/
def typeFollows (ws : List Word) : Bool := spells ws 0 Keyword.kwType.word && kindIn ws 1 == some .ident

/-- Whether `type` marks an alias shows in two words. -/
theorem typeFollows_answers : Answers (atKeyword .kwType <&&> nextIs .ident) fun ws _ => typeFollows ws :=
  (atKeyword_answers .kwType).and (nextIs_answers .ident)

/-- An alias is its mark and then the assignment. -/
theorem importEqualsTail_eq : importEqualsTail = (do
    let typed ← atKeyword .kwType <&&> nextIs .ident
    whenever (pure typed) (takeKeyword .kwType)
    assigned) := whenever_bind _ _ assigned

/-- Behind an alias a semicolon is asked for. -/
theorem importEqualsTail_mends : m.Mends p m.after importEqualsTail importEqualsTail := by
  have near : Near 1 typeFollows := .and (.mono (near_spells 0 _) (Nat.zero_le 1)) ((near_kindIn 1).map (· == some .ident))
  rw [importEqualsTail_eq]
  refine .askNext typeFollows_answers near rfl (fun _ => Bool.and_false _) (fun typed => ?_) ?_ fun u => ?_
  · exact ((Mends.pure typed).whenever (.takeKeyword .kwType)).onward fun _ => assigned_mends
  · exact (Judges.takeAs _).bind fun _ => (assigned_mends (m := m)).notes
  · exact Decides.take assigned_judges

/-- Its name is asked for. -/
theorem importEqualsTail_judges : m.Judges importEqualsTail := by
  have named : m.Judges (do whenever (pure false) (takeKeyword .kwType); assigned) := assigned_judges
  rw [importEqualsTail_eq]
  refine .look (fun c => (typeFollows_answers c).imp fun _ _ post => post.2) fun typed => ?_
  cases typed with
  | true => exact (Judges.takeAs _).bind fun _ => (assigned_mends (m := m)).notes
  | false => exact named

/-- One word before the word a name is read, or `type`. -/
theorem importEqualsTail_named (ident : u.kind = .ident) : m.Decides [u] importEqualsTail := by
  have typed : m.Decides [u] (do whenever (pure true) (takeKeyword .kwType); assigned) := .take assigned_judges
  have plain : m.Decides [u] (do whenever (pure false) (takeKeyword .kwType); assigned) := assigned_decides ident
  rw [importEqualsTail_eq]
  refine .ask typeFollows_answers ?_
  cases typeFollows ([u] ++ m.ahead) with
  | true => exact typed
  | false => exact plain

/-- A marked alias is decided by its first two words. -/
theorem importEqualsTail_typed (typed : u.isWord Keyword.kwType.word = true) (ident : v.kind = .ident) :
    m.Decides [u, v] importEqualsTail := by
  have reads : m.Decides [u, v] (do whenever (pure true) (takeKeyword .kwType); assigned) :=
    .take (assigned_decides ident)
  have follows : typeFollows ([u, v] ++ m.ahead) = true := by
    rw [typeFollows, Bool.and_eq_true, beq_iff_eq]
    exact ⟨typed, congrArg some ident⟩
  rw [importEqualsTail_eq]
  refine .ask typeFollows_answers ?_
  rw [follows]
  exact reads

/-! ### Imports -/

/-- An alias comes out as a declaration does. -/
theorem importAssignment_declares (point point' : Checkpoint) :
    m.Declares True (importAssignment point) (importAssignment point') :=
  .of (takeKeyword_heads _) importEqualsTail_mends (fun _ => importEqualsTail_judges) point point'

/-- So does an import. -/
theorem importDeclaration_declares (point point' : Checkpoint) :
    m.Declares True (importDeclaration point) (importDeclaration point') :=
  .of (takeKeyword_heads _) importTail_mends (fun _ => importTail_judges) point point'

/-- Whether an import assignment comes next. -/
def assignmentFollows (ws : List Word) : Bool :=
  (kindIn ws 1 == some .ident && kindIn ws 2 == some .equals) ||
    (spells ws 1 Keyword.kwType.word && (kindIn ws 2 == some .ident && kindIn ws 3 == some .equals))

/-- Whether it is an alias, as a question about the words. -/
theorem isImportEquals_answers : Answers isImportEquals fun ws _ => assignmentFollows ws :=
  ((nextIs_answers .ident).and (nthIs_answers 2 .equals)).or
    ((nthIsKeyword_answers 1 .kwType).and ((nthIs_answers 2 .ident).and (nthIs_answers 3 .equals)))

/-- It shows in the first four words. -/
theorem assignmentFollows_near : Near 3 assignmentFollows :=
  .or (.and (.mono ((near_kindIn 1).map (· == some .ident)) (by decide))
      (.mono ((near_kindIn 2).map (· == some .equals)) (by decide)))
    (.and (.mono (near_spells 1 _) (by decide))
      (.and (.mono ((near_kindIn 2).map (· == some .ident)) (by decide)) ((near_kindIn 3).map (· == some .equals))))

/-- Where the word shows that the import is an assignment, the first run reads up to it. -/
theorem importAssignment_decides (differs : assignmentFollows (us ++ m.ahead) ≠ assignmentFollows (us ++ m.ahead'))
    (some : us ≠ []) (point : Checkpoint) :
    assignmentFollows (us ++ m.ahead) = true ∧ m.Decides us (importAssignment point) := by
  match us, some, assignmentFollows_near.length_le differs with
  | [u], _, _ =>
    have plain : assignmentFollows ([u] ++ m.ahead') = false := by
      simp [assignmentFollows, ahead', semicolon, kindIn, spells, Word.isWord]
    exact ⟨eq_true_of_differs plain differs, (importAssignment_declares point point).decides trivial u⟩
  | [u, v], _, _ =>
    have plain : assignmentFollows ([u, v] ++ m.ahead') = false := by
      simp [assignmentFollows, ahead', semicolon, kindIn]
    have follows := eq_true_of_differs plain differs
    have ident : v.kind = .ident := by
      rcases Bool.or_eq_true_iff.1 follows with named | typed
      · exact Option.some.inj (beq_iff_eq.1 (Bool.and_eq_true_iff.1 named).1)
      · exact Option.some.inj (kindIn_of_spells (Bool.and_eq_true_iff.1 typed).1)
    exact ⟨follows, .nodeAt (.take (importEqualsTail_named ident)) point⟩
  | [u, v, w], _, _ =>
    have plain : assignmentFollows ([u, v, w] ++ m.ahead') = (v.kind == .ident && w.kind == .equals) := by
      simp [assignmentFollows, ahead', semicolon, kindIn]
    have follows : assignmentFollows ([u, v, w] ++ m.ahead) = ((v.kind == .ident && w.kind == .equals) ||
        (v.isWord Keyword.kwType.word && (w.kind == .ident && m.word.kind == .equals))) := by
      simp [assignmentFollows, ahead, spells, kindIn]
    rw [plain, follows] at differs
    have second {a b : Bool} (differs : (a || b) ≠ a) : b = true := by
      cases b with
      | true => rfl
      | false => exact absurd (Bool.or_false a) differs
    have typed : v.isWord Keyword.kwType.word = true ∧ w.kind = .ident ∧ m.word.kind = .equals := by
      simpa using second differs
    refine ⟨follows.trans ?_, .nodeAt (.take (importEqualsTail_typed typed.1 typed.2.1)) point⟩
    simp [typed.1, typed.2.1, typed.2.2]

/-- Both forms of an import come out as declarations do. -/
theorem importStatement_declares (point point' : Checkpoint) :
    m.Declares True (importStatement point) (importStatement point') := by
  have assignment : m.Declares True _ _ := importAssignment_declares point point'
  have declaration : m.Declares True _ _ := importDeclaration_declares point point'
  have reads : m.Reads (importStatement point) := fun c before => (before.tests isImportEquals_answers).bind fun _ d post =>
    .ite (fun _ => assignment.reads d post.2) fun _ => declaration.reads d post.2
  have decides (u : Word) : m.Decides [u] (importStatement point) := fun c before =>
    (before.tests isImportEquals_answers).bind fun _ d post =>
      .ite (fun _ => assignment.decides trivial u d post.2) fun _ => declaration.decides trivial u d post.2
  have mends : m.Mends Anywhere m.after (importStatement point) (importStatement point') := by
    refine .askAhead isImportEquals_answers (fun assigns => .ite (fun _ => assignment.toMends) fun _ => declaration.toMends)
      fun us differs => ?_
    cases us with
    | nil => exact Judges.ite (fun _ => assignment.reads.judges) fun _ => declaration.reads.judges
    | cons u us =>
      obtain ⟨follows, decides⟩ := importAssignment_decides differs (List.cons_ne_nil u us) point
      exact fun c before => .ite (fun _ => decides c before) fun none => absurd follows none
  exact ⟨mends, reads, fun _ => decides⟩

end Mending

end ImplicitGlobals.Grammar
