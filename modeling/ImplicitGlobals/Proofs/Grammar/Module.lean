import ImplicitGlobals.Grammar.Module
import ImplicitGlobals.Proofs.Grammar.Declaration

/-!
# Modules, imports and exports come back

Blocks hold statements again. Of the rule for these it is only asked that it comes
back when there are fewer words left than outside, and that it reads one while it
can.
-/

namespace ImplicitGlobals.Grammar

variable {c d : Cursor} {n : Nat} {inner : Rule Unit}

/-- From `c` to `d` a word is read, if there is one and the budget lasts. -/
def Proceeds (c d : Cursor) : Prop := c.rest ≠ [] → c.refused = none → c.passed < d.passed

/-- A statement comes back when there are fewer than `n` words left, and proceeds. -/
def Statements (n : Nat) (k : Cost) (r : Rule Unit) : Prop :=
  ∀ c, c.rest.length < n → Walks k r c fun _ d => Proceeds c d

/-- With fewer words less is asked of the statements. -/
theorem Statements.mono {k : Cost} {m : Nat} (h : Statements n k inner) (le : m ≤ n) :
    Statements m k inner :=
  fun c few => h c (Nat.lt_of_lt_of_le few le)

/-- The cost of a statement, however deep. -/
def Cost.statement : Cost := ⟨33, some 33, some 67, 104⟩

/-- A string is read, or its absence complained of. -/
theorem moduleSpecifier_safe : Safe ⟨3, some 2, some 1, 3⟩ moduleSpecifier := by
  apply Safe.weaken
  · exact (eat_safe .stringLiteral).bind fun _ => .ite (error_safe .expectedModuleSpecifier) (.pure ())
  · decide

/-! ### Blocks -/

/-- A statement makes progress, so a round does. -/
theorem blockTurn_turns (h : Statements n .statement inner) :
    Turns n ⟨34, some 34, some 67, 104⟩ (blockTurn inner) := by
  intro c few
  apply Walks.weaken
  · have ends := atEnd_asks.or (currentIs_asks .braceClose)
    apply (ends.walks c).branch
    · exact fun _ _ _ => .pure nofun
    intro d toD asked
    have going := (Bool.or_eq_false_iff.1 asked.1.symm).1
    obtain ⟨w, ws, rest, lasts⟩ := exists_of_not_atEnd going.symm
    apply (h d (asked.2.rest ▸ few)).bind
    intro _ e _ read
    refine .pure fun _ => asked.2.passed ▸ read ?_ (asked.2.refused.trans lasts)
    rw [asked.2.rest, rest]
    exact List.cons_ne_nil w ws
  · decide

/-- A block reads its opening brace, so its statements have fewer words left. -/
theorem moduleBlock_safe (h : Statements c.rest.length .statement inner)
    (current : kindIn c.rest 0 = some .braceOpen) :
    Walks ⟨5, some 1, some 0, 104⟩ (moduleBlock inner) c fun _ _ => True := by
  apply Walks.weaken
  · apply (assertAt_walks current).bind
    intro _ d _ looked
    apply (descend_walks d).bind
    intro b e _ alike
    apply Walks.ite
    · exact fun _ => .pure trivial
    intro go
    have same : e.rest = c.rest := (alike (by simpa using go)).rest.trans looked.rest
    -- the brace is a part of the block itself
    have body : Walks _ (delimited blockMarks (blockTurn inner))
        (e.placeGap.openNode .moduleBlock e.placeGap.parts.size) fun _ f => Gains Tree.isWord e.placeGap f :=
      (delimited_walks (same ▸ current) rfl (blockTurn_turns (same ▸ h))).imp fun _ _ _ post => post.2
    have held (f : Cursor) (gains : Gains Tree.isWord e.placeGap f) (clean : f.complaints = []) :
        NodeKind.moduleBlock.holds (f.parts.toList.drop e.placeGap.parts.size) := gains clean
    apply (node_walks_holding held body).back.bind
    exact fun _ f _ _ => (ascend_walks f).back
  · decide

/-- A dot and a name, or the end of the dotted name. -/
theorem segmentTurn_turns (n : Nat) : Turns n ⟨4, some 3, some 2, 4⟩ segmentTurn := by
  intro c _
  apply Walks.weaken
  · apply (eat_walks .dot c).branch
    · intro d _ eaten
      apply (nameRule_safe d).bind
      exact fun _ e toE _ => .pure fun _ => Nat.lt_of_lt_of_le (eaten.2.lt rfl) toE.frame.passed_le
    · exact fun _ _ _ => .pure nofun
  · decide

/-- A module name has a name node, also when nothing but a complaint is in it. -/
theorem moduleName_walks (c : Cursor) : Walks ⟨7, some 6, some 5, 7⟩ moduleName c fun _ d =>
    Gains (·.isNode .name) c d := by
  apply Walks.weaken
  · apply (currentIs_walks .stringLiteral c).branch
    · intro d toD asked
      have here : kindIn d.rest 0 = some .stringLiteral :=
        asked.2.1.rest ▸ eq_of_beq asked.1.symm
      exact (name_walks asked.2.2 here).imp fun _ e _ post => post.1.before toD
    · intro d toD _
      apply (nameRule_walks d).bind
      intro _ e toE named
      apply (repeatWhile_safe segmentTurn_turns e).imp
      exact fun _ f toF _ => (named.before toD).after toF
  · decide

/-- A module is complete when it has a name. -/
theorem holds_module_of_name {parts : List (Tree Slot)} (h : parts.any (·.isNode .name)) :
    NodeKind.moduleDeclaration.holds parts := by
  obtain ⟨t, mem, is⟩ := List.any_eq_true.1 h
  exact List.any_eq_true.2 ⟨t, mem, by simp [is]⟩

theorem holds_module_of_global {parts : List (Tree Slot)} (h : parts.any (Tree.isKeyword .kwGlobal)) :
    NodeKind.moduleDeclaration.holds parts := by
  obtain ⟨t, mem, is⟩ := List.any_eq_true.1 h
  exact List.any_eq_true.2 ⟨t, mem, by simp [is]⟩

/-- What stands behind the keyword of a module: its name, and its block or the end of the statement. -/
def moduleRest (statement : Rule Unit) : Rule Unit := do
  moduleName
  if ← currentIs .braceOpen then moduleBlock statement
  else expectSemicolon

/-- Entered where `p` holds, with at most `n` words left. -/
abbrev Few (n : Nat) (p : List Word → Prop) (ws : List Word) : Prop := p ws ∧ ws.length ≤ n

/-- The module begins with its keyword and has a name behind it. -/
theorem moduleDeclaration_wraps (h : Statements n .statement inner) :
    Wraps (Few n fun ws => kindIn ws 0 = some .ident) ⟨2, none, some 10, 104⟩
      fun point => moduleDeclaration point inner := by
  apply nodeAt_wraps_gaining (fun _ => holds_module_of_name)
  intro c entry
  apply Walks.weaken
  · apply Walks.bind (bumpKeyword_reads entry.1)
    intro _ d toD read
    apply (moduleName_walks d).bind
    intro _ e toE named
    have post (f : Cursor) (toF : Walk e f) :
        c.passed < f.passed ∧ Gains (·.isNode .name) c f :=
      ⟨Nat.lt_of_lt_of_le read (toE.trans toF).frame.passed_le, (named.before toD).after toF⟩
    apply ((currentIs_asks .braceOpen).walks e).branch
    · intro f toF asked
      have less : f.rest.length ≤ n :=
        Nat.le_trans (toD.trans (toE.trans toF)).frame.length_rest_le entry.2
      apply (moduleBlock_safe (h.mono less) (asked.2.rest ▸ eq_of_beq asked.1.symm)).imp
      exact fun _ g toG _ => post g (toF.trans toG)
    · intro f toF _
      have begun : 0 < f.passed := Nat.zero_lt_of_lt (post f toF).1
      exact (expectSemicolon_later f begun).imp fun _ g toG _ => post g (toF.trans toG)
  · decide

/-- The keyword `global` stands for the name. -/
theorem globalDeclaration_wraps (h : Statements n .statement inner) :
    Wraps (Few n fun ws => Announces .kwGlobal ws ∧ kindIn ws 1 = some .braceOpen)
      ⟨1, none, some 1, 104⟩ fun point => globalDeclaration point inner := by
  apply nodeAt_wraps_gaining (fun _ => holds_module_of_global)
  intro c entry
  apply Walks.weaken
  · apply (takeKeyword_gains entry.1.1).bind
    rintro _ d toD ⟨read, taken⟩
    have brace : kindIn d.rest 0 = some .braceOpen := by
      rw [read.rest, kindIn_tail]
      exact entry.1.2
    have less : d.rest.length ≤ n := Nat.le_trans toD.frame.length_rest_le entry.2
    apply (moduleBlock_safe (h.mono less) brace).imp
    exact fun _ e toE _ => ⟨Nat.lt_of_lt_of_le read.lt toE.frame.passed_le, taken.after toE⟩
  · decide

/-! ### Exports -/

/-- The expression behind an export is a type node that may be empty. -/
theorem expressionTail_later : Later ⟨12, some 12, some 12, 12⟩ expressionTail := by
  have expression := balancedOr_safe .statementEnd .expression .expectedExpression
  apply Later.weaken
  · apply (Later.ofSafe (node_safe (by decide) expression)).bind
    exact fun _ => expectSemicolon_later
  · decide

/-- A star or a body in braces, or a complaint. -/
theorem exportedNames_safe : Safe ⟨6, some 5, some 26, 27⟩ exportedNames := by
  have named := (eatKeyword_safe .kwAs).and ((eat_safe .stringLiteral).map not)
  apply Safe.weaken
  · apply (eat_safe .star).branch
    · exact named.branch nameRule_safe (.pure ())
    · exact bracedBody_safe (by decide)
  · decide

/-- The node begins with the keyword that was seen ahead. -/
theorem exportDeclaration_wraps :
    Wraps (Announces .kwExport) ⟨1, none, some 32, 32⟩ exportDeclaration := by
  apply nodeAt_wraps (by decide)
  intro c keyword
  apply Reads.weaken
  · apply (takeKeyword_reads keyword).later
    intro _
    apply (Later.ofSafe (eatKeyword_safe .kwType)).bind
    intro _
    apply (Later.ofSafe exportedNames_safe).bind
    intro _
    apply Later.bind
    · exact .ofSafe ((eatKeyword_safe .kwFrom).branch moduleSpecifier_safe (.pure ()))
    · exact fun _ => expectSemicolon_later
  · decide

/-- The keyword and `=` were seen ahead. -/
theorem exportAssignment_wraps :
    Wraps (fun ws => Announces .kwExport ws ∧ kindIn ws 1 = some .equals) ⟨1, none, some 12, 12⟩
      exportAssignment := by
  apply nodeAt_wraps (by decide)
  intro c entry
  apply Reads.weaken
  · apply Advanced.onward (takeKeyword_walks entry.1)
    intro _ d _ read
    have equals : kindIn d.rest 0 = some .equals := by
      rw [read.rest, kindIn_tail]
      exact entry.2
    exact ((bump_reads equals).later fun _ => expressionTail_later).back
  · decide

/-- All three words of the form were seen ahead. -/
theorem namespaceExport_wraps :
    Wraps (fun ws => Announces .kwExport ws ∧ spells ws 1 Keyword.kwAs.word = true ∧
      spells ws 2 Keyword.kwNamespace.word = true) ⟨1, none, some 5, 5⟩ namespaceExport := by
  apply nodeAt_wraps (by decide)
  intro c entry
  apply Reads.weaken
  · apply Advanced.onward (takeKeyword_walks entry.1)
    intro _ d _ readExport
    have as : spells d.rest 0 Keyword.kwAs.word = true := by
      rw [readExport.rest, spells_tail]
      exact entry.2.1
    apply Walks.back
    apply Advanced.onward (takeKeyword_walks as)
    intro _ e _ readAs
    have namespace' : Announces .kwNamespace e.rest := by
      rw [Announces, readAs.rest, spells_tail, readExport.rest, spells_tail]
      exact entry.2.2
    apply Walks.back
    apply (takeKeyword_reads namespace').later
    intro _
    exact (Later.ofSafe nameRule_safe).bind fun _ => expectSemicolon_later
  · decide

/-- Where a rule ends that began at `c` and may begin a node back at `o`: if it did, it
has read, and else it has only looked. -/
def Chosen (o c : Cursor) (chosen : Bool) (d : Cursor) : Prop :=
  Walk o d ∧ if chosen = true then c.passed < d.passed else Alike c d

/-- A rule that may begin a node at a checkpoint, where `p` holds of the words ahead. -/
def Chooses (p : List Word → Prop) (k : Cost) (r : Checkpoint → Rule Bool) : Prop :=
  ∀ o c, Walk o c → o.Sound → p c.rest → Runs k (r o.parts.size) c (Chosen o c)

/-- What was read before the node began does not matter to the node. -/
theorem Wraps.after {p : List Word → Prop} {k : Cost} {r : Checkpoint → Rule Unit} {o : Cursor}
    (h : Wraps p k r) (back : Walk o d) (sound : o.Sound) (toD : Walk c d) (entry : p d.rest) :
    Runs k (r o.parts.size) d fun _ e => Walk o e ∧ c.passed < e.passed :=
  (h o d back sound entry).imp fun _ _ post =>
    ⟨post.1, Nat.lt_of_le_of_lt toD.frame.passed_le post.2⟩

/-- A form that was chosen has been read as a whole. -/
theorem Wraps.chosen {p : List Word → Prop} {k : Cost} {r : Checkpoint → Rule Unit} {o : Cursor}
    (h : Wraps p k r) (back : Walk o d) (sound : o.Sound) (same : Alike c d) (entry : p d.rest) :
    Runs (k.seq .free) (do r o.parts.size; return true) d (Chosen o c) :=
  (h o d back sound entry).bind fun _ _ post => .pure ⟨post.1, same.passed ▸ post.2⟩

/-- The form is chosen three words ahead, or the export is left to the declarations. -/
theorem exportForm_chooses : Chooses (Announces .kwExport) ⟨7, some 6, some 32, 32⟩ exportForm := by
  intro o c back sound keyword
  apply Runs.weaken
  · apply Runs.bind (assertAtKeyword_walks keyword)
    rintro _ d ⟨-, looked⟩
    apply (kindAt_asks 1).runsOn
    intro e looked'
    have same : Alike c e := looked.toAlike.trans looked'.toAlike
    have toE := back.trans (looked.walk.trans looked'.walk)
    have braces := (Asks.pure (kindIn d.rest 1 == some .braceOpen || kindIn d.rest 1 == some .star)).or
      ((nthIsKeyword_asks 1 .kwType).and (nthIs_asks 2 .braceOpen))
    apply (braces.runs e).branch
    · rintro f ⟨-, asked⟩
      have alike := same.trans asked.toAlike
      exact exportDeclaration_wraps.chosen (toE.trans asked.walk) sound alike (alike.rest ▸ keyword)
    rintro f ⟨-, asked⟩
    replace same := same.trans asked.toAlike
    have toF := toE.trans asked.walk
    apply Runs.ite
    · intro equals
      have behind : kindIn f.rest 1 = some .equals := by
        rw [same.rest, ← looked.rest]
        exact eq_of_beq equals
      exact exportAssignment_wraps.chosen toF sound same ⟨same.rest ▸ keyword, behind⟩
    intro _
    have namespaces := (nthIsKeyword_asks 1 .kwAs).and (nthIsKeyword_asks 2 .kwNamespace)
    apply (namespaces.runs f).branch
    · rintro g ⟨found, asked'⟩
      have alike := same.trans asked'.toAlike
      have behind := Bool.and_eq_true_iff.1 found.symm
      rw [← asked'.rest] at behind
      exact namespaceExport_wraps.chosen (toF.trans asked'.walk) sound alike
        ⟨alike.rest ▸ keyword, behind⟩
    · rintro g ⟨-, asked'⟩
      exact .pure ⟨toF.trans asked'.walk, same.trans asked'.toAlike⟩
  · decide

/-! ### Imports -/

theorem expectAs_safe : Safe ⟨2, some 2, some 1, 2⟩ expectAs := by
  apply Safe.weaken
  · apply (eatKeyword_safe .kwAs).branch (.pure true)
    exact (errorWith_safe .unexpectedToken "expected `as`").bind fun _ => .pure false
  · decide

/-- The star is read in any case. -/
theorem namespaceImport_reads (star : kindIn c.rest 0 = some .star) :
    Reads ⟨2, none, some 4, 5⟩ namespaceImport c := by
  apply Reads.weaken
  · apply node_reads (by decide)
    intro d alike
    apply (bump_reads (alike.rest ▸ star)).bind
    exact fun _ => expectAs_safe.bind fun _ => nameRule_safe
  · decide

/-- `type` is only found where it stands. -/
theorem specifierIsTypeOnly_asks : ∃ v, Asks 4 specifierIsTypeOnly v ∧
    ∀ ws l, v ws l = true → Announces .kwType ws := by
  refine Tests.guarded (m := 1) (n := 3) (atKeyword_asks .kwType) ?_
  refine Tests.bind (m := 1) (n := 2) ⟨_, kindAt_asks 1⟩ fun next => ?_
  refine (Tests.ite (m := 0) (n := 2) (.pure false) ?_).weaken (by decide)
  exact ⟨_, ((nthIsKeyword_asks 1 .kwAs).and ((nthIs_asks 2 .ident).map not)).map not⟩

/-- The mark is read only if `type` stands there. -/
theorem clauseIsTypeOnly_asks : ∃ v, Asks 4 clauseIsTypeOnly v ∧
    ∀ ws l, v ws l = true → Announces .kwType ws := by
  refine Tests.guarded (m := 1) (n := 3) (atKeyword_asks .kwType) ?_
  refine Tests.bind (m := 1) (n := 2) ⟨_, kindAt_asks 1⟩ fun next => ?_
  split
  · exact (Tests.pure true).weaken (by decide)
  · exact (Tests.pure true).weaken (by decide)
  · exact ⟨_, ((nthIsKeyword_asks 1 .kwFrom).and (nthIs_asks 2 .stringLiteral)).map not⟩
  · exact (Tests.pure false).weaken (by decide)

/-- A keyword that is read if a test finds it. -/
theorem wheneverKeyword_safe {m : Nat} {k : Keyword} {test : Rule Bool}
    (h : ∃ v, Asks m test v ∧ ∀ ws l, v ws l = true → Announces k ws) :
    Safe ((Cost.looks m).seq ((Cost.reads 1).alt .free)) (whenever test (takeKeyword k)) := by
  intro c
  obtain ⟨v, asks, finds⟩ := h
  apply whenever_safe (asks.walks c)
  intro d _ asked
  exact (takeKeyword_reads (asked.2.rest ▸ finds _ _ asked.1.symm)).back

/-- A string or a word, and what it is renamed to. -/
theorem specifierNames_safe : Safe ⟨5, some 4, some 4, 5⟩ specifierNames := by
  intro c
  apply Walks.weaken
  · apply (nthIsKeyword_asks 1 .kwAs).walksOn
    intro d looked
    have names := (Asks.pure (spells c.rest 1 Keyword.kwAs.word)).or (currentIs_asks .stringLiteral)
    apply (names.walks d).branch
    · intro e _ asked
      have same : e.rest = c.rest := asked.2.rest.trans looked.rest
      obtain ⟨kind, current⟩ : ∃ kind, kindIn e.rest 0 = some kind := by
        rw [same]
        rcases Bool.or_eq_true_iff.1 asked.1.symm with renamed | literal
        · exact exists_kindIn (kindIn_of_spells renamed)
        · exact ⟨_, looked.rest ▸ eq_of_beq literal⟩
      apply (bump_reads current).back.bind
      exact fun _ f _ _ => whenever_safe (expectAs_safe f) fun g _ _ => nameRule_safe g
    · exact fun e _ _ => nameRule_safe e
  · decide

/-- A specifier has a name, or has complained. -/
theorem importSpecifier_safe : Safe ⟨9, some 8, some 4, 9⟩ importSpecifier := by
  apply Safe.weaken
  · apply node_safe (by decide)
    apply (wheneverKeyword_safe specifierIsTypeOnly_asks).bind
    exact fun _ => specifierNames_safe
  · decide

/-- Every round reads a specifier or a stray word, or ends the list. -/
theorem importTurn_turns (n : Nat) : Turns n ⟨13, some 11, some 5, 13⟩ importTurn :=
  (itemTurn_turns (current_asks.map startsSpecifier) fun c _ => importSpecifier_safe c).weaken (by decide)

/-- The brace is read in any case. -/
theorem namedImports_reads (brace : kindIn c.rest 0 = some .braceOpen) :
    Reads ⟨4, none, some 18, 19⟩ namedImports c :=
  (delimitedNode_reads (by decide) brace rfl (importTurn_turns _)).weaken (by decide)

/-- A name that is no keyword, and a comma. -/
theorem defaultImport_safe : Safe ⟨7, some 5, some 1, 7⟩ defaultImport := by
  have named := (currentIs_asks .ident).and ((atKeyword_asks .kwFrom).map not)
  apply Safe.weaken
  · apply named.safe.branch
    · apply nameRule_safe.bind
      exact fun _ => (eat_safe .comma).bind fun _ => .pure true
    · exact .pure false
  · decide

/-- A star, a brace, or nothing behind a default name. -/
theorem furtherImports_safe (hasDefault : Bool) :
    Safe ⟨6, some 3, some 18, 19⟩ (furtherImports hasDefault) := by
  intro c
  apply Walks.weaken
  · apply ((currentIs_asks .star).walks c).branch
    · exact fun d _ asked => (namespaceImport_reads (asked.2.rest ▸ eq_of_beq asked.1.symm)).back
    intro d _ _
    apply ((currentIs_asks .braceOpen).walks d).branch
    · exact fun e _ asked => (namedImports_reads (asked.2.rest ▸ eq_of_beq asked.1.symm)).back
    intro e _ _
    exact Safe.ite (error_safe .expectedName) (.pure ()) e
  · decide

/-- The mark, the default name and what follows. -/
theorem importClause_safe : Safe ⟨15, some 12, some 18, 19⟩ importClause := by
  apply Safe.weaken
  · apply node_safe (by decide)
    apply (wheneverKeyword_safe clauseIsTypeOnly_asks).bind
    exact fun _ => defaultImport_safe.bind furtherImports_safe
  · decide

theorem importSource_safe : Safe ⟨4, some 3, some 2, 4⟩ importSource := by
  apply Safe.weaken
  · apply (eatKeyword_safe .kwFrom).branch moduleSpecifier_safe
    exact (expect_safe .ident "`from`").bind fun _ => .pure ()
  · decide

theorem importAttributes_reads {kind : TokenKind} (current : kindIn c.rest 0 = some kind) :
    Reads ⟨2, none, some 26, 27⟩ importAttributes c :=
  ((bump_reads current).bind fun _ => bracedBody_safe (by decide)).weaken (by decide)

/-- What comes behind the bindings of an import. -/
theorem importEnd_later : Later ⟨9, some 9, some 29, 29⟩ (do
    importSource
    whenever ((atWord "with" <||> atWord "assert") <&&> nextIs .braceOpen) importAttributes
    expectSemicolon) := by
  apply Later.weaken
  · apply (Later.ofSafe importSource_safe).bind
    intro _
    apply Later.bind
    · intro c _
      have attributes := ((atWord_asks "with").or (atWord_asks "assert")).and (nextIs_asks .braceOpen)
      apply whenever_safe (attributes.walks c)
      intro d _ asked
      have brace : kindIn d.rest 1 = some .braceOpen :=
        asked.2.rest ▸ eq_of_beq (Bool.and_eq_true_iff.1 asked.1.symm).2
      obtain ⟨kind, current⟩ := exists_kindIn brace
      exact (importAttributes_reads current).back
    · exact fun _ => expectSemicolon_later
  · decide

/-- Whatever is imported, a semicolon or what stands in for it comes last. -/
theorem importTail_later : Later ⟨22, some 22, some 29, 29⟩ importTail := by
  apply Later.weaken
  · apply (Later.ofSafe (eat_safe .stringLiteral)).branch
    · exact expectSemicolon_later.bind fun _ => .ofSafe (.pure ())
    · exact (Later.ofSafe importClause_safe).bind fun _ => importEnd_later
  · decide

theorem referenceTurn_turns (n : Nat) : Turns n ⟨4, some 3, some 2, 4⟩ referenceTurn := by
  intro c _
  apply Walks.weaken
  · apply (eat_walks .dot c).branch
    · intro d _ eaten
      apply (eat_safe .ident d).branch
      · exact fun e toE _ => .pure fun _ => Nat.lt_of_lt_of_le (eaten.2.lt rfl) toE.frame.passed_le
      · intro e _ _
        apply (error_walks .expectedName e).bind
        exact fun _ _ _ _ => .pure nofun
    · exact fun _ _ _ => .pure nofun
  · decide

/-- `require` and an opening parenthesis behind it. -/
theorem requireCall_reads (keyword : Announces .kwRequire c.rest)
    (paren : kindIn c.rest 1 = some .parenOpen) : Reads ⟨1, none, some 4, 5⟩ requireCall c := by
  apply Reads.weaken
  · apply Advanced.onward (takeKeyword_walks keyword)
    intro _ d _ read
    have here : kindIn d.rest 0 = some .parenOpen := by
      rw [read.rest, kindIn_tail]
      exact paren
    apply Walks.back
    apply (bump_reads here).bind
    intro _
    apply moduleSpecifier_safe.bind
    exact fun _ => (expect_safe .parenClose "`)`").bind fun _ => .pure ()
  · decide

/-- A call of `require`, or names with dots between them. -/
theorem moduleReference_safe : Safe ⟨7, some 6, some 5, 7⟩ moduleReference := by
  apply Safe.weaken
  · apply node_safe (by decide)
    intro c
    have call := (atKeyword_asks .kwRequire).and (nextIs_asks .parenOpen)
    apply (call.walks c).branch
    · intro d _ asked
      have both := Bool.and_eq_true_iff.1 asked.1.symm
      rw [← asked.2.rest] at both
      exact (requireCall_reads both.1 (eq_of_beq both.2)).back
    · intro d _ _
      apply (eat_safe .ident d).branch
      · exact fun e _ _ => repeatWhile_safe referenceTurn_turns e
      · exact fun e _ _ => error_safe .expectedName e
  · decide

/-- The name comes first, so the node is complete. -/
theorem importEqualsTail_later : Later ⟨15, some 15, some 13, 15⟩ importEqualsTail := by
  have type : ∃ v, Asks 2 (atKeyword .kwType <&&> nextIs .ident) v ∧
      ∀ ws l, v ws l = true → Announces .kwType ws :=
    ⟨_, (atKeyword_asks .kwType).and (nextIs_asks .ident), fun _ _ h => (Bool.and_eq_true_iff.1 h).1⟩
  apply Later.weaken
  · apply (Later.ofSafe (wheneverKeyword_safe type)).bind
    intro _
    apply (Later.ofSafe nameRule_safe).bind
    intro _
    apply (Later.ofSafe (expect_safe .equals "`=`")).bind
    intro _
    apply (Later.ofSafe moduleReference_safe).bind
    exact fun _ => expectSemicolon_later
  · decide

/-- At most five looks ahead. -/
theorem isImportEquals_tests : Tests 5 isImportEquals :=
  ⟨_, ((nextIs_asks .ident).and (nthIs_asks 2 .equals)).or
    ((nthIsKeyword_asks 1 .kwType).and ((nthIs_asks 2 .ident).and (nthIs_asks 3 .equals)))⟩

theorem importAssignment_wraps :
    Wraps (Announces .kwImport) ⟨1, none, some 15, 15⟩ importAssignment :=
  nodeAt_wraps (by decide) fun _ keyword =>
    ((takeKeyword_reads keyword).later fun _ => importEqualsTail_later).weaken (by decide)

theorem importDeclaration_wraps :
    Wraps (Announces .kwImport) ⟨1, none, some 29, 29⟩ importDeclaration :=
  nodeAt_wraps (by decide) fun _ keyword =>
    ((takeKeyword_reads keyword).later fun _ => importTail_later).weaken (by decide)

/-- Both kinds of import begin with the keyword. -/
theorem importStatement_wraps :
    Wraps (Announces .kwImport) ⟨6, none, some 29, 29⟩ importStatement := by
  intro o c back sound keyword
  apply Runs.weaken
  · apply Runs.branch (isImportEquals_tests.walks c)
    · rintro d ⟨toD, looked⟩
      exact importAssignment_wraps.after (back.trans toD) sound toD (looked.rest ▸ keyword)
    · rintro d ⟨toD, looked⟩
      exact importDeclaration_wraps.after (back.trans toD) sound toD (looked.rest ▸ keyword)
  · decide

end ImplicitGlobals.Grammar
