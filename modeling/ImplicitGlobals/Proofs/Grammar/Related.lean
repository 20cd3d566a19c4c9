import ImplicitGlobals.Proofs.Acceptance.Modules
import ImplicitGlobals.Proofs.Grammar.Module
import ImplicitGlobals.Proofs.Grammar.Relating

/-!
# Every rule is related to itself

A relation that the steps and the ways of putting rules together keep holds between every rule of
the grammar and itself, the rule for a source included. The rules are gone through once, for all
relations. Where nodes of a kind are not ordinary, the relation comes with its own word on the
rules that close them.
-/

namespace ImplicitGlobals.Grammar

variable {α β : Type}

/-- The current word announces a module. -/
def AtModule (ws : List Word) : Prop := Announces .kwNamespace ws ∨ Announces .kwModule ws

/-- The current word is an identifier, and `k` the keyword that it spells. -/
def Spelling (k : Option Keyword) (ws : List Word) : Prop :=
  At .ident ws ∧ Keyword.ofWord? ((ws[0]?.map (·.text)).getD "") = k

/-- A keyword that is spelled out ahead announces its declaration. -/
theorem Spelling.announces {k : Keyword} {ws : List Word} (h : Spelling (some k) ws) : Announces k ws :=
  announces_of_ofWord? h.1 h.2

/-- A relation between rules that says of itself what the nodes that are not ordinary come to. -/
structure GrammarRelation extends RuleRelation where
  ofTypeExpr (special : ¬Ordinary .typeExpr) (stop : KindSet) :
    Rel Anywhere .same (typeExpr stop) (typeExpr stop)
  ofExportDefault (special : ¬(Ordinary .exportAssignment ∧ Ordinary .typeExpr)) {point point' : Checkpoint}
    (moved : points.Holds point point') : Rel Anywhere .same (exportDefault point) (exportDefault point')
  ofExportAssignment (special : ¬(Ordinary .exportAssignment ∧ Ordinary .typeExpr)) {point point' : Checkpoint}
    (moved : points.Holds point point') : Rel Anywhere .same (exportAssignment point) (exportAssignment point')
  ofImportDeclaration (special : ¬Ordinary .importDeclaration) {point point' : Checkpoint}
    (moved : points.Holds point point') (tail : Rel Anywhere .same importTail importTail) :
    Rel Anywhere .same (importDeclaration point) (importDeclaration point')
  ofModuleDeclaration (special : ¬Ordinary .moduleDeclaration) {point point' : Checkpoint}
    (moved : points.Holds point point') (m n : Nat)
    (rest : Rel Anywhere .same (moduleRest (statementWithin m)) (moduleRest (statementWithin n))) :
    Rel AtModule .same (moduleDeclaration point (statementWithin m)) (moduleDeclaration point' (statementWithin n))
  ofGlobalDeclaration (special : ¬Ordinary .moduleDeclaration) {point point' : Checkpoint}
    (moved : points.Holds point point') (m n : Nat)
    (block : Rel Anywhere .same (moduleBlock (statementWithin m)) (moduleBlock (statementWithin n))) :
    Rel (Announces .kwGlobal) .same (globalDeclaration point (statementWithin m))
      (globalDeclaration point' (statementWithin n))
  ofBracedBody {kind : NodeKind} (body : kind.isBody = true) (special : ¬Ordinary kind)
    (turn : Rel Anywhere .same bodyTurn bodyTurn) :
    Rel Anywhere .same (bracedBody kind) (bracedBody kind)
  ofList {kind : NodeKind} (list : kind.isList = true) (special : ¬Ordinary kind) {d : Delimiters}
    (unclosed : d.unclosed.isUnclosed = true) {turn turn' : Rule Bool}
    (h : Rel Anywhere .same turn turn') :
    Rel Anywhere .same (Grammar.node kind (delimited d turn))
      (Grammar.node kind (delimited d turn'))

namespace GrammarRelation

variable (L : GrammarRelation) {p : List Word → Prop} {point point' : Checkpoint}

/-! ### Runs -/

/-- The test reads the same words on both sides. -/
theorem atStatementStart : L.Rel p .same atStatementStart atStatementStart := by
  refine L.ask .current fun kind => L.ite (fun _ => L.pure rfl) fun ident => ?_
  have first : ∀ ws : List Word, (p ws ∧ kindIn ws 0 = kind) → Transparent 1 ws := fun ws h =>
    transparent_one (h.2.trans (Classical.not_not.1 ident)) rfl
  refine L.ask .currentText fun text => ?_
  have through (ws : List Word) (h : (p ws ∧ kindIn ws 0 = kind) ∧
      (ws[0]?.map (·.text)).getD "" = text) : Transparent 1 ws := first ws h.1
  have next {f : Option TokenKind → Bool} := L.onward (W := .same) (f := fun k => Pure.pure (f k))
    (g := fun k => Pure.pure (f k)) (L.look (.kindAt through)) fun _ => L.pure rfl
  cases Keyword.ofWord? text with
  | none => exact L.pure rfl
  | some k =>
    cases k with
    | kwExport => exact L.pure rfl
    | kwDeclare | kwInterface | kwEnum | kwType | kwNamespace | kwClass | kwGlobal =>
      exact L.look (.nthIs through _)
    | kwAbstract => exact L.look (.nthIsWord through _)
    | kwVar | kwLet | kwConst | kwFunction | kwModule | kwImport => exact next
    | _ => exact L.pure rfl

/-- A semicolon is missed only in front of a word. -/
theorem expectSemicolon : L.Rel p .same expectSemicolon expectSemicolon := by
  have ends := L.or (p := Anywhere) L.atEnd (L.or (L.look (.currentIs .braceClose)) (L.look .onFreshLine))
  refine L.choose (L.eat _) (L.pure rfl) ?_
  refine L.bind (q := fun b ws => b = false → ws ≠ []) ends (fun c _ => ?_) fun b _ same => ?_
  · refine (atEnd_answers.or ((currentIs_answers .braceClose).or onFreshLine_answers) c).imp fun x d post => ?_
    obtain ⟨rfl, _, _, _, rfl⟩ := post
    rintro going none
    rw [none] at going
    cases going
  · cases same
    exact L.ite (fun _ => L.pure rfl) fun going => L.noSemicolon fun _ more => more (Bool.eq_false_iff.2 going)

/-- A word is read, and the run goes on. -/
theorem goesOn {stack stack' : List Opener} (same : stack.map (·.kind) = stack'.map (·.kind)) :
    L.Rel p (.turn .run) (do bump; return .again ⟨stack, true⟩)
      (do bump; return .again ⟨stack', true⟩) :=
  L.onward L.bump fun _ => L.pure ⟨rfl, same⟩

/-- The brackets that are open are of the same kinds, though they may stand elsewhere. -/
theorem openBracket (kind : TokenKind) {stack stack' : List Opener}
    (same : stack.map (·.kind) = stack'.map (·.kind)) :
    L.Rel p (.turn .run) (openBracket kind stack) (openBracket kind stack') :=
  L.bindTo L.mark fun _ _ _ => L.goesOn (by simpa using same)

/-- What is left of a stack without the angles on top is of the same kinds. -/
theorem map_dropAngles {stack stack' : List Opener}
    (same : stack.map (·.kind) = stack'.map (·.kind)) :
    (dropAngles stack).map (·.kind) = (dropAngles stack').map (·.kind) := by
  have kinds (stack : List Opener) : (dropAngles stack).map (·.kind) =
      (stack.map (·.kind)).dropWhile (· == .angleOpen) := by
    rw [List.dropWhile_map]
    rfl
  rw [kinds, kinds, same]

/-- The kinds of the open brackets decide what a closer does. -/
theorem closeBracket (kind : TokenKind) {r r' : Run} (same : Link.run.Holds r r') :
    L.Rel p (.turn .run) (closeBracket kind r) (closeBracket kind r') := by
  unfold Grammar.closeBracket
  have kinds := map_dropAngles same.2
  cases stack : dropAngles r.stack with
  | nil =>
    have stack' : dropAngles r'.stack = [] := by
      rw [stack] at kinds
      exact List.map_eq_nil_iff.1 kinds.symm
    rw [stack']
    exact L.pure ⟨same.1, rfl⟩
  | cons top below =>
    obtain ⟨top', below', stack', kind, outer⟩ :
        ∃ top' below', dropAngles r'.stack = top' :: below' ∧ top'.kind = top.kind ∧
          below'.map (·.kind) = below.map (·.kind) := by
      simpa [stack, List.map_eq_cons_iff] using kinds.symm
    rw [stack']
    simp only [kind]
    refine L.ite (fun _ => L.goesOn outer.symm) fun _ => ?_
    refine L.onward (L.look .currentText) fun _ => L.onward (L.errorAndBump rfl _) fun _ => ?_
    exact L.pure ⟨rfl, by simp [kind, outer]⟩

/-- Both runs stand at a word of the same kind and do the same with it. -/
theorem runWord (mode : RunMode) {r r' : Run} (same : Link.run.Holds r r')
    (kind : Option TokenKind) :
    L.Rel p (.turn .run) (runWord mode r kind) (runWord mode r' kind) := by
  have goes := L.goesOn (p := p) same.2
  unfold Grammar.runWord
  split
  case h_7 =>
    refine L.onward (L.error rfl) fun _ => L.onward ?_ fun _ => L.pure ⟨rfl, same.2⟩
    exact L.onward (L.look .peek) fun _ =>
      L.ite (fun _ => L.node (L.ordinary rfl) L.bump) fun _ => L.pure rfl
  case h_8 => exact L.ite (fun _ => L.openBracket _ same.2) fun _ => goes
  case h_9 =>
    have top : r.stack.head?.any (·.kind == .angleOpen) =
        r'.stack.head?.any (·.kind == .angleOpen) := by
      have first := congrArg List.head? same.2
      rw [List.head?_map, List.head?_map] at first
      cases top : r.stack.head? <;> cases top' : r'.stack.head? <;> simp_all
    refine L.onward L.bump fun _ => L.pure ⟨rfl, ?_⟩
    simp only [top]
    split
    · simpa [List.map_tail] using congrArg List.tail same.2
    · exact same.2
  all_goals first
    | exact L.openBracket _ same.2
    | exact L.closeBracket _ same
    | exact goes

/-- The run ends on both sides or on neither. -/
theorem runEnds (stop : KindSet) (mode : RunMode) (consumed : Bool) (kind : Option TokenKind) :
    L.Rel p .same (runEnds stop mode consumed kind) (runEnds stop mode consumed kind) :=
  L.ite (fun _ => L.pure rfl) fun _ => L.ite (fun _ => L.pure rfl) fun _ =>
    L.and (L.pure rfl) L.atStatementStart

/-- One word of a balanced run. -/
theorem runTurn (stop : KindSet) (mode : RunMode) {r r' : Run} (same : Link.run.Holds r r') :
    L.Rel p (.turn .run) (runTurn stop mode r) (runTurn stop mode r') := by
  refine L.onward L.atEnd fun _ => L.ite (fun _ => L.pure same) fun _ => ?_
  refine L.onward (L.look .current) fun kind => ?_
  have out : r.stack.isEmpty = r'.stack.isEmpty := by
    simpa using congrArg List.isEmpty same.2
  rw [out, same.1]
  exact L.choose (L.and (L.pure rfl) (L.runEnds _ _ _ _)) (L.pure same) (L.runWord _ same _)

/-- Both complain of the innermost bracket that is open, or of none. -/
theorem reportOpen {stack stack' : List Opener}
    (same : stack.map (·.kind) = stack'.map (·.kind)) :
    L.Rel p .same (reportOpen stack) (reportOpen stack') := by
  have found : (stack.find? (·.kind != .angleOpen)).map (·.kind) =
      (stack'.find? (·.kind != .angleOpen)).map (·.kind) := by
    have kinds (stack : List Opener) : (stack.find? (·.kind != .angleOpen)).map (·.kind) =
        (stack.map (·.kind)).find? (· != .angleOpen) := by
      rw [List.find?_map]
      rfl
    rw [kinds, kinds, same]
  have isUnclosed (kind : TokenKind) : (unclosedKind kind).isUnclosed = true := by
    cases kind <;> rfl
  unfold Grammar.reportOpen
  cases first : stack.find? (·.kind != .angleOpen) with
  | some o =>
    rw [first] at found
    obtain ⟨o', first', kind⟩ := Option.map_eq_some_iff.1 found.symm
    rw [first']
    simp only [kind]
    exact L.unclosed (isUnclosed _) _ _ _
  | none =>
    have none' : stack'.find? (·.kind != .angleOpen) = none := by simpa [first] using found.symm
    rw [none']
    cases stack with
    | nil =>
      obtain rfl : stack' = [] := List.map_eq_nil_iff.1 same.symm
      exact L.pure rfl
    | cons top below =>
      cases stack' with
      | nil => cases same
      | cons top' below' => exact L.unclosed rfl _ _ _

/-- By induction on the rounds; the runs agree in their brackets and in whether they have read a word. -/
theorem balanced (stop : KindSet) (mode : RunMode) :
    L.Rel p .same (balanced stop mode) (balanced stop mode) := by
  refine L.bindTo (L.loop (I := .run) (show Link.run.Holds _ _ from ⟨rfl, rfl⟩) fun _ _ same => L.runTurn stop mode same)
    fun r r' same => L.onward (L.reportOpen same.2) fun _ => L.pure same.1

/-- A name, or a complaint of its absence, on both sides. -/
theorem nameRule : L.Rel p .same nameRule nameRule :=
  L.choose (L.look (.currentIs _)) (L.node (L.ordinary rfl) L.bump) (L.error rfl)

/-- A type is one node, which some relations treat in their own way. -/
theorem typeExpr (stop : KindSet) : L.Rel p .same (Grammar.typeExpr stop) (Grammar.typeExpr stop) := by
  refine L.anywhere ?_
  by_cases ordinary : L.Ordinary .typeExpr
  · exact L.node ordinary <| L.onward (L.balanced _ _) fun _ =>
      L.ite (fun _ => L.error rfl) fun _ => L.pure rfl
  · exact L.ofTypeExpr ordinary stop

/-- The assertion holds on both sides, since the words are the same. -/
theorem typeAscription (stop : KindSet) :
    L.Rel p .same (typeAscription stop) (typeAscription stop) :=
  L.assertAt (L.node (L.ordinary rfl) (L.onward L.bump fun _ => L.typeExpr stop))

/-- An initializer is an ordinary node around a run. -/
theorem initializer (stop : KindSet) : L.Rel p .same (initializer stop) (initializer stop) := by
  refine L.assertAt ?_
  refine L.node (L.ordinary rfl) ?_
  refine L.onward L.bump fun _ => ?_
  refine L.onward (L.balanced _ _) fun _ => ?_
  refine L.ite (fun _ => L.error rfl) fun _ => ?_
  exact L.pure rfl

/-- One round inside braces: a run up to a stray closer, which is complained of. -/
theorem bodyTurn : L.Rel p .same bodyTurn bodyTurn := by
  refine L.onward (L.balanced _ _) fun _ => ?_
  refine L.onward (L.look .current) fun _ => ?_
  refine L.onward L.atEnd fun _ => ?_
  refine L.ite (fun _ => L.pure rfl) fun _ => ?_
  refine L.onward (L.look .currentText) fun _ => ?_
  exact L.answer (L.errorAndBump rfl _) true

/-- A body is a node of a kind that relations may single out. -/
theorem bracedBody {kind : NodeKind} (body : kind.isBody = true) :
    L.Rel p .same (Grammar.bracedBody kind) (Grammar.bracedBody kind) := by
  refine L.anywhere ?_
  by_cases ordinary : L.Ordinary kind
  · exact L.onward (L.look (.currentIs _)) fun _ => L.ite (fun _ => L.answer (L.errorWith rfl _) ())
      fun _ => L.node ordinary (L.delimited _ rfl L.bodyTurn)
  · exact L.ofBracedBody body ordinary L.bodyTurn

/-! ### Items between delimiters -/

section

variable {turn turn' starts : Rule Bool} {item item' : Rule Unit} {v : List Word → Bool}

/-- A list between delimiters; what is complained of when its closer is missing names the opener. -/
theorem list {kind : NodeKind} (list : kind.isList = true) {d : Delimiters}
    (unclosed : d.unclosed.isUnclosed = true) (h : L.Rel Anywhere .same turn turn') :
    L.Rel p .same (Grammar.node kind (delimited d turn)) (Grammar.node kind (delimited d turn')) := by
  refine L.anywhere ?_
  by_cases ordinary : L.Ordinary kind
  · exact L.node ordinary (L.delimited d unclosed h)
  · exact L.ofList list ordinary unclosed h

/-- What an item begins with is seen alike, so both sides read it or pass a stray word. -/
theorem itemTurn (closer : TokenKind) (h : Sees Anywhere starts v) (what : String)
    (g : L.Rel (fun ws => v ws = true) .same item item') :
    L.Rel p .same (itemTurn closer starts what item) (itemTurn closer starts what item') := by
  refine L.choose (L.or L.atEnd (L.look (.currentIs _))) (L.pure rfl) ?_
  refine L.ask h fun starts => L.ite (fun _ => L.answer (L.errorAndBump rfl _) true) fun begins => ?_
  exact L.onward (L.given g fun ws found => found.2.trans (by simpa using begins)) fun _ => L.eat _

end

/-! ### Bindings -/

theorem propertyKey (openKind : TokenKind) :
    L.Rel p .same (propertyKey openKind) (propertyKey openKind) := by
  refine L.ite (fun _ => L.pure rfl) fun _ => L.ask .current fun kind => ?_
  refine L.branch ((Sees.pure _).and (.nthIs (fun ws found => ?_) _))
    (L.onward L.bump fun _ => L.bump) (L.pure rfl)
  obtain ⟨⟨-, here⟩, key⟩ := found
  simp only [Bool.or_eq_true, beq_iff_eq] at key
  rcases key with (is | is) | is <;> exact transparent_one (here.trans is) rfl

/-- One round over a pattern, whose nested patterns are related by assumption. -/
theorem patternTurn {inner inner' : Rule Unit} (h : L.Rel Anywhere .same inner inner')
    (openKind closeKind : TokenKind) :
    L.Rel p .same (patternTurn inner openKind closeKind) (patternTurn inner' openKind closeKind) := by
  refine L.choose (L.or L.atEnd (L.look (.currentIs _))) (L.pure rfl) ?_
  refine L.choose (L.eat _) (L.pure rfl) <| L.onward (L.eat _) fun _ => L.onward (L.propertyKey _) fun _ => ?_
  refine L.onward (L.look (.currentIn _)) fun _ =>
    L.ite (fun _ => L.answer (L.errorAndBump rfl _) true) fun _ => ?_
  exact L.onward h fun _ => L.onward (L.optional _ (L.initializer _)) fun _ => L.eat _

/-- By induction on the fuel of both sides, which need not be the same: patterns are no deeper than the
words. -/
theorem bindingWithin (m n : Nat) :
    L.Rel p .same (bindingWithin m) (bindingWithin n) := by
  refine L.anywhere ?_
  induction m generalizing n with
  | zero => exact L.throwLeft _ _
  | succ m ih =>
    have step (n : Nat) :
        L.Rel Anywhere .same (Grammar.bindingWithin (m + 1)) (Grammar.bindingWithin (n + 1)) := by
      have pattern (d : Delimiters) (unclosed : d.unclosed.isUnclosed = true) :
          L.Rel Anywhere .same
            (Grammar.node .bindingPattern (delimited d (Grammar.patternTurn _ d.opener d.closer)))
            (Grammar.node .bindingPattern (delimited d (Grammar.patternTurn _ d.opener d.closer))) :=
        L.list rfl unclosed (L.patternTurn (ih n) d.opener d.closer)
      refine L.onward (L.look .current) fun _ => L.ite (fun _ => ?_) fun _ => L.nameRule
      refine L.onward L.descend fun _ => L.ite (fun _ => L.pure rfl) fun _ => ?_
      refine L.onward (L.look (.currentIs _)) fun brace => L.onward ?_ fun _ => L.ascend
      cases brace
      · exact pattern bracketPattern rfl
      · exact pattern bracePattern rfl
    cases n with
    | zero => exact L.throwRight (step 0) _
    | succ n => exact step n

theorem binding : L.Rel p .same binding binding :=
  L.bounded (f := fun n => Grammar.bindingWithin (n + 1)) (g := fun n => Grammar.bindingWithin (n + 1))
    fun _ _ => L.bindingWithin _ _

theorem parameters : L.Rel p .same parameters parameters := by
  have parameter : L.Rel Anywhere .same parameter parameter :=
    L.node (L.ordinary rfl) <| L.onward (L.eat _) fun _ => L.onward L.binding fun _ =>
      L.onward (L.eat _) fun _ => L.onward (L.optional _ (L.typeAscription _)) fun _ =>
        L.optional _ (L.initializer _)
  have starts : Sees Anywhere _ _ := (Sees.currentIn .bindingStart).or (.currentIs .dotDotDot)
  exact L.assertAt (L.list rfl rfl (L.itemTurn _ starts _ (L.anywhere parameter)))

theorem typeParameters : L.Rel p .same typeParameters typeParameters := by
  have modifier : L.Rel Anywhere .same typeParameterModifier typeParameterModifier := by
    have word := (Sees.atWord (p := Anywhere) "in").or ((Sees.atWord "out").or (.atWord "const"))
    refine L.branch (word.and (.nthIs (fun ws found => ?_) .ident)) (L.answer L.bump true) (L.pure rfl)
    have ident : kindIn ws 0 = some .ident := by
      simp only [Bool.or_eq_true] at found
      rcases found.2 with is | is | is <;> exact kindIn_of_spells is
    exact transparent_one ident rfl
  have constraint : L.Rel Anywhere .same constraint constraint :=
    L.onward (L.takeKeyword _) fun _ => L.typeExpr _
  have parameter : L.Rel Anywhere .same typeParameter typeParameter :=
    L.node (L.ordinary rfl) <| L.onward (L.repeatWhile modifier) fun _ => L.onward L.nameRule fun _ =>
      L.onward (L.whenever (L.look (.atKeyword _)) constraint) fun _ =>
        L.whenever (L.eat _) (L.typeExpr _)
  have turn : L.Rel Anywhere .same typeParameterTurn typeParameterTurn :=
    L.choose (L.or L.atEnd (L.look (.currentIs _))) (L.pure rfl) (L.onward parameter fun _ => L.eat _)
  exact L.assertAt (L.list rfl rfl turn)

/-! ### Declarations -/

/-- The node begins at checkpoints that the relation links. -/
theorem variableStatement (moved : L.points.Holds point point') :
    L.Rel p .same (variableStatement point) (variableStatement point') := by
  have declarator : L.Rel Anywhere .same variableDeclarator variableDeclarator :=
    L.node (L.ordinary rfl) <| L.onward L.binding fun _ => L.onward (L.eat _) fun _ =>
      L.onward (L.optional _ (L.typeAscription _)) fun _ => L.optional _ (L.initializer _)
  exact L.nodeAt (L.ordinary rfl) moved <| L.onward L.bumpKeyword fun _ =>
    L.onward (L.repeatWhile (L.onward declarator fun _ => L.eat _)) fun _ => L.expectSemicolon

theorem functionDeclaration (moved : L.points.Holds point point') (anonymous : Bool) :
    L.Rel p .same (functionDeclaration point anonymous) (functionDeclaration point' anonymous) := by
  have name : L.Rel Anywhere .same (functionName anonymous) (functionName anonymous) :=
    L.choose (L.look (.currentIs _)) L.nameRule (L.ite (fun _ => L.error rfl) fun _ => L.pure rfl)
  have list : L.Rel Anywhere .same functionParameters functionParameters :=
    L.choose (L.look (.currentIs _)) L.parameters (L.errorWith rfl _)
  exact L.nodeAt (L.ordinary rfl) moved <| L.onward (L.takeKeyword _) fun _ =>
    L.onward (L.eat _) fun _ => L.onward name fun _ =>
      L.onward (L.optional _ L.typeParameters) fun _ => L.onward list fun _ =>
        L.onward (L.optional _ (L.typeAscription _)) fun _ => L.expectSemicolon

/-- The clause is read on both sides or on neither. -/
theorem heritageClauseTurn {test : Rule Bool} (h : L.Rel Anywhere .same test test) :
    L.Rel p .same (heritageClauseTurn test) (heritageClauseTurn test) := by
  have clause : L.Rel Anywhere .same heritageClause heritageClause :=
    L.node (L.ordinary rfl) <| L.onward L.bumpKeyword fun _ =>
      L.repeatWhile (L.onward (L.typeExpr _) fun _ => L.eat _)
  exact L.choose (L.anywhere h) (L.answer clause true) (L.pure rfl)

theorem requiredBody {kind : NodeKind} (body : kind.isBody = true) (what : String) :
    L.Rel p .same (requiredBody kind what) (requiredBody kind what) :=
  L.choose (L.look (.currentIs _)) (L.bracedBody body) (L.errorWith rfl _)

theorem classDeclaration (moved : L.points.Holds point point') (anonymous : Bool) :
    L.Rel p .same (classDeclaration point anonymous) (classDeclaration point' anonymous) := by
  have named := (Sees.currentIs (p := Anywhere) .ident).and
    ((Sees.not (.atKeyword .kwExtends)).and (.not (.atKeyword .kwImplements)))
  have name : L.Rel Anywhere .same (className anonymous) (className anonymous) :=
    L.choose (L.look named) L.nameRule (L.ite (fun _ => L.error rfl) fun _ => L.pure rfl)
  have heritage := (Sees.atKeyword (p := Anywhere) .kwExtends).or (.atKeyword .kwImplements)
  exact L.nodeAt (L.ordinary rfl) moved <| L.onward (L.takeKeyword _) fun _ => L.onward name fun _ =>
    L.onward (L.optional _ L.typeParameters) fun _ =>
      L.onward (L.repeatWhile (L.heritageClauseTurn (L.look heritage))) fun _ => L.requiredBody rfl _

theorem interfaceDeclaration (moved : L.points.Holds point point') :
    L.Rel p .same (interfaceDeclaration point) (interfaceDeclaration point') := by
  refine L.nodeAt (L.ordinary rfl) moved ?_
  refine L.onward (L.takeKeyword _) fun _ => ?_
  refine L.onward L.nameRule fun _ => ?_
  refine L.onward (L.optional _ L.typeParameters) fun _ => ?_
  refine L.onward (L.repeatWhile (L.heritageClauseTurn (L.look (.atKeyword _)))) fun _ => ?_
  exact L.requiredBody rfl _

theorem typeAlias (moved : L.points.Holds point point') : L.Rel p .same (typeAlias point) (typeAlias point') := by
  refine L.nodeAt (L.ordinary rfl) moved ?_
  refine L.onward (L.takeKeyword _) fun _ => ?_
  refine L.onward L.nameRule fun _ => ?_
  refine L.onward (L.optional _ L.typeParameters) fun _ => ?_
  refine L.onward (L.whenever (L.expect _ _) (L.typeExpr _)) fun _ => ?_
  exact L.expectSemicolon

theorem enumDeclaration (moved : L.points.Holds point point') :
    L.Rel p .same (enumDeclaration point) (enumDeclaration point') := by
  have computed : L.Rel Anywhere .same computedName computedName :=
    L.onward L.bump fun _ => L.onward (L.balanced _ _) fun _ => L.onward (L.expect _ _) fun _ => L.pure rfl
  have name : L.Rel Anywhere .same enumMemberName enumMemberName :=
    L.onward (L.look .current) fun kind => by
      split
      · exact L.nameRule
      · exact L.node (L.ordinary rfl) L.bump
      · exact L.node (L.ordinary rfl) L.bump
      · exact computed
  have member : L.Rel Anywhere .same enumMember enumMember :=
    L.node (L.ordinary rfl) <| L.onward name fun _ => L.optional _ (L.initializer _)
  have body : L.Rel Anywhere .same enumBody enumBody :=
    L.choose (L.look (.currentIs _))
      (L.list rfl rfl (L.itemTurn _ (.currentIn _) _ (L.anywhere member)))
      (L.errorWith rfl _)
  exact L.nodeAt (L.ordinary rfl) moved <| L.onward (L.eatKeyword _) fun _ =>
    L.onward (L.takeKeyword _) fun _ => L.onward L.nameRule fun _ => body

/-! ### Exports -/

theorem moduleSpecifier : L.Rel p .same moduleSpecifier moduleSpecifier :=
  L.onward (L.eat _) fun _ => L.ite (fun _ => L.error rfl) fun _ => L.pure rfl

/-- The expression of an export stands in a type node, and needs it to be ordinary. -/
theorem expressionTail (ordinary : L.Ordinary .typeExpr) :
    L.Rel p .same expressionTail expressionTail := by
  refine L.onward (L.node ordinary ?_) fun _ => L.expectSemicolon
  exact L.onward (L.balanced _ _) fun _ => L.ite (fun _ => L.error rfl) fun _ => L.pure rfl

theorem exportDefault (moved : L.points.Holds point point') :
    L.Rel p .same (Grammar.exportDefault point) (Grammar.exportDefault point') := by
  refine L.anywhere ?_
  by_cases ordinary : L.Ordinary .exportAssignment ∧ L.Ordinary .typeExpr
  · exact L.nodeAt ordinary.1 moved (L.expressionTail ordinary.2)
  · exact L.ofExportDefault ordinary moved

theorem exportAssignment (moved : L.points.Holds point point') :
    L.Rel p .same (Grammar.exportAssignment point) (Grammar.exportAssignment point') := by
  refine L.anywhere ?_
  by_cases ordinary : L.Ordinary .exportAssignment ∧ L.Ordinary .typeExpr
  · exact L.nodeAt ordinary.1 moved <| L.onward (L.takeKeyword _) fun _ => L.onward L.bump fun _ =>
      L.expressionTail ordinary.2
  · exact L.ofExportAssignment ordinary moved

/-- The forms of an export are told apart by the same words ahead. -/
theorem exportForm (moved : L.points.Holds point point') :
    L.Rel p .same (exportForm point) (exportForm point') := by
  have names : L.Rel Anywhere .same exportedNames exportedNames :=
    L.choose (L.eat _) (L.whenever (L.and (L.eatKeyword _) (L.not (L.eat _))) L.nameRule)
      (L.bracedBody rfl)
  have declaration : L.Rel Anywhere .same (exportDeclaration point) (exportDeclaration point') :=
    L.nodeAt (L.ordinary rfl) moved <| L.onward (L.takeKeyword _) fun _ =>
      L.onward (L.eatKeyword _) fun _ => L.onward names fun _ =>
        L.onward (L.whenever (L.eatKeyword _) L.moduleSpecifier) fun _ => L.expectSemicolon
  have global : L.Rel Anywhere .same (namespaceExport point) (namespaceExport point') :=
    L.nodeAt (L.ordinary rfl) moved <| L.onward (L.takeKeyword _) fun _ =>
      L.onward (L.takeKeyword _) fun _ => L.onward (L.takeKeyword _) fun _ =>
        L.onward L.nameRule fun _ => L.expectSemicolon
  refine L.assertAtKeyword ?_
  have first (ws : List Word) (h : p ws ∧ spells ws 0 Keyword.kwExport.word = true) :
      Transparent 1 ws := transparent_one (kindIn_of_spells h.2) rfl
  refine L.ask (.kindAt first) fun next => ?_
  have typed := (Sees.nthIsKeyword (p := fun ws =>
      (p ws ∧ spells ws 0 Keyword.kwExport.word = true) ∧ kindIn ws 1 = next)
      (fun ws h => first ws h.1) .kwType).and
    (.nthIs (fun ws h => (first ws h.1.1).succ (spells_other h.1.1.2 (by decide)) (kindIn_of_spells h.2) rfl)
      .braceOpen)
  refine L.branch ((Sees.pure _).or typed) (L.anywhere (L.answer declaration true)) ?_
  refine L.ite (fun _ => L.answer (L.exportAssignment moved) true) fun _ => ?_
  have spaced := (Sees.nthIsKeyword first .kwAs).and
    (.nthIsKeyword (fun ws h => (first ws h.1).succ (spells_other h.1.2 (by decide)) (kindIn_of_spells h.2) rfl)
      .kwNamespace)
  exact L.branch (spaced.given fun ws h => h.1.1) (L.anywhere (L.answer global true)) (L.pure rfl)

/-! ### Imports -/

/-- Whether `type` marks a name depends on the two words behind it. -/
theorem specifierIsTypeOnly : L.Rel p .same specifierIsTypeOnly specifierIsTypeOnly := by
  refine L.ask (.atKeyword .kwType) fun type => L.ite (fun _ => L.pure rfl) fun found => ?_
  have first (ws : List Word) (h : p ws ∧ spells ws 0 Keyword.kwType.word = type) :
      Transparent 1 ws := transparent_one (kindIn_of_spells (h.2.trans (by simpa using found))) rfl
  refine L.ask (.kindAt first) fun next => L.ite (fun _ => L.pure rfl) fun begins => ?_
  have renamed := (Sees.nthIsKeyword (p := fun ws =>
      (p ws ∧ spells ws 0 Keyword.kwType.word = type) ∧ kindIn ws 1 = next)
      (fun ws h => first ws h.1) .kwAs).and
    (.not (.nthIs (fun ws h => (first ws h.1.1).succ (spells_other (h.1.1.2.trans (by simpa using found))
      (by decide)) (kindIn_of_spells h.2) rfl) .ident))
  exact L.onward (L.look renamed) fun _ => L.pure rfl

theorem expectAs : L.Rel p .same expectAs expectAs :=
  L.choose (L.eatKeyword _) (L.pure rfl) (L.answer (L.errorWith rfl _) false)

/-- The name before `as`, and the name behind it if there is one. -/
theorem specifierNames : L.Rel AtSpecifier .same specifierNames specifierNames := by
  have first (ws : List Word) (h : AtSpecifier ws) : Transparent 1 ws := by
    rcases h with here | here <;> exact transparent_one here rfl
  refine L.ask (.nthIsKeyword first .kwAs) fun renamed => ?_
  exact L.choose (L.or (L.pure rfl) (L.look (.currentIs _)))
    (L.onward L.bump fun _ => L.whenever L.expectAs L.nameRule) L.nameRule

theorem importSpecifier : L.Rel AtSpecifier .same importSpecifier importSpecifier := by
  obtain ⟨v, answers, found⟩ := specifierIsTypeOnly_answers
  refine L.node (L.ordinary rfl) ?_
  rw [whenever_then]
  refine L.bind (q := fun b ws => AtSpecifier ws ∧ v ws = b) L.specifierIsTypeOnly (fun c entry => ?_)
    fun b _ same => ?_
  · refine (answers c).imp fun b d post => ?_
    obtain ⟨rfl, _, _, _, rfl⟩ := post
    exact ⟨entry, rfl⟩
  · cases same
    cases b with
    | true =>
      exact L.readThen (takeKeyword_one _) (L.takeKeyword _) L.specifierNames
        fun ws type => (found ws type.2).2
    | false => exact L.given L.specifierNames fun ws here => here.1

/-- An import clause from its mark to its list of names. -/
theorem importClause : L.Rel p .same importClause importClause := by
  have typed : L.Rel Anywhere .same clauseIsTypeOnly clauseIsTypeOnly := by
    refine L.ask (.atKeyword .kwType) fun type => L.ite (fun _ => L.pure rfl) fun found => ?_
    have first (ws : List Word) (h : Anywhere ws ∧ spells ws 0 Keyword.kwType.word = type) :
        Transparent 1 ws := transparent_one (kindIn_of_spells (h.2.trans (by simpa using found))) rfl
    refine L.ask (.kindAt first) fun next => ?_
    split
    · exact L.pure rfl
    · exact L.pure rfl
    · have source := (Sees.nthIsKeyword (p := fun ws =>
          (Anywhere ws ∧ spells ws 0 Keyword.kwType.word = type) ∧ kindIn ws 1 = some .ident)
          (fun ws h => first ws h.1) .kwFrom).and
        (.nthIs (fun ws h => (first ws h.1.1).succ (spells_other (h.1.1.2.trans (by simpa using found))
          (by decide)) (kindIn_of_spells h.2) rfl) .stringLiteral)
      exact L.onward (L.look source) fun _ => L.pure rfl
    · exact L.pure rfl
  have named := (Sees.currentIs (p := Anywhere) .ident).and (.not (.atKeyword .kwFrom))
  have default : L.Rel Anywhere .same defaultImport defaultImport :=
    L.choose (L.look named) (L.onward L.nameRule fun _ => L.onward (L.eat _) fun _ => L.pure rfl)
      (L.pure rfl)
  have space : L.Rel Anywhere .same namespaceImport namespaceImport :=
    L.node (L.ordinary rfl) <| L.onward L.bump fun _ => L.onward L.expectAs fun _ => L.nameRule
  have starts := (Sees.current (p := Anywhere)).map startsSpecifier
  have turn : L.Rel Anywhere .same importTurn importTurn :=
    L.itemTurn _ starts _ (L.given L.importSpecifier fun _ => atSpecifier_of_starts)
  refine L.node (L.ordinary rfl) <| L.onward (L.whenever (L.anywhere typed) (L.takeKeyword _)) fun _ =>
    L.onward default fun _ => L.choose (L.look (.currentIs _)) space ?_
  exact L.choose (L.look (.currentIs _)) (L.list rfl rfl turn)
    (L.ite (fun _ => L.error rfl) fun _ => L.pure rfl)

/-- A string, or a clause with its source and attributes. -/
theorem importTail : L.Rel p .same importTail importTail := by
  have source : L.Rel Anywhere .same importSource importSource :=
    L.choose (L.eatKeyword _) L.moduleSpecifier (L.onward (L.expect _ _) fun _ => L.pure rfl)
  have attributes : L.Rel Anywhere .same importAttributes importAttributes :=
    L.onward L.bump fun _ => L.bracedBody rfl
  have announced := ((Sees.atWord (p := Anywhere) "with").or (.atWord "assert")).and
    (.nthIs (fun ws found => transparent_one ((Bool.or_eq_true_iff.1 found.2).elim
      kindIn_of_spells kindIn_of_spells) rfl) .braceOpen)
  exact L.choose (L.eat _) (L.answer L.expectSemicolon ()) <| L.onward L.importClause fun _ =>
    L.onward source fun _ => L.onward (L.whenever (L.look announced) attributes) fun _ =>
      L.expectSemicolon

/-- The node of an import around its tail. -/
theorem importDeclaration (moved : L.points.Holds point point') :
    L.Rel p .same (Grammar.importDeclaration point) (Grammar.importDeclaration point') := by
  refine L.anywhere ?_
  by_cases ordinary : L.Ordinary .importDeclaration
  · exact L.nodeAt ordinary moved (L.onward (L.takeKeyword _) fun _ => L.importTail)
  · exact L.ofImportDeclaration ordinary moved L.importTail

theorem moduleReference : L.Rel p .same moduleReference moduleReference := by
  have further : L.Rel Anywhere .same referenceTurn referenceTurn :=
    L.choose (L.eat _) (L.choose (L.eat _) (L.pure rfl) (L.answer (L.error rfl) false)) (L.pure rfl)
  have call : L.Rel Anywhere .same requireCall requireCall :=
    L.onward (L.takeKeyword _) fun _ => L.onward L.bump fun _ => L.onward L.moduleSpecifier fun _ =>
      L.onward (L.expect _ _) fun _ => L.pure rfl
  have called := (Sees.atKeyword (p := p) .kwRequire).and
    (.nthIs (fun ws found => transparent_one (kindIn_of_spells found.2) rfl) .parenOpen)
  exact L.node (L.ordinary rfl) <| L.choose (L.look called) call <|
    L.choose (L.eat _) (L.repeatWhile further) (L.error rfl)

/-- Three words ahead tell an import assignment from an import. -/
theorem importStatement (moved : L.points.Holds point point') :
    L.Rel (Announces .kwImport) .same (importStatement point) (importStatement point') := by
  have typed := (Sees.atKeyword (p := Anywhere) .kwType).and
    (.nthIs (fun ws found => transparent_one (kindIn_of_spells found.2) rfl) .ident)
  have equals : L.Rel Anywhere .same importEqualsTail importEqualsTail :=
    L.onward (L.whenever (L.look typed) (L.takeKeyword _)) fun _ => L.onward L.nameRule fun _ =>
      L.onward (L.expect _ _) fun _ => L.onward L.moduleReference fun _ => L.expectSemicolon
  have first (ws : List Word) (h : Announces .kwImport ws) : Transparent 1 ws :=
    transparent_one (kindIn_of_spells h) rfl
  have second (ws : List Word) {kind : TokenKind} (h : Announces .kwImport ws) (next : kindIn ws 1 = some kind)
      (through : kind.isTransparent = true) : Transparent 2 ws :=
    (first ws h).succ (spells_other h (by decide)) next through
  have plain := (Sees.nthIs first .ident).and
    (.nthIs (fun ws h => second ws h.1 (eq_of_beq h.2) rfl) .equals)
  have marked := (Sees.nthIsKeyword first .kwType).and <|
    (Sees.nthIs (fun ws h => second ws h.1 (kindIn_of_spells h.2) rfl) .ident).and
      (.nthIs (fun ws h => (second ws h.1.1 (kindIn_of_spells h.1.2) rfl).succ
        (spells_other h.1.2 (by decide)) (eq_of_beq h.2) rfl) .equals)
  exact L.choose (L.look (plain.or marked))
    (L.nodeAt (L.ordinary rfl) moved (L.onward (L.takeKeyword _) fun _ => equals))
    (L.importDeclaration moved)

/-! ### Statements -/

section

variable {inner inner' : Rule Unit} (statement : L.Rel Anywhere .same inner inner')
include statement

/-- One statement of a block, related by assumption. -/
theorem blockTurn : L.Rel p .same (blockTurn inner) (blockTurn inner') :=
  L.choose (L.or L.atEnd (L.look (.currentIs _))) (L.pure rfl) (L.answer statement true)

/-- A block is a level: it is entered and left on both sides. -/
theorem moduleBlock : L.Rel p .same (moduleBlock inner) (moduleBlock inner') := by
  refine L.assertAt ?_
  refine L.onward L.descend fun _ => ?_
  refine L.ite (fun _ => L.pure rfl) fun _ => ?_
  refine L.onward (L.list rfl rfl (L.blockTurn statement)) fun _ => ?_
  exact L.ascend

/-- What follows `module` or `namespace`. -/
theorem moduleRest : L.Rel p .same (moduleRest inner) (moduleRest inner') := by
  have further : L.Rel Anywhere .same segmentTurn segmentTurn :=
    L.choose (L.eat _) (L.answer L.nameRule true) (L.pure rfl)
  have name : L.Rel Anywhere .same moduleName moduleName :=
    L.choose (L.look (.currentIs _)) (L.node (L.ordinary rfl) L.bump)
      (L.onward L.nameRule fun _ => L.repeatWhile further)
  exact L.onward (L.anywhere name) fun _ =>
    L.choose (L.look (.currentIs _)) (L.moduleBlock statement) L.expectSemicolon

end

section

variable {m n : Nat} (statement : L.Rel Anywhere .same (statementWithin m) (statementWithin n))
include statement

theorem moduleDeclaration (moved : L.points.Holds point point') :
    L.Rel AtModule .same (moduleDeclaration point (statementWithin m)) (moduleDeclaration point' (statementWithin n)) := by
  by_cases ordinary : L.Ordinary .moduleDeclaration
  · exact L.nodeAt ordinary moved <| L.onward L.bumpKeyword fun _ => L.moduleRest statement
  · exact L.ofModuleDeclaration ordinary moved m n (L.moduleRest statement)

theorem globalDeclaration (moved : L.points.Holds point point') :
    L.Rel (Announces .kwGlobal) .same (globalDeclaration point (statementWithin m))
      (globalDeclaration point' (statementWithin n)) := by
  by_cases ordinary : L.Ordinary .moduleDeclaration
  · exact L.nodeAt ordinary moved <| L.onward (L.takeKeyword _) fun _ => L.moduleBlock statement
  · exact L.ofGlobalDeclaration ordinary moved m n (L.moduleBlock statement)

/-- The keyword is the same, so the same declaration is chosen. -/
theorem declarationOf (moved : L.points.Holds point point') (isDefault : Bool) (k : Option Keyword) :
    L.Rel (Spelling k) .same (declarationOf (statementWithin m) point isDefault k)
      (declarationOf (statementWithin n) point' isDefault k) := by
  have first (ws : List Word) (h : Spelling k ws) : Transparent 1 ws := transparent_one h.1 rfl
  have next := L.look (.nthIs first .ident)
  have follows : L.Rel (Spelling k) .same bindingFollows bindingFollows :=
    L.onward (L.look (.kindAt first)) fun _ => L.pure rfl
  cases k with
  | none => exact L.pure rfl
  | some k =>
    cases k with
    | kwConst =>
      refine L.branch (.nthIsKeyword first .kwEnum) (L.answer (L.enumDeclaration moved) true) ?_
      exact L.given (L.onlyIf follows (L.variableStatement moved)) fun _ h => h.1
    | kwVar | kwLet => exact L.onlyIf follows (L.variableStatement moved)
    | kwFunction => exact L.onlyIf (L.pure rfl) (L.functionDeclaration moved _)
    | kwClass => exact L.onlyIf (L.pure rfl) (L.classDeclaration moved _)
    | kwInterface => exact L.onlyIf next (L.interfaceDeclaration moved)
    | kwType => exact L.onlyIf next (L.typeAlias moved)
    | kwEnum => exact L.onlyIf next (L.enumDeclaration moved)
    | kwNamespace =>
      refine L.branch (.nthIs first .ident) (L.answer ?_ true) (L.pure rfl)
      exact L.given (L.moduleDeclaration statement moved) fun _ h => .inl h.1.announces
    | kwModule =>
      refine L.ask (.kindAt first) fun _ => L.branch (.pure _) (L.answer ?_ true) (L.pure rfl)
      exact L.given (L.moduleDeclaration statement moved) fun _ h => .inr h.1.1.announces
    | kwGlobal =>
      refine L.branch (.nthIs first .braceOpen) (L.answer ?_ true) (L.pure rfl)
      exact L.given (L.globalDeclaration statement moved) fun _ h => h.1.announces
    | kwImport =>
      refine L.branch (.pure _) (L.answer ?_ true) (L.pure rfl)
      exact L.given (L.importStatement moved) fun _ h => h.1.announces
    | _ => exact L.pure rfl

/-- The keyword is read off the words ahead. -/
theorem declaration (moved : L.points.Holds point point') (isDefault : Bool) :
    L.Rel p .same (declaration (statementWithin m) point isDefault)
      (declaration (statementWithin n) point' isDefault) := by
  refine L.ask .current fun kind => L.ite (fun _ => L.pure rfl) fun ident => ?_
  refine L.ask .currentText fun text => L.given (L.declarationOf statement moved _ _) fun ws h => ?_
  exact ⟨h.1.2.trans (Classical.not_not.1 ident), congrArg Keyword.ofWord? h.2⟩

omit statement in
/-- Recovery stops at the same word, since its tests see the same words. -/
theorem recover (moved : L.points.Holds point point') (hasModifiers : Bool) :
    L.Rel p .same (recover point hasModifiers) (recover point' hasModifiers) := by
  have complains : L.Rel p .same (complainOfStart hasModifiers) (complainOfStart hasModifiers) :=
    L.choose (L.look (.currentIs _)) (L.error rfl) <| L.ite (fun _ => L.error rfl) fun _ =>
      L.choose (L.look (.currentIn _)) (L.onward (L.look .currentText) fun _ => L.errorWith rfl _)
        (L.onward (L.look .currentText) fun _ => L.errorWith rfl _)
  have ends (block : Bool) (kind : Option TokenKind) :
      L.Rel Anywhere .same (skippingEnds block kind) (skippingEnds block kind) :=
    L.or (L.pure rfl) L.atStatementStart
  have turn (block : Bool) (s : Skipping) :
      L.Rel Anywhere (.turn .same) (skipTurn block s) (skipTurn block s) :=
    L.choose L.atEnd (L.pure rfl) <| L.onward (L.look .current) fun kind =>
      L.choose (L.and (L.pure rfl) (ends block kind)) (L.pure rfl) <| L.onward L.bump fun _ =>
        L.ite (fun _ => L.pure rfl) fun _ => L.pure rfl
  refine L.onward complains fun _ => L.nodeAt (L.ordinary rfl) moved <| L.onward L.inBlock fun b => ?_
  refine L.onward (L.loop (I := .same) rfl fun s s' same => ?_) fun _ => L.pure rfl
  cases same
  exact turn b s

omit statement in
/-- By induction on the rounds, with the same modifiers on both sides. -/
theorem modifiers : L.Rel p .same modifiers modifiers := by
  have reads (k : Keyword) (m : Modifiers) {p : List Word → Prop} :
      L.Rel p (.turn .same) (do takeKeyword k; return Turn.again m)
        (do takeKeyword k; return Turn.again m) :=
    L.onward (L.takeKeyword k) fun _ => L.pure rfl
  have first (k : Keyword) (ws : List Word) (h : Anywhere ws ∧ spells ws 0 k.word = true) :
      Transparent 1 ws := transparent_one (kindIn_of_spells h.2) rfl
  have declares := (Sees.atKeyword .kwDeclare).and (.nthIs (first .kwDeclare) .ident)
  have abstracts := (Sees.atKeyword .kwAbstract).and (.nthIsKeyword (first .kwAbstract) .kwClass)
  refine L.loop (I := .same) rfl fun m m' same => ?_
  cases same
  refine L.choose (L.look (.atKeyword _)) (reads _ _) ?_
  refine L.choose (L.and (L.look (.atKeyword _)) (L.pure rfl)) (reads _ _) ?_
  exact L.choose (L.look declares) (reads _ _) (L.choose (L.look abstracts) (reads _ _) (L.pure rfl))

/-- A statement behind its modifiers, or recovery. -/
theorem statementAt (moved : L.points.Holds point point') :
    L.Rel p .same (statementAt (statementWithin m) point) (statementAt (statementWithin n) point') := by
  have last (read : Modifiers) :
      L.Rel Anywhere .same (modified (statementWithin m) point read) (modified (statementWithin n) point' read) :=
    L.choose (L.declaration statement moved _) (L.pure rfl) <|
      L.ite (fun _ => L.exportDefault moved) fun _ => L.recover moved _
  refine L.choose (L.look (.currentIs _)) (L.answer (L.node (L.ordinary rfl) L.bump) ()) ?_
  exact L.choose (L.and (L.look (.atKeyword _)) (L.exportForm moved)) (L.pure rfl) (L.onward L.modifiers last)

end

/-- By induction on the fuel of both sides. -/
theorem statementWithin (m n : Nat) : L.Rel p .same (statementWithin m) (statementWithin n) := by
  refine L.anywhere ?_
  induction m generalizing n with
  | zero => exact L.throwLeft _ _
  | succ m ih =>
    have step (n : Nat) :
        L.Rel Anywhere .same (Grammar.statementWithin (m + 1)) (Grammar.statementWithin (n + 1)) :=
      L.bindTo L.checkpoint fun _ _ moved => L.statementAt (ih n) moved
    cases n with
    | zero => exact L.throwRight (step 0) _
    | succ n => exact step n

/-- The rule for a source is related to itself. -/
theorem source : L.Rel Anywhere .same source source := by
  have statement : L.Rel Anywhere .same statement statement :=
    L.bounded (f := fun n => Grammar.statementWithin (n + 1))
      (g := fun n => Grammar.statementWithin (n + 1)) fun _ _ => L.statementWithin _ _
  have turn : L.Rel Anywhere .same sourceTurn sourceTurn :=
    L.choose L.atEnd (L.pure rfl) (L.answer statement true)
  have settles : L.Rel Anywhere .same skipAndPlaceGap skipAndPlaceGap :=
    L.onward L.skipGap fun _ => L.placeGap
  exact L.onward (L.node (L.ordinary rfl) (L.onward (L.repeatWhile turn) fun _ => settles)) fun _ =>
    L.placeGap

end GrammarRelation

end ImplicitGlobals.Grammar
