import ImplicitGlobals.Proofs.Grammar.Advancing
import ImplicitGlobals.Proofs.Printing.RoundTrip

/-!
# Heads of classes

A class says what it extends and then what it implements, and the rule for classes looks for a clause
of each. A type goes on to a comma, a brace or where a statement begins, though, and none begins at
`implements`. So there is one clause, and its first type goes on over the second keyword to the end
of the first type that is implemented.
-/

namespace ImplicitGlobals

open Lexeme Grammar

/-- What may not stand in a type of a class head outside of all brackets. -/
def Lexeme.endsClause (l : Lexeme) : Bool := l.kind == .comma || l.kind == .braceOpen || l.isKeyword

/-- A type that a class extends or implements. -/
structure ClauseRun extends WordRun true Lexeme.endsClause where
  some : words ≠ []

/-- `class name extends base implements first, more` -/
structure ClassHead where
  name : String
  named : name ≠ Keyword.kwExtends.word ∧ name ≠ Keyword.kwImplements.word
  base : ClauseRun
  first : ClauseRun
  more : List ClauseRun

namespace ClassHead

/-- The lexemes of a class head. -/
def lexemes (h : ClassHead) : List Lexeme :=
  ofKeyword .kwClass :: ⟨.ident, h.name⟩ :: ofKeyword .kwExtends :: (h.base.words ++
    ofKeyword .kwImplements :: listed ((h.first :: h.more).map (·.words)))

/-- The words of each type in the clause that is read. -/
def types (h : ClassHead) : List (List Lexeme) :=
  (h.base.words ++ ofKeyword .kwImplements :: h.first.words) :: h.more.map (·.words)

/-- What is read of the head: the keyword, the name and one clause. -/
def trees (h : ClassHead) : List SyntaxTree :=
  [keywordLeaf .kwClass, .node .name [Lexeme.leaf ⟨.ident, h.name⟩],
    .node .heritageClause (keywordLeaf .kwExtends :: listedTrees (h.types.map typeTree))]

theorem lexemes_append (h : ClassHead) (a : List Lexeme) :
    h.lexemes ++ a = ofKeyword .kwClass :: ⟨.ident, h.name⟩ :: ofKeyword .kwExtends :: (listed h.types ++ a) := by
  obtain ⟨name, named, base, first, more⟩ := h
  cases more <;> simp [lexemes, types, listed, List.intercalate]

end ClassHead

namespace Grammar

variable {l a : List Lexeme} {ts us : List SyntaxTree} {words : List Word} {c o : Cursor}

/-! ### Types that go on -/

/-- What ends a type of a class head: `implements` does not. -/
def endsType (l : Lexeme) : Bool :=
  l.kind == .comma || l.kind == .braceOpen || (l.isKeyword && l.text != Keyword.kwImplements.word)

/-- A type as a class head reads it. -/
structure HeadRun extends WordRun true endsType where
  some : words ≠ []

theorem endsType_of_endsClause {w : Lexeme} (free : w.endsClause = false) : endsType w = false := by
  simp only [Lexeme.endsClause, Bool.or_eq_false_iff] at free
  simp [endsType, free]

/-- `implements` begins no statement. -/
theorem implements_parses (l : List Lexeme) :
    Parses atStatementStart (ofKeyword .kwImplements :: l) (ofKeyword .kwImplements :: l) false [] := by
  have text : Parses currentText (ofKeyword .kwImplements :: l) (ofKeyword .kwImplements :: l)
      Keyword.kwImplements.word [] := currentText_parses _
  refine (current_parses _).ask (text.ask ?_)
  rw [Keyword.ofWord?_word]
  exact .pure false _

/-- A word that ends no type is passed in a clause. -/
theorem passes_of_endsType {mode : RunMode} {w : Lexeme} (free : endsType w = false) :
    Passes .heritageEnd mode w := by
  simp only [endsType, Bool.or_eq_false_iff, beq_eq_false_iff_ne] at free
  have kind : KindSet.heritageEnd.holds w.kind = false := by
    generalize w.kind = kind at free
    cases kind <;> first | decide | simp at free
  cases plain : w.isKeyword with
  | false => exact .plain kind fun _ => plain
  | true =>
    have ident : w.kind = .ident := by simpa using (Bool.and_eq_true_iff.1 plain).1
    have text : w.text = Keyword.kwImplements.word := by simpa [plain] using free.2
    have is : w = ofKeyword .kwImplements := by
      cases w
      cases ident
      cases text
      rfl
    exact ⟨kind, fun _ l => is ▸ implements_parses l⟩

def HeadRun.ofClause (run : ClauseRun) : HeadRun where
  words := run.words
  clean := run.clean
  nested := run.nested
  free i bound out := endsType_of_endsClause (run.free i bound out)
  some := run.some

/-- What is extended and what is implemented first, with the keyword between them. -/
def HeadRun.joined (base first : ClauseRun) : HeadRun where
  words := base.words ++ ofKeyword .kwImplements :: first.words
  clean := by
    simp only [List.forall_mem_append, List.forall_mem_cons]
    exact ⟨base.clean, by decide, first.clean⟩
  nested := by
    have first : WellNested true (((ofKeyword .kwImplements) :: first.words).map (·.kind)) := first.nested
    rw [List.map_append]
    exact nest_trans base.nested first
  free i bound out := by
    rcases Nat.lt_trichotomy i base.words.length with before | rfl | behind
    · rw [List.take_append_of_le_length (Nat.le_of_lt before)] at out
      rw [List.getElem_append_left before]
      exact endsType_of_endsClause (base.free i before out)
    · rw [List.getElem_append_right (Nat.le_refl _)]
      simp only [Nat.sub_self, List.getElem_cons_zero]
      decide
    · obtain ⟨k, rfl⟩ : ∃ k, i = base.words.length + (k + 1) := ⟨i - base.words.length - 1, by omega⟩
      have within : k < first.words.length := by
        simp only [List.length_append, List.length_cons] at bound
        omega
      -- nothing is open behind the first type, nor behind the keyword
      have inner : WellNested true ((first.words.take k).map (·.kind)) := by
        rw [List.take_length_add_append, List.take_succ_cons, List.map_append, WellNested, nest_append_kinds,
          base.nested] at out
        exact out
      rw [List.getElem_append_right (Nat.le_add_right _ _)]
      simp only [Nat.add_sub_cancel_left, List.getElem_cons_succ]
      exact endsType_of_endsClause (first.free k within inner)
  some := by simp

/-! ### The clause -/

/-- A type of the clause is read to the comma or the brace. -/
theorem headType_parses (run : HeadRun) (ends : Ends .heritageEnd a) :
    Parses (typeExpr .heritageEnd) (run.words ++ a) a () [typeTree run.words] :=
  typeExpr_parses run.toWordRun run.some (fun _ => passes_of_endsType) ends

/-- The clause is read with all its types. -/
theorem headClause_parses (run : HeadRun) (runs : List HeadRun) (a : List Lexeme) :
    Parses heritageClause
      (ofKeyword .kwExtends :: (listed ((run :: runs).map (·.words)) ++ ofSign .braceOpen :: a))
      (ofSign .braceOpen :: a) ()
      [.node .heritageClause (keywordLeaf .kwExtends ::
        listedTrees ((run :: runs).map fun run => typeTree run.words))] := by
  refine node_parses ((bumpKeyword_parses .kwExtends _).seq (repeatWhile_parses ?_))
  refine repeats_listed (fun run b => ?_) (fun run => ?_) run runs
  · have ends : Ends .heritageEnd (ofSign .comma :: b) := ends_of_kindOf rfl (by decide)
    exact (headType_parses run ends).seq (eat_hit rfl b)
  · have ends : Ends .heritageEnd (ofSign .braceOpen :: a) := ends_of_kindOf rfl (by decide)
    exact (headType_parses run ends).seq (eat_miss rfl)

/-- Both keywords are looked for, and both are behind the cursor when the clause is read. -/
theorem headClauses_parse (h : ClassHead) (a : List Lexeme) :
    Parses (repeatWhile (heritageClauseTurn (atKeyword .kwExtends <||> atKeyword .kwImplements)))
      (ofKeyword .kwExtends :: (listed h.types ++ ofSign .braceOpen :: a)) (ofSign .braceOpen :: a) ()
      [.node .heritageClause (keywordLeaf .kwExtends :: listedTrees (h.types.map typeTree))] := by
  have found (l : List Lexeme) :=
    (atKeyword_parses (ofKeyword .kwExtends :: l) .kwExtends).or (atKeyword_parses _ .kwImplements)
  have none := (atKeyword_parses (ofSign .braceOpen :: a) .kwExtends).or
    (atKeyword_parses (ofSign .braceOpen :: a) .kwImplements)
  have clause := headClause_parses (.joined h.base h.first) (h.more.map .ofClause) a
  have first : Parses (heritageClauseTurn (atKeyword .kwExtends <||> atKeyword .kwImplements)) _ _ true _ :=
    Parses.yes (found _) (clause.seq (.pure true _))
  have whole := repeatWhile_parses (.again first (.stop (Parses.no none (.pure false _))))
  simpa [ClassHead.types, HeadRun.joined, HeadRun.ofClause, Function.comp_def] using whole

/-- The name is read. -/
theorem headName_parses (h : ClassHead) (anonymous : Bool) (a : List Lexeme) :
    Parses (className anonymous) (⟨.ident, h.name⟩ :: a) a () [.node .name [Lexeme.leaf ⟨.ident, h.name⟩]] := by
  have not {k : Keyword} (other : h.name ≠ k.word) : Parses ((!·) <$> atKeyword k) (⟨.ident, h.name⟩ :: a)
      (⟨.ident, h.name⟩ :: a) true [] := by
    have asked := (atKeyword_parses (⟨.ident, h.name⟩ :: a) k).map (!·)
    rwa [show spelled (⟨.ident, h.name⟩ :: a) 0 k.word = false by simpa [spelled] using other] at asked
  have named := (currentIs_parses (⟨.ident, h.name⟩ :: a) .ident).and ((not h.named.1).and (not h.named.2))
  exact Parses.yes named (identifier_parses h.name a)

/-! ### The body -/

/-- What comes behind a rule that complains of nothing. -/
theorem Parses.onward {α β : Type} {r : Rule α} {f : α → Rule β} {x : α} {Q : β → Cursor → Prop}
    (h : Parses r l a x ts) (ready : Ready words c) (here : c.rest.map Word.lexeme = l)
    (next : ∀ d, Ready words d → d.rest.map Word.lexeme = a → Adds words c d ts → Yields (f x) d Q) :
    Yields (r >>= f) c Q := by
  refine (h words c ready here).bind fun y d post => ?_
  obtain ⟨rfl, ready', here', adds⟩ := post
  exact next d ready' here' adds

/-- Whatever a body holds, one node comes of it. -/
theorem bracedBody_adds (kind : NodeKind) (ready : Ready words c)
    (here : c.rest.map Word.lexeme = ofSign .braceOpen :: l) :
    Yields (bracedBody kind) c fun _ d => ∃ ts, Adds words c d [.node kind ts] := by
  refine (currentIs_parses (ofSign .braceOpen :: l) .braceOpen).onward ready here fun d _ _ looked => ?_
  let marks : Delimiters := ⟨.braceOpen, .braceClose, .unclosedBrace, "body opened here", true⟩
  have inner : advancing.Rel Anywhere .same (delimited marks bodyTurn) (delimited marks bodyTurn) :=
    advancing.delimited marks rfl advancing.bodyTurn
  have within : Trails Advances (delimited marks bodyTurn) := inner
  show Yields (node kind (delimited marks bodyTurn)) d _
  refine (node_yields (within _)).imp fun _ e closed => ?_
  obtain ⟨e, o, os, body, opened, rfl⟩ := closed
  obtain ⟨rfl, rfl⟩ := List.cons.inj (opened.symm.trans body.opened)
  have placed : Adds words c d.placeGap ([] ++ []) := looked.trans (Adds.placeGap d)
  let ps := e.parts.toList.drop d.placeGap.parts.size
  have node : Adds words d.placeGap (e.closeNode kind d.placeGap.parts.size)
      [.node kind (Tree.expandAll (bareSlot words) ps)] := by
    refine ⟨by simp [Cursor.closeNode, opened], [.node kind ps], ?_, rfl⟩
    rw [Cursor.toList_parts_closeNode, body.take_parts]
  exact ⟨_, placed.trans node⟩

/-- The body that follows is read, whatever is inside. -/
theorem requiredBody_adds (kind : NodeKind) (what : String) (ready : Ready words c)
    (here : c.rest.map Word.lexeme = ofSign .braceOpen :: l) :
    Yields (requiredBody kind what) c fun _ d => ∃ ts, Adds words c d [.node kind ts] := by
  refine (currentIs_parses (ofSign .braceOpen :: l) .braceOpen).onward ready here fun d ready' here' looked => ?_
  refine (bracedBody_adds kind ready' here').imp fun _ e post => ?_
  obtain ⟨ts, adds⟩ := post
  exact ⟨ts, looked.trans adds⟩

/-! ### Classes -/

/-- However its body is written, a class is read with one clause. -/
theorem classDeclaration_adds (h : ClassHead) (anonymous : Bool) (ready : Ready words c) (before : Adds words o c us)
    (here : c.rest.map Word.lexeme = h.lexemes ++ ofSign .braceOpen :: l) :
    Yields (classDeclaration o.parts.size anonymous) c fun _ d => ∃ body,
      Adds words o d [.node .classDeclaration (us ++ (h.trees ++ [.node .classBody body]))] := by
  let b := c.openNode .classDeclaration o.parts.size
  have begun : Ready words b := ready.of rfl rfl rfl rfl rfl rfl
  rw [h.lexemes_append] at here
  have inside : Yields (do takeKeyword .kwClass; className anonymous; optional .angleOpen typeParameters
                           repeatWhile (heritageClauseTurn (atKeyword .kwExtends <||> atKeyword .kwImplements))
                           requiredBody .classBody "class body") b fun _ e =>
      ∃ body, Adds words b e (h.trees ++ [.node .classBody body]) := by
    refine (takeKeyword_parses .kwClass _).onward begun here fun d ready here keyword => ?_
    refine (headName_parses h anonymous _).onward ready here fun e ready here name => ?_
    refine (optional_miss rfl).onward ready here fun f ready here none => ?_
    refine (headClauses_parse h l).onward ready here fun g ready here clause => ?_
    refine (requiredBody_adds .classBody "class body" ready here).imp fun _ _ post => ?_
    obtain ⟨body, adds⟩ := post
    exact ⟨body, by simpa [ClassHead.trees] using keyword.trans (name.trans (none.trans (clause.trans adds)))⟩
  refine (nodeAt_yields inside).imp fun _ d closed => ?_
  obtain ⟨e, n, ns, ⟨body, adds⟩, opened, rfl⟩ := closed
  obtain ⟨outer, whole⟩ := before.close adds
  obtain ⟨rfl, -⟩ := List.cons.inj (opened.symm.trans outer)
  exact ⟨body, whole⟩

/-- A class is read with one clause, and nothing is complained of. -/
theorem headedClass_parses (us : List SyntaxTree) (h : ClassHead) (anonymous : Bool) (body : BodyRun)
    (a : List Lexeme) :
    ParsesFrom us (classDeclaration · anonymous) (h.lexemes ++ (body.lexemes ++ a)) a ()
      [.node .classDeclaration (us ++ (h.trees ++ [bodyTree .classBody body]))] := by
  have read := requiredBody_parses .classBody "class body" body a
  rw [BodyRun.lexemes_append] at read ⊢
  rw [h.lexemes_append]
  refine nodeAt_parses ?_ us
  refine (takeKeyword_parses .kwClass _).seq ?_
  refine (headName_parses h anonymous _).seq ?_
  refine (optional_miss rfl).seq ?_
  exact (headClauses_parse h _).seq read

/-- The class is read with its one clause. -/
theorem statementWithin_headedClass (n : Nat) (declared : Bool) (h : ClassHead) (body : BodyRun) (a : List Lexeme) :
    Parses (statementWithin n) (declareLexemes declared ++ (h.lexemes ++ (body.lexemes ++ a))) a ()
      [.node .classDeclaration (declareTrees declared ++ (h.trees ++ [bodyTree .classBody body]))] := by
  cases n with
  | zero => exact fun _ _ _ _ => .throw _
  | succ n =>
    have announced := onlyIf_parses (Parses.pure true _)
      (headedClass_parses (declareTrees declared) h false body a)
    rw [h.lexemes_append] at announced ⊢
    exact checkpoint_parses (statementAt_parses rfl announced)

end Grammar

/-- Of a class head that extends one type and implements others one clause is read, wherever the class
stands and whatever its body holds: it begins with `extends`, and its first type is the one that is
extended together with `implements` and the first one that is implemented. Where the body is a
balanced run, nothing is complained of. -/
theorem classHead_read (h : ClassHead) :
    (∀ words o c us anonymous rest, Ready words c → Adds words o c us →
      c.rest.map Word.lexeme = h.lexemes ++ ofSign .braceOpen :: rest →
      Yields (classDeclaration o.parts.size anonymous) c fun _ d => ∃ body,
        Adds words o d [.node .classDeclaration (us ++ (h.trees ++ [.node .classBody body]))]) ∧
    ∀ (text : String) (declared : Bool) (body : BodyRun),
      ((lex text).filter (!·.kind.isTrivia)).map Token.lexeme =
        declareLexemes declared ++ (h.lexemes ++ body.lexemes) →
      ∃ p, parse text = .ok p ∧ p.diagnostics = [] ∧ Tree.expandAll Leaf.bare p.tree.children =
        [.node .classDeclaration (declareTrees declared ++ (h.trees ++ [bodyTree .classBody body]))] := by
  refine ⟨fun words o c us anonymous rest ready before here => ?_, fun text declared body written => ?_⟩
  · exact classDeclaration_adds h anonymous ready before here
  · have read (n : Nat) := statementWithin_headedClass n declared h body []
    rw [List.append_nil] at read
    have first : kindOf (declareLexemes declared ++ (h.lexemes ++ body.lexemes)) 0 = some .ident := by
      rw [h.lexemes_append]
      cases declared <;> rfl
    have turns := Repeats.again (sourceTurn_of_statement first read) (.stop sourceTurn_ends)
    rw [List.append_nil] at turns
    exact parse_of_source_trees written (source_of_turns turns)

/-- Two types are implemented, the first of them with an argument, and there is a member. -/
theorem classHead_read_generic :
    (Yields (classDeclaration 0 false)
        (.start {} (Word.ofTokens (lex "class A extends B implements C<T>, D \x7b"))) fun _ d => ∃ body,
      Adds (Word.ofTokens (lex "class A extends B implements C<T>, D \x7b"))
        (.start {} (Word.ofTokens (lex "class A extends B implements C<T>, D \x7b"))) d
        [.node .classDeclaration [keywordLeaf .kwClass, .node .name [Lexeme.leaf ⟨.ident, "A"⟩],
          .node .heritageClause [keywordLeaf .kwExtends,
            typeTree [⟨.ident, "B"⟩, .ofKeyword .kwImplements, ⟨.ident, "C"⟩, ⟨.angleOpen, "<"⟩, ⟨.ident, "T"⟩,
              ⟨.angleClose, ">"⟩], (Lexeme.ofSign .comma).leaf, typeTree [⟨.ident, "D"⟩]],
          .node .classBody body]]) ∧
    ∃ p, parse "declare class A extends B implements C<T>, D \x7b m(): void \x7d" = .ok p ∧ p.diagnostics = [] := by
  let ident (text : String) : Lexeme := ⟨.ident, text⟩
  let B : ClauseRun := ⟨⟨[ident "B"], by decide, by decide, by decide⟩, by decide⟩
  let C : ClauseRun :=
    ⟨⟨[ident "C", ⟨.angleOpen, "<"⟩, ident "T", ⟨.angleClose, ">"⟩], by decide, by decide, by decide⟩, by decide⟩
  let D : ClauseRun := ⟨⟨[ident "D"], by decide, by decide, by decide⟩, by decide⟩
  let members : BodyRun :=
    ⟨[ident "m", .ofSign .parenOpen, .ofSign .parenClose, .ofSign .colon, ident "void"],
      by decide, by decide, by decide⟩
  let head : ClassHead := ⟨"A", by decide, B, C, [D]⟩
  obtain ⟨p, parsed, clean, -⟩ := (classHead_read head).2
    "declare class A extends B implements C<T>, D \x7b m(): void \x7d" true members (by decide +kernel)
  exact ⟨(classHead_read head).1 _ _ _ [] false [] ⟨⟨rfl, rfl, rfl⟩, rfl, rfl⟩ (Adds.same (.refl _)) (by decide +kernel),
    p, parsed, clean⟩

/-- A class that extends one type and implements another has one clause, with one type in it. -/
theorem classHead_joined :
    ∃ (h : ClassHead) (body : BodyRun) (p : Parsed),
      ((lex "declare class A extends B implements C \x7b\x7d").filter (!·.kind.isTrivia)).map Token.lexeme =
        declareLexemes true ++ (h.lexemes ++ body.lexemes) ∧
      parse "declare class A extends B implements C \x7b\x7d" = .ok p ∧ p.diagnostics = [] ∧
      (p.tree.descendants .classDeclaration).map (fun t => (SyntaxTree.childrenOf t .heritageClause).map fun clause =>
        (SyntaxTree.childrenOf clause .typeExpr).map SyntaxTree.text) = [[[" B implements C"]]] := by
  have found : (parse "declare class A extends B implements C \x7b\x7d").toOption.any (fun p => decide (
      p.diagnostics = [] ∧
      (p.tree.descendants .classDeclaration).map (fun t => (SyntaxTree.childrenOf t .heritageClause).map fun clause =>
        (SyntaxTree.childrenOf clause .typeExpr).map SyntaxTree.text) = [[[" B implements C"]]])) = true := by
    decide +kernel
  obtain ⟨p, parsed, found⟩ := exists_of_any_toOption found
  let B : ClauseRun := ⟨⟨[⟨.ident, "B"⟩], by decide, by decide, by decide⟩, by decide⟩
  let C : ClauseRun := ⟨⟨[⟨.ident, "C"⟩], by decide, by decide, by decide⟩, by decide⟩
  exact ⟨⟨"A", by decide, B, C, []⟩, ⟨[], by decide, by decide, by decide⟩, p, by decide +kernel, parsed,
    of_decide_eq_true found⟩

end ImplicitGlobals
