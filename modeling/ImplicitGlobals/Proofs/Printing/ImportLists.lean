import ImplicitGlobals.Proofs.Printing.RoundTrip
import ImplicitGlobals.Proofs.Syntax.Cutting

/-!
# Import lists

What stands between the braces of an import is bound as it is written: each specifier under the
name behind `as`, if there is one, and as a type alone where `type` marks it. The one form that is
taken for another is `type as name`, which imports what is named `type`.
-/

namespace ImplicitGlobals

open Grammar

/-! ### Specifiers -/

/-- An identifier that is not `as`. -/
structure ImportedName where
  text : String
  identifier : Text.isIdentifier text = true
  other : text ≠ Keyword.kwAs.word

/-- `[type] name [as alias]` -/
structure Imported where
  marked : Bool
  name : ImportedName
  alias? : Option ImportedName

namespace Imported

/-- The identifiers that a specifier is written with. -/
def words (i : Imported) : List String :=
  (if i.marked then [Keyword.kwType.word] else []) ++
    i.name.text :: (i.alias?.elim [] fun l => [Keyword.kwAs.word, l.text])

/-- An imported name as it is written. -/
def text (i : Imported) : String := " ".intercalate i.words

/-- The lexemes of it. -/
def lexemes (i : Imported) : List Lexeme := i.words.map (⟨.ident, ·⟩)

/-- The name that the specifier binds. -/
def bound (i : Imported) : ImportedName := i.alias?.getD i.name

/-- The specifier that is written, with its span put at the start. -/
def specifier (i : Imported) : ImportSpecifier := ⟨i.marked, some ⟨i.bound.text, false, .point 0⟩⟩

/-- Whether the specifier is `type as name`, of which the grammar takes `type` for a mark. -/
def Misread (i : Imported) : Prop :=
  i.marked = false ∧ i.name.text = Keyword.kwType.word ∧ i.alias?.isSome

instance (i : Imported) : Decidable i.Misread := by unfold Misread; infer_instance

theorem isIdentifier_of_mem {i : Imported} {w : String} (mem : w ∈ i.words) :
    Text.isIdentifier w = true := by
  obtain ⟨marked, name, alias?⟩ := i
  have marks : Text.isIdentifier Keyword.kwType.word = true := by decide
  have renames : Text.isIdentifier Keyword.kwAs.word = true := by decide
  cases marked <;> cases alias? <;> simp [words] at mem <;> grind [ImportedName]

end Imported

/-- `import { items } from "source";` -/
def importText (items : List Imported) (source : String) : String :=
  "import \x7b " ++ ", ".intercalate (items.map (·.text)) ++ " \x7d from \"" ++ source ++ "\";"

/-- The literal that says where an import is from. -/
def sourceLexeme (source : String) : Lexeme := ⟨.stringLiteral, "\"" ++ source ++ "\""⟩

/-- The words behind the list. -/
def sourceLexemes (source : String) : List Lexeme :=
  [.ofKeyword .kwFrom, sourceLexeme source, .ofSign .semicolon]

/-- The lexemes of the whole import. -/
def importLexemes (items : List Imported) (source : String) : List Lexeme :=
  .ofKeyword .kwImport :: .ofSign .braceOpen ::
    (listed (items.map (·.lexemes)) ++ .ofSign .braceClose :: sourceLexemes source)

/-! ### What the text is cut into -/

namespace Lexer

variable {rest : List Char} {words : List Lexeme}

/-- A text that begins with an identifier begins with no blank. -/
theorem head?_of_isIdentifier {w : String} (identifier : Text.isIdentifier w = true)
    (cs : List Char) : ∀ c ∈ (w.toList ++ cs).head?, c ∉ [' ', '\t', '\x0c'] := by
  rw [Text.isIdentifier] at identifier
  intro c first blank
  cases spelled : w.toList with
  | nil => simp [spelled, Text.isIdentifierList] at identifier
  | cons d more =>
    obtain rfl : d = c := by simpa [spelled] using first
    rw [spelled, Text.isIdentifierList, Bool.and_eq_true] at identifier
    have start := identifier.1
    simp only [List.mem_cons, List.not_mem_nil, or_false] at blank
    rcases blank with rfl | rfl | rfl <;> exact absurd start (by decide)

theorem exists_intercalate (separator w : String) (ws : List String) :
    ∃ cs, (separator.intercalate (w :: ws)).toList = w.toList ++ cs := by
  cases ws with
  | nil => exact ⟨[], by simp⟩
  | cons v ws => exact ⟨_, by rw [String.intercalate_cons_cons, String.append_assoc, String.toList_append]⟩

/-- Identifiers with blanks between them. -/
theorem Cuts.identifiers (w : String) (ws : List String)
    (identifiers : ∀ v ∈ w :: ws, Text.isIdentifier v = true)
    (ended : ∀ c ∈ rest.head?, Text.isIdentifierPart c = false) (h : Cuts rest words) :
    Cuts ((" ".intercalate (w :: ws)).toList ++ rest) ((w :: ws).map (⟨.ident, ·⟩) ++ words) := by
  induction ws generalizing w with
  | nil => simpa using Cuts.name (identifiers w List.mem_cons_self) ended h
  | cons v ws ih =>
    rw [List.forall_mem_cons] at identifiers
    obtain ⟨cs, first⟩ := exists_intercalate " " v ws
    have next := (ih v identifiers.2).blanks [' '] (by simp) (by simp) (by
      rw [first, List.append_assoc]
      exact head?_of_isIdentifier (identifiers.2 v List.mem_cons_self) _)
    have whole := Cuts.name identifiers.1 (by simp [Text.isIdentifierPart]; decide) next
    simpa [String.intercalate_cons_cons] using whole

end Lexer

namespace Imported

/-- A specifier is cut into its words. -/
theorem cuts_text (i : Imported) {rest : List Char} {words : List Lexeme}
    (ended : ∀ c ∈ rest.head?, Text.isIdentifierPart c = false) (h : Lexer.Cuts rest words) :
    Lexer.Cuts (i.text.toList ++ rest) (i.lexemes ++ words) := by
  rw [Imported.text, lexemes]
  cases written : i.words with
  | nil => simp [Imported.words] at written
  | cons w ws =>
    exact .identifiers w ws (fun v mem => isIdentifier_of_mem (written ▸ mem)) ended h

theorem head?_items (i : Imported) (items : List Imported) (cs : List Char) :
    ∀ c ∈ ((", ".intercalate ((i :: items).map (·.text))).toList ++ cs).head?,
      c ∉ [' ', '\t', '\x0c'] := by
  obtain ⟨others, all⟩ := Lexer.exists_intercalate ", " i.text (items.map (·.text))
  cases written : i.words with
  | nil => simp [Imported.words] at written
  | cons w ws =>
    obtain ⟨more, first⟩ := Lexer.exists_intercalate " " w ws
    rw [List.map_cons, all, Imported.text, written, first, List.append_assoc, List.append_assoc]
    exact Lexer.head?_of_isIdentifier (isIdentifier_of_mem (i := i) (by simp [written])) _

/-- Specifiers with commas between them, and a blank behind each comma. -/
theorem cuts_items (items : List Imported) {rest : List Char} {words : List Lexeme}
    (ended : ∀ c ∈ rest.head?, Text.isIdentifierPart c = false) (h : Lexer.Cuts rest words) :
    Lexer.Cuts ((", ".intercalate (items.map (·.text))).toList ++ rest)
      (listed (items.map (·.lexemes)) ++ words) := by
  induction items with
  | nil => simpa [listed] using h
  | cons i items ih =>
    cases items with
    | nil => simpa [listed] using i.cuts_text ended h
    | cons j items =>
      have next := ih.blanks [' '] (by simp) (by simp) (head?_items j items rest)
      have comma : Lexer.Cuts (',' :: _) (.ofSign .comma :: _) :=
        .sign (by decide +kernel) rfl (by decide) next
      have whole := i.cuts_text (by simp; decide) comma
      simpa [String.intercalate_cons_cons, listed_cons_cons] using whole

end Imported

/-- What stands behind the list. -/
theorem cuts_source (source : String) (plain : ∀ c ∈ source.toList, c ∉ ['"', '\\', '\n']) :
    Lexer.Cuts ('\x7d' :: (" from \"" ++ source ++ "\";").toList)
      (.ofSign .braceClose :: sourceLexemes source) := by
  have semicolon : Lexer.Cuts [';'] [.ofSign .semicolon] :=
    .sign (by decide +kernel) rfl (by decide) .nil
  have literal := Lexer.Cuts.literal plain semicolon
  have keyword : Lexer.Cuts ("from".toList ++ _) (.ofKeyword .kwFrom :: _) :=
    .name (by decide) (by simp; decide) (literal.blanks [' '] (by simp) (by simp) (by simp))
  have closer : Lexer.Cuts ('\x7d' :: _) (.ofSign .braceClose :: _) :=
    .sign (by decide +kernel) rfl (by decide) (keyword.blanks [' '] (by simp) (by simp)
      (Lexer.head?_of_isIdentifier (by decide) _))
  simpa [sourceLexemes, sourceLexeme, Lexeme.ofKeyword, Keyword.word, String.append_assoc] using closer

/-- The text of an import has the words that it is written with. -/
theorem lexemes_importText (items : List Imported) (source : String)
    (plain : ∀ c ∈ source.toList, c ∉ ['"', '\\', '\n']) :
    ((lex (importText items source)).filter (!·.kind.isTrivia)).map Token.lexeme =
      importLexemes items source := by
  have tail := cuts_source source plain
  -- An empty list leaves two blanks between the braces.
  have listed : Lexer.Cuts (' ' :: ((", ".intercalate (items.map (·.text))).toList ++
      ' ' :: '\x7d' :: (" from \"" ++ source ++ "\";").toList))
      (listed (items.map (·.lexemes)) ++ .ofSign .braceClose :: sourceLexemes source) := by
    cases items with
    | nil => exact tail.blanks [' ', ' '] (by simp) (by simp) (by simp)
    | cons i items =>
      have behind := Imported.cuts_items (i :: items) (by simp; decide)
        (tail.blanks [' '] (by simp) (by simp) (by simp))
      exact behind.blanks [' '] (by simp) (by simp) (Imported.head?_items i items _)
  have opener : Lexer.Cuts ('\x7b' :: _) (.ofSign .braceOpen :: _) :=
    .sign (by decide +kernel) rfl (by decide) listed
  have keyword : Lexer.Cuts ("import".toList ++ _) (.ofKeyword .kwImport :: _) :=
    .name (by decide) (by simp; decide) (opener.blanks [' '] (by simp) (by simp) (by simp))
  refine Lexer.Cuts.lex ?_
  simpa [importText, importLexemes, Lexeme.ofKeyword, Keyword.word] using keyword

/-! ### What the words are read back into -/

/-- `type`, if it is there. -/
def markTrees (marked : Bool) : List SyntaxTree := if marked then [keywordLeaf .kwType] else []

/-- A name as it is lexed. -/
def ImportedName.lexeme (n : ImportedName) : Lexeme := ⟨.ident, n.text⟩

/-- A name as it is read. -/
def ImportedName.tree (n : ImportedName) : SyntaxTree := .node .name [n.lexeme.leaf]

namespace Imported

/-- The names of a specifier, as they are written. -/
def nameLexemes (i : Imported) : List Lexeme :=
  i.name.lexeme :: (i.alias?.elim [] fun l => [.ofKeyword .kwAs, l.lexeme])

/-- The trees of the one or two names. -/
def nameTrees (i : Imported) : List SyntaxTree :=
  i.alias?.elim [i.name.tree] fun l => [i.name.lexeme.leaf, keywordLeaf .kwAs, l.tree]

/-- The tree of the specifier. -/
def tree (i : Imported) : SyntaxTree := .node .importSpecifier (markTrees i.marked ++ i.nameTrees)

theorem lexemes_eq (i : Imported) :
    i.lexemes = (if i.marked then [.ofKeyword .kwType] else []) ++ i.nameLexemes := by
  obtain ⟨marked, name, alias?⟩ := i
  cases marked <;> cases alias? <;> rfl

end Imported

namespace Grammar

open Lexeme

variable {l a : List Lexeme}

theorem spelled_of_kindOf {n : Nat} {kind : TokenKind} (here : kindOf l n = some kind)
    (other : kind ≠ .ident) (text : String) : spelled l n text = false := by
  obtain ⟨w, found, rfl⟩ := Option.map_eq_some_iff.1 here
  simp [spelled, found, other]

/-- Behind a specifier there is no name. -/
theorem BehindItem.spelled (behind : BehindItem .braceClose a) (text : String) :
    spelled a 0 text = false := by
  rcases behind with here | here <;> exact spelled_of_kindOf here (by decide) text

/-- The mark is found exactly where it was written. -/
theorem specifierIsTypeOnly_parses (i : Imported) (read : ¬i.Misread)
    (behind : BehindItem .braceClose a) :
    Parses specifierIsTypeOnly (i.lexemes ++ a) (i.lexemes ++ a) i.marked [] := by
  have further := (kindAt_answers 1).bind fun next =>
    .ite (p := (next != some .ident && next != some .stringLiteral) = true) (.pure false)
      ((nthIsKeyword_answers 1 .kwAs).and (nthIs_answers 2 .ident).not).not
  have whole := (atKeyword_answers .kwType).guarded further
  refine .test whole fun ws here => ?_
  simp only [kindIn_eq, spells_eq, here, Imported.lexemes_eq]
  obtain ⟨marked, name, alias?⟩ := i
  cases marked with
  | true =>
    have other := name.other
    simp [Imported.nameLexemes, spelled, kindOf, ofKeyword, ImportedName.lexeme, other]
  | false =>
    cases alias? with
    | none =>
      have next : kindOf (name.lexeme :: a) 1 = kindOf a 0 := rfl
      rcases behind with here | here <;>
        simp [Imported.nameLexemes, next, here]
    | some l =>
      have other : name.text ≠ Keyword.kwType.word := fun is => read ⟨rfl, is, rfl⟩
      simp [Imported.nameLexemes, spelled, ImportedName.lexeme, other]

theorem expectAs_parses (l : List Lexeme) :
    Parses expectAs (ofKeyword .kwAs :: l) l true [keywordLeaf .kwAs] :=
  (eatKeyword_hit .kwAs l).bind (.pure true l)

/-- The names are read back. -/
theorem specifierNames_parses (i : Imported) (behind : BehindItem .braceClose a) :
    Parses specifierNames (i.nameLexemes ++ a) a () i.nameTrees := by
  obtain ⟨marked, name, alias?⟩ := i
  cases alias? with
  | none =>
    have renamed := nthIsKeyword_parses (name.lexeme :: a) 1 .kwAs
    rw [show spelled (name.lexeme :: a) 1 _ = spelled a 0 _ from rfl, behind.spelled] at renamed
    have literal := (Parses.pure false (name.lexeme :: a)).or (currentIs_parses _ .stringLiteral)
    exact renamed.ask (literal.no (identifier_parses name.text a))
  | some l =>
    have renamed := nthIsKeyword_parses (name.lexeme :: ofKeyword .kwAs :: l.lexeme :: a) 1 .kwAs
    have either := (Parses.pure true (name.lexeme :: ofKeyword .kwAs :: l.lexeme :: a)).or
      (currentIs_parses _ .stringLiteral)
    exact renamed.ask (either.yes ((bump_parses name.lexeme _).seq
      (whenever_parses (expectAs_parses _) (identifier_parses l.text a))))

/-- The specifier is read back. -/
theorem importSpecifier_parses (i : Imported) (read : ¬i.Misread)
    (behind : BehindItem .braceClose a) :
    Parses importSpecifier (i.lexemes ++ a) a () [i.tree] := by
  have asked := specifierIsTypeOnly_parses i read behind
  refine node_parses (Parses.seq ?_ (specifierNames_parses i behind))
  rw [Imported.lexemes_eq] at asked ⊢
  cases marked : i.marked with
  | true =>
    rw [marked] at asked
    exact asked.yes (takeKeyword_parses .kwType _)
  | false =>
    rw [marked] at asked
    exact asked.no (.pure () _)

/-- Every specifier begins with an identifier. -/
theorem kindOf_imported (i : Imported) (l : List Lexeme) :
    kindOf (i.lexemes ++ l) 0 = some .ident := by
  obtain ⟨marked, name, alias?⟩ := i
  cases marked <;> rfl

theorem imported_reads (i : Imported) (read : ¬i.Misread) :
    ReadsItem .braceClose (return startsSpecifier (← current)) importSpecifier i.lexemes i.tree where
  inner l := by
    rw [isEmpty_of_kindOf (kindOf_imported i l), kindOf_imported]
    rfl
  starts l := by
    have here := (current_parses (i.lexemes ++ l)).bind (f := fun k => pure (startsSpecifier k))
      (.pure _ _)
    rwa [kindOf_imported] at here
  item _ behind := importSpecifier_parses i read behind

/-- A list of specifiers between braces. -/
def importsTree (items : List Imported) : SyntaxTree :=
  .node .namedImports ((ofSign .braceOpen).leaf :: listedTrees (items.map Imported.tree) ++
    [(ofSign .braceClose).leaf])

/-- The list is read back. -/
theorem namedImports_parses (items : List Imported) (read : ∀ i ∈ items, ¬i.Misread)
    (a : List Lexeme) :
    Parses namedImports
      (ofSign .braceOpen :: (listed (items.map (·.lexemes)) ++ ofSign .braceClose :: a)) a ()
      [importsTree items] := by
  have turns := items_repeat rfl (fun i : {i : Imported // ¬i.Misread} => imported_reads i.1 i.2)
    "in import list" (items.attachWith _ read) a
  have lexemes : (items.attachWith _ read).map (fun i => i.1.lexemes) = items.map (·.lexemes) :=
    List.attachWith_map_val read
  have trees : (items.attachWith _ read).map (fun i => i.1.tree) = items.map Imported.tree :=
    List.attachWith_map_val read
  rw [lexemes, trees] at turns
  exact node_parses (delimited_parses _ _ rfl turns)

/-- The clause of an import with a list alone. -/
def clauseTree (items : List Imported) : SyntaxTree := .node .importClause [importsTree items]

/-- The clause is read back. -/
theorem importClause_parses (items : List Imported) (read : ∀ i ∈ items, ¬i.Misread)
    (a : List Lexeme) :
    Parses importClause
      (ofSign .braceOpen :: (listed (items.map (·.lexemes)) ++ ofSign .braceClose :: a)) a ()
      [clauseTree items] := by
  have unmarked (l : List Lexeme) :
      Parses clauseIsTypeOnly (ofSign .braceOpen :: l) (ofSign .braceOpen :: l) false [] :=
    (atKeyword_parses (ofSign .braceOpen :: l) .kwType).ask (.pure false _)
  have unnamed (l : List Lexeme) :
      Parses defaultImport (ofSign .braceOpen :: l) (ofSign .braceOpen :: l) false [] :=
    Parses.no ((currentIs_parses (ofSign .braceOpen :: l) .ident).andFails _) (.pure false _)
  have opens (l : List Lexeme) := currentIs_parses (ofSign .braceOpen :: l)
  refine node_parses ?_
  refine Parses.seq ((unmarked _).no (.pure () _)) ?_
  refine (unnamed _).bind ?_
  exact (opens _ .star).no ((opens _ .braceOpen).yes (namedImports_parses items read a))

/-- The source is read back. -/
theorem importSource_parses (source : String) (a : List Lexeme) :
    Parses importSource (ofKeyword .kwFrom :: sourceLexeme source :: a) a ()
      [keywordLeaf .kwFrom, (sourceLexeme source).leaf] := by
  have specifier : Parses moduleSpecifier (sourceLexeme source :: a) a () _ :=
    (eat_hit rfl a).bind (.pure () a)
  exact (eatKeyword_hit .kwFrom _).bind specifier

/-- `import { items } from "source";` -/
def importTree (items : List Imported) (source : String) : SyntaxTree :=
  .node .importDeclaration [keywordLeaf .kwImport, clauseTree items, keywordLeaf .kwFrom,
    (sourceLexeme source).leaf, (ofSign .semicolon).leaf]

/-- The import is read back. -/
theorem importStatement_parses (items : List Imported) (read : ∀ i ∈ items, ¬i.Misread)
    (source : String) :
    ParsesFrom [] importStatement (importLexemes items source) [] () [importTree items source] := by
  have assigns (l : List Lexeme) : Parses isImportEquals (ofKeyword .kwImport :: ofSign .braceOpen :: l)
      (ofKeyword .kwImport :: ofSign .braceOpen :: l) false [] :=
    Parses.or ((nextIs_parses (ofKeyword .kwImport :: ofSign .braceOpen :: l) .ident).andFails _)
      ((nthIsKeyword_parses (ofKeyword .kwImport :: ofSign .braceOpen :: l) 1 .kwType).andFails _)
  have plain := (atWord_parses [ofSign .semicolon] "with").or
    (atWord_parses [ofSign .semicolon] "assert")
  refine .no (fun _ => assigns _) (nodeAt_parses ?_ [])
  refine (takeKeyword_parses .kwImport _).seq ?_
  refine (eat_miss rfl).no ?_
  refine (importClause_parses items read _).seq ?_
  refine (importSource_parses source _).seq ?_
  refine Parses.seq (Parses.no (plain.andFails _) (.pure () _)) ?_
  exact expectSemicolon_parses []

theorem statementWithin_importLexemes (items : List Imported) (read : ∀ i ∈ items, ¬i.Misread)
    (source : String) (n : Nat) :
    Parses (statementWithin n) (importLexemes items source) [] () [importTree items source] := by
  cases n with
  | zero => exact fun _ _ _ _ => .throw _
  | succ n =>
    have announced := onlyIf_parses (Parses.pure (!false) _)
      (importStatement_parses items read source)
    have read : ParsesFrom [] (statementAt (statementWithin n)) (declareLexemes false ++ ofKeyword .kwImport :: _) [] ()
        [importTree items source] := statementAt_parses rfl announced
    exact checkpoint_parses read

/-! ### What the tree says -/

theorem specifierOfTree_tree (i : Imported) :
    (Declaration.specifierOfTree i.tree).unplaced = i.specifier := by
  obtain ⟨marked, name, alias?⟩ := i
  cases marked <;> cases alias? <;> rfl

/-- The specifiers are those that were written. -/
theorem specifiers_importsTree (items : List Imported) :
    ((SyntaxTree.childrenOf (importsTree items) .importSpecifier).map
      Declaration.specifierOfTree).map ImportSpecifier.unplaced = items.map (·.specifier) := by
  have nodes : SyntaxTree.childrenOf (importsTree items) .importSpecifier =
      items.map Imported.tree := by
    have inner := filter_listedTrees .importSpecifier (items.map Imported.tree)
      (List.forall_mem_map.2 fun _ _ => rfl)
    simpa [SyntaxTree.childrenOf, importsTree, Tree.children, Lexeme.leaf, List.filter_append]
      using inner
  simp [nodes, Function.comp_def, specifierOfTree_tree]

theorem unplaced_importTree (items : List Imported) (source : String) :
    Statement.unplacedAll (Statement.ofTrees [importTree items source]) =
      [.plain ⟨.point 0, false, false⟩ (.importFrom (some (sourceLexeme source).text)
        (some ⟨false, none, none, items.map (·.specifier)⟩))] := by
  let specifiers := (SyntaxTree.childrenOf (importsTree items) .importSpecifier).map
    Declaration.specifierOfTree
  have whole : Statement.unplacedAll (Statement.ofTrees [importTree items source]) =
      [.plain ⟨.point 0, false, false⟩ (.importFrom (some (sourceLexeme source).text)
        (some ⟨false, none, none, (specifiers ++ []).map ImportSpecifier.unplaced⟩))] := rfl
  rw [whole, List.append_nil, specifiers_importsTree]

end Grammar

/-- Import lists bind what is written, as long as no name is taken for a mark: the text is parsed
without a diagnostic into one import, in which each specifier is under its local name, in the order
that they are written in, and is for a type alone where it is marked. -/
theorem parse_importText (items : List Imported) (source : String)
    (plain : ∀ c ∈ source.toList, c ∉ ['"', '\\', '\n']) (read : ∀ i ∈ items, ¬i.Misread) :
    ∃ p, parse (importText items source) = .ok p ∧ p.diagnostics = [] ∧
      Statement.unplacedAll p.tree.statements =
        [.plain ⟨.point 0, false, false⟩ (.importFrom (some ("\"" ++ source ++ "\""))
          (some ⟨false, none, none, items.map (·.specifier)⟩))] := by
  have first : kindOf (importLexemes items source) 0 = some .ident := rfl
  have turns : Repeats sourceTurn (importLexemes items source) [] ([importTree items source] ++ []) :=
    .again (sourceTurn_of_statement first
      (statementWithin_importLexemes items read source)) (.stop sourceTurn_ends)
  obtain ⟨p, parsed, clean, statements⟩ := parse_of_source_parses
    (lexemes_importText items source plain) (source_of_turns turns)
  exact ⟨p, parsed, clean, statements.trans (unplaced_importTree items source)⟩

/-- A name that is `type`, a mark before it, and the name behind another one. -/
theorem parse_importText_type :
    importText [⟨true, ⟨"type", by decide, by decide⟩, none⟩,
        ⟨false, ⟨"a", by decide, by decide⟩, some ⟨"type", by decide, by decide⟩⟩] "m" =
      "import \x7b type type, a as type \x7d from \"m\";" ∧
    ∃ p, parse "import \x7b type type, a as type \x7d from \"m\";" = .ok p ∧ p.diagnostics = [] ∧
      Statement.unplacedAll p.tree.statements =
        [.plain ⟨.point 0, false, false⟩ (.importFrom (some "\"m\"") (some ⟨false, none, none,
          [⟨true, some ⟨"type", false, .point 0⟩⟩, ⟨false, some ⟨"type", false, .point 0⟩⟩]⟩))] := by
  let items : List Imported := [⟨true, ⟨"type", by decide, by decide⟩, none⟩,
    ⟨false, ⟨"a", by decide, by decide⟩, some ⟨"type", by decide, by decide⟩⟩]
  have text : importText items "m" = "import \x7b type type, a as type \x7d from \"m\";" := by decide
  exact ⟨text, text ▸ parse_importText items "m" (by simp) (by decide)⟩

/-- The mark is looked for where `type` is the name of the import: what is bound is `as`, for a type
alone, and the list is left open before the name that is written. -/
theorem type_taken_for_mark :
    importText [⟨false, ⟨"type", by decide, by decide⟩, some ⟨"l", by decide, by decide⟩⟩] "m" =
      "import \x7b type as l \x7d from \"m\";" ∧
    ∃ p, parse "import \x7b type as l \x7d from \"m\";" = .ok p ∧
      p.diagnostics.map (fun d => (d.kind, d.span)) =
        [(.unclosedBrace, ⟨7, 18⟩), (.mismatchedDelimiter, ⟨19, 20⟩)] ∧
      (p.tree.descendants .importSpecifier).map (fun t => (Declaration.specifierOfTree t).unplaced) =
        [⟨true, some ⟨"as", false, .point 0⟩⟩] := by
  have found : (parse "import \x7b type as l \x7d from \"m\";").toOption.any (fun p => decide (
      p.diagnostics.map (fun d => (d.kind, d.span)) =
        [(.unclosedBrace, ⟨7, 18⟩), (.mismatchedDelimiter, ⟨19, 20⟩)] ∧
      (p.tree.descendants .importSpecifier).map (fun t => (Declaration.specifierOfTree t).unplaced) =
        [⟨true, some ⟨"as", false, .point 0⟩⟩])) = true := by
    decide +kernel
  obtain ⟨p, parsed, found⟩ := exists_of_any_toOption found
  exact ⟨by decide, p, parsed, of_decide_eq_true found⟩

end ImplicitGlobals
