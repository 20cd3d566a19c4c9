import ImplicitGlobals.Proofs.Printing.Trees
import ImplicitGlobals.Proofs.Syntax.Shape
import ImplicitGlobals.Proofs.Syntax.Lossless

/-!
# Parsing undoes writing

A text whose words are those of a list of declarations, however they are spaced, is parsed without
a diagnostic into the statements that were written.
-/

namespace ImplicitGlobals

open Grammar

/-! ### Trees without trivia -/

namespace Tree

variable {α β γ : Type} {f : α → List β} {g : β → List γ} {h : α → List γ}

theorem expandAll_map_leaf (g : β → List γ) (bs : List β) :
    expandAll g (bs.map leaf) = (bs.flatMap g).map leaf := by
  induction bs with
  | nil => rfl
  | cons b rest ih => simp [expandAll, expand, ih]

mutual

/-- Putting in twice is putting in once what comes of it. -/
theorem expandAll_expand (t : Tree α) (same : ∀ a ∈ t.leaves, (f a).flatMap g = h a) :
    expandAll g (t.expand f) = t.expand h := by
  cases t with
  | leaf a => rw [expand, expand, expandAll_map_leaf, same a (by simp [leaves])]
  | node kind cs => simp [expand, expandAll, expandAll_expandAll cs same]

theorem expandAll_expandAll (ts : List (Tree α)) (same : ∀ a ∈ leavesOf ts, (f a).flatMap g = h a) :
    expandAll g (expandAll f ts) = expandAll h ts := by
  cases ts with
  | nil => rfl
  | cons t rest =>
    have first := expandAll_expand t fun a mem => same a (by simp [leavesOf, mem])
    have more := expandAll_expandAll rest fun a mem => same a (by simp [leavesOf, mem])
    rw [expandAll, expandAll_append, first, more, expandAll]

end

end Tree

theorem Word.lexemes_after (broken : Bool) (tokens : List Token) :
    (after broken tokens).map Word.lexeme =
    (tokens.filter (!·.kind.isTrivia)).map Token.lexeme := by
  induction tokens generalizing broken with
  | nil => rfl
  | cons t rest ih =>
    by_cases trivia : t.kind.isTrivia = true <;> simp [after, trivia, ih, Word.lexeme, Token.lexeme]

/-- What is put into a slot is what the slot stands for, but for trivia and places. -/
theorem bare_fill (tokens : List Token) {s : Slot} (fits : s.Fits (.ofTokens tokens)) :
    ((Layout.ofTokens tokens).fill s).flatMap Leaf.bare = bareSlot (Word.ofTokens tokens) s := by
  cases s with
  | gap i =>
    refine List.flatMap_eq_nil_iff.2 fun a mem => ?_
    simp [Leaf.bare, (Layout.parted_ofTokens tokens).isTrivia_fill i a mem]
  | word i label =>
    obtain ⟨bound, plain⟩ := fits
    have written := congrArg (·[i]?) (Word.lexemes_after false tokens)
    have here : (Layout.ofTokens tokens).words[i]? = some (Layout.ofTokens tokens).words[i] :=
      Array.getElem?_eq_getElem bound
    have there : (tokens.filter (!·.kind.isTrivia))[i]? =
        some (Layout.ofTokens tokens).words[i] := by
      simp [Layout.ofTokens]
    simp only [List.getElem?_map, there, Option.map_some] at written
    obtain ⟨w, found, same⟩ := Option.map_eq_some_iff.1 written
    have kind : w.kind = (Layout.ofTokens tokens).words[i].kind := congrArg Lexeme.kind same
    have text : w.text = (Layout.ofTokens tokens).words[i].text := congrArg Lexeme.text same
    simp [Layout.fill, here, bareSlot, Word.ofTokens, found, Leaf.bare, plain, kind, text]

/-- Where the grammar reads the words of a text to their end, nothing is complained of and the
tree is made of the trees. -/
theorem parse_of_source_reads {text : String} {words : List Lexeme} {trees : List SyntaxTree}
    (written : ((lex text).filter (!·.kind.isTrivia)).map Token.lexeme = words)
    (reads : ReadsIn (Word.ofTokens (lex text)) source words [] () [.node .sourceFile trees]) :
    ∃ p, parse text = .ok p ∧ p.diagnostics = [] ∧ Tree.expandAll Leaf.bare p.tree.children = trees := by
  obtain ⟨c, run, walk, complete⟩ := source_run {} (Word.ofTokens (lex text))
  obtain ⟨children, tree⟩ := complete.tree
  have words : (Word.ofTokens (lex text)).map Word.lexeme = words :=
    (Word.lexemes_after false (lex text)).trans written
  have start : Ready (Word.ofTokens (lex text)) (.start {} (Word.ofTokens (lex text))) :=
    ⟨⟨rfl, rfl, rfl⟩, rfl, rfl⟩
  obtain ⟨-, ready, rest, adds⟩ := reads _ start words () c run
  have rest : c.rest = [] := List.map_eq_nil_iff.1 rest
  obtain ⟨labels, takes, slots⟩ := slots_of_walk walk rest complete.gap tree
  have bare : Tree.expandAll (bareSlot (Word.ofTokens (lex text))) children = trees := by
    obtain ⟨ps, parts, added⟩ := adds.parts
    obtain rfl : [Tree.node .sourceFile children] = ps := tree.symm.trans parts
    simpa [Tree.expandAll, Tree.expand] using added
  have filled : Tree.expandAll Leaf.bare
      (Tree.expandAll (Layout.ofTokens (lex text)).fill children) = trees :=
    bare ▸ Tree.expandAll_expandAll children fun s mem =>
      bare_fill _ (Slot.fits_through takes s (slots ▸ mem))
  have parsed : parse text =
      .ok (Outline.dress ⟨.node .sourceFile children, c.complaints.reverse⟩
          (.ofTokens (lex text))) := by
    rw [parse, parseWithin_eq run, Outline.ofCursor_of_complete ready.refused tree]
    rfl
  exact ⟨_, parsed, by simp [Outline.dress, ready.complaints], filled⟩

/-- The same where the words would be read in any source. -/
theorem parse_of_source_trees {text : String} {words : List Lexeme} {trees : List SyntaxTree}
    (written : ((lex text).filter (!·.kind.isTrivia)).map Token.lexeme = words)
    (reads : Parses source words [] () [.node .sourceFile trees]) :
    ∃ p, parse text = .ok p ∧ p.diagnostics = [] ∧ Tree.expandAll Leaf.bare p.tree.children = trees :=
  parse_of_source_reads written (reads _)

/-- The statements are those of the trees as well. -/
theorem parse_of_source_parses {text : String} {words : List Lexeme} {trees : List SyntaxTree}
    (written : ((lex text).filter (!·.kind.isTrivia)).map Token.lexeme = words)
    (reads : Parses source words [] () [.node .sourceFile trees]) :
    ∃ p, parse text = .ok p ∧ p.diagnostics = [] ∧
      Statement.unplacedAll p.tree.statements =
        Statement.unplacedAll (Statement.ofTrees trees) := by
  obtain ⟨p, parsed, clean, bare⟩ := parse_of_source_trees written reads
  exact ⟨p, parsed, clean, by rw [SyntaxTree.statements, ← Statement.unplaced_ofTrees_bare, bare]⟩

/-- Parsing undoes writing: where the words of a text are those of a list of declarations, nothing
is complained of and the statements are the declarations, one by one and level by level. -/
theorem parse_lexemesOf {text : String} (body : List CoreStatement)
    (written : ((lex text).filter (!·.kind.isTrivia)).map Token.lexeme =
        CoreStatement.lexemesOf body) :
    ∃ p, parse text = .ok p ∧ p.diagnostics = [] ∧
      Statement.unplacedAll p.tree.statements = CoreStatement.statementsOf body := by
  rw [← unplaced_statementTrees]
  exact parse_of_source_parses written (source_parses body)

/-- A namespace with a function in it, an interface that extends a type, and an enum. -/
theorem parse_lexemesOf_namespace :
    ∃ p, parse ("declare namespace A.B \x7b function f(x?: T[]): Map<K, V>; \x7d\n" ++
        "interface I extends J \x7b m(): void; \x7d // ...\nenum E \x7b X, Y = 1 \x7d") = .ok p ∧
      p.diagnostics = [] ∧
      Statement.unplacedAll p.tree.statements =
        [.module ⟨.point 0, false, true⟩ [⟨"A", false, .point 0⟩, ⟨"B", false, .point 0⟩] false
            (some (.point 0))
            [.plain ⟨.point 0, false, false⟩
              (.function (some ⟨"f", false, .point 0⟩) none (some [[⟨"x", false, .point 0⟩]]))],
          .plain ⟨.point 0, false, false⟩ (.interfaceType (some ⟨"I", false, .point 0⟩) none),
          .plain ⟨.point 0, false, false⟩ (.enumType (some ⟨"E", false, .point 0⟩) false
            [some ⟨"X", false, .point 0⟩, some ⟨"Y", false, .point 0⟩])] := by
  let ident (text : String) : Lexeme := ⟨.ident, text⟩
  let array : TypeRun :=
    ⟨⟨[ident "T", ⟨.bracketOpen, "["⟩, ⟨.bracketClose, "]"⟩],
      by decide, by decide, by decide⟩, by decide⟩
  let map : TypeRun :=
    ⟨⟨[ident "Map", ⟨.angleOpen, "<"⟩, ident "K", .ofSign .comma, ident "V", ⟨.angleClose, ">"⟩],
      by decide, by decide, by decide⟩, by decide⟩
  let extended : HeritageRun := ⟨⟨[ident "J"], by decide, by decide, by decide⟩, by decide⟩
  let members : BodyRun :=
    ⟨[ident "m", .ofSign .parenOpen, .ofSign .parenClose, .ofSign .colon, ident "void",
        .ofSign .semicolon],
      by decide, by decide, by decide⟩
  let name (text : String) (plain : Keyword.ofWord? text = none) : PlainName := ⟨text, plain⟩
  exact parse_lexemesOf
    [.module true (name "A" (by decide)) [name "B" (by decide)]
      [.plain false (.function (name "f" (by decide))
          [⟨false, name "x" (by decide), true, array⟩] map)],
     .plain false (.interfaceType (name "I" (by decide)) [extended] members),
     .plain false (.enumType (name "E" (by decide))
      [(name "X" (by decide), none), (name "Y" (by decide), some "1")])]
    (by decide +kernel)

end ImplicitGlobals
