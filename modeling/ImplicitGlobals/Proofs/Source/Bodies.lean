import ImplicitGlobals.Proofs.Angles.Trees
import ImplicitGlobals.Proofs.Bodies.Replacing
import ImplicitGlobals.Proofs.Budget.Exact
import ImplicitGlobals.Proofs.Scope.Unplaced
import ImplicitGlobals.Proofs.Source.Joining

/-!
# What stands in a body is of no account

Between the braces of a body any tokens may be put in which the brackets are well nested: the source
is still read, with the same scopes and globals.
-/

namespace ImplicitGlobals

open Grammar

/-- Two braces among the tokens of a source, with the tokens between them and those around them. -/
structure Braces (s : String) where
  front : List Token
  opener : Token
  inner : List Token
  closer : Token
  back : List Token
  tokens : lex s = front ++ opener :: (inner ++ closer :: back)
  opens : opener.kind = .braceOpen
  closes : closer.kind = .braceClose

namespace Braces

variable {s : String} (b : Braces s)

/-- They are the braces of a body in the tree. -/
def Embrace (tree : SyntaxTree) : Prop :=
  ∃ kind children, kind.isBody = true ∧ Tree.node kind children ∈ tree.descendants kind ∧
    (Tree.leavesOf children).map Leaf.token = b.opener :: (b.inner ++ [b.closer])

/-- The tokens of the source with others between the braces. -/
def around (tokens : List Token) : List Token := b.front ++ b.opener :: (tokens ++ b.closer :: b.back)

/-- The source with another text between the braces. -/
def replaced (g : String) : String :=
  String.join ((b.front ++ [b.opener]).map (·.text)) ++ g ++ String.join ((b.closer :: b.back).map (·.text))

/-- Between the braces the text has the tokens that it has by itself. -/
def Takes (g : String) : Prop :=
  (lex (b.replaced g)).map Token.lexeme = (b.around (lex g)).map Token.lexeme

instance (g : String) : Decidable (b.Takes g) := inferInstanceAs (Decidable (_ = _))

end Braces

/-! ### Words and numbers -/

/-- No token of a source comes twice. -/
theorem Lexer.nodup_lex (source : String) : (lex source).Nodup := by
  refine (Token.Tiled.pairwise (Lexer.tiled_lex source)).imp_of_mem fun mem _ apart same => ?_
  have filled := Token.start_lt_stop (Lexer.text_ne_empty mem)
  rw [← same] at apart
  omega

theorem Slot.words_through (i : Nat) (labels : List LeafKind) :
    (through i labels).filterMap Slot.word? = List.range' i labels.length := by
  induction labels generalizing i with
  | nil => rfl
  | cons label rest ih =>
    rw [through_cons, List.filterMap_cons_none rfl, List.length_cons, List.range'_succ, ← ih]
    rfl

/-- As many words are put into slots as there are slots for words. -/
theorem count_fill (tokens : List Token) {slots : List Slot} {i n : Nat}
    (numbers : slots.filterMap Slot.word? = List.range' i n) (among : i + n ≤ (Word.ofTokens tokens).length) :
    (((slots.flatMap (Layout.ofTokens tokens).fill).map Leaf.token).filter (!·.kind.isTrivia)).length = n := by
  have kinds := congrArg List.length (wordKinds_fill tokens slots)
  rw [slotKinds, numbers, filterMap_range', List.length_take, List.length_drop, List.length_map] at kinds
  have same : (wordKinds (slots.flatMap (Layout.ofTokens tokens).fill)).length =
      (((slots.flatMap (Layout.ofTokens tokens).fill).map Leaf.token).filter (!·.kind.isTrivia)).length := by
    simp [wordKinds, List.filter_map, Function.comp_def]
  omega

theorem Tree.StandsIn.mem_descendants {α : Type} {kind : NodeKind} {us : List (Tree α)} {s : Tree α}
    {behind : List α} (stands : (node kind us).StandsIn s behind) : node kind us ∈ s.descendants kind := by
  induction stands with
  | self => exact mem_descendants_node.2 (.inl ⟨rfl, rfl⟩)
  | child _ ih =>
    exact mem_descendants_node.2 (.inr (mem_descendantsOf.2 ⟨_, List.mem_append_right _ List.mem_cons_self, ih⟩))

namespace Braces

variable {s : String} (b : Braces s)

/-- The words of the source, and of one with other tokens between the braces. -/
theorem exists_words : ∃ opener, opener.kind = .braceOpen ∧ ∀ tokens, ∃ closer, closer.kind = .braceClose ∧
    Word.ofTokens (b.around tokens) = Grammar.around (Word.ofTokens b.front) opener
      (Word.after false tokens) closer (Word.after false b.back) := by
  obtain ⟨i, first⟩ := Word.exists_after_append false b.front
  have plain : b.opener.kind.isTrivia = false := by rw [b.opens]; rfl
  have plain' : b.closer.kind.isTrivia = false := by rw [b.closes]; rfl
  refine ⟨⟨b.opener.kind, b.opener.text, i⟩, b.opens, fun tokens => ?_⟩
  obtain ⟨j, second⟩ := Word.exists_after_append false tokens
  refine ⟨⟨b.closer.kind, b.closer.text, j⟩, b.closes, ?_⟩
  rw [Word.ofTokens, around, first, Word.after, plain, if_neg Bool.false_ne_true, second, Word.after, plain',
    if_neg Bool.false_ne_true]
  rfl

/-- What may take the place of the words between the braces. -/
theorem exists_replacement {g : String} (clean : ∀ t ∈ lex s, t.kind ≠ .garbage)
    (clean' : ∀ t ∈ lex g, t.kind ≠ .garbage) (nested : WellNested false ((lex g).map (·.kind)))
    (takes : b.Takes g) : ∃ r : Replacement, r.words = Word.ofTokens (lex s) ∧
      r.words' = Word.ofTokens (lex (b.replaced g)) ∧
      r.start = (b.front.filter (!·.kind.isTrivia)).length ∧
      r.width = ((b.opener :: (b.inner ++ [b.closer])).filter (!·.kind.isTrivia)).length := by
  have kept {text : String} (clean : ∀ t ∈ lex text, t.kind ≠ .garbage) :
      ∀ w ∈ Word.ofTokens (lex text), w.kind ≠ .garbage := fun w mem garbage => by
    have among : w.kind ∈ (Word.after false (lex text)).map (·.kind) := List.mem_map_of_mem mem
    rw [Word.kinds_after] at among
    obtain ⟨t, inText, kind⟩ := List.mem_map.1 (List.mem_filter.1 among).1
    exact clean t inText (kind.trans garbage)
  obtain ⟨opener, opens, words⟩ := b.exists_words
  obtain ⟨closer, closes, whole⟩ := words b.inner
  obtain ⟨closer', closes', whole'⟩ := words (lex g)
  have same : Word.ofTokens (lex s) = _ := (congrArg Word.ofTokens b.tokens).trans whole
  have same' : Word.ofTokens (lex (b.replaced g)) = _ := (Word.after_congr false takes).trans whole'
  refine ⟨⟨_, opener, _, closer, _, _, closer', opens, closes, closes', same ▸ kept clean, kept clean', ?_⟩,
    same.symm, same'.symm, Layout.length_after false b.front, ?_⟩
  · have kinds := Word.kinds_after false (lex g)
    rw [WellNested, Word.ofTokens, kinds, nest_filter_isTrivia]
    exact nested
  · have length := Layout.length_after false b.inner
    simp [Replacement.width, length, b.opens, b.closes, TokenKind.isTrivia]

/-- The words of a body in the tree are those of a body in the tree of slots. -/
theorem holds {tree : SyntaxTree} {children : List (Tree Slot)} {complaints : List Complaint}
    {labels : List LeafKind} {r : Replacement} (embrace : b.Embrace tree)
    (dressed : tree = (Outline.dress ⟨.node .sourceFile children, complaints⟩ (.ofTokens (lex s))).tree)
    (lossless : tree.leaves.map Leaf.token = lex s) (slots : Tree.leavesOf children = Slot.through 0 labels)
    (count : labels.length = (Word.ofTokens (lex s)).length)
    (start : r.start = (b.front.filter (!·.kind.isTrivia)).length)
    (width : r.width = ((b.opener :: (b.inner ++ [b.closer])).filter (!·.kind.isTrivia)).length) :
    r.Holds [.node .sourceFile children] := by
  obtain ⟨kind, us, body, among, own⟩ := embrace
  obtain ⟨behind, stands⟩ := Tree.exists_standsIn tree among
  obtain ⟨vs, later, inRoot, rfl, rfl⟩ := stands.unfilled (dressed.trans (Outline.tree_dress ..))
  obtain ⟨ahead, split⟩ := inRoot.leaves
  have split : Slot.through 0 labels = ahead ++ (Tree.leavesOf vs ++ later) := by
    rw [← slots, ← List.append_assoc]
    exact split
  -- the tokens in front of the node are those in front of the body
  have front : (ahead.flatMap (Layout.ofTokens (lex s)).fill).map Leaf.token = b.front := by
    have leaves : tree.leaves = (ahead ++ (Tree.leavesOf vs ++ later)).flatMap (Layout.ofTokens (lex s)).fill := by
      rw [dressed, Outline.tree_dress, Tree.leaves, Tree.leavesOf_expandAll, slots, split]
    rw [leaves, List.flatMap_append, List.flatMap_append, ← Tree.leavesOf_expandAll, List.map_append,
      List.map_append, own] at lossless
    obtain ⟨-, inner, apart⟩ := List.nodup_append.1 (b.tokens ▸ Lexer.nodup_lex s)
    have once : b.opener ∉ b.front := fun mem => apart _ mem _ List.mem_cons_self rfl
    have same := (List.append_cons_inj_of_notMem once (List.nodup_cons.1 inner).1).1
      (b.tokens.symm.trans lossless.symm)
    exact same.1.symm
  -- the numbers of the words are told by their count
  have numbers := Slot.words_through 0 labels
  rw [split, List.filterMap_append, List.filterMap_append] at numbers
  obtain ⟨k, size, first, more⟩ := List.range'_eq_append_iff.1 numbers.symm
  obtain ⟨n, size', second, -⟩ := List.range'_eq_append_iff.1 more.symm
  rw [Nat.zero_add, Nat.mul_one] at second
  have k_eq := count_fill (lex s) first (by omega)
  have n_eq := count_fill (lex s) second (by omega)
  rw [front, ← start] at k_eq
  rw [← Tree.leavesOf_expandAll, own, ← width] at n_eq
  refine ⟨kind, vs, body, Tree.mem_descendantsOf.2 ⟨_, List.mem_singleton.2 rfl, inRoot.mem_descendants⟩, ?_⟩
  rw [Tree.wordsOf, second, k_eq, n_eq]

end Braces

/-! ### Sources -/

/-- Without diagnostics there is no garbage among the tokens. -/
theorem clean_of_parseWithin {budget : Budget} {text : String} {p : Parsed}
    (parsed : parseWithin budget text = .ok p) (clean : p.diagnostics = []) : ∀ t ∈ lex text, t.kind ≠ .garbage := by
  rw [← tokens_of_parseWithin parsed]
  intro t mem garbage
  obtain ⟨leaf, inTree, rfl⟩ := List.mem_map.1 mem
  rcases takes_of_parseWithin parsed leaf inTree with own | ⟨k, -, ident, -⟩
  · exact (parseWithin_sound parsed clean).2.1 leaf inTree (own.trans (congrArg LeafKind.token garbage))
  · rw [garbage] at ident
    cases ident

namespace Outline

theorem nesting_dress (children : List (Tree Slot)) (complaints : List Complaint) (l : Layout) :
    (dress ⟨.node .sourceFile children, complaints⟩ l).tree.nesting =
      NodeKind.sourceFile.level + Tree.nestingOf children := by
  rw [tree_dress, Tree.nesting, Tree.nestingOf_expandAll]

/-- The statements of a tree are in what is left of it without bodies. -/
theorem unplaced_dress {tokens : List Token} {children : List (Tree Slot)} {labels : List LeafKind}
    (takes : List.Forall₂ Token.Takes (tokens.filter (!·.kind.isTrivia)) labels)
    (slots : Tree.leavesOf children = Slot.through 0 labels) (complaints : List Complaint) :
    Statement.unplacedAll (dress ⟨.node .sourceFile children, complaints⟩ (.ofTokens tokens)).tree.statements =
      Statement.unplacedAll (Statement.ofTrees
        (Tree.pruneAll (Tree.expandAll (bareSlot (Word.ofTokens tokens)) children))) := by
  rw [← SyntaxTree.unplaced_statements_bare, bare_dress takes slots,
    Statement.unplaced_ofTrees SyntaxTree.trims_pruneAll]
  rfl

end Outline

/-- With another text in a body a source is parsed as before, but for that body. -/
theorem parse_replaced {s g : String} {p : Parsed} (parsed : parse s = .ok p) (faultless : p.diagnostics = [])
    {b : Braces s} (embrace : b.Embrace p.tree) (clean : ∀ t ∈ lex g, t.kind ≠ .garbage)
    (nested : WellNested false ((lex g).map (·.kind))) (takes : b.Takes g) : ∃ q, parse (b.replaced g) = .ok q ∧ q.diagnostics = [] ∧
      q.tree.nesting = p.tree.nesting ∧
      Statement.unplacedAll q.tree.statements = Statement.unplacedAll p.tree.statements := by
  have proper := clean_of_parseWithin parsed faultless
  have lossless := tokens_of_parseWithin parsed
  obtain ⟨c, children, run, walk, kept, rest, gap, tree, rfl⟩ := run_of_parseWithin parsed
  obtain ⟨labels, taken, slots⟩ := slots_of_walk walk rest gap tree
  have quiet : c.complaints = [] := by simpa [Outline.dress] using faultless
  have tidy : c.Tidy :=
    ⟨quiet, Classical.not_not.1 fun noted => walk.frame.noted (absurd rfl) noted quiet, kept⟩
  have count : labels.length = (Word.ofTokens (lex s)).length := by
    rw [← taken.length_eq, Layout.length_ofTokens]
    rfl
  obtain ⟨r, words, words', start, width⟩ := b.exists_replacement proper clean nested takes
  have holds := b.holds embrace rfl lossless slots count start width
  -- The run on the other text goes in step with the first one outside the braces.
  obtain ⟨c', run', walk', complete⟩ := source_run {} (Word.ofTokens (lex (b.replaced g)))
  have swapped := r.source_swapped (words ▸ run) tidy (tree ▸ holds) (words' ▸ run')
  have kept' : c'.refused = none := swapped.ready'.refused
  obtain ⟨children', tree'⟩ := complete.tree
  obtain ⟨labels', taken', slots'⟩ :=
    slots_of_walk walk' (complete.ended.resolve_right (absurd kept')) complete.gap tree'
  -- Outside class and interface bodies the two trees carry the same texts.
  have pruned : Tree.pruneAll (Tree.expandAll (bareSlot (Word.ofTokens (lex s))) children) =
      Tree.pruneAll (Tree.expandAll (bareSlot (Word.ofTokens (lex (b.replaced g)))) children') := by
    have parts := Tree.Matches.pruneAll swapped.parts
    rw [words, words', tree, tree'] at parts
    exact (Tree.node.inj (List.cons.inj parts).1).2
  refine ⟨_, (?_ : parse (b.replaced g) = .ok (Outline.dress ⟨.node .sourceFile children', c'.complaints.reverse⟩
    (.ofTokens (lex (b.replaced g))))), ?_, ?_, ?_⟩
  · rw [parse, parseWithin_eq run', Outline.ofCursor_of_complete kept' tree']
    rfl
  · simp [Outline.dress, swapped.ready'.complaints]
  · have same := congrArg Tree.nestingOf pruned
    rw [Tree.nestingOf_pruneAll, Tree.nestingOf_pruneAll, Tree.nestingOf_expandAll, Tree.nestingOf_expandAll] at same
    exact (Outline.nesting_dress ..).trans (same ▸ (Outline.nesting_dress ..).symm)
  · exact (Outline.unplaced_dress taken' slots' _).trans (pruned ▸ (Outline.unplaced_dress taken slots _).symm)

namespace SourceUnit

/-- What stands between the braces of a body is of no account. With any text there that the lexer knows and
in which the brackets are well nested, the source is read again, with the same scopes, but for the places of
what is declared, and with the same globals. A bound on the words has to allow for those of the new text. -/
theorem read_replaced {options : SourceOptions} {s g : String} {u : SourceUnit} (accepted : read options s = .ok u)
    {b : Braces s} (embrace : b.Embrace u.tree) (clean : ∀ t ∈ lex g, t.kind ≠ .garbage)
    (nested : WellNested false ((lex g).map (·.kind))) (takes : b.Takes g) (fits : ∀ n ∈ options.budget.words, wordCount (b.replaced g) ≤ n) :
    ∃ v, read options (b.replaced g) = .ok v ∧ v.scopes.unplaced = u.scopes.unplaced ∧ v.globals = u.globals := by
  obtain ⟨p, parsed, faultless, rfl⟩ := parsed_of_read accepted
  obtain ⟨p', -, -, whole, -⟩ := exists_parse s
  obtain ⟨parsed', covered⟩ : parseWithin options.budget s = .ok p' ∧ _ :=
    (parseWithin_cases whole options.budget).resolve_right fun ⟨l, refused, _⟩ => by cases parsed.symm.trans refused
  cases parsed.symm.trans parsed'
  obtain ⟨q, behind, faultless', nesting, statements⟩ := parse_replaced whole faultless embrace clean nested takes
  have enough : parseWithin options.budget (b.replaced g) = .ok q := by
    refine ((parseWithin_cases behind options.budget).resolve_right fun ⟨l, _, n, bound, short⟩ => ?_).1
    refine absurd short (Nat.not_lt.2 ?_)
    cases l with
    | words => exact fits n bound
    | nesting => exact Nat.le_trans (Nat.le_of_eq nesting) (covered .nesting n bound)
  have scopes : (scopesOf options q.tree).unplaced = (scopesOf options p.tree).unplaced := by
    rw [scopesOf, scopesOf, ScopeTree.unplaced_ofStatements, ScopeTree.unplaced_ofStatements, statements]
  have again : read options (b.replaced g) = .ok ⟨q.tree, scopesOf options q.tree, options.comments⟩ := by
    simp [read, enough, faultless', Diagnostics.filtered]
  exact ⟨_, again, scopes, globals_of_unplaced scopes⟩

/-- What looks like declarations in a class declares nothing. -/
theorem read_replaced_class : ∃ u v, read {} "class A<T> \x7b x \x7d\nvar b" = .ok u ∧
    read {} "class A<T> \x7b\nvar c; type < D \x7b \x7d ()\x7d\nvar b" = .ok v ∧
    v.scopes.unplaced = u.scopes.unplaced ∧ v.globals = u.globals := by
  obtain ⟨b, own, text, takes⟩ : ∃ b : Braces "class A<T> \x7b x \x7d\nvar b",
      b.opener :: (b.inner ++ [b.closer]) = ((lex "class A<T> \x7b x \x7d\nvar b").drop 7).take 5 ∧
      b.replaced "\nvar c; type < D \x7b \x7d ()" = "class A<T> \x7b\nvar c; type < D \x7b \x7d ()\x7d\nvar b" ∧
      b.Takes "\nvar c; type < D \x7b \x7d ()" :=
    ⟨⟨(lex "class A<T> \x7b x \x7d\nvar b").take 7, ⟨.braceOpen, "\x7b", 11⟩,
      [⟨.whitespace, " ", 12⟩, ⟨.ident, "x", 13⟩, ⟨.whitespace, " ", 14⟩], ⟨.braceClose, "\x7d", 15⟩,
      (lex "class A<T> \x7b x \x7d\nvar b").drop 12, by decide +kernel, rfl, rfl⟩,
      by decide +kernel, by decide +kernel, by decide +kernel⟩
  have found : (read {} "class A<T> \x7b x \x7d\nvar b").toOption.any (fun u => decide (
      ∃ t ∈ u.tree.descendants .classBody, t.isNode .classBody = true ∧
        t.leaves.map Leaf.token = ((lex "class A<T> \x7b x \x7d\nvar b").drop 7).take 5)) = true := by decide +kernel
  obtain ⟨u, accepted, found⟩ := exists_of_any_toOption found
  obtain ⟨t, among, is, leaves⟩ := of_decide_eq_true found
  cases t with
  | leaf a => cases is
  | node kind children =>
    obtain rfl : kind = .classBody := by simpa [Tree.isNode] using is
    have embrace : b.Embrace u.tree := ⟨.classBody, children, rfl, among, leaves.trans own.symm⟩
    obtain ⟨v, again, same⟩ := read_replaced accepted embrace (by decide +kernel) (by decide +kernel) takes
      (fun n bound => by cases bound)
    exact ⟨u, v, accepted, text ▸ again, same⟩

end SourceUnit

end ImplicitGlobals
