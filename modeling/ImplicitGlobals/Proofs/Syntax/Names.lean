import ImplicitGlobals.Proofs.Diagnostic.Filter
import ImplicitGlobals.Proofs.Syntax.Laying
import ImplicitGlobals.Proofs.Syntax.Lexing

/-!
# Names are tokens

In the tree of a source without errors every name node holds one token and nothing else, no trivia
either. So a name stands in the source where its span says, quotes included if it is a string.
-/

namespace ImplicitGlobals

/-- The piece stands in the text at the span. -/
def Span.Covers (text : String) (s : Span) (piece : String) : Prop :=
  ∃ before after, text = before ++ piece ++ after ∧ s.start = before.utf8ByteSize ∧
    s.stop = s.start + piece.utf8ByteSize

/-- The text of the token is the name, and for a string the name between two quotes. -/
def Token.Spells (t : Token) (name : String) : Prop :=
  if t.kind = .stringLiteral then ∃ q ∈ ["\"", "'"], t.text = q ++ name ++ q else t.text = name

/-- The span is that of one token which spells the name. -/
def Span.Spells (text : String) (s : Span) (name : String) : Prop :=
  ∃ t ∈ lex text, t.kind.isTrivia = false ∧ s = t.span ∧ s.Covers text t.text ∧ t.Spells name

/-! ### Tokens in a text -/

namespace Lexer

variable {text : String} {t : Token}

/-- A token stands in the text where its span says. -/
theorem covers_of_mem_lex (mem : t ∈ lex text) : t.span.Covers text t.text := by
  obtain ⟨before, after, split⟩ := List.append_of_mem mem
  have joined := join_lex text
  have tiled := tiled_lex text
  rw [split] at joined tiled
  refine ⟨String.join (before.map (·.text)), String.join (after.map (·.text)), ?_, ?_, rfl⟩
  · rw [← joined]
    exact String.toList_inj.1 (by simp [String.toList_join])
  · rw [Token.utf8ByteSize_join, List.map_map, Token.span, tiled.start_eq]
    simp [Token.sizeOf, Function.comp_def]

/-- What is matched between two marks has one mark on each side. -/
theorem exists_of_delimited {mark : Char} {excluded : List Char} {w : List Char}
    (matched : (TokenRules.delimited mark excluded).Matches w) : ∃ inside, w = mark :: (inside ++ [mark]) := by
  simp only [TokenRules.delimited, Regex.concat, List.foldr_cons, List.foldr_nil, Regex.matches_andThen_iff,
    Regex.matches_seq_iff, Regex.matches_char_iff, Regex.matches_empty_iff] at matched
  obtain ⟨_, _, rfl, rfl, inside, _, rfl, -, _, _, rfl, rfl, rfl⟩ := matched
  exact ⟨inside, by simp⟩

/-- A string is what its name is without the quotes. -/
theorem spells_unquoted (mem : t ∈ lex text) (kind : t.kind = .stringLiteral) : t.Spells (Name.unquoted t.text) := by
  have quoted {mark : Char} {inside : List Char} (eq : t.text.toList = mark :: (inside ++ [mark])) :
      t.text = String.ofList [mark] ++ Name.unquoted t.text ++ String.ofList [mark] := by
    have name : Name.unquoted t.text = String.ofList inside := by
      rw [Name.unquoted, eq]
      cases inside with
      | nil => rfl
      | cons c rest =>
        show String.ofList (c :: rest ++ [mark]).dropLast = _
        rw [List.dropLast_concat]
    rw [name]
    exact String.toList_inj.1 (by simp [eq])
  obtain ⟨r, rule, matched⟩ := exists_rule_of_mem_lex mem (by simp [kind])
  rw [Token.Spells, if_pos kind]
  have rules : r = TokenRules.delimited '"' ['\n'] ∨ r = TokenRules.delimited '\'' ['\n'] := by
    simpa [TokenRules.rules, kind] using rule
  rcases rules with rfl | rfl
  · obtain ⟨inside, eq⟩ := exists_of_delimited matched
    exact ⟨"\"", by simp, quoted eq⟩
  · obtain ⟨inside, eq⟩ := exists_of_delimited matched
    exact ⟨"'", by simp, quoted eq⟩

end Lexer

/-- A name of one token is spelled by it. -/
theorem Name.spells_ofTree {text : String} {a : Leaf} (mem : a.token ∈ lex text) (takes : a.token.Takes a.kind)
    (plain : a.kind.isTrivia = false) :
    (ofTree (.node .name [.leaf a])).span.Spells text (ofTree (.node .name [.leaf a])).text := by
  have name : ofTree (.node .name [.leaf a]) =
      ⟨if a.kind == .token .stringLiteral then unquoted a.token.text else a.token.text,
        a.kind == .token .stringLiteral, a.token.span⟩ := by
    simp [ofTree, SyntaxTree.leafChildren, Tree.children, plain, SyntaxTree.span, Tree.firstLeaf?, Tree.firstLeafOf?,
      Tree.lastLeaf?, Tree.lastLeafOf?, Token.span]
  have trivia : a.token.kind.isTrivia = false := by
    rcases takes with own | ⟨k, -, ident, -⟩
    · rwa [own] at plain
    · rw [ident]
      rfl
  rw [name]
  refine ⟨a.token, mem, trivia, rfl, Lexer.covers_of_mem_lex mem, ?_⟩
  by_cases string : a.token.kind = .stringLiteral
  · have own : a.kind = .token .stringLiteral := by
      rcases takes with own | ⟨k, -, ident, -⟩
      · exact string ▸ own
      · exact absurd (ident.symm.trans string) (by decide)
    simpa [own] using Lexer.spells_unquoted mem string
  · have other : a.kind ≠ .token .stringLiteral := by
      rcases takes with own | ⟨k, own, -⟩ <;> simp [own, string]
    simp [Token.Spells, string, other]

/-! ### Nodes of a source without errors -/

theorem Tree.Formed.descendants {t : Tree Slot} (h : t.Formed) (kind : NodeKind) : ∀ u ∈ t.descendants kind, u.Formed := by
  induction h with
  | leaf => exact fun u mem => absurd mem List.not_mem_nil
  | @node k parts holds inner ih =>
    intro u mem
    rcases Tree.mem_descendants_node.1 mem with ⟨-, rfl⟩ | mem
    · exact .node holds inner
    · obtain ⟨t, among, mem⟩ := Tree.mem_descendantsOf.1 mem
      exact ih t among u mem

/-- What stands in a node stands in the tree. -/
theorem Tree.StandsIn.descendants_subset {α : Type} {t s : Tree α} {behind : List α} (stands : t.StandsIn s behind)
    (kind : NodeKind) : t.descendants kind ⊆ s.descendants kind := by
  induction stands with
  | self => exact List.Subset.refl _
  | @child k before after s behind _ ih =>
    intro u mem
    exact mem_descendants_node.2 (.inr (mem_descendantsOf.2 ⟨s, by simp, ih mem⟩))

/-- The leaves of a node are leaves of the tree. -/
theorem Tree.leaves_subset {α : Type} {kind : NodeKind} {t u : Tree α} (mem : u ∈ t.descendants kind) :
    u.leaves ⊆ t.leaves := by
  obtain ⟨behind, stands⟩ := exists_standsIn t mem
  obtain ⟨front, whole⟩ := stands.leaves
  rw [whole]
  simp

theorem Layout.fill_of_lt {l : Layout} {i : Nat} (label : LeafKind) (bound : i < l.words.size) :
    l.fill (.word i label) = [⟨label, l.words[i]⟩] := by
  simp [fill, bound]

theorem Tree.exists_of_isWord {t : Tree Slot} (word : t.isWord = true) : ∃ i label, t = .leaf (.word i label) := by
  cases t with
  | node => cases word
  | leaf s =>
    cases s with
    | gap => cases word
    | word i label => exact ⟨i, label, rfl⟩

section

variable {budget : Budget} {text : String} {p : Parsed} {kind : NodeKind} {u : SyntaxTree}

/-- Every node holds what nodes of its kind hold, with tokens for the words. -/
theorem node_of_parseWithin (parsed : parseWithin budget text = .ok p) (clean : p.diagnostics = [])
    (inner : kind ≠ .sourceFile) (mem : u ∈ p.tree.descendants kind) :
    ∃ parts, kind.holds parts = true ∧ (∀ s ∈ Tree.leavesOf parts, s.Fits (.ofTokens (lex text))) ∧
      u = .node kind (Tree.expandAll (Layout.ofTokens (lex text)).fill parts) := by
  obtain ⟨c, children, labels, walk, tree, rfl, takes, slots⟩ := slots_of_parseWithin parsed
  have none : c.complaints = [] := by simpa [Outline.dress] using clean
  have formed : Tree.Formed (.node .sourceFile children) :=
    walk.formed (fun _ _ mem => absurd mem List.not_mem_nil) none _ (tree ▸ List.mem_singleton.2 rfl)
  rw [Outline.tree_dress] at mem
  rcases Tree.mem_descendants_node.1 mem with ⟨same, -⟩ | mem
  · exact absurd same.symm inner
  · obtain ⟨parts, among, rfl⟩ := Tree.exists_of_mem_expandAll children mem
    have among : Tree.node kind parts ∈ (Tree.node .sourceFile children).descendants kind :=
      Tree.mem_descendants_node.2 (.inr among)
    cases formed.descendants kind _ among with
    | node holds =>
      refine ⟨parts, holds, fun s mem => Slot.fits_through takes s ?_, rfl⟩
      exact slots ▸ Tree.leaves_subset among mem

/-- A name is one token. -/
theorem name_of_parseWithin (parsed : parseWithin budget text = .ok p) (clean : p.diagnostics = [])
    (mem : u ∈ p.tree.descendants .name) : ∃ a : Leaf, u = .node .name [.leaf a] ∧ a.token ∈ lex text ∧
      a.token.Takes a.kind ∧ a.kind.isTrivia = false := by
  obtain ⟨parts, holds, fits, rfl⟩ := node_of_parseWithin parsed clean (by decide) mem
  obtain ⟨one, words⟩ : parts.length = 1 ∧ parts.all Tree.isWord = true := by
    simpa only [NodeKind.holds, Bool.and_eq_true, beq_iff_eq] using holds
  obtain ⟨part, rfl⟩ := List.length_eq_one_iff.1 one
  obtain ⟨i, label, rfl⟩ := Tree.exists_of_isWord (by simpa using words)
  obtain ⟨bound, plain⟩ : i < (Layout.ofTokens (lex text)).words.size ∧ label.isTrivia = false :=
    fits (.word i label) (by simp [Tree.leavesOf, Tree.leaves])
  have is : Tree.expandAll (Layout.ofTokens (lex text)).fill [.leaf (.word i label)] =
      [.leaf ⟨label, (Layout.ofTokens (lex text)).words[i]⟩] := by
    simp [Tree.expandAll, Tree.expand, Layout.fill_of_lt label bound]
  rw [is] at mem ⊢
  have among := Tree.leaves_subset mem (List.mem_singleton.2 rfl)
  exact ⟨_, rfl, Layout.mem_of_words bound, takes_of_parseWithin parsed _ among, plain⟩

/-- What encloses a scope has a name, or else a keyword. -/
theorem NodeKind.named_of_complete {parts : List Kind} (encloses : kind.encloses = true) (plain : kind ≠ .moduleBlock)
    (complete : kind.complete parts = true) : .node .name ∈ parts ∨ ∃ k, .leaf (.keyword k) ∈ parts := by
  cases kind <;> simp [NodeKind.encloses] at encloses plain <;>
    simp only [NodeKind.complete, Bool.and_eq_true, Bool.or_eq_true, List.contains_iff_mem] at complete <;>
    grind

/-- A part that stands in a node for sure is not empty. -/
theorem leaves_ne_nil_of_partKinds (parsed : parseWithin budget text = .ok p) (clean : p.diagnostics = [])
    (mem : u ∈ p.tree.descendants kind)
    (named : .node .name ∈ SyntaxTree.partKinds u ∨ ∃ k, .leaf (.keyword k) ∈ SyntaxTree.partKinds u) : u.leaves ≠ [] := by
  have within {part : SyntaxTree} {a : Leaf} (among : part ∈ u.children) (inPart : a ∈ part.leaves) : u.leaves ≠ [] := by
    cases u with
    | leaf => cases among
    | node => exact List.ne_nil_of_mem (Tree.mem_leavesOf.2 ⟨part, among, inPart⟩)
  have exists_part {sort : Kind} (is : sort ∈ SyntaxTree.partKinds u) : ∃ part ∈ u.children, SyntaxTree.sort part = sort := by
    simpa using (List.mem_filter.1 is).1
  rcases named with name | ⟨k, keyword⟩
  · obtain ⟨part, among, is⟩ := exists_part name
    cases part with
    | leaf => cases is
    | node k inner =>
      obtain rfl : k = .name := by simpa [SyntaxTree.sort] using is
      -- a name is a token
      obtain ⟨behind, stands⟩ := Tree.exists_standsIn p.tree mem
      have inTree : Tree.node .name inner ∈ u.descendants .name := by
        cases u with
        | leaf => cases among
        | node => exact Tree.mem_descendants_node.2 (.inr (Tree.mem_descendantsOf.2
            ⟨_, among, Tree.mem_descendants_node.2 (.inl ⟨rfl, rfl⟩)⟩))
      obtain ⟨a, token, -⟩ := name_of_parseWithin parsed clean (stands.descendants_subset .name inTree)
      refine within among (a := a) ?_
      rw [token]
      exact List.mem_singleton.2 rfl
  · obtain ⟨part, among, is⟩ := exists_part keyword
    cases part with
    | node => cases is
    | leaf a => exact within among (List.mem_singleton.2 rfl)

/-- The tree of a source without errors has names that are tokens, and nothing empty around a scope. -/
theorem solid_of_parseWithin (parsed : parseWithin budget text = .ok p) (clean : p.diagnostics = []) :
    p.tree.Solid fun n => n.span.Spells text n.text where
  names n mem := by
    obtain ⟨u, among, rfl⟩ := List.mem_map.1 mem
    obtain ⟨a, rfl, inText, takes, plain⟩ := name_of_parseWithin parsed clean among
    exact Name.spells_ofTree inText takes plain
  filled kind encloses u mem := by
    by_cases block : kind = .moduleBlock
    · subst block
      obtain ⟨parts, holds, fits, rfl⟩ := node_of_parseWithin parsed clean (by decide) mem
      obtain ⟨part, among, word⟩ := List.any_eq_true.1 holds
      obtain ⟨i, label, rfl⟩ := Tree.exists_of_isWord word
      have slot := Tree.mem_leavesOf.2 ⟨_, among, List.mem_singleton.2 rfl⟩
      obtain ⟨bound, -⟩ : i < (Layout.ofTokens (lex text)).words.size ∧ _ := fits _ slot
      have filled := Layout.fill_of_lt label bound
      rw [Tree.leaves, Tree.leavesOf_expandAll]
      exact List.ne_nil_of_mem (List.mem_flatMap.2 ⟨_, slot, filled ▸ List.mem_singleton.2 rfl⟩)
    · have complete := (parseWithin_sound parsed clean).2.2.2 kind u mem
      exact leaves_ne_nil_of_partKinds parsed clean mem (NodeKind.named_of_complete encloses block complete)

/-- The leaves of a tree stand one behind the other within its span. -/
theorem between_of_parseWithin (parsed : parseWithin budget text = .ok p) :
    Leaf.Between (SyntaxTree.span p.tree).start (SyntaxTree.span p.tree).stop p.tree.leaves := by
  have tokens := tokens_of_parseWithin parsed
  have tiled := Lexer.tiled_lex text
  by_cases blank : p.tree.leaves = []
  · have first : Tree.firstLeaf? p.tree = none := by rw [← Tree.head?_leaves, blank]; rfl
    have point : SyntaxTree.span p.tree = .point 0 := by rw [SyntaxTree.span, first]
    rw [point, blank]
    exact ⟨Nat.le_refl _, fun _ mem => absurd mem List.not_mem_nil, fun _ mem => absurd mem List.not_mem_nil, .nil⟩
  · have ordered : Leaf.Between 0 (Layout.endOf (lex text)) p.tree.leaves := by
      refine ⟨Nat.zero_le _, fun _ _ => Nat.zero_le _, fun a mem => ?_, ?_⟩
      · exact Layout.stop_le_endOf tiled (tokens ▸ List.mem_map_of_mem mem)
      · exact List.pairwise_map.1 (tokens ▸ tiled.pairwise)
    exact (SyntaxTree.within_of_between ordered blank).2

end

/-- The scopes of a source are built from names that are spelled in it, in regions that follow on one another. -/
theorem SourceUnit.builds_of_read {options : SourceOptions} {text : String} {u : SourceUnit}
    (accepted : SourceUnit.read options text = .ok u) :
    ScopeTree.Builds (fun n => n.span.Spells text n.text) ScopeTree.globalId (SyntaxTree.span u.tree).start
      (SyntaxTree.span u.tree).stop ((ScopeTree.ofSpan (SyntaxTree.span u.tree)).seed options.implicitGlobals)
      u.scopes := by
  obtain ⟨p, parsed, clean, rfl⟩ := parsed_of_read accepted
  have solid := solid_of_parseWithin parsed clean
  have between := between_of_parseWithin parsed
  refine .ofStatements (Statement.allLaid_ofTrees _ (fun _ => solid.child) ?_)
  generalize p.tree = tree at between
  cases tree with
  | leaf a => exact between.sublist (List.nil_sublist _)
  | node => exact between

end ImplicitGlobals
