import ImplicitGlobals.Proofs.Syntax.Completion
import ImplicitGlobals.Proofs.Syntax.Tiling
import Mathlib.Data.List.Forall2

/-!
# The tree keeps every token

The parts that a cursor holds have for leaves the slots of all that it passed: a
gap before each word that was read, and the word under a kind that it takes. A
move that builds regroups the parts and leaves their leaves alone, so the leaves of
the tree are the slots of the whole source, in order.
-/

namespace ImplicitGlobals

namespace Slot

/-- The slots of words that are read under the kinds, the first as word `i`. -/
def read (i : Nat) : List LeafKind → List Slot
  | [] => []
  | label :: rest => .gap i :: .word i label :: read (i + 1) rest

/-- One more word was read behind the others. -/
theorem read_append (i : Nat) (labels : List LeafKind) (label : LeafKind) :
    read i (labels ++ [label]) =
      read i labels ++ [.gap (i + labels.length), .word (i + labels.length) label] := by
  induction labels generalizing i with
  | nil => rfl
  | cons l rest ih => simp [read, ih, Nat.add_assoc, Nat.add_comm 1]

/-- The slots of words from the gap before the first to the gap behind the last. -/
def through (i : Nat) (labels : List LeafKind) : List Slot :=
  read i labels ++ [.gap (i + labels.length)]

theorem through_cons (i : Nat) (label : LeafKind) (rest : List LeafKind) :
    through i (label :: rest) = .gap i :: .word i label :: through (i + 1) rest := by
  simp [through, read, Nat.add_assoc, Nat.add_comm 1]

end Slot

namespace Grammar

/-- The cursor has read the words that it passed, each under a kind that the word takes, and
put all gaps into the tree but the current one, which may be put there as well. -/
structure Faithful (words : List Word) (c : Cursor) : Prop where
  rest : c.rest = words.drop c.passed
  leaves : ∃ labels : List LeafKind,
    List.Forall₂ Word.Takes (words.take c.passed) labels ∧
    Tree.leavesOf c.parts.toList =
      Slot.read 0 labels ++ if c.gap = .placed then [.gap c.passed] else []

namespace Faithful

variable {words : List Word} {c d : Cursor}

/-- At the start nothing was read. -/
theorem start (budget : Budget) (words : List Word) : Faithful words (.start budget words) where
  rest := rfl
  leaves := ⟨[], .nil, rfl⟩

/-- A cursor that differs in nothing that is read or built. -/
theorem alike (h : Faithful words c) (rest : d.rest = c.rest) (passed : d.passed = c.passed)
    (gap : d.gap = .placed ↔ c.gap = .placed)
    (leaves : Tree.leavesOf d.parts.toList = Tree.leavesOf c.parts.toList) : Faithful words d where
  rest := by rw [rest, passed, h.rest]
  leaves := by
    obtain ⟨labels, takes, all⟩ := h.leaves
    exact ⟨labels, by rwa [passed], by simp only [leaves, all, gap, passed]⟩

theorem skipGap (h : Faithful words c) : Faithful words c.skipGap := by
  refine h.alike rfl rfl ?_ rfl
  cases e : c.gap <;> simp [Cursor.skipGap, Gap.skipped, e]

/-- Placing the gap is faithful. -/
theorem placeGap (h : Faithful words c) : Faithful words c.placeGap := by
  obtain ⟨labels, takes, all⟩ := h.leaves
  refine ⟨h.rest, labels, takes, ?_⟩
  rw [Cursor.toList_parts_placeGap, Tree.leavesOf_append, all]
  cases e : c.gap <;> simp [Cursor.placeGap, Gap.due, Gap.settled, e, Tree.leavesOf, Tree.leaves]

/-- Reading a word under a label it takes is faithful. -/
theorem read {w : Word} {ws : List Word} {label : LeafKind} (h : Faithful words c)
    (looked : c.gap ≠ .ahead) (current : c.rest = w :: ws) (takes : w.Takes label) :
    Faithful words (c.read label) := by
  obtain ⟨labels, taken, all⟩ := h.leaves
  have ahead : words.drop c.passed = w :: ws := h.rest ▸ current
  have short : c.passed < words.length := by
    have := congrArg List.length ahead
    simp at this
    omega
  have here : words[c.passed]? = some w := by
    rw [← List.head?_drop, ahead]
    rfl
  have count : labels.length = c.passed := by
    rw [← taken.length_eq, List.length_take]
    omega
  have longer : words.take (c.passed + 1) = words.take c.passed ++ [w] := by
    rw [List.take_add_one, here]
    rfl
  refine ⟨?_, labels ++ [label], ?_, ?_⟩
  · have tail := congrArg List.tail h.rest
    rwa [List.tail_drop] at tail
  · show List.Forall₂ Word.Takes (words.take (c.passed + 1)) _
    rw [longer]
    exact List.rel_append taken (.cons takes .nil)
  · rw [Cursor.toList_parts_read, Tree.leavesOf_append, Tree.leavesOf_append, all, Slot.read_append,
      count]
    cases e : c.gap <;> simp_all [Cursor.read, Cursor.placeGap, Gap.due, Tree.leavesOf, Tree.leaves]

/-- Closing a node is faithful. -/
theorem closeNode (h : Faithful words c) (kind : NodeKind) (first : Nat) :
    Faithful words (c.closeNode kind first) := by
  refine h.alike rfl rfl Iff.rfl ?_
  have inner : Tree.leavesOf [.node kind (c.parts.toList.drop first)] =
      Tree.leavesOf (c.parts.toList.drop first) := by
    simp [Tree.leavesOf, Tree.leaves]
  rw [Cursor.toList_parts_closeNode, Tree.leavesOf_append, inner, ← Tree.leavesOf_append,
    List.take_append_drop]

end Faithful

/-- Every walk is faithful to the words. -/
theorem Walk.faithful {words : List Word} {c d : Cursor} (walk : Walk c d) (h : Faithful words c) :
    Faithful words d := by
  induction walk with
  | refl => exact h
  | trans _ _ f g => exact g (f h)
  | count c => exact h.alike rfl rfl Iff.rfl rfl
  | skipGap c => exact h.skipGap
  | placeGap c => exact h.placeGap
  | read looked current takes => exact h.read looked current takes
  | note => exact h.alike rfl rfl Iff.rfl rfl
  | node kind _ _ _ f g => exact (g ((f h).alike rfl rfl Iff.rfl rfl)).closeNode kind _
  | within kind looked current takes _ f =>
    have opened : Faithful words (Cursor.pushOpener _ kind) := h.alike rfl rfl Iff.rfl rfl
    exact (f (opened.read looked current takes)).alike rfl rfl Iff.rfl rfl

end Grammar

/-! ### Filling in the tokens -/

/-- The kinds under which a token may stand in a tree: its own, or the keyword that it
spells as an identifier. -/
def Token.Takes (t : Token) (label : LeafKind) : Prop :=
  label = .token t.kind ∨ ∃ k, label = .keyword k ∧ t.kind = .ident ∧ Keyword.ofWord? t.text = some k

/-- What the words take, their tokens take. -/
theorem takes_of_after {broken : Bool} {tokens : List Token} {labels : List LeafKind}
    (h : List.Forall₂ Word.Takes (Word.after broken tokens) labels) :
    List.Forall₂ Token.Takes (tokens.filter (!·.kind.isTrivia)) labels := by
  induction tokens generalizing broken labels with
  | nil =>
    cases h
    exact .nil
  | cons t rest ih =>
    by_cases trivia : t.kind.isTrivia = true
    · rw [Word.after, if_pos trivia] at h
      rw [List.filter_cons_of_neg (by simp [trivia])]
      exact ih h
    · rw [Word.after, if_neg trivia] at h
      rw [List.filter_cons_of_pos (by simp [trivia])]
      obtain ⟨label, more, takes, rest, rfl⟩ := List.forall₂_cons_left_iff.1 h
      refine .cons ?_ (ih rest)
      cases takes with
      | own => exact .inl rfl
      | keyword ident spelt => exact .inr ⟨_, rfl, ident, spelt⟩

namespace Layout

/-- There is one gap more than there are words. -/
theorem length_gapsAfter (held tokens : List Token) :
    (gapsAfter held tokens).length = (tokens.filter (!·.kind.isTrivia)).length + 1 := by
  induction tokens generalizing held with
  | nil => rfl
  | cons t rest ih =>
    by_cases trivia : t.kind.isTrivia = true <;> simp [gapsAfter, trivia, ih]

theorem fill_gap {l : Layout} {i : Nat} {tokens : List Token} (h : l.gaps.toList[i]? = some tokens) :
    l.fill (.gap i) = tokens.map fun t => ⟨.token t.kind, t⟩ := by
  rw [Array.getElem?_toList] at h
  simp [fill, h]

theorem fill_word {l : Layout} {i : Nat} {t : Token} (label : LeafKind)
    (h : l.words.toList[i]? = some t) : l.fill (.word i label) = [⟨label, t⟩] := by
  rw [Array.getElem?_toList] at h
  simp [fill, h]

/-- The tokens in the slots of all words from `i` on and the gaps around them. -/
theorem tokens_fill {l : Layout} (gaps : l.gaps.size = l.words.size + 1) (i : Nat)
    (labels : List LeafKind) (all : i + labels.length = l.words.size) :
    ((Slot.through i labels).flatMap l.fill).map Leaf.token =
      interleave (l.gaps.toList.drop i) (l.words.toList.drop i) := by
  induction labels generalizing i with
  | nil =>
    have bound : i < l.gaps.toList.length := by simp at all ⊢; omega
    have none : l.words.toList.drop i = [] := by simp at all ⊢; omega
    rw [none, List.drop_eq_getElem_cons bound]
    have gap := fill_gap (List.getElem?_eq_getElem bound)
    simp [Slot.through, Slot.read, gap, interleave, Function.comp_def]
  | cons label rest ih =>
    have bound : i < l.gaps.toList.length := by simp at all ⊢; omega
    have some : i < l.words.toList.length := by simp at all ⊢; omega
    rw [List.drop_eq_getElem_cons bound, List.drop_eq_getElem_cons some, interleave,
      ← ih (i + 1) (by simp at all; omega), Slot.through_cons]
    have gap := fill_gap (List.getElem?_eq_getElem bound)
    have word := fill_word label (List.getElem?_eq_getElem some)
    simp [gap, word, Function.comp_def]

theorem takes_fill_gap (l : Layout) (i : Nat) : ∀ leaf ∈ l.fill (.gap i), leaf.token.Takes leaf.kind := by
  intro leaf mem
  obtain ⟨t, -, rfl⟩ := List.mem_map.1 mem
  exact .inl rfl

/-- What stands in the slots of words and gaps stands under a kind that it takes. -/
theorem takes_fill {l : Layout} (i : Nat) (labels : List LeafKind)
    (takes : List.Forall₂ Token.Takes (l.words.toList.drop i) labels) :
    ∀ leaf ∈ (Slot.through i labels).flatMap l.fill, leaf.token.Takes leaf.kind := by
  induction labels generalizing i with
  | nil =>
    intro leaf mem
    exact takes_fill_gap l i leaf (by simpa [Slot.through, Slot.read] using mem)
  | cons label rest ih =>
    obtain ⟨t, more, head, tail, here⟩ := List.forall₂_cons_right_iff.1 takes
    have word : l.words.toList[i]? = some t := by
      rw [← List.head?_drop, here]
      rfl
    have behind : l.words.toList.drop (i + 1) = more := by
      rw [← List.tail_drop, here]
      rfl
    intro leaf mem
    rw [Slot.through_cons, List.flatMap_cons, List.flatMap_cons, fill_word label word] at mem
    rcases List.mem_append.1 mem with mem | mem
    · exact takes_fill_gap l i leaf mem
    rcases List.mem_append.1 mem with mem | mem
    · rw [List.mem_singleton.1 mem]
      exact head
    · exact ih (i + 1) (behind ▸ tail) leaf mem

end Layout

/-- The one tree of a walk over all words has for leaves the slots of the whole source. -/
theorem slots_of_walk {budget : Budget} {text : String} {c : Grammar.Cursor} {children : List (Tree Slot)}
    (walk : Grammar.Walk (.start budget (Word.ofTokens (lex text))) c) (rest : c.rest = [])
    (gap : c.gap = .placed) (tree : c.parts.toList = [.node .sourceFile children]) :
    ∃ labels, List.Forall₂ Token.Takes ((lex text).filter (!·.kind.isTrivia)) labels ∧
      Tree.leavesOf children = Slot.through 0 labels := by
  have faithful := walk.faithful (.start budget _)
  obtain ⟨labels, takes, leaves⟩ := faithful.leaves
  have passed : c.passed = (Word.ofTokens (lex text)).length := by
    have count := walk.frame.length_rest
    simp only [rest, Grammar.Cursor.start, List.length_nil] at count
    omega
  rw [passed, List.take_length] at takes
  have count : labels.length = c.passed := by rw [passed, takes.length_eq]
  refine ⟨labels, takes_of_after takes, ?_⟩
  rw [tree, if_pos gap] at leaves
  simpa [Tree.leavesOf, Tree.leaves, Slot.through, count] using leaves

/-- A tree has for leaves the slots of the whole source. -/
theorem slots_of_parseWithin {budget : Budget} {text : String} {p : Parsed}
    (parsed : parseWithin budget text = .ok p) :
    ∃ c children labels, Grammar.Walk (.start budget (Word.ofTokens (lex text))) c ∧
      c.parts.toList = [.node .sourceFile children] ∧
      p = Outline.dress ⟨.node .sourceFile children, c.complaints.reverse⟩ (.ofTokens (lex text)) ∧
      List.Forall₂ Token.Takes ((lex text).filter (!·.kind.isTrivia)) labels ∧
      Tree.leavesOf children = Slot.through 0 labels := by
  obtain ⟨c, children, walk, rest, gap, tree, whole⟩ := walk_of_parseWithin parsed
  obtain ⟨labels, takes, slots⟩ := slots_of_walk walk rest gap tree
  exact ⟨c, children, labels, walk, tree, whole, takes, slots⟩

/-- The leaves of a tree are the slots of the whole source, filled. -/
theorem leaves_of_parseWithin {budget : Budget} {text : String} {p : Parsed}
    (parsed : parseWithin budget text = .ok p) :
    ∃ labels, List.Forall₂ Token.Takes ((lex text).filter (!·.kind.isTrivia)) labels ∧
      p.tree.leaves = (Slot.through 0 labels).flatMap (Layout.ofTokens (lex text)).fill := by
  obtain ⟨c, children, labels, -, -, rfl, takes, slots⟩ := slots_of_parseWithin parsed
  refine ⟨labels, takes, ?_⟩
  rw [Outline.tree_dress, Tree.leaves, Tree.leavesOf_expandAll, slots]

/-- The leaves of the tree are the tokens of the text. -/
theorem tokens_of_parseWithin {budget : Budget} {text : String} {p : Parsed}
    (parsed : parseWithin budget text = .ok p) : p.tree.leaves.map Leaf.token = lex text := by
  obtain ⟨labels, takes, leaves⟩ := leaves_of_parseWithin parsed
  have gaps : (Layout.ofTokens (lex text)).gaps.size = (Layout.ofTokens (lex text)).words.size + 1 := by
    simpa [Layout.ofTokens] using Layout.length_gapsAfter [] (lex text)
  have all : 0 + labels.length = (Layout.ofTokens (lex text)).words.size := by
    simp [Layout.ofTokens, ← takes.length_eq]
  rw [leaves, Layout.tokens_fill gaps 0 labels all]
  simpa [Layout.ofTokens] using interleave_gapsAfter [] (lex text)

/-- A leaf is of the kind of its token, or the keyword that it spells. -/
theorem takes_of_parseWithin {budget : Budget} {text : String} {p : Parsed}
    (parsed : parseWithin budget text = .ok p) : ∀ leaf ∈ p.tree.leaves, leaf.token.Takes leaf.kind := by
  obtain ⟨labels, takes, leaves⟩ := leaves_of_parseWithin parsed
  rw [leaves]
  exact Layout.takes_fill 0 labels (by simpa [Layout.ofTokens] using takes)

/-- The leaves of a tree are the tokens of the source. Each stands where the leaves before
it end, all their texts make up the source, and each has the kind that the lexer gave it,
or is an identifier under the keyword that it spells. -/
theorem parseWithin_lossless {budget : Budget} {text : String} {p : Parsed}
    (parsed : parseWithin budget text = .ok p) :
    p.tree.leaves.map Leaf.token = lex text ∧
      p.tree.text = text ∧
      (∀ before leaf after, p.tree.leaves = before ++ leaf :: after →
        leaf.token.start = (String.join (before.map (·.token.text))).utf8ByteSize) ∧
      ∀ leaf ∈ p.tree.leaves, leaf.kind = .token leaf.token.kind ∨
        ∃ k, leaf.kind = .keyword k ∧ leaf.token.kind = .ident ∧
          Keyword.ofWord? leaf.token.text = some k := by
  have tokens := tokens_of_parseWithin parsed
  refine ⟨tokens, ?_, fun before leaf after split => ?_, ?_⟩
  · rw [SyntaxTree.text, ← Lexer.join_lex text, ← tokens, List.map_map]
    rfl
  · have tiled := Lexer.tiled_lex text
    rw [← tokens, split, List.map_append, List.map_cons] at tiled
    rw [tiled.start_eq, Token.utf8ByteSize_join]
    simp [Token.sizeOf, Function.comp_def]
  · exact takes_of_parseWithin parsed

/-- A source with keywords, spacing and a comment. -/
theorem parseWithin_lossless_export :
    ∃ p, parseWithin {} "export var x; // y" = .ok p ∧
      p.tree.leaves.map Leaf.token = lex "export var x; // y" ∧ p.tree.text = "export var x; // y" := by
  have ok : (parseWithin {} "export var x; // y").toBool = true := by decide +kernel
  cases parsed : parseWithin {} "export var x; // y" with
  | error e => simp [parsed, Except.toBool] at ok
  | ok p =>
    have whole := parseWithin_lossless parsed
    exact ⟨p, rfl, whole.1, whole.2.1⟩

end ImplicitGlobals
