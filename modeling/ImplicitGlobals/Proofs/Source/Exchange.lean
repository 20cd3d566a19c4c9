import ImplicitGlobals.Proofs.Namespaces.Exchange
import ImplicitGlobals.Proofs.Namespaces.Scopes
import ImplicitGlobals.Proofs.Source.Bodies

/-!
# Sources with a namespace in another form

A source is parsed with one form of a namespace as it is with the other one, and the statements of
the trees are the same but for the namespace.
-/

namespace ImplicitGlobals

open Grammar

/-- The token is the keyword of a module that is a statement of the source or of the block of a module. -/
def SyntaxTree.AnnouncedBy (tree : SyntaxTree) (t : Token) : Prop :=
  tree.Announced Leaf.kind ⟨.keyword .kwNamespace, t⟩

namespace Grammar.Rewriting

variable {b : Rewriting} {t t' : Tree Slot}

/-! ### Trees without places -/

/-- The words before the namespace are the same in both sources. -/
theorem expandAll_earlier {ts : List (Tree Slot)} (earlier : ∀ i ∈ Tree.wordsOf ts, i < b.start) :
    Tree.expandAll (bareSlot b.words) ts = Tree.expandAll (bareSlot b.words') ts :=
  Tree.expandAll_congr ts fun a mem => by
    cases a with
    | gap => rfl
    | word i label =>
      have before : i < b.front.length := earlier i (List.mem_filterMap.2 ⟨_, mem, rfl⟩)
      rw [words, words', namespaceWords, namespaceWords, bareSlot_append _ before, bareSlot_append _ before]

theorem bareSlot_keyword {words form : List Word}
    (split : words = namespaceWords b.front b.keyword b.name form b.back) :
    (Tree.leaf b.keywordSlot).expand (bareSlot words) = [keywordLeaf .kwNamespace] := by
  have here : words[b.start]? = some b.keyword := by
    rw [← List.head?_drop, split, namespaceWords, start, List.drop_left]
    rfl
  obtain ⟨kind, text⟩ : b.keyword.kind = .ident ∧ b.keyword.text = Keyword.kwNamespace.word := by
    simpa [Word.isWord] using b.announces
  simp [Tree.expand, bareSlot, here, kind, text, keywordLeaf, Lexeme.leafAs, Lexeme.ofKeyword]

/-- Without places the one tree is the other one with the other form. -/
theorem Rewritten.exchanged (h : b.Rewritten t t') : ∃ u u', t.expand (bareSlot b.words) = [u] ∧
    t'.expand (bareSlot b.words') = [u'] ∧ SyntaxTree.Exchanged b.Forms u u' := by
  induction h with
  | @here us ps ps' leaves first last last' earlier forms =>
    refine ⟨_, _, rfl, rfl, ?_⟩
    have own : (Tree.leaf b.keywordSlot).expand (bareSlot b.words) = _ := bareSlot_keyword rfl
    have own' : (Tree.leaf b.keywordSlot).expand (bareSlot b.words') = _ := bareSlot_keyword rfl
    rw [Tree.expandAll_append, Tree.expandAll_append, Tree.expandAll, Tree.expandAll, own, own',
      expandAll_earlier earlier]
    refine .here (by rw [Tree.all_isLeaf_expandAll, leaves]) (fun a mem => ?_) forms
    obtain ⟨x, among, inside⟩ := Tree.mem_leaf_expandAll.1 mem
    cases x with
    | gap => cases inside
    | word i label =>
      obtain ⟨w, -, rfl⟩ := Option.map_eq_some_iff.1 (Option.mem_toList.1 inside)
      exact first _ among
  | @within kind encloses as bs bs' t t' earlier inner later ih =>
    obtain ⟨u, u', own, own', exchanged⟩ := ih
    refine ⟨_, _, rfl, rfl, ?_⟩
    rw [Tree.expandAll_append, Tree.expandAll_append, Tree.expandAll, Tree.expandAll, own, own',
      expandAll_earlier earlier, Tree.Coincide.expandAll later]
    exact .within encloses exchanged

end Grammar.Rewriting

/-! ### Tokens -/

section

variable {tokens : List Token} {i : Nat} {t : Token}

theorem fill_word (here : (tokens.filter (!·.kind.isTrivia))[i]? = some t) (label : LeafKind) :
    (Layout.ofTokens tokens).fill (.word i label) = [⟨label, t⟩] := by
  simp [Layout.fill, Layout.ofTokens, here]

theorem isTrivia_of_gap {a : Leaf} (mem : a ∈ (Layout.ofTokens tokens).fill (.gap i)) : a.kind.isTrivia = true :=
  (Layout.parted_ofTokens tokens).isTrivia_fill i a mem

/-- The keyword of a module that is announced in the tree of tokens announces it in the tree of slots. -/
theorem announced_of_dress {children : List (Tree Slot)} {labels : List LeafKind} (once : tokens.Nodup)
    (takes : List.Forall₂ Token.Takes (tokens.filter (!·.kind.isTrivia)) labels)
    (slots : Tree.leavesOf children = Slot.through 0 labels) (complaints : List Complaint)
    (here : (tokens.filter (!·.kind.isTrivia))[i]? = some t)
    (announced : (Outline.dress ⟨.node .sourceFile children, complaints⟩ (.ofTokens tokens)).tree.AnnouncedBy t) :
    (Tree.node .sourceFile children).Announced Slot.label (.word i (.keyword .kwNamespace)) := by
  refine Tree.Announced.ofExpand (fill_word here _) (fun x mem => ?_) rfl announced (Outline.tree_dress ..)
    fun x mem identifier => ?_
  · cases x with
    | gap j => cases isTrivia_of_gap mem
    | word j label =>
      obtain ⟨u, there, is⟩ := Option.map_eq_some_iff.1 (Option.mem_toList.1 mem)
      obtain ⟨rfl, rfl⟩ := Leaf.mk.inj is
      have there : (tokens.filter (!·.kind.isTrivia))[j]? = some u := by simpa [Layout.ofTokens] using there
      obtain ⟨bound, own⟩ := List.getElem?_eq_some_iff.1 there
      obtain ⟨bound', own'⟩ := List.getElem?_eq_some_iff.1 here
      rw [(once.filter _).getElem_inj_iff.1 (own.trans own'.symm)]
  · cases x with
    | gap => cases identifier
    | word j label =>
      obtain ⟨bound, -⟩ := Slot.fits_through takes _ (slots ▸ mem)
      exact ⟨_, by rw [Layout.fill, Array.getElem?_eq_getElem bound]; exact List.mem_singleton.2 rfl, rfl⟩

/-- What announces a module in the tree of slots is its keyword in the tree of tokens. -/
theorem announcedBy_dress {children : List (Tree Slot)} (complaints : List Complaint)
    (here : (tokens.filter (!·.kind.isTrivia))[i]? = some t)
    (announced : (Tree.node .sourceFile children).Announced Slot.label (.word i (.keyword .kwNamespace))) :
    (Outline.dress ⟨.node .sourceFile children, complaints⟩ (.ofTokens tokens)).tree.AnnouncedBy t := by
  have keeps (x : Slot) : ∀ y ∈ (Layout.ofTokens tokens).fill x,
      Leaf.kind y = x.label ∨ (Leaf.kind y).isTrivia = true := fun y mem => by
    cases x with
    | gap => exact .inr (isTrivia_of_gap mem)
    | word j label =>
      obtain ⟨u, -, rfl⟩ := Option.map_eq_some_iff.1 (Option.mem_toList.1 mem)
      exact .inl rfl
  obtain ⟨k, us, filled, announced⟩ := announced.expand (fill_word here _) keeps
  obtain ⟨rfl, rfl⟩ := Tree.node.inj (List.cons.inj filled).1
  exact announced

end

/-! ### Sources -/

/-- With the other form of the namespace a source is parsed as before, but for the namespace. -/
theorem parse_exchanged {b : Rewriting} {s s' : String} (words : Word.ofTokens (lex s) = b.words)
    (words' : Word.ofTokens (lex s') = b.words') {t t' : Token}
    (here : ((lex s).filter (!·.kind.isTrivia))[b.start]? = some t)
    (here' : ((lex s').filter (!·.kind.isTrivia))[b.start]? = some t') {p : Parsed} (parsed : parse s = .ok p)
    (faultless : p.diagnostics = []) (announced : p.tree.AnnouncedBy t) :
    ∃ q, parse s' = .ok q ∧ q.diagnostics = [] ∧ q.tree.AnnouncedBy t' ∧ ∃ us us',
      Statement.unplacedAll p.tree.statements = Statement.unplacedAll (Statement.ofTrees us) ∧
        Statement.unplacedAll q.tree.statements = Statement.unplacedAll (Statement.ofTrees us') ∧
          SyntaxTree.Exchanged b.Forms (.node .sourceFile us) (.node .sourceFile us') := by
  obtain ⟨c, children, run, walk, kept, rest, gap, tree, rfl⟩ := run_of_parseWithin parsed
  obtain ⟨labels, takes, slots⟩ := slots_of_walk walk rest gap tree
  have quiet : c.complaints = [] := by simpa [Outline.dress] using faultless
  have tidy : c.Tidy :=
    ⟨quiet, Classical.not_not.1 fun noted => walk.frame.noted (absurd rfl) noted quiet, kept⟩
  have found : b.FoundIn c.parts.toList := by
    rw [tree]
    exact ⟨_, List.mem_singleton.2 rfl, announced_of_dress (Lexer.nodup_lex s) takes slots _ here announced⟩
  obtain ⟨c', run', walk', complete⟩ := source_run {} (Word.ofTokens (lex s'))
  -- Both runs end beside each other, with the namespace behind them.
  have alongside := b.source_alongside (words ▸ run) tidy found (words' ▸ run')
  have kept' : c'.refused = none := alongside.ready'.refused
  obtain ⟨children', tree'⟩ := complete.tree
  obtain ⟨labels', takes', slots'⟩ :=
    slots_of_walk walk' (complete.ended.resolve_right (absurd kept')) complete.gap tree'
  -- The one part of each run is its source file, so the namespace is inside.
  have rewritten : b.Rewritten (.node .sourceFile children) (.node .sourceFile children') := by
    cases alongside.stage with
    | before upTo => exact absurd found (Rewriting.Alongside.not_found alongside.read upTo)
    | behind _ _ _ within =>
      rw [tree, tree'] at within
      generalize first : [Tree.node .sourceFile children] = ts at within
      generalize second : [Tree.node .sourceFile children'] = ts' at within
      obtain @⟨as, bs, bs', u, u', -, inner, -⟩ := within
      cases as with
      | nil => exact (List.cons.inj first).1 ▸ (List.cons.inj second).1 ▸ inner
      | cons => cases (List.append_eq_nil_iff.1 (List.cons.inj first).2.symm).2
  obtain ⟨_, _, own, own', exchanged⟩ := rewritten.exchanged
  obtain rfl := (List.cons.inj own).1
  obtain rfl := (List.cons.inj own').1
  refine ⟨_, (?_ : parse s' = .ok (Outline.dress ⟨.node .sourceFile children', c'.complaints.reverse⟩
    (.ofTokens (lex s')))), ?_, announcedBy_dress _ here' rewritten.announced, _, _, ?_, ?_, exchanged⟩
  · rw [parse, parseWithin_eq run', Outline.ofCursor_of_complete kept' tree']
    rfl
  · simp [Outline.dress, alongside.ready'.complaints]
  · rw [← SyntaxTree.unplaced_statements_bare, bare_dress takes slots, words]
    rfl
  · rw [← SyntaxTree.unplaced_statements_bare, bare_dress takes' slots', words']
    rfl

end ImplicitGlobals
