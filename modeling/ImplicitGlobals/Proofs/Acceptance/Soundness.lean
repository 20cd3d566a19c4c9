import ImplicitGlobals.Proofs.Acceptance.Statements
import ImplicitGlobals.Proofs.Syntax.Shape

/-!
# Sources without diagnostics

What the rules add without complaint is the tree of the whole source, and putting the tokens in
keeps the kinds of all parts but the gaps. So a source without diagnostics has well nested
brackets and a tree in which every declaration has what binding needs.
-/

namespace ImplicitGlobals

open Grammar

/-- The kind of the root. -/
def SyntaxTree.sort : SyntaxTree → Kind
  | .leaf a => .leaf a.kind
  | .node kind _ => .node kind

/-- The kinds of the parts that stand directly under the root, trivia left out. -/
def SyntaxTree.partKinds (t : SyntaxTree) : List Kind := (t.children.map sort).filter (!·.isTrivia)

/-! ### The run over a source -/

/-- What a run over a whole source without complaints has read and added. -/
theorem Grammar.source_accepts {budget : Budget} {words : List Word} {c : Cursor}
    {children : List (Tree Slot)}
    (run : source.run (.start budget words) = .ok ((), c)) (tidy : c.Tidy) (rest : c.rest = [])
    (tree : c.parts.toList = [.node .sourceFile children]) :
    WellNested false (words.map (·.kind)) ∧ (Tree.node .sourceFile children).Flawless := by
  have whole : Accepts source (.start budget words) fun _ d =>
      Fills (.start budget words) d [] ⊤ := by
    refine (sourceFile_forms _ fun _ => trivial).bind fun _ d post => Yields.modify fun tidy => ?_
    have tidy : d.Tidy := ⟨tidy.complaints, tidy.lastPlace, tidy.refused⟩
    exact ⟨tidy, by simpa using ((post tidy).2.trans (.placeGap d)).mono le_top⟩
  obtain ⟨-, fills⟩ := whole () c run tidy
  obtain ⟨ws, ps, read, parts, nested, flawless, -⟩ := fills.content
  refine ⟨?_, flawless _ ?_⟩
  · have all : words = ws := by simpa [Cursor.start, rest] using read
    exact all ▸ nested
  · rw [← show c.parts.toList = ps by simpa [Cursor.start] using parts, tree]
    exact List.mem_singleton.2 rfl

/-! ### Putting in the tokens -/

/-- Each part is put in as one of its kind, and a gap as trivia. -/
theorem partKinds_expandAll {l : Layout} (parted : l.Parted) (parts : List (Tree Slot))
    (fits : ∀ s ∈ Tree.leavesOf parts, s.Fits l) (kind : NodeKind) :
    SyntaxTree.partKinds (.node kind (Tree.expandAll l.fill parts)) = kindsOf parts := by
  induction parts with
  | nil => rfl
  | cons t rest ih =>
    simp only [Tree.leavesOf, List.mem_append, or_imp, forall_and] at fits
    replace ih := ih fits.2
    simp only [SyntaxTree.partKinds, Tree.children, kindsOf, Tree.expandAll, List.map_append,
      List.filter_append] at ih ⊢
    rw [ih, show t :: rest = [t] ++ rest from rfl, List.filterMap_append]
    refine congrArg (· ++ _) ?_
    cases t with
    | node k children => rfl
    | leaf slot =>
      cases slot with
      | gap i =>
        refine List.filter_eq_nil_iff.2 fun k mem => ?_
        obtain ⟨a, filled, rfl⟩ : ∃ a ∈ l.fill (.gap i), k = .leaf a.kind := by
          simpa [Tree.expand, SyntaxTree.sort, eq_comm] using mem
        simpa [Kind.isTrivia] using parted.isTrivia_fill i a filled
      | word i label =>
        have fit : i < l.words.size ∧ label.isTrivia = false := fits.1 _ (List.mem_singleton.2 rfl)
        simp [Tree.expand, Tree.sort?, SyntaxTree.sort, Layout.fill, fit.1, fit.2, Kind.isTrivia]

theorem Tree.mem_descendantsOf {α : Type} {kind : NodeKind} {ts : List (Tree α)} {u : Tree α} :
    u ∈ descendantsOf kind ts ↔ ∃ t ∈ ts, u ∈ t.descendants kind := by
  induction ts with
  | nil => simp [descendantsOf]
  | cons t rest ih => simp [descendantsOf, ih]

theorem Tree.mem_descendants_node {α : Type} {kind k : NodeKind} {ts : List (Tree α)} {u : Tree α} :
    u ∈ (node k ts).descendants kind ↔ (k = kind ∧ u = node k ts) ∨ u ∈ descendantsOf kind ts := by
  by_cases same : k = kind <;> simp [descendants, same]

/-- A node of a filled tree comes from a node of the tree. -/
theorem Tree.exists_of_mem_expandAll {α β : Type} {f : α → List β} {kind : NodeKind} {t : Tree β} :
    (ts : List (Tree α)) → t ∈ descendantsOf kind (expandAll f ts) →
      ∃ children, node kind children ∈ descendantsOf kind ts ∧ t = node kind (expandAll f children)
  | [], among => by cases among
  | leaf a :: rest, among => by
    obtain ⟨u, mem, inside⟩ := mem_descendantsOf.1 among
    rcases List.mem_append.1 mem with word | mem
    · obtain ⟨b, -, rfl⟩ := List.mem_map.1 word
      cases inside
    · obtain ⟨children, mem, rfl⟩ := exists_of_mem_expandAll rest (mem_descendantsOf.2 ⟨u, mem, inside⟩)
      exact ⟨children, List.mem_append_right _ mem, rfl⟩
  | node k cs :: rest, among => by
    obtain ⟨u, mem, inside⟩ := mem_descendantsOf.1 among
    rcases List.mem_append.1 mem with first | mem
    · rw [List.mem_singleton.1 first] at inside
      rcases mem_descendants_node.1 inside with ⟨rfl, rfl⟩ | inside
      · exact ⟨cs, List.mem_append_left _ (mem_descendants_node.2 (.inl ⟨rfl, rfl⟩)), rfl⟩
      · obtain ⟨children, mem, rfl⟩ := exists_of_mem_expandAll cs inside
        exact ⟨children, List.mem_append_left _ (mem_descendants_node.2 (.inr mem)), rfl⟩
    · obtain ⟨children, mem, rfl⟩ := exists_of_mem_expandAll rest (mem_descendantsOf.2 ⟨u, mem, inside⟩)
      exact ⟨children, List.mem_append_right _ mem, rfl⟩

/-- Putting in the tokens leaves every node with the parts that it needs. -/
theorem Tree.Flawless.complete_expand {l : Layout} (parted : l.Parted) {t : Tree Slot}
    (h : t.Flawless)
    (fits : ∀ s ∈ t.leaves, s.Fits l) (kind : NodeKind) :
    ∀ u ∈ descendantsOf kind (t.expand l.fill), kind.complete (SyntaxTree.partKinds u) = true := by
  have leaf (s : Slot) : ∀ u ∈ descendantsOf kind ((leaf s).expand l.fill),
      kind.complete (SyntaxTree.partKinds u) = true := by
    intro u mem
    obtain ⟨t, inLeaves, mem⟩ := mem_descendantsOf.1 mem
    obtain ⟨a, -, rfl⟩ := List.mem_map.1 inLeaves
    exact absurd mem List.not_mem_nil
  induction h with
  | gap i => exact leaf _
  | word i clean => exact leaf _
  | @node k children complete each ih =>
    intro u mem
    have inner (mem : u ∈ descendantsOf kind (expandAll l.fill children)) :
        kind.complete (SyntaxTree.partKinds u) = true := by
      obtain ⟨v, inParts, mem⟩ := mem_descendantsOf.1 mem
      obtain ⟨t, among, expanded⟩ := mem_expandAll.1 inParts
      exact ih t among (fun s inTree => fits s (mem_leavesOf.2 ⟨t, among, inTree⟩)) u
        (mem_descendantsOf.2 ⟨v, expanded, mem⟩)
    simp only [expand, descendantsOf, descendants, List.append_nil] at mem
    split at mem
    · next same =>
      rcases List.mem_cons.1 mem with rfl | mem
      · rw [partKinds_expandAll parted children fits k, ← same]
        exact complete
      · exact inner mem
    · exact inner mem

theorem Tree.Flawless.not_garbage {t : Tree Slot} (h : t.Flawless) {i : Nat} {label : LeafKind}
    (mem : Slot.word i label ∈ t.leaves) : label ≠ .token .garbage := by
  induction h with
  | gap => simp [leaves] at mem
  | word j clean =>
    simp only [leaves, List.mem_singleton, Slot.word.injEq] at mem
    exact mem.2 ▸ clean
  | node complete each ih =>
    obtain ⟨u, among, inTree⟩ := mem_leavesOf.1 mem
    exact ih u among inTree

/-- Where there is no diagnostic, there is no error node and no garbage in the tree, all brackets
of the source are well nested, and every declaration has the parts that binding needs. -/
theorem parseWithin_sound {budget : Budget} {text : String} {p : Parsed}
    (parsed : parseWithin budget text = .ok p) (clean : p.diagnostics = []) :
    p.tree.descendants .error = [] ∧
    (∀ leaf ∈ p.tree.leaves, leaf.kind ≠ .token .garbage) ∧
    WellNested false ((lex text).map (·.kind)) ∧
    ∀ kind, ∀ t ∈ p.tree.descendants kind, kind.complete (SyntaxTree.partKinds t) = true := by
  obtain ⟨c, children, run, walk, kept, rest, gap, tree, rfl⟩ := run_of_parseWithin parsed
  obtain ⟨labels, takes, slots⟩ := slots_of_walk walk rest gap tree
  have none : c.complaints = [] := by simpa [Outline.dress] using clean
  have tidy : c.Tidy :=
    ⟨none, Classical.not_not.1 fun noted => walk.frame.noted (absurd rfl) noted none, kept⟩
  obtain ⟨nested, flawless⟩ := source_accepts run tidy rest tree
  -- What holds of every node by its slots passes to the tree with the tokens filled in.
  have parted := Layout.parted_ofTokens (lex text)
  have fits : ∀ s ∈ (Tree.node .sourceFile children).leaves, s.Fits (.ofTokens (lex text)) :=
    fun s mem => Slot.fits_through takes s (slots ▸ mem)
  have complete (kind : NodeKind) (t : SyntaxTree) (mem : t ∈ Tree.descendants kind (Outline.dress
      ⟨.node .sourceFile children, c.complaints.reverse⟩ (.ofTokens (lex text))).tree) :
      kind.complete (SyntaxTree.partKinds t) = true :=
    flawless.complete_expand parted fits kind t
        (Tree.mem_descendantsOf.2 ⟨_, List.mem_singleton.2 rfl, mem⟩)
  refine ⟨?_, ?_, ?_, complete⟩
  · exact List.eq_nil_iff_forall_not_mem.2 fun t mem => Bool.noConfusion (complete .error t mem)
  · intro leaf mem
    rw [Outline.tree_dress, Tree.leaves, Tree.leavesOf_expandAll] at mem
    obtain ⟨s, inTree, filled⟩ := List.mem_flatMap.1 mem
    cases s with
    | gap i =>
      have trivia := parted.isTrivia_fill i leaf filled
      intro is
      simp [is, LeafKind.isTrivia, TokenKind.isTrivia] at trivia
    | word i label =>
      have is : leaf.kind = label := by
        obtain ⟨t, -, rfl⟩ := Option.mem_toList.1 filled |> Option.map_eq_some_iff.1
        rfl
      exact is ▸ flawless.not_garbage (i := i) inTree
  · rw [WellNested, ← nest_filter_isTrivia, ← Word.kinds_after false]
    exact nested

/-- A namespace and a class without a name. -/
theorem parseWithin_sound_default :
    ∃ p, parseWithin {} "namespace A { let x: T; } export default class { }" = .ok p ∧
      p.tree.descendants .error = [] ∧
      ∀ t ∈ p.tree.descendants .classDeclaration,
        NodeKind.complete .classDeclaration (SyntaxTree.partKinds t) = true := by
  have ok : (parseWithin {} "namespace A { let x: T; } export default class { }").toOption.any
      (·.diagnostics.isEmpty) = true := by decide +kernel
  cases parsed : parseWithin {} "namespace A { let x: T; } export default class { }" with
  | error e => simp [parsed, Except.toOption] at ok
  | ok p =>
    have clean : p.diagnostics = [] := by simpa [parsed, Except.toOption] using ok
    have whole := parseWithin_sound parsed clean
    exact ⟨p, rfl, whole.1, whole.2.2.2 .classDeclaration⟩

end ImplicitGlobals
