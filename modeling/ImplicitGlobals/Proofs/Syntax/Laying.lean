import ImplicitGlobals.Proofs.Angles.Trees
import ImplicitGlobals.Proofs.Scope.Regions

/-!
# Statements lie where their trees do

The names of a statement are those of the name nodes in its tree, and the statements in a block lie in the
span of the block. In the tree of a source without errors every name is one token, and what opens a scope
is not empty.
-/

namespace ImplicitGlobals

/-! ### Names of trees -/

namespace SyntaxTree

/-- The names in a tree. -/
def everyName (t : SyntaxTree) : List Name := (Tree.descendants .name t).map Name.ofTree

variable {t u : SyntaxTree} {kind : NodeKind} {n : Name}

/-- A name of a child is a name of the tree. -/
theorem everyName_of_child (among : u ∈ t.children) (mem : n ∈ u.everyName) : n ∈ t.everyName := by
  cases t with
  | leaf => cases among
  | node k children =>
    obtain ⟨v, inside, rfl⟩ := List.mem_map.1 mem
    exact List.mem_map_of_mem (Tree.mem_descendants_node.2 (.inr (Tree.mem_descendantsOf.2 ⟨u, among, inside⟩)))

theorem mem_children_of_child? (found : t.child? kind = some u) : u ∈ t.children :=
  List.mem_of_find?_eq_some found

theorem mem_children_of_childrenOf (mem : u ∈ t.childrenOf kind) : u ∈ t.children :=
  (List.mem_filter.1 mem).1

/-- A name node is one of its own names. -/
theorem ofTree_mem_everyName (named : Tree.isNode .name u = true) : Name.ofTree u ∈ u.everyName := by
  cases u with
  | leaf => cases named
  | node k children =>
    have is : k = .name := by simpa [Tree.isNode] using named
    exact List.mem_map_of_mem (Tree.mem_descendants_node.2 (.inl ⟨is, rfl⟩))

/-- So is the name of a node itself. -/
theorem everyName_of_name? (named : n ∈ t.name?.toList) : n ∈ t.everyName := by
  obtain ⟨u, found, rfl⟩ := Option.map_eq_some_iff.1 (Option.mem_toList.1 named)
  exact everyName_of_child (mem_children_of_child? found) (ofTree_mem_everyName (List.find?_some found))

/-- So are the names in a list. -/
theorem everyName_of_names (named : n ∈ t.names) : n ∈ t.everyName := by
  obtain ⟨u, among, rfl⟩ := List.mem_map.1 named
  exact everyName_of_child (mem_children_of_childrenOf among) (ofTree_mem_everyName (List.mem_filter.1 among).2)

/-- So are the names that a binding holds. -/
theorem everyName_of_boundNames (bound : n ∈ t.boundNames) : n ∈ t.everyName := by
  unfold boundNames at bound
  split at bound
  · next pattern found => exact everyName_of_child (mem_children_of_child? found) bound
  · exact everyName_of_name? bound

/-- So are the type parameters. -/
theorem everyName_of_typeParameters? (given : n ∈ (t.typeParameters?.getD []).filterMap id) : n ∈ t.everyName := by
  cases found : t.child? .typeParameterList with
  | none => simp [typeParameters?, found] at given
  | some list =>
    obtain ⟨u, among, named⟩ : ∃ u ∈ list.childrenOf .typeParameter, u.name? = some n := by
      simpa [typeParameters?, found] using given
    exact everyName_of_child (mem_children_of_child? found)
      (everyName_of_child (mem_children_of_childrenOf among) (everyName_of_name? (Option.mem_toList.2 named)))

end SyntaxTree

open SyntaxTree

/-- The names of a clause stand in its tree. -/
theorem ImportClause.everyName_of_names {t : SyntaxTree} {n : Name} (mem : n ∈ (Declaration.clauseOfTree t).names) :
    n ∈ t.everyName := by
  simp only [ImportClause.names, Declaration.clauseOfTree, List.mem_append] at mem
  rcases mem with (default | namespaced) | named
  · exact everyName_of_name? default
  · obtain ⟨u, found, named⟩ := Option.bind_eq_some_iff.1 (Option.mem_toList.1 namespaced)
    exact everyName_of_child (mem_children_of_child? found) (everyName_of_name? (Option.mem_toList.2 named))
  · obtain ⟨s, among, named⟩ := List.mem_flatMap.1 named
    obtain ⟨list, inTree, among⟩ := List.mem_flatMap.1 among
    obtain ⟨u, inList, rfl⟩ := List.mem_map.1 among
    exact everyName_of_child (mem_children_of_childrenOf inTree)
      (everyName_of_child (mem_children_of_childrenOf inList) (everyName_of_name? named))

/-- The names of a declaration stand in its tree. -/
theorem Declaration.everyName_of_names {kind : NodeKind} {t : SyntaxTree} {d : Declaration} {n : Name}
    (is : ofNode? kind t = some d) (mem : n ∈ d.names) : n ∈ t.everyName := by
  have headed {types : Option TypeParameters} (same : types = t.typeParameters?)
      (mem : n ∈ t.name?.toList ∨ n ∈ (types.getD []).filterMap id) : n ∈ t.everyName :=
    mem.elim everyName_of_name? fun given => everyName_of_typeParameters? (same ▸ given)
  -- Each kind of node has its declaration, or none.
  cases kind <;> simp only [ofNode?, Option.some.injEq, reduceCtorEq] at is
  case variableStatement =>
    subst is
    obtain ⟨d, among, bound⟩ := List.mem_flatMap.1 mem
    obtain ⟨u, inTree, rfl⟩ := List.mem_map.1 among
    exact everyName_of_child (mem_children_of_childrenOf inTree) (everyName_of_boundNames bound)
  case functionDeclaration =>
    subst is
    simp only [names, List.mem_append] at mem
    rcases mem with mem | given
    · exact headed rfl mem
    · cases found : t.child? .parameterList with
      | none => simp [found] at given
      | some list =>
        obtain ⟨u, among, bound⟩ : ∃ u ∈ list.childrenOf .parameter, n ∈ u.boundNames := by
          simpa [found] using given
        exact everyName_of_child (mem_children_of_child? found)
          (everyName_of_child (mem_children_of_childrenOf among) (everyName_of_boundNames bound))
  case classDeclaration | interfaceDeclaration | typeAliasDeclaration =>
    subst is
    exact headed rfl (List.mem_append.1 mem)
  case enumDeclaration =>
    subst is
    simp only [names, List.mem_append] at mem
    rcases mem with named | member
    · exact everyName_of_name? named
    · obtain ⟨body, inTree, u, among, named⟩ :
          ∃ body ∈ t.childrenOf .enumBody, ∃ u ∈ body.childrenOf .enumMember, u.name? = some n := by
        simpa using member
      exact everyName_of_child (mem_children_of_childrenOf inTree)
        (everyName_of_child (mem_children_of_childrenOf among) (everyName_of_name? (Option.mem_toList.2 named)))
  case importDeclaration =>
    subst is
    cases found : t.child? .importClause with
    | none => simp [names, found] at mem
    | some clause =>
      have named : n ∈ (clauseOfTree clause).names := by simpa [names, found] using mem
      exact everyName_of_child (mem_children_of_child? found) (ImportClause.everyName_of_names named)
  case importEquals =>
    subst is
    exact everyName_of_name? mem
  case exportDeclaration | exportAssignment | namespaceExport | emptyStatement =>
    subst is
    cases mem

/-! ### Leaves in order -/

/-- Leaves one behind the other, between two positions. -/
structure Leaf.Between (lo hi : Nat) (as : List Leaf) : Prop where
  le : lo ≤ hi
  low : ∀ a ∈ as, lo ≤ a.token.start
  high : ∀ a ∈ as, a.token.stop ≤ hi
  ordered : as.Pairwise fun a b => a.token.stop ≤ b.token.start

namespace Leaf.Between

variable {lo hi : Nat} {as bs : List Leaf}

/-- Fewer leaves lie between the same bounds. -/
theorem sublist (h : Between lo hi as) (sub : bs.Sublist as) : Between lo hi bs where
  le := h.le
  low a mem := h.low a (sub.subset mem)
  high a mem := h.high a (sub.subset mem)
  ordered := h.ordered.sublist sub

/-- The first leaves end somewhere, and the others come behind. -/
theorem split (h : Between lo hi (as ++ bs)) : ∃ mid, Between lo mid as ∧ Between mid hi bs := by
  obtain ⟨first, rest, across⟩ := List.pairwise_append.1 h.ordered
  have lows := h.low
  have highs := h.high
  rw [List.forall_mem_append] at lows highs
  obtain ⟨low, low'⟩ := lows
  obtain ⟨high, high'⟩ := highs
  rcases List.eq_nil_or_concat as with rfl | ⟨front, last, rfl⟩
  · exact ⟨lo, ⟨Nat.le_refl _, low, fun _ mem => absurd mem List.not_mem_nil, first⟩, h.le, low', high', rest⟩
  · have mem : last ∈ front.concat last := by simp
    have forward := last.token.start_le_stop
    refine ⟨last.token.stop, ⟨Nat.le_trans (low last mem) forward, low, fun a inFront => ?_, first⟩,
      high last mem, fun b behind => across last mem b behind, high', rest⟩
    rw [List.concat_eq_append] at inFront first
    rcases List.mem_append.1 inFront with before | same
    · exact Nat.le_trans ((List.pairwise_append.1 first).2.2 a before last (List.mem_singleton.2 rfl)) forward
    · exact List.mem_singleton.1 same ▸ Nat.le_refl _

/-- Leaves that there are lie between the first one and the last one. -/
theorem tight {first last : Leaf} (h : Between lo hi as) (head : as.head? = some first)
    (tail : as.getLast? = some last) :
    (Span.mk first.token.start last.token.stop).Within lo hi ∧ Between first.token.start last.token.stop as := by
  have inFirst := List.mem_of_mem_head? (Option.mem_def.2 head)
  have inLast := List.mem_of_getLast? tail
  have low : ∀ a ∈ as, first.token.start ≤ a.token.start := by
    obtain ⟨rest, rfl⟩ := List.head?_eq_some_iff.1 head
    intro a mem
    rcases List.mem_cons.1 mem with rfl | behind
    · exact Nat.le_refl _
    · exact Nat.le_trans first.token.start_le_stop (List.rel_of_pairwise_cons h.ordered behind)
  have high : ∀ a ∈ as, a.token.stop ≤ last.token.stop := by
    obtain ⟨front, rfl⟩ := List.getLast?_eq_some_iff.1 tail
    intro a mem
    rcases List.mem_append.1 mem with before | same
    · exact Nat.le_trans ((List.pairwise_append.1 h.ordered).2.2 a before last (List.mem_singleton.2 rfl))
        last.token.start_le_stop
    · exact List.mem_singleton.1 same ▸ Nat.le_refl _
  have forward := Nat.le_trans (low last inLast) last.token.start_le_stop
  exact ⟨⟨h.low first inFirst, forward, h.high last inLast⟩, forward, low, high, h.ordered⟩

end Leaf.Between

/-- A tree that is not empty lies within the positions, and its leaves within its span. -/
theorem SyntaxTree.within_of_between {t : SyntaxTree} {lo hi : Nat} (h : Leaf.Between lo hi t.leaves)
    (filled : t.leaves ≠ []) : (SyntaxTree.span t).Within lo hi ∧
      Leaf.Between (SyntaxTree.span t).start (SyntaxTree.span t).stop t.leaves := by
  obtain ⟨first, head⟩ : ∃ first, t.leaves.head? = some first := ⟨_, List.head?_eq_some_head filled⟩
  obtain ⟨last, tail⟩ : ∃ last, t.leaves.getLast? = some last := ⟨_, List.getLast?_eq_some_getLast filled⟩
  have whole := h.tight head tail
  rw [Tree.head?_leaves] at head
  rw [Tree.getLast?_leaves] at tail
  rwa [SyntaxTree.span, head, tail]

/-! ### Statements in order -/

/-- Whether a node of the kind has a scope to itself, or is the region of one. -/
def NodeKind.encloses : NodeKind → Bool
  | functionDeclaration | classDeclaration | interfaceDeclaration | typeAliasDeclaration | enumDeclaration
  | moduleDeclaration | moduleBlock => true
  | _ => false

/-- The names in the tree are `fit`, and what encloses a scope is not empty. -/
structure SyntaxTree.Solid (fit : Name → Prop) (t : SyntaxTree) : Prop where
  names : ∀ n ∈ t.everyName, fit n
  filled : ∀ kind, kind.encloses = true → ∀ u ∈ Tree.descendants kind t, u.leaves ≠ []

namespace SyntaxTree.Solid

variable {fit : Name → Prop} {t u : SyntaxTree} {kind : NodeKind} {children : List SyntaxTree}

/-- A part of a solid tree is solid. -/
theorem child (h : Solid fit t) (among : u ∈ t.children) : Solid fit u where
  names n mem := h.names n (everyName_of_child among mem)
  filled kind encloses v mem := by
    cases t with
    | leaf => cases among
    | node k children =>
      exact h.filled kind encloses v (Tree.mem_descendants_node.2 (.inr (Tree.mem_descendantsOf.2 ⟨u, among, mem⟩)))

/-- A node that encloses has a leaf. -/
theorem leaves_ne_nil (h : Solid fit (.node kind children)) (encloses : kind.encloses = true) :
    Tree.leavesOf children ≠ [] :=
  h.filled kind encloses _ (Tree.mem_descendants_node.2 (.inl ⟨rfl, rfl⟩))

end SyntaxTree.Solid

theorem Declaration.encloses_of_opens {kind : NodeKind} {t : SyntaxTree} {d : Declaration}
    (is : ofNode? kind t = some d) (opens : d.opens = true) : kind.encloses = true := by
  rw [← nodeKind_of_ofNode? is]
  cases d <;> first | rfl | cases opens

namespace Statement

variable {fit : Name → Prop} {lo hi : Nat}

theorem ofBlock_eq_nil {ts : List SyntaxTree} (blockless : blockSpan? ts = none) : ofBlock ts = [] := by
  induction ts with
  | nil => rfl
  | cons t rest ih =>
    obtain ⟨other, further⟩ : Tree.isNode .moduleBlock t = false ∧ blockSpan? rest = none := by
      simpa [blockSpan?] using blockless
    cases t with
    | leaf => exact ih further
    | node kind children =>
      have other : kind ≠ .moduleBlock := by simpa [Tree.isNode] using other
      rw [ofBlock, if_neg other, ih further]

mutual

/-- A statement of a solid tree is laid between the bounds of its leaves. -/
theorem laid_ofTree? (t : SyntaxTree) {s : Statement} {lo hi : Nat} (solid : t.Solid fit)
    (between : Leaf.Between lo hi t.leaves) (is : ofTree? t = some s) : s.Laid fit lo hi := by
  cases t with
  | leaf => cases is
  | node kind children =>
    rw [ofTree?] at is
    split at is
    · next module =>
      obtain rfl := Option.some.inj is
      subst module
      refine ⟨fun n mem => solid.names n (everyName_of_names mem), ?_⟩
      cases block : blockSpan? children with
      | none =>
        have within := (within_of_between between (solid.leaves_ne_nil rfl)).1
        rw [ofBlock_eq_nil block]
        exact ⟨within, within.forward⟩
      | some span => exact laid_ofBlock children (fun _ => solid.child) between block
    · obtain ⟨d, held, rfl⟩ := Option.map_eq_some_iff.1 is
      refine ⟨fun n mem => solid.names n (Declaration.everyName_of_names held mem), fun opens => ?_⟩
      exact (within_of_between between (solid.leaves_ne_nil (Declaration.encloses_of_opens held opens))).1

/-- A block lies within them, with its statements inside. -/
theorem laid_ofBlock (ts : List SyntaxTree) {lo hi : Nat} {span : Span} (solid : ∀ t ∈ ts, SyntaxTree.Solid fit t)
    (between : Leaf.Between lo hi (Tree.leavesOf ts)) (found : blockSpan? ts = some span) :
    span.Within lo hi ∧ AllLaid fit span.start span.stop (ofBlock ts) := by
  cases ts with
  | nil => cases found
  | cons t rest =>
    rw [List.forall_mem_cons] at solid
    have further := between.sublist (List.sublist_append_right t.leaves _)
    cases t with
    | leaf => exact laid_ofBlock rest solid.2 further found
    | node kind children =>
      by_cases block : kind = .moduleBlock
      · subst block
        obtain rfl : SyntaxTree.span (.node .moduleBlock children) = span := by
          simpa [blockSpan?, Tree.isNode] using found
        obtain ⟨within, inside⟩ := within_of_between (t := .node .moduleBlock children)
          (between.sublist (List.sublist_append_left _ _)) (solid.1.leaves_ne_nil rfl)
        rw [ofBlock, if_pos rfl]
        exact ⟨within, allLaid_ofTrees children (fun _ => solid.1.child) inside⟩
      · rw [ofBlock, if_neg block]
        refine laid_ofBlock rest solid.2 further ?_
        simpa [blockSpan?, Tree.isNode, block] using found

/-- The statements of a list lie one behind the other. -/
theorem allLaid_ofTrees (ts : List SyntaxTree) {lo hi : Nat} (solid : ∀ t ∈ ts, SyntaxTree.Solid fit t)
    (between : Leaf.Between lo hi (Tree.leavesOf ts)) : AllLaid fit lo hi (ofTrees ts) := by
  cases ts with
  | nil => exact between.le
  | cons t rest =>
    rw [List.forall_mem_cons] at solid
    rw [ofTrees]
    cases first : ofTree? t with
    | none => exact allLaid_ofTrees rest solid.2 (between.sublist (List.sublist_append_right t.leaves _))
    | some s =>
      obtain ⟨mid, here, behind⟩ := between.split
      exact ⟨mid, here.le, laid_ofTree? t solid.1 here first, allLaid_ofTrees rest solid.2 behind⟩

end

end Statement

end ImplicitGlobals
