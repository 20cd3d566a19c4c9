import ImplicitGlobals.Proofs.Namespaces.Announcing
import ImplicitGlobals.Proofs.Namespaces.Forms
import ImplicitGlobals.Proofs.Printing.Trees
import ImplicitGlobals.Proofs.Scope.Unplaced

/-!
# The scopes of both forms

A namespace with several names opens the same scopes as the namespaces in one another do, one for
each name, and what is around it binds what it bound before.
-/

namespace ImplicitGlobals

open Grammar SyntaxTree

variable {t : ScopeTree} {scope : ScopeId}

/-! ### What trees bind -/

namespace ScopeTree

/-- Binds the statements among some trees, without places. -/
def bindTrees (t : ScopeTree) (scope : ScopeId) (ts : List SyntaxTree) : ScopeTree :=
  t.bindStatements scope (Statement.unplacedAll (Statement.ofTrees ts))

theorem bindTrees_cons (u : SyntaxTree) (us : List SyntaxTree) :
    t.bindTrees scope (u :: us) = (t.bindTrees scope [u]).bindTrees scope us := by
  simp only [bindTrees, Statement.ofTrees]
  cases Statement.ofTree? u <;> simp [Statement.unplacedAll, bindStatements]

theorem bindTrees_append (ts us : List SyntaxTree) :
    t.bindTrees scope (ts ++ us) = (t.bindTrees scope ts).bindTrees scope us := by
  induction ts generalizing t with
  | nil => rfl
  | cons u rest ih => rw [List.cons_append, bindTrees_cons, ih, ← bindTrees_cons]

theorem bindTrees_leaf (a : Leaf) : t.bindTrees scope [.leaf a] = t := rfl

theorem bindTrees_module (children : List SyntaxTree) :
    t.bindTrees scope [.node .moduleDeclaration children] = t.bindStatement scope
      (.module (Statement.headOfTree (.node .moduleDeclaration children)).unplaced
        ((SyntaxTree.names (.node .moduleDeclaration children)).map Name.unplaced)
        (hasKeyword (.node .moduleDeclaration children) .kwGlobal)
        ((Statement.blockSpan? children).map fun _ => .point 0)
        (Statement.unplacedAll (Statement.ofBlock children))) := rfl

/-- What is no statement binds nothing. -/
theorem bindTrees_enclosing {kind : NodeKind} (encloses : kind.enclosesStatements = true)
    (other : kind ≠ .moduleDeclaration) (children : List SyntaxTree) :
    t.bindTrees scope [.node kind children] = t := by
  have none : Declaration.ofNode? kind (.node kind children) = none := by
    cases kind <;> first | rfl | cases encloses
  simp [bindTrees, Statement.ofTrees, Statement.ofTree?, other, none, Statement.unplacedAll, bindStatements]

/-- A module in which the statements bind the same. -/
theorem bindStatement_module_congr {body body' : List Statement} (head : Head) (names : List Name) (isGlobal : Bool)
    (block : Option Span) (same : ∀ (t : ScopeTree) scope, t.bindStatements scope body = t.bindStatements scope body') :
    t.bindStatement scope (.module head names isGlobal block body) =
      t.bindStatement scope (.module head names isGlobal block body') := by
  simp only [bindStatement]
  split
  · cases block with
    | none => rfl
    | some span => exact same _ _
  · exact same _ _

end ScopeTree

open ScopeTree

/-- The trees bind the same in every scope. -/
def SyntaxTree.BindsAs (ts us : List SyntaxTree) : Prop :=
  ∀ (t : ScopeTree) scope, t.bindTrees scope ts = t.bindTrees scope us

/-! ### A namespace and its forms -/

/-- The name without its place. -/
def Name.plain (text : String) : Name := ⟨text, false, .point 0⟩

theorem names_dottedParts (first : String) (more : List String) (block : SyntaxTree)
    (other : block.isNode .name = false) :
    ((dottedParts first more block).filter (Tree.isNode .name)).map (fun t => (Name.ofTree t).unplaced) =
      (first :: more).map Name.plain := by
  have further : (dottedTrees more).filter (Tree.isNode .name) = more.map identifierTree := by
    induction more with
    | nil => rfl
    | cons next more ih =>
      rw [dottedTrees, List.flatMap_cons, List.filter_append, ← dottedTrees, ih]
      rfl
  have named (a : String) : (Name.ofTree (identifierTree a)).unplaced = Name.plain a := rfl
  have here : Tree.isNode .name (identifierTree first) = true := rfl
  simp [dottedParts, further, named, other, here, List.filter_append]

theorem leaves_dottedParts (first : String) (more : List String) (kind : NodeKind) (children : List SyntaxTree)
    (a : Leaf) (mem : .leaf a ∈ dottedParts first more (.node kind children)) : a.kind = .token .dot := by
  have further : Tree.leaf a ∈ dottedTrees more := by
    rcases List.mem_cons.1 mem with is | mem
    · cases is
    · exact (List.mem_append.1 mem).resolve_right (by simp)
  obtain ⟨next, -, among⟩ := List.mem_flatMap.1 further
  rcases List.mem_cons.1 among with is | among
  · cases is
    rfl
  · cases (List.mem_singleton.1 among)

/-- Before its block a module has leaves and names. -/
theorem block_dottedParts {us : List SyntaxTree} (leaves : us.all Tree.isLeaf = true) (first : String)
    (more : List String) (children : List SyntaxTree) :
    let parts := us ++ keywordLeaf .kwNamespace :: dottedParts first more (.node .moduleBlock children)
    (Statement.blockSpan? parts).isSome = true ∧ Statement.ofBlock parts = Statement.ofTrees children := by
  have split : us ++ keywordLeaf .kwNamespace :: dottedParts first more (.node .moduleBlock children) =
      (us ++ keywordLeaf .kwNamespace :: identifierTree first :: dottedTrees more) ++ [.node .moduleBlock children] := by
    simp [dottedParts]
  have segments : ∀ u ∈ dottedTrees more, u.isNode .moduleBlock = false := fun u mem => by
    obtain ⟨next, -, among⟩ := List.mem_flatMap.1 mem
    rcases List.mem_pair.1 among with rfl | rfl <;> rfl
  have plain : ∀ u ∈ us ++ keywordLeaf .kwNamespace :: identifierTree first :: dottedTrees more,
      u.isNode .moduleBlock = false := by
    simp only [List.forall_mem_append, List.forall_mem_cons]
    refine ⟨fun u mem => ?_, rfl, rfl, segments⟩
    cases u with
    | leaf => rfl
    | node => cases List.all_eq_true.1 leaves _ mem
  simp only [split]
  refine ⟨by simp [Statement.blockSpan?], ?_⟩
  rw [ofBlock_of_notBlock _ plain, Statement.ofBlock, if_pos rfl]

/-- A namespace opens one scope for each of its names. -/
theorem ScopeTree.bindTrees_dotted {us : List SyntaxTree} (leaves : us.all Tree.isLeaf = true)
    (quiet : ∀ a, Tree.leaf a ∈ us → a.kind.announcesModule = false) (first : String) (more : List String)
    (children : List SyntaxTree) : t.bindTrees scope [.node .moduleDeclaration
        (us ++ keywordLeaf .kwNamespace :: dottedParts first more (.node .moduleBlock children))] =
      (t.openNamespaces scope (.point 0) ((first :: more).map Name.plain)).1.bindTrees
        (t.openNamespaces scope (.point 0) ((first :: more).map Name.plain)).2 children := by
  obtain ⟨block, body⟩ := block_dottedParts leaves first more children
  have names : (SyntaxTree.names (.node .moduleDeclaration
      (us ++ keywordLeaf .kwNamespace :: dottedParts first more (.node .moduleBlock children)))).map Name.unplaced =
        (first :: more).map Name.plain := by
    have own := names_dottedParts first more (.node .moduleBlock children) rfl
    have none : us.filter (Tree.isNode .name) = [] := List.filter_eq_nil_iff.2 fun u mem => by
      cases u with
      | leaf => simp [Tree.isNode]
      | node => cases List.all_eq_true.1 leaves _ mem
    rw [SyntaxTree.names, childrenOf, Tree.children, List.filter_append, none, List.nil_append, List.map_map]
    exact own
  have others (k : Leaf) (mem : .leaf k ∈ us ++ keywordLeaf .kwNamespace :: dottedParts first more (.node .moduleBlock children)) :
      (k.kind == .keyword .kwGlobal) = false := by
    rw [beq_eq_false_iff_ne]
    intro global
    rcases List.mem_append.1 mem with mem | mem
    · have := quiet k mem
      simp [global, LeafKind.announcesModule] at this
    · rcases List.mem_cons.1 mem with is | mem
      · cases is
        cases global
      · cases (leaves_dottedParts first more _ children k mem).symm.trans global
  -- Without the word `global` among its leaves the module is no global scope.
  have isLocal : hasKeyword (.node .moduleDeclaration
      (us ++ keywordLeaf .kwNamespace :: dottedParts first more (.node .moduleBlock children))) .kwGlobal = false := by
    rw [hasKeyword, hasLeaf, List.any_eq_false]
    intro k mem
    obtain ⟨u, among, is⟩ := List.mem_filterMap.1 mem
    cases u with
    | leaf a =>
      obtain rfl := Option.some.inj is
      simp [others a among]
    | node => cases is
  obtain ⟨span, block⟩ := Option.isSome_iff_exists.1 block
  rw [bindTrees_module, names, isLocal, block, body]
  rfl

/-- A dot between two names is a namespace in a namespace. -/
theorem ScopeTree.bindTrees_nested {us : List SyntaxTree} (leaves : us.all Tree.isLeaf = true)
    (quiet : ∀ a, Tree.leaf a ∈ us → a.kind.announcesModule = false) (first : String) (more : List String)
    (children : List SyntaxTree) : t.bindTrees scope [.node .moduleDeclaration
        (us ++ keywordLeaf .kwNamespace :: nestedParts first more (.node .moduleBlock children))] =
      (t.openNamespaces scope (.point 0) ((first :: more).map Name.plain)).1.bindTrees
        (t.openNamespaces scope (.point 0) ((first :: more).map Name.plain)).2 children := by
  induction more generalizing t scope first us with
  | nil => exact bindTrees_dotted leaves quiet first [] children
  | cons next more ih =>
    have outer := @bindTrees_dotted t scope us leaves quiet first []
      ((Lexeme.ofSign .braceOpen).leaf :: [.node .moduleDeclaration (keywordLeaf .kwNamespace ::
        nestedParts next more (.node .moduleBlock children))] ++ [(Lexeme.ofSign .braceClose).leaf])
    refine outer.trans ?_
    rw [List.cons_append, bindTrees_cons, Lexeme.leaf, Lexeme.leafAs, bindTrees_leaf, bindTrees_append, Lexeme.leaf,
      Lexeme.leafAs, bindTrees_leaf]
    exact @ih _ _ [] rfl (fun _ mem => absurd mem List.not_mem_nil) next

/-! ### One form in the place of the other -/

/-- What is read as a namespace with a dotted name, and what as namespaces in one another. -/
inductive SameNamespaces : List SyntaxTree → List SyntaxTree → Prop
  | intro (first : String) (more : List String) (children : List SyntaxTree) :
    SameNamespaces (dottedParts first more (.node .moduleBlock children)) (nestedParts first more (.node .moduleBlock children))

namespace SyntaxTree

/-- A module of the one tree is another one in the other tree, and its parts behind the keyword are of these forms. -/
inductive Exchanged (Forms : List SyntaxTree → List SyntaxTree → Prop) : SyntaxTree → SyntaxTree → Prop
  | here {us ps ps' : List SyntaxTree} (leaves : us.all Tree.isLeaf = true)
      (quiet : ∀ a, Tree.leaf a ∈ us → a.kind.announcesModule = false) (forms : Forms ps ps') :
      Exchanged Forms (.node .moduleDeclaration (us ++ keywordLeaf .kwNamespace :: ps))
        (.node .moduleDeclaration (us ++ keywordLeaf .kwNamespace :: ps'))
  | within {kind : NodeKind} (encloses : kind.enclosesStatements = true) {before behind : List SyntaxTree}
      {u v : SyntaxTree} (inner : Exchanged Forms u v) :
      Exchanged Forms (.node kind (before ++ u :: behind)) (.node kind (before ++ v :: behind))

variable {Forms : List SyntaxTree → List SyntaxTree → Prop} {u v : SyntaxTree}

theorem Exchanged.flip (h : Exchanged Forms u v) : Exchanged (fun ts us => Forms us ts) v u := by
  induction h with
  | here leaves quiet forms => exact .here leaves quiet forms
  | within encloses _ ih => exact .within encloses ih

/-- Both bind the same, and so do their parts, but for those of a module. -/
structure Alike (u v : SyntaxTree) : Prop where
  whole : BindsAs [u] [v]
  parts : ∃ k us vs, u = .node k us ∧ v = .node k vs ∧ k.enclosesStatements = true ∧
    (k ≠ .moduleDeclaration → BindsAs us vs)

theorem Alike.symm (h : Alike u v) : Alike v u := by
  obtain ⟨k, us, vs, rfl, rfl, encloses, parts⟩ := h.parts
  exact ⟨fun t scope => (h.whole t scope).symm, k, vs, us, rfl, rfl, encloses,
    fun other t scope => (parts other t scope).symm⟩

theorem BindsAs.exchange {before behind : List SyntaxTree} (h : BindsAs [u] [v]) :
    BindsAs (before ++ u :: behind) (before ++ v :: behind) := fun t scope => by
  rw [bindTrees_append, bindTrees_append, bindTrees_cons u, bindTrees_cons v, h]

/-- The block of a module binds the same when one of the parts of the module does. -/
theorem Alike.ofBlock (h : Alike u v) (before behind : List SyntaxTree) :
    (Statement.blockSpan? (before ++ u :: behind)).isSome = (Statement.blockSpan? (before ++ v :: behind)).isSome ∧
      ∀ (t : ScopeTree) scope,
        t.bindStatements scope (Statement.unplacedAll (Statement.ofBlock (before ++ u :: behind))) =
          t.bindStatements scope (Statement.unplacedAll (Statement.ofBlock (before ++ v :: behind))) := by
  induction before with
  | nil =>
    obtain ⟨k, us, vs, rfl, rfl, -, parts⟩ := h.parts
    by_cases block : k = .moduleBlock
    · subst block
      refine ⟨by simp [Statement.blockSpan?], fun t scope => ?_⟩
      rw [List.nil_append, List.nil_append, Statement.ofBlock, Statement.ofBlock, if_pos rfl, if_pos rfl]
      exact parts (by decide) t scope
    · have other (cs : List SyntaxTree) : Tree.isNode .moduleBlock (.node k cs) = false := by simp [Tree.isNode, block]
      simp [Statement.blockSpan?, Statement.ofBlock, block, other]
  | cons w before ih =>
    cases w with
    | leaf a => exact ih
    | node k cs =>
      by_cases block : k = .moduleBlock
      · simp [Statement.blockSpan?, Statement.ofBlock, block]
      · have other : Tree.isNode .moduleBlock (.node k cs) = false := by simp [Tree.isNode, block]
        simpa [Statement.blockSpan?, Statement.ofBlock, block, other] using ih

theorem Alike.within (h : Alike u v) {kind : NodeKind} (encloses : kind.enclosesStatements = true)
    (before behind : List SyntaxTree) : Alike (.node kind (before ++ u :: behind)) (.node kind (before ++ v :: behind)) := by
  refine ⟨fun t scope => ?_, _, _, _, rfl, rfl, encloses, fun _ => h.whole.exchange⟩
  -- A module's own head is read off its other parts, which are the same ones.
  by_cases module : kind = .moduleDeclaration
  · subst module
    obtain ⟨some, body⟩ := h.ofBlock before behind
    obtain ⟨k, us, vs, rfl, rfl, node, -⟩ := h.parts
    have leaves (cs : List SyntaxTree) : leafChildren (.node .moduleDeclaration (before ++ .node k cs :: behind)) =
        leafChildren (.node .moduleDeclaration (before ++ behind)) := by
      simp [leafChildren, Tree.children]
    have named (cs : List SyntaxTree) : childrenOf (.node .moduleDeclaration (before ++ .node k cs :: behind)) .name =
        childrenOf (.node .moduleDeclaration (before ++ behind)) .name := by
      have other : Tree.isNode .name (.node k cs) = false := by
        cases k <;> first | rfl | cases node
      simp [childrenOf, Tree.children, List.filter_append, other]
    have keywords (cs : List SyntaxTree) (w : Keyword) :
        hasKeyword (.node .moduleDeclaration (before ++ .node k cs :: behind)) w =
          hasKeyword (.node .moduleDeclaration (before ++ behind)) w := by
      rw [hasKeyword, hasLeaf, leaves]
      rfl
    have head (cs : List SyntaxTree) :
        (Statement.headOfTree (.node .moduleDeclaration (before ++ .node k cs :: behind))).unplaced =
          (Statement.headOfTree (.node .moduleDeclaration (before ++ behind))).unplaced := by
      simp only [Statement.headOfTree, Head.unplaced, keywords]
    have block : (Statement.blockSpan? (before ++ .node k us :: behind)).map (fun _ => Span.point 0) =
        (Statement.blockSpan? (before ++ .node k vs :: behind)).map fun _ => Span.point 0 := by
      cases first : Statement.blockSpan? (before ++ .node k us :: behind) <;>
        cases second : Statement.blockSpan? (before ++ .node k vs :: behind) <;> simp_all
    simp only [bindTrees_module, SyntaxTree.names, named, keywords, head, block]
    exact bindStatement_module_congr _ _ _ _ body
  · rw [bindTrees_enclosing encloses module, bindTrees_enclosing encloses module]

/-- Where the forms bind the same, the trees do. -/
theorem Exchanged.alike (same : ∀ {ps ps'}, Forms ps ps' → ∀ {us}, us.all Tree.isLeaf = true →
    (∀ a, Tree.leaf a ∈ us → a.kind.announcesModule = false) →
      BindsAs [.node .moduleDeclaration (us ++ keywordLeaf .kwNamespace :: ps)]
        [.node .moduleDeclaration (us ++ keywordLeaf .kwNamespace :: ps')]) (h : Exchanged Forms u v) : Alike u v := by
  induction h with
  | here leaves quiet forms => exact ⟨same forms leaves quiet, _, _, _, rfl, rfl, rfl, fun other => absurd rfl other⟩
  | within encloses _ ih => exact ih.within encloses _ _

/-- A tree with a dotted namespace binds what the tree with nested namespaces in its place binds. -/
theorem Exchanged.binds (h : Exchanged SameNamespaces u v) : Alike u v :=
  h.alike fun forms _ leaves quiet t scope => by
    obtain ⟨first, more, children⟩ := forms
    rw [bindTrees_dotted leaves quiet, bindTrees_nested leaves quiet]

/-- In other namespaces, too, the one tree is the other one with the other form. -/
theorem Exchanged.enclosed (h : Exchanged Forms u v) (outer : List (String × List String)) :
    Exchanged Forms (Grammar.enclosed outer u) (Grammar.enclosed outer v) := by
  induction outer with
  | nil => exact h
  | cons n outer ih =>
    have block : Exchanged Forms (blockTree [Grammar.enclosed outer u]) (blockTree [Grammar.enclosed outer v]) :=
      @within Forms _ rfl [_] [_] _ _ ih
    exact @within Forms _ rfl (keywordLeaf .kwNamespace :: identifierTree n.1 :: dottedTrees n.2) [] _ _ block

end SyntaxTree

end ImplicitGlobals
