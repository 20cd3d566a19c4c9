import ImplicitGlobals.Proofs.Printing.Statements

/-!
# What the trees say

The node that a declaration is read back into holds the declaration: its kind, the names that it
declares, and those of its parameters and members.
-/

namespace ImplicitGlobals.Grammar

open Lexeme SyntaxTree

/-! ### Parts -/

@[simp] theorem isNode_leafAs (kind : NodeKind) (l : Lexeme) (label : LeafKind) :
    (l.leafAs label).isNode kind = false := rfl

@[simp] theorem isNode_node (kind k : NodeKind) (cs : List SyntaxTree) :
    Tree.isNode kind (.node k cs) = (k == kind) := rfl

/-- The items of a list are its nodes. -/
theorem filter_listedTrees (kind : NodeKind) (items : List SyntaxTree)
    (all : ∀ t ∈ items, t.isNode kind = true) :
    (listedTrees items).filter (Tree.isNode kind) = items := by
  induction items with
  | nil => rfl
  | cons t rest ih =>
    rw [List.forall_mem_cons] at all
    have more := ih all.2
    cases rest with
    | nil => simp [listedTrees, all.1]
    | cons u rest =>
      have comma : (ofSign .comma).leaf.isNode kind = false := rfl
      simpa [listedTrees, all.1, comma] using more

/-! ### Declarations -/

/-- The names that the parameters bind are those that were printed. -/
theorem parameters_parametersTree (ps : List CoreParameter) :
    ((childrenOf (parametersTree ps) .parameter).map boundNames).map (·.map Name.unplaced) =
      ps.map fun p => [p.name.name] := by
  have items : childrenOf (parametersTree ps) .parameter = ps.map parameterTree := by
    have inner := filter_listedTrees .parameter (ps.map parameterTree) (by simp [parameterTree])
    simpa [childrenOf, parametersTree, Tree.children, Lexeme.leaf, List.filter_append] using inner
  have bound (p : CoreParameter) :
      (boundNames (parameterTree p)).map Name.unplaced = [p.name.name] := by
    obtain ⟨isRest, n, isOptional, type⟩ := p
    cases isRest <;> cases isOptional <;> rfl
  simp [items, Function.comp_def, bound]

/-- So are the names of the members. -/
theorem members_membersTree (members : List (PlainName × Option String)) :
    ((childrenOf (membersTree members) .enumMember).map name?).map (·.map Name.unplaced) =
      members.map fun m => some m.1.name := by
  have items : childrenOf (membersTree members) .enumMember =
      members.map fun m => memberTree m.1 m.2 := by
    have inner := filter_listedTrees .enumMember (members.map fun m => memberTree m.1 m.2)
      (List.forall_mem_map.2 fun _ _ => rfl)
    simpa [childrenOf, membersTree, Tree.children, Lexeme.leaf, List.filter_append] using inner
  have named (m : PlainName × Option String) :
      (name? (memberTree m.1 m.2)).map Name.unplaced = some m.1.name := rfl
  simp [items, Function.comp_def, named]

/-- The node of a declaration is the declaration, with the modifier that stands before it. -/
theorem unplaced_declarationTree (declared : Bool) (d : CoreDeclaration) :
    (Statement.ofTree? (declarationTree (declareTrees declared) d)).map Statement.unplaced =
      some (CoreStatement.plain declared d).statement := by
  cases d with
  | binding k n type => cases k <;> cases declared <;> rfl
  | function n ps type =>
    let bound := (childrenOf (parametersTree ps) .parameter).map boundNames
    have whole : (Statement.ofTree? (functionTree (declareTrees declared) n ps type)).map
        Statement.unplaced = some (.plain ⟨.point 0, false, declared⟩
          (.function (some n.name) none (some (bound.map (·.map Name.unplaced))))) := by
      cases declared <;> rfl
    rw [parameters_parametersTree] at whole
    exact whole
  | typeAlias n type => cases declared <;> rfl
  | interfaceType n types body => cases types <;> cases declared <;> rfl
  | classType n body => cases declared <;> rfl
  | enumType n members =>
    let names := (childrenOf (membersTree members) .enumMember).map name?
    have whole : (Statement.ofTree? (enumTree (declareTrees declared) n members)).map
        Statement.unplaced =
        some (.plain ⟨.point 0, false, declared⟩ (.enumType (some n.name) false
          ((names ++ []).map fun member : Option Name => member.map Name.unplaced))) := by
      cases declared <;> rfl
    rw [List.append_nil, members_membersTree] at whole
    exact whole

/-! ### Modules -/

/-- A keyword is among two lists if it is among one. -/
theorem hasKeyword_append (kind : NodeKind) (ts us : List SyntaxTree) (k : Keyword) :
    hasKeyword (.node kind (ts ++ us)) k =
      (hasKeyword (.node kind ts) k || hasKeyword (.node kind us) k) := by
  simp [hasKeyword, hasLeaf, leafChildren, Tree.children]

/-- Before its block a module has names for nodes. -/
theorem filter_moduleHead (kind : NodeKind) (declared : Bool) (first : PlainName)
    (more : List PlainName) :
    (moduleHead (declareTrees declared) first more).filter (Tree.isNode kind) =
      if .name = kind then (first :: more).map nameTree else [] := by
  have segments : (segmentTrees more).filter (Tree.isNode kind) =
      if .name = kind then more.map nameTree else [] := by
    induction more with
    | nil => simp [segmentTrees]
    | cons n more ih =>
      rw [segmentTrees, List.flatMap_cons, List.filter_append, ← segmentTrees, ih]
      by_cases same : NodeKind.name = kind <;> simp [same, nameTree, Lexeme.leaf]
  have modifier : (declareTrees declared).filter (Tree.isNode kind) = [] := by
    cases declared <;> rfl
  by_cases same : NodeKind.name = kind <;>
    simp [moduleHead, List.filter_append, segments, modifier, same, nameTree, keywordLeaf]

/-- Before its block a module has `namespace` for a keyword, and perhaps `declare`. -/
theorem hasKeyword_moduleHead (kind : NodeKind) (declared : Bool) (first : PlainName)
    (more : List PlainName) (k : Keyword) :
    hasKeyword (.node kind (moduleHead (declareTrees declared) first more)) k =
      (declared && k == .kwDeclare || k == .kwNamespace) := by
  have segments : hasKeyword (.node kind (segmentTrees more)) k = false := by
    induction more with
    | nil => rfl
    | cons n more ih =>
      rw [segmentTrees, List.flatMap_cons, hasKeyword_append, ← segmentTrees, ih]
      rfl
  rw [moduleHead, hasKeyword_append, hasKeyword_append, segments]
  cases declared <;> cases k <;> rfl

theorem ofBlock_of_notBlock {ts : List SyntaxTree} (us : List SyntaxTree)
    (plain : ∀ t ∈ ts, t.isNode .moduleBlock = false) :
    Statement.ofBlock (ts ++ us) = Statement.ofBlock us := by
  induction ts with
  | nil => rfl
  | cons t rest ih =>
    rw [List.forall_mem_cons] at plain
    cases t with
    | leaf a => exact ih plain.2
    | node kind cs =>
      have other : kind ≠ .moduleBlock := by simpa using plain.1
      rw [List.cons_append, Statement.ofBlock, if_neg other]
      exact ih plain.2

theorem ofTrees_append (ts us : List SyntaxTree) :
    Statement.ofTrees (ts ++ us) = Statement.ofTrees ts ++ Statement.ofTrees us := by
  induction ts with
  | nil => rfl
  | cons t rest ih =>
    rw [List.cons_append, Statement.ofTrees, Statement.ofTrees, ih]
    cases Statement.ofTree? t <;> rfl

section

variable (declared : Bool) (first : PlainName) (more : List PlainName) (body : List SyntaxTree)

/-- The dotted name of a module is read back. -/
theorem names_moduleTree :
    (SyntaxTree.names (moduleTree (declareTrees declared) first more body)).map Name.unplaced =
      (first :: more).map (·.name) := by
  have named (n : PlainName) : (Name.ofTree (nameTree n)).unplaced = n.name := rfl
  simp [SyntaxTree.names, childrenOf, moduleTree, Tree.children, filter_moduleHead, blockTree,
    named]

/-- The only keywords of a module are its own and `declare`. -/
theorem hasKeyword_moduleTree (k : Keyword) :
    hasKeyword (moduleTree (declareTrees declared) first more body) k =
      (declared && k == .kwDeclare || k == .kwNamespace) := by
  rw [moduleTree, hasKeyword_append, hasKeyword_moduleHead]
  exact Bool.or_false _

/-- What the node of a module is read as: its block is the last of its parts. -/
theorem ofTree?_moduleTree :
    Statement.ofTree? (moduleTree (declareTrees declared) first more body) =
      some (.module (Statement.headOfTree (moduleTree (declareTrees declared) first more body))
        (SyntaxTree.names (moduleTree (declareTrees declared) first more body))
        (hasKeyword (moduleTree (declareTrees declared) first more body) .kwGlobal)
        (some (blockTree body).span) (Statement.ofTrees body)) := by
  have plain : ∀ t ∈ moduleHead (declareTrees declared) first more,
      t.isNode .moduleBlock = false := by
    simpa [List.filter_eq_nil_iff] using filter_moduleHead .moduleBlock declared first more
  have block : Statement.ofBlock
      (moduleHead (declareTrees declared) first more ++ [blockTree body]) =
      Statement.ofTrees body := by
    rw [ofBlock_of_notBlock _ plain, blockTree, Statement.ofBlock, if_pos rfl, ofTrees_append]
    exact List.append_nil _
  have span : Statement.blockSpan?
      (moduleHead (declareTrees declared) first more ++ [blockTree body]) =
      some (blockTree body).span := by
    rw [Statement.blockSpan?, List.find?_append,
      List.find?_eq_none.2 fun t mem => by simp [plain t mem]]
    rfl
  rw [← block, ← span, moduleTree, Statement.ofTree?]
  exact if_pos rfl

/-- The node of a module is the module, with the modifier that stands before it and the
statements between its braces. -/
theorem unplaced_moduleTree :
    (Statement.ofTree? (moduleTree (declareTrees declared) first more body)).map
        Statement.unplaced =
      some (.module ⟨.point 0, false, declared⟩ ((first :: more).map (·.name)) false
        (some (.point 0)) (Statement.unplacedAll (Statement.ofTrees body))) := by
  rw [ofTree?_moduleTree]
  simp [Statement.unplaced, Statement.headOfTree, Head.unplaced, names_moduleTree,
    hasKeyword_moduleTree]

end

mutual

/-- The node of a statement is the statement. -/
theorem unplaced_statementTree (s : CoreStatement) :
    (Statement.ofTree? (statementTree s)).map Statement.unplaced = some s.statement := by
  cases s with
  | plain declared d => exact unplaced_declarationTree declared d
  | module declared first more body =>
    rw [statementTree, unplaced_moduleTree, unplaced_statementTrees body]
    rfl

/-- The statements read from the trees are those that were printed. -/
theorem unplaced_statementTrees (body : List CoreStatement) :
    Statement.unplacedAll (Statement.ofTrees (statementTrees body)) =
        CoreStatement.statementsOf body := by
  cases body with
  | nil => rfl
  | cons s rest =>
    have first := unplaced_statementTree s
    have more := unplaced_statementTrees rest
    obtain ⟨t, holds, placed⟩ := Option.map_eq_some_iff.1 first
    rw [statementTrees, Statement.ofTrees, holds, CoreStatement.statementsOf, ← placed, ← more]
    rfl

end

end ImplicitGlobals.Grammar
