import ImplicitGlobals.Syntax.Statement
import ImplicitGlobals.Syntax.Word

/-!
# What does not depend on places

Trivia and positions are of no account for what a tree says: without them its statements are the
same, but for the spans in them. Neither are the bodies in which only words stand: no statement is
looked for in a body.
-/

namespace ImplicitGlobals

/-- Whether a node of the kind is a braced body that is not analysed. -/
def NodeKind.isBody : NodeKind → Bool
  | classBody | objectTypeBody | namedExports | importAttributes => true
  | _ => false

/-! ### Words without places -/

/-- A token without its place. -/
structure Lexeme where
  kind : TokenKind
  text : String
deriving DecidableEq, Repr, Inhabited

/-- A token as the lexeme at its place. -/
def Token.lexeme (t : Token) : Lexeme := ⟨t.kind, t.text⟩

/-- A word as the lexeme it was made from. -/
def Word.lexeme (w : Word) : Lexeme := ⟨w.kind, w.text⟩

/-- The leaf for a word that is read under the kind, put at the start. -/
def Lexeme.leafAs (l : Lexeme) (label : LeafKind) : SyntaxTree := .leaf ⟨label, ⟨l.kind, l.text, 0⟩⟩

/-- The leaf for a word that is read as it is, put at the start. -/
def Lexeme.leaf (l : Lexeme) : SyntaxTree := l.leafAs (.token l.kind)

/-- A leaf put at the start; trivia is dropped. -/
def Leaf.bare (a : Leaf) : List Leaf :=
  if a.kind.isTrivia then [] else [⟨a.kind, ⟨a.token.kind, a.token.text, 0⟩⟩]

/-- A node without trivia and positions. -/
def SyntaxTree.bare : SyntaxTree → SyntaxTree
  | .leaf a => .leaf a
  | .node kind children => .node kind (Tree.expandAll Leaf.bare children)

/-! ### Statements without places -/

/-- A name without its span. -/
def Name.unplaced (n : Name) : Name := { n with span := .point 0 }

/-- The head of a declaration without spans. -/
def Head.unplaced (h : Head) : Head := { h with span := .point 0 }

/-- Type parameters without spans. -/
def TypeParameters.unplaced (ps : TypeParameters) : TypeParameters := ps.map (·.map Name.unplaced)

/-- A declarator without spans. -/
def Declarator.unplaced (d : Declarator) : Declarator where
  name? := d.name?.map Name.unplaced
  isPattern := d.isPattern
  bound := d.bound.map Name.unplaced

/-- An import specifier without spans. -/
def ImportSpecifier.unplaced (s : ImportSpecifier) : ImportSpecifier :=
  { s with name? := s.name?.map Name.unplaced }

/-- An import clause without spans. -/
def ImportClause.unplaced (c : ImportClause) : ImportClause where
  typeOnly := c.typeOnly
  default? := c.default?.map Name.unplaced
  asNamespace? := c.asNamespace?.map Name.unplaced
  specifiers := c.specifiers.map ImportSpecifier.unplaced

/-- A declaration without spans, the statements of its block included. -/
def Declaration.unplaced : Declaration → Declaration
  | variableList keyword declarators => .variableList keyword (declarators.map Declarator.unplaced)
  | function name typeParameters parameters =>
    .function (name.map Name.unplaced) (typeParameters.map TypeParameters.unplaced)
      (parameters.map (·.map (·.map Name.unplaced)))
  | classType name typeParameters isAbstract =>
    .classType (name.map Name.unplaced) (typeParameters.map TypeParameters.unplaced) isAbstract
  | interfaceType name typeParameters =>
    .interfaceType (name.map Name.unplaced) (typeParameters.map TypeParameters.unplaced)
  | typeAlias name typeParameters =>
    .typeAlias (name.map Name.unplaced) (typeParameters.map TypeParameters.unplaced)
  | enumType name isConst members =>
    .enumType (name.map Name.unplaced) isConst (members.map (·.map Name.unplaced))
  | importFrom specifier clause => .importFrom specifier (clause.map ImportClause.unplaced)
  | importEquals typeOnly name => .importEquals typeOnly (name.map Name.unplaced)
  | exportNames => .exportNames
  | exportAssignment => .exportAssignment
  | namespaceExport name => .namespaceExport (name.map Name.unplaced)
  | empty => .empty

mutual

/-- The statement with every span put at the start. -/
def Statement.unplaced : Statement → Statement
  | .plain head declaration => .plain head.unplaced declaration.unplaced
  | .module head names isGlobal block body =>
    .module head.unplaced (names.map Name.unplaced) isGlobal (block.map fun _ => .point 0)
        (unplacedAll body)

/-- Statements without spans, one by one. -/
def Statement.unplacedAll : List Statement → List Statement
  | [] => []
  | s :: rest => s.unplaced :: unplacedAll rest

end

/-! ### Trees that say the same -/

namespace Tree

variable {α β : Type}

/-- Whether a tree is a single leaf. -/
def isLeaf : Tree α → Bool
  | leaf _ => true
  | node .. => false

/-- Expanding distributes over the parts. -/
theorem expandAll_append (f : α → List β) (ts us : List (Tree α)) :
    expandAll f (ts ++ us) = expandAll f ts ++ expandAll f us := by
  induction ts with
  | nil => rfl
  | cons t rest ih => simp [expandAll, ih]

/-- The descendants of a list of parts are those of its pieces in turn. -/
theorem descendantsOf_append (kind : NodeKind) (ts us : List (Tree α)) :
    descendantsOf kind (ts ++ us) = descendantsOf kind ts ++ descendantsOf kind us := by
  induction ts with
  | nil => rfl
  | cons t rest ih => simp [descendantsOf, ih]

/-- There are no nodes among leaves. -/
theorem descendantsOf_of_leaves (kind : NodeKind) {ts : List (Tree α)} (leaves : ts.all isLeaf = true) :
    descendantsOf kind ts = [] := by
  induction ts with
  | nil => rfl
  | cons t rest ih =>
    rw [List.all_cons, Bool.and_eq_true] at leaves
    cases t with
    | leaf a => exact ih leaves.2
    | node k cs => cases leaves.1

end Tree

namespace SyntaxTree

/-- What is left of the parts of a node: of a leaf what it says, of a node that node with what is
left of its parts. A body in which only leaves stand may be left out. -/
structure Trims (f : List SyntaxTree → List SyntaxTree) : Prop where
  nil : f [] = []
  leaf (a : Leaf) (rest : List SyntaxTree) : ∃ leaves : List Leaf,
    f (.leaf a :: rest) = leaves.map .leaf ++ f rest ∧ leaves.flatMap Leaf.bare = a.bare
  node (kind : NodeKind) (cs rest : List SyntaxTree) :
    f (.node kind cs :: rest) = .node kind (f cs) :: f rest ∨
      f (.node kind cs :: rest) = f rest ∧ kind.isBody = true ∧ cs.all Tree.isLeaf = true

/-- The tree with what is left of its parts. -/
def trimmed (f : List SyntaxTree → List SyntaxTree) : SyntaxTree → SyntaxTree
  | .leaf a => .leaf a
  | .node kind children => .node kind (f children)

/-- The bare tree is a trimmed one. -/
theorem trimmed_bare : trimmed (Tree.expandAll Leaf.bare) = bare := by
  funext t
  cases t <;> rfl

/-- Trivia and positions may be left out. -/
theorem trims_bare : Trims (Tree.expandAll Leaf.bare) where
  nil := rfl
  leaf a rest := by
    refine ⟨a.bare, rfl, ?_⟩
    unfold Leaf.bare
    split <;> simp_all
  node kind cs rest := .inl rfl

variable {f : List SyntaxTree → List SyntaxTree}

namespace Trims

variable (h : Trims f)
include h

/-- Trimming keeps the nodes of a kind that is no body. -/
theorem filter_isNode (kind : NodeKind) (usual : kind.isBody = false) (ts : List SyntaxTree) :
    (f ts).filter (Tree.isNode kind) = (ts.filter (Tree.isNode kind)).map (trimmed f) := by
  induction ts with
  | nil => rw [h.nil]; rfl
  | cons t rest ih =>
    cases t with
    | leaf a =>
      obtain ⟨leaves, left, -⟩ := h.leaf a rest
      have none : (leaves.map Tree.leaf).filter (Tree.isNode kind) = [] := by
        simp [List.filter_eq_nil_iff, Tree.isNode]
      rw [left, List.filter_append, none, List.filter_cons_of_neg (by simp [Tree.isNode]), ih]
      rfl
    | node k cs =>
      rcases h.node k cs rest with left | ⟨left, body, -⟩
      · rw [left]
        by_cases same : k = kind <;> simp [ih, Tree.isNode, trimmed, same]
      · have other : k ≠ kind := fun same => by simp [same, usual] at body
        rw [left, ih, List.filter_cons_of_neg (by simpa [Tree.isNode] using other)]

/-- The children of such a kind are trimmed one by one. -/
theorem childrenOf (kind : NodeKind) (usual : kind.isBody = false) (t : SyntaxTree) :
    childrenOf (trimmed f t) kind = (childrenOf t kind).map (trimmed f) := by
  cases t with
  | leaf a => rfl
  | node k cs => exact h.filter_isNode kind usual cs

/-- So is the first of them. -/
theorem child? (kind : NodeKind) (usual : kind.isBody = false) (t : SyntaxTree) :
    child? (trimmed f t) kind = (child? t kind).map (trimmed f) := by
  simp only [SyntaxTree.child?, ← List.head?_filter]
  rw [show (trimmed f t).children.filter (Tree.isNode kind) =
    SyntaxTree.childrenOf (trimmed f t) kind from rfl, h.childrenOf kind usual]
  simp [SyntaxTree.childrenOf]

/-- The bare leaves among the children stay. -/
theorem leafChildren (t : SyntaxTree) :
    (leafChildren (trimmed f t)).flatMap Leaf.bare = (leafChildren t).flatMap Leaf.bare := by
  cases t with
  | leaf a => rfl
  | node k cs =>
    simp only [SyntaxTree.leafChildren, trimmed, Tree.children]
    induction cs with
    | nil => rw [h.nil]
    | cons t rest ih =>
      cases t with
      | leaf a =>
        obtain ⟨leaves, left, same⟩ := h.leaf a rest
        simp only [left, List.filterMap_append, List.filterMap_map, List.flatMap_append, List.filterMap_cons,
          List.flatMap_cons, ih]
        show (leaves.filterMap some).flatMap Leaf.bare ++ _ = _
        rw [List.filterMap_some, same]
      | node kind cs =>
        rcases h.node kind cs rest with left | ⟨left, -⟩ <;> simp [left, ih]

end Trims

/-- A question about leaves to which trivia and positions have nothing to say. -/
theorem find?_bare {p : Leaf → Bool} (leaves : List Leaf)
    (plain : ∀ a, a.kind.isTrivia = true → p a = false)
    (stays : ∀ a b, a.kind = b.kind → p a = p b) :
    (leaves.flatMap Leaf.bare).find? p = (leaves.find? p).map fun a =>
        ⟨a.kind, ⟨a.token.kind, a.token.text, 0⟩⟩ := by
  induction leaves with
  | nil => rfl
  | cons a rest ih =>
    rw [List.flatMap_cons, List.find?_append, ih]
    by_cases trivia : a.kind.isTrivia = true
    · rw [List.find?_cons_of_neg (by simp [plain a trivia])]
      simp [Leaf.bare, trivia]
    · have same := stays ⟨a.kind, ⟨a.token.kind, a.token.text, 0⟩⟩ a rfl
      cases holds : p a with
      | true => simp [Leaf.bare, trivia, same, holds, List.find?_cons_of_pos holds]
      | false => simp [Leaf.bare, trivia, same, holds]

/-- The same for what is found of the kind of a leaf. -/
theorem findSome?_bare {β : Type} {g : Leaf → Option β} (leaves : List Leaf)
    (plain : ∀ a, a.kind.isTrivia = true → g a = none)
    (stays : ∀ a b, a.kind = b.kind → g a = g b) :
    (leaves.flatMap Leaf.bare).findSome? g = leaves.findSome? g := by
  induction leaves with
  | nil => rfl
  | cons a rest ih =>
    rw [List.flatMap_cons, List.findSome?_append, ih]
    by_cases trivia : a.kind.isTrivia = true
    · simp [Leaf.bare, trivia, plain a trivia]
    · have same := stays ⟨a.kind, ⟨a.token.kind, a.token.text, 0⟩⟩ a rfl
      cases found : g a <;> simp [Leaf.bare, trivia, same, found]

/-- A bare leaf is the keyword exactly if the leaf is. -/
theorem any_bare (leaves : List Leaf) (k : Keyword) :
    (leaves.flatMap Leaf.bare).any (·.kind == .keyword k) = leaves.any (·.kind == .keyword k) := by
  have same (a : Leaf) : (Leaf.bare a).any (·.kind == .keyword k) = (a.kind == .keyword k) := by
    unfold Leaf.bare
    split
    · next trivia => cases h : a.kind <;> simp_all [LeafKind.isTrivia]
    · simp
  simp [List.any_flatMap, same]

namespace Trims

/-- Whether a node holds a keyword outlasts trimming. -/
theorem hasKeyword (h : Trims f) (t : SyntaxTree) (k : Keyword) :
    hasKeyword (trimmed f t) k = hasKeyword t k := by
  rw [SyntaxTree.hasKeyword, hasLeaf, ← any_bare, h.leafChildren, any_bare]
  rfl

mutual

/-- The descendants of a kind are trimmed one by one. -/
theorem descendants (h : Trims f) (kind : NodeKind) (usual : kind.isBody = false) (t : SyntaxTree) :
    Tree.descendants kind (trimmed f t) = (t.descendants kind).map (trimmed f) := by
  cases t with
  | leaf a => rfl
  | node k cs =>
    have inner := descendantsOf h kind usual cs
    by_cases same : k = kind <;> simp [trimmed, Tree.descendants, same, inner]

/-- So are those of a list of parts. -/
theorem descendantsOf (h : Trims f) (kind : NodeKind) (usual : kind.isBody = false) (ts : List SyntaxTree) :
    Tree.descendantsOf kind (f ts) = (Tree.descendantsOf kind ts).map (trimmed f) := by
  cases ts with
  | nil => rw [h.nil]; rfl
  | cons t rest =>
    have more := descendantsOf h kind usual rest
    cases t with
    | leaf a =>
      obtain ⟨leaves, left, -⟩ := h.leaf a rest
      have none : Tree.descendantsOf kind (leaves.map Tree.leaf) = [] :=
        Tree.descendantsOf_of_leaves kind (by simp [Tree.isLeaf])
      rw [left, Tree.descendantsOf_append, none, more]
      rfl
    | node k cs =>
      have first := descendants h kind usual (.node k cs)
      rw [Tree.descendantsOf, List.map_append, ← first, ← more]
      rcases h.node k cs rest with left | ⟨left, body, flat⟩
      · rw [left]
        rfl
      · have other : k ≠ kind := fun same => by simp [same, usual] at body
        have none : Tree.descendants kind (.node k cs) = [] := by
          rw [Tree.descendants, if_neg other, Tree.descendantsOf_of_leaves kind flat]
        rw [left, first, none]
        rfl

end

end Trims

/-- The descendants in the bare tree are the bare descendants. -/
theorem descendants_of_bare {kind : NodeKind} (usual : kind.isBody = false) (t : SyntaxTree) :
    Tree.descendants kind t.bare = (t.descendants kind).map bare :=
  trimmed_bare ▸ trims_bare.descendants kind usual t

end SyntaxTree

/-! ### Statements of trees that say the same -/

section

open SyntaxTree

variable {f : List SyntaxTree → List SyntaxTree} (h : Trims f)
include h

/-- A name is read from the trimmed tree up to its place. -/
theorem Name.unplaced_ofTree (t : SyntaxTree) :
    (ofTree (trimmed f t)).unplaced = (ofTree t).unplaced := by
  have first (t : SyntaxTree) := find?_bare (p := (!·.kind.isTrivia)) (leafChildren t)
    (fun a trivia => by simp [trivia]) (fun a b same => by simp [same])
  have same := (first (trimmed f t)).symm.trans ((congrArg _ (h.leafChildren t)).trans (first t))
  unfold ofTree
  cases word : (leafChildren t).find? (!·.kind.isTrivia) <;>
    cases word' : (leafChildren (trimmed f t)).find? (!·.kind.isTrivia) <;>
    simp_all [unplaced]

/-- A list of names, taken from what is left of nodes. -/
theorem unplaced_names (ts : List SyntaxTree) :
    ((ts.map (trimmed f)).map Name.ofTree).map Name.unplaced = (ts.map Name.ofTree).map Name.unplaced := by
  simp [Function.comp_def, Name.unplaced_ofTree h]

/-- The name of a node, up to its place. -/
theorem unplaced_name? (t : SyntaxTree) :
    (name? (trimmed f t)).map Name.unplaced = (name? t).map Name.unplaced := by
  simp [name?, h.child? .name rfl, Function.comp_def, Name.unplaced_ofTree h]

/-- The names that a binding holds, up to their places. -/
theorem unplaced_boundNames (t : SyntaxTree) :
    (boundNames (trimmed f t)).map Name.unplaced = (boundNames t).map Name.unplaced := by
  simp only [boundNames, h.child? .bindingPattern rfl]
  cases pattern : child? t .bindingPattern with
  | none =>
    have name := congrArg Option.toList (unplaced_name? h t)
    simpa [Option.toList_map] using name
  | some p =>
    have names := unplaced_names h (p.descendants .name)
    simpa [h.descendants .name rfl] using names

/-- Type parameters, up to their places. -/
theorem unplaced_typeParameters? (t : SyntaxTree) :
    (typeParameters? (trimmed f t)).map TypeParameters.unplaced =
    (typeParameters? t).map TypeParameters.unplaced := by
  simp [typeParameters?, h.child? .typeParameterList rfl, h.childrenOf .typeParameter rfl,
    Function.comp_def, TypeParameters.unplaced, unplaced_name? h]

namespace Declaration

/-- A declarator, up to its places. -/
theorem unplaced_declaratorOfTree (t : SyntaxTree) :
    (declaratorOfTree (trimmed f t)).unplaced = (declaratorOfTree t).unplaced := by
  simp [declaratorOfTree, Declarator.unplaced, h.child? .bindingPattern rfl, unplaced_name? h,
    unplaced_boundNames h]

/-- `var`, `let` or `const` is still there after trimming. -/
theorem variableKeyword?_trimmed (t : SyntaxTree) :
    variableKeyword? (trimmed f t) = variableKeyword? t := by
  unfold variableKeyword?
  rw [← findSome?_bare (leafChildren t), ← findSome?_bare (leafChildren (trimmed f t)), h.leafChildren]
  case plain | plain =>
    intro a trivia
    cases kind : a.kind <;> simp_all [LeafKind.isTrivia]
  case stays | stays =>
    intro a b same
    simp [same]

/-- An import specifier, up to its places. -/
theorem unplaced_specifierOfTree (t : SyntaxTree) :
    (specifierOfTree (trimmed f t)).unplaced = (specifierOfTree t).unplaced := by
  simp [specifierOfTree, ImportSpecifier.unplaced, unplaced_name? h, h.hasKeyword]

/-- An import clause, up to its places. -/
theorem unplaced_clauseOfTree (t : SyntaxTree) :
    (clauseOfTree (trimmed f t)).unplaced = (clauseOfTree t).unplaced := by
  simp [clauseOfTree, ImportClause.unplaced, unplaced_name? h, h.hasKeyword,
    h.child? .namespaceImport rfl, h.childrenOf .namedImports rfl, h.childrenOf .importSpecifier rfl,
    unplaced_specifierOfTree h, List.flatMap_map, List.map_flatMap, Function.comp_def]
  cases child? t .namespaceImport with
  | none => rfl
  | some imported => exact unplaced_name? h imported

/-- The text that names a module is still there after trimming. -/
theorem specifierText?_trimmed (t : SyntaxTree) :
    specifierText? (trimmed f t) = specifierText? t := by
  have other (a : Leaf) (trivia : a.kind.isTrivia = true) :
      (a.kind == .token .stringLiteral) = false := by
    refine beq_eq_false_iff_ne.2 fun is => ?_
    rw [is] at trivia
    cases trivia
  have found (t : SyntaxTree) : specifierText? t =
      (((leafChildren t).flatMap Leaf.bare).find? (·.kind == .token .stringLiteral)).map (·.token.text) := by
    rw [find?_bare _ other fun a b same => by simp [same], Option.map_map]
    rfl
  rw [found, found, h.leafChildren]

/-- A declaration of the kind, up to its places. -/
theorem unplaced_ofNode? (kind : NodeKind) (t : SyntaxTree) :
    (ofNode? kind (trimmed f t)).map unplaced = (ofNode? kind t).map unplaced := by
  cases kind <;>
    simp [ofNode?, unplaced, unplaced_name? h, unplaced_typeParameters? h, h.hasKeyword,
      h.childrenOf .variableDeclarator rfl, h.child? .parameterList rfl, h.childrenOf .parameter rfl,
      h.childrenOf .enumBody rfl, h.childrenOf .enumMember rfl, h.child? .importClause rfl,
      unplaced_declaratorOfTree h, variableKeyword?_trimmed h, specifierText?_trimmed h,
      unplaced_boundNames h, unplaced_clauseOfTree h, List.flatMap_map, List.map_flatMap,
      Function.comp_def]

end Declaration

namespace Statement

/-- The head of a declaration, up to its places. -/
theorem unplaced_headOfTree (t : SyntaxTree) :
    (headOfTree (trimmed f t)).unplaced = (headOfTree t).unplaced := by
  simp [headOfTree, Head.unplaced, h.hasKeyword]

/-- A block is found in the trimmed tree exactly if it was there. -/
theorem blockSpan?_trimmed (ts : List SyntaxTree) :
    (blockSpan? (f ts)).map (fun _ => Span.point 0) = (blockSpan? ts).map fun _ => Span.point 0 := by
  simp only [blockSpan?, ← List.head?_filter, h.filter_isNode .moduleBlock rfl]
  cases ts.filter (Tree.isNode .moduleBlock) <;> rfl

omit h in
/-- Leaves hold no statement of a block. -/
theorem ofBlock_leaves (leaves : List Leaf) (ts : List SyntaxTree) :
    ofBlock (leaves.map Tree.leaf ++ ts) = ofBlock ts := by
  induction leaves with
  | nil => rfl
  | cons a rest ih => simpa [ofBlock] using ih

omit h in
/-- Leaves hold no statement. -/
theorem ofTrees_leaves (leaves : List Leaf) (ts : List SyntaxTree) :
    ofTrees (leaves.map Tree.leaf ++ ts) = ofTrees ts := by
  induction leaves with
  | nil => rfl
  | cons a rest ih => simpa [ofTrees, ofTree?] using ih

omit h in
/-- A body holds no statement. -/
theorem ofTree?_body {kind : NodeKind} (body : kind.isBody = true) (cs : List SyntaxTree) :
    ofTree? (.node kind cs) = none := by
  cases kind <;> first | rfl | cases body

mutual

/-- A statement is read from the trimmed tree up to its places. -/
theorem unplaced_ofTree? (t : SyntaxTree) :
    (ofTree? (trimmed f t)).map unplaced = (ofTree? t).map unplaced := by
  cases t with
  | leaf a => rfl
  | node kind cs =>
    have head := unplaced_headOfTree h (.node kind cs)
    by_cases module : kind = .moduleDeclaration
    · subst module
      have names : (SyntaxTree.names (trimmed f (.node .moduleDeclaration cs))).map Name.unplaced =
          (SyntaxTree.names (.node .moduleDeclaration cs)).map Name.unplaced := by
        simpa [SyntaxTree.names, h.childrenOf .name rfl] using
          unplaced_names h (childrenOf (.node .moduleDeclaration cs) .name)
      have isGlobal := h.hasKeyword (.node .moduleDeclaration cs) .kwGlobal
      have body := unplaced_ofBlock cs
      have block := blockSpan?_trimmed h cs
      simp_all [ofTree?, trimmed, unplaced]
    · have declaration := Declaration.unplaced_ofNode? h kind (.node kind cs)
      have plain (h : Head) (d : Option Declaration) :
          (d.map (Statement.plain h)).map unplaced =
              (d.map Declaration.unplaced).map (.plain h.unplaced) := by
        cases d <;> simp [unplaced]
      simp only [trimmed] at declaration head ⊢
      rw [ofTree?, if_neg module, ofTree?, if_neg module, plain, plain, declaration, head]

/-- So are the statements of a block. -/
theorem unplaced_ofBlock (ts : List SyntaxTree) :
    unplacedAll (ofBlock (f ts)) = unplacedAll (ofBlock ts) := by
  cases ts with
  | nil => rw [h.nil]
  | cons t rest =>
    have more := unplaced_ofBlock rest
    cases t with
    | leaf a =>
      obtain ⟨leaves, left, -⟩ := h.leaf a rest
      rw [left, ofBlock_leaves, more, ofBlock]
    | node kind cs =>
      rcases h.node kind cs rest with left | ⟨left, body, -⟩
      · rw [left]
        by_cases block : kind = .moduleBlock
        · simp [ofBlock, block, unplaced_ofTrees cs]
        · simp [ofBlock, block, more]
      · have other : kind ≠ .moduleBlock := fun same => by subst same; cases body
        rw [left, more, ofBlock, if_neg other]

/-- The statements among what is left of trees are those among the trees, but for their places. -/
theorem unplaced_ofTrees (ts : List SyntaxTree) :
    unplacedAll (ofTrees (f ts)) = unplacedAll (ofTrees ts) := by
  cases ts with
  | nil => rw [h.nil]
  | cons t rest =>
    have more := unplaced_ofTrees rest
    cases t with
    | leaf a =>
      obtain ⟨leaves, left, -⟩ := h.leaf a rest
      rw [left, ofTrees_leaves, more, ofTrees, ofTree?]
    | node kind cs =>
      have first := unplaced_ofTree? (.node kind cs)
      have step (t : SyntaxTree) (us : List SyntaxTree) :
          unplacedAll (ofTrees (t :: us)) = ((ofTree? t).map unplaced).toList ++
              unplacedAll (ofTrees us) := by
        rw [ofTrees]
        cases ofTree? t <;> simp [unplacedAll]
      rcases h.node kind cs rest with left | ⟨left, body, -⟩
      · rw [step, ← first, ← more, ← step, left]
        rfl
      · rw [left, more, step, ofTree?_body body]
        rfl

end

omit h in
/-- The statements among bare trees are the statements among the trees, but for their places. -/
theorem unplaced_ofTrees_bare (ts : List SyntaxTree) :
    unplacedAll (ofTrees (Tree.expandAll Leaf.bare ts)) = unplacedAll (ofTrees ts) :=
  unplaced_ofTrees trims_bare ts

end Statement

end

end ImplicitGlobals
