import ImplicitGlobals.Proofs.Syntax.Places
import ImplicitGlobals.Source.Unit

/-!
# Scope trees without places

Where a statement stands has no say in what it declares. The scopes of statements without places are
the scopes of the statements, but for the spans in them, and the globals do not depend on spans.
-/

namespace ImplicitGlobals

/-- A definition without its place. -/
def Definition.unplaced (d : Definition) : Definition := { d with span := .point 0 }

/-- All definitions of a name without their places. -/
def Definitions.unplaced (ds : Definitions) : Definitions := ds.map Definition.unplaced

/-- The scope with every span put at the start. -/
def Scope.unplaced (s : Scope) : Scope :=
  { s with bindings := s.bindings.map fun b => (b.1, b.2.unplaced), span := .point 0 }

/-- A scope tree in which only names and kinds are left. -/
def ScopeTree.unplaced (t : ScopeTree) : ScopeTree := ⟨t.scopes.map Scope.unplaced⟩

/-- Changing an entry and then mapping the table is mapping it and then changing the entry. -/
theorem Table.map_alter {α β : Type} {f : α → α} {g : β → β} (h : α → β) (t : Table α) (name : String) (fresh : α)
    (same : ∀ x, h (f x) = g (h x)) : (t.alter name f fresh).map (fun b => (b.1, h b.2)) =
      Table.alter (t.map fun b => (b.1, h b.2)) name g (h fresh) := by
  induction t with
  | nil => rfl
  | cons b rest ih =>
    by_cases here : b.1 = name
    · simp [alter, here, same]
    · simp [alter, here, ih]

/-- Places do not matter to where a definition is added. -/
theorem Scope.unplaced_define (s : Scope) (name : String) (d : Definition) :
    (s.define name d).unplaced = s.unplaced.define name d.unplaced := by
  have bindings := Table.map_alter Definitions.unplaced (g := (· ++ [d.unplaced])) s.bindings name [d]
    (f := (· ++ [d])) fun ds => List.map_append
  simp only [unplaced, define, bindings]
  rfl

namespace ScopeTree

variable (t : ScopeTree) (scope : ScopeId)

/-! ### Scopes -/

/-- Scopes are numbered alike with places and without. -/
@[simp] theorem size_unplaced : t.unplaced.size = t.size := by simp [unplaced, size]

/-- A definition is added to the same scope. -/
@[simp] theorem unplaced_define (name : String) (d : Definition) :
    (t.define scope name d).unplaced = t.unplaced.define scope name d.unplaced := by
  simp only [unplaced, define, mk.injEq]
  refine Array.ext_getElem? fun i => ?_
  simp only [Array.getElem?_map, Array.getElem?_modify]
  split
  · simp [Function.comp_def, Scope.unplaced_define]
  · rfl

/-- A new scope gets the same number and the same parent. -/
@[simp] theorem unplaced_push (kind : ScopeKind) (span : Span) :
    (t.push scope kind span).unplaced = t.unplaced.push scope kind (.point 0) := by
  simp only [unplaced, push, mk.injEq]
  refine Array.ext_getElem? fun i => ?_
  simp only [Array.getElem?_map, Array.getElem?_modify, Array.getElem?_push, Array.size_map, size]
  split <;> split <;> simp [Function.comp_def, Scope.unplaced, Scope.fresh]

/-! ### Names -/

/-- A name is bound alike, wherever it stands. -/
@[simp] theorem unplaced_bind (kind : DefinitionKind) (n : Name) :
    (t.bind scope kind n).unplaced = t.unplaced.bind scope kind n.unplaced := by
  by_cases empty : n.text = "" <;> simp [bind, Name.unplaced, Definition.unplaced, empty]

/-- By induction on the names. -/
@[simp] theorem unplaced_bindAll (kind : DefinitionKind) (ns : List Name) :
    (t.bindAll scope kind ns).unplaced = t.unplaced.bindAll scope kind (ns.map Name.unplaced) := by
  induction ns generalizing t with
  | nil => rfl
  | cons n rest ih => simpa [bindAll] using ih (t.bind scope kind n)

@[simp] theorem unplaced_bind? (kind : DefinitionKind) (n : Option Name) :
    (t.bind? scope kind n).unplaced = t.unplaced.bind? scope kind (n.map Name.unplaced) := by
  cases n <;> simp [bind?]

@[simp] theorem size_bind?_unplaced (kind : DefinitionKind) (n : Option Name) :
    (t.unplaced.bind? scope kind (n.map Name.unplaced)).size = (t.bind? scope kind n).size := by
  rw [← unplaced_bind?, size_unplaced]

/-- A scope that is opened with its type parameters. -/
@[simp] theorem unplaced_openWith (kind : ScopeKind) (span : Span) (ps : Option TypeParameters) :
    (t.openWith scope kind span ps).unplaced =
      t.unplaced.openWith scope kind (.point 0) (ps.map TypeParameters.unplaced) := by
  cases ps <;> simp [openWith, TypeParameters.unplaced, List.map_filterMap]

/-- The names of an import clause are bound as types or as values, whatever their places. -/
@[simp] theorem unplaced_bindClause (c : ImportClause) :
    (t.bindClause scope c).unplaced = t.unplaced.bindClause scope c.unplaced := by
  have specifiers (t : ScopeTree) : (c.specifiers.foldl
      (fun t s => t.bind? scope (.ofImport (c.typeOnly || s.typeOnly)) s.name?) t).unplaced =
      (c.specifiers.map ImportSpecifier.unplaced).foldl
        (fun t s => t.bind? scope (.ofImport (c.typeOnly || s.typeOnly)) s.name?) t.unplaced := by
    induction c.specifiers generalizing t with
    | nil => rfl
    | cons s rest ih =>
      rw [List.foldl_cons, ih, List.map_cons, List.foldl_cons, unplaced_bind?]
      rfl
  simp [bindClause, specifiers, ImportClause.unplaced]

/-! ### Statements -/

/-- By the kind of the declaration; each binds the names that it has. -/
@[simp] theorem unplaced_bindDeclaration (span : Span) (d : Declaration) :
    (t.bindDeclaration scope span d).unplaced =
      t.unplaced.bindDeclaration scope (.point 0) d.unplaced := by
  cases d with
  | function name types parameters =>
    cases parameters <;> simp [bindDeclaration, Declaration.unplaced, List.map_flatten]
  | variableList keyword ds =>
    simp [bindDeclaration, Declaration.unplaced, Declarator.unplaced, List.flatMap_map, List.map_flatMap]
  | enumType => simp [bindDeclaration, Declaration.unplaced, List.map_filterMap]
  | importFrom specifier clause => cases clause <;> simp [bindDeclaration, Declaration.unplaced]
  | _ => simp [bindDeclaration, Declaration.unplaced]

/-- A dotted name opens one scope for each of its parts. -/
theorem unplaced_openNamespaces (span : Span) (names : List Name) :
    t.unplaced.openNamespaces scope (.point 0) (names.map Name.unplaced) =
      ((t.openNamespaces scope span names).1.unplaced, (t.openNamespaces scope span names).2) := by
  induction names generalizing t scope with
  | nil => rfl
  | cons n rest ih =>
    have size : (t.unplaced.bind scope .namespaceName n.unplaced).size = (t.bind scope .namespaceName n).size := by
      rw [← unplaced_bind, size_unplaced]
    simp [openNamespaces, ← ih, size]

end ScopeTree

theorem Statement.isAmbientModule_unplaced (names : List Name) :
    isAmbientModule (names.map Name.unplaced) = isAmbientModule names := by
  cases names <;> rfl

namespace ScopeTree

mutual

/-- By induction on the statement, for its body is a list of statements in a scope of its own. -/
theorem unplaced_bindStatement (t : ScopeTree) (scope : ScopeId) (s : Statement) :
    (t.bindStatement scope s).unplaced = t.unplaced.bindStatement scope s.unplaced := by
  cases s with
  | plain head d => simp [bindStatement, Statement.unplaced, Head.unplaced]
  | module head names isGlobal block body =>
    simp only [Statement.unplaced, bindStatement, Statement.isAmbientModule_unplaced]
    split
    · cases block with
      | none => rfl
      | some span =>
        refine (unplaced_bindStatements _ _ body).trans ?_
        rw [unplaced_push, Option.map_some, size_unplaced]
    · have span : (block.map fun _ => Span.point 0).getD head.unplaced.span = .point 0 := by
        cases block <;> rfl
      rw [span, unplaced_openNamespaces t scope (block.getD head.span) names]
      exact unplaced_bindStatements _ _ body

/-- One after the other, each in the tree that the ones before have left. -/
theorem unplaced_bindStatements (t : ScopeTree) (scope : ScopeId) (ss : List Statement) :
    (t.bindStatements scope ss).unplaced = t.unplaced.bindStatements scope (Statement.unplacedAll ss) := by
  cases ss with
  | nil => rfl
  | cons s rest =>
    rw [bindStatements, unplaced_bindStatements _ scope rest, unplaced_bindStatement t scope s,
      Statement.unplacedAll, bindStatements]

end

/-- Implicit globals have no places of their own. -/
theorem unplaced_seed (t : ScopeTree) (globals : List (String × Classification)) :
    (t.seed globals).unplaced = t.unplaced.seed globals := by
  induction globals generalizing t with
  | nil => rfl
  | cons g rest ih =>
    have first : (t.define globalId g.1 ⟨.implicitGlobal g.2, .point 0⟩).unplaced =
        t.unplaced.define globalId g.1 ⟨.implicitGlobal g.2, .point 0⟩ := unplaced_define ..
    exact (ih _).trans (congrArg (seed · rest) first)

/-- The scopes of a source depend on its statements alone, but for their places. -/
theorem unplaced_ofStatements (type : SourceType) (globals : List (String × Classification)) (span : Span)
    (ss : List Statement) : (ofStatements type globals span ss).unplaced =
      ofStatements type globals (.point 0) (Statement.unplacedAll ss) := by
  have empty : (ofSpan span).unplaced = ofSpan (.point 0) := by simp [ofSpan, unplaced, Scope.unplaced, Scope.fresh]
  have start := empty ▸ unplaced_seed (ofSpan span) globals
  cases type with
  | module =>
    simp only [ofStatements]
    rw [unplaced_bindStatements, unplaced_push, start, ← size_unplaced, start]
  | script =>
    simp only [ofStatements]
    rw [unplaced_bindStatements, start]

end ScopeTree

/-! ### Globals -/

namespace SourceUnit

/-- The scope of a module is found by its kind. -/
theorem moduleScope?_unplaced (t : ScopeTree) : moduleScope? t.unplaced = (moduleScope? t).map Scope.unplaced := by
  have get? (id : ScopeId) : t.unplaced.get? id = (t.get? id).map Scope.unplaced := by
    simp [ScopeTree.get?, ScopeTree.unplaced]
  unfold moduleScope?
  rw [get?]
  cases root : t.get? ScopeTree.globalId with
  | none => rfl
  | some s =>
    cases first : s.children.head? with
    | none => simp [Scope.unplaced, first]
    | some id =>
      cases found : t.get? id with
      | none => simp [Scope.unplaced, first, get?, found]
      | some inner =>
        by_cases module : inner.kind = .moduleBody <;> simp [Scope.unplaced, first, get?, found, module]

/-- The classification of a name only asks for the kinds of its definitions. -/
theorem classify_unplaced (name : String) (ds : Definitions) : classify (name, ds.unplaced) = classify (name, ds) := by
  simp [classify, Definitions.unplaced, Definitions.classification?, Definitions.isType, Definitions.isValue,
    Definition.unplaced, Function.comp_def]

/-- What the globals of a source are, its scopes say without their spans. -/
theorem globals_of_unplaced {u v : SourceUnit} (same : v.scopes.unplaced = u.scopes.unplaced) :
    v.globals = u.globals := by
  have bare (w : SourceUnit) (tree : SyntaxTree) (hasComments : Bool) :
      w.globals = globals ⟨tree, w.scopes.unplaced, hasComments⟩ := by
    rw [globals, globals, moduleScope?_unplaced]
    cases moduleScope? w.scopes with
    | none => rfl
    | some scope => simp [Scope.unplaced, List.mapM_map, Function.comp_def, classify_unplaced]
  rw [bare v u.tree u.hasComments, bare u u.tree u.hasComments, same]

end SourceUnit

end ImplicitGlobals
