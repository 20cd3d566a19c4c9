import ImplicitGlobals.Proofs.Scope.Growth
import ImplicitGlobals.Proofs.Syntax.Shape

/-!
# What statements bind

A statement binds its own names in the scope where it stands, and nothing else there.
The names of parameters, type parameters, enum members and of the statements in a
block are bound further inside.
-/

namespace ImplicitGlobals

/-! ### Names with their definitions -/

/-- What an import clause defines in its scope. -/
def ImportClause.defines (c : ImportClause) : List Bound :=
  c.default?.toList.map (.ofImport c.typeOnly, ·) ++ c.asNamespace?.toList.map (.ofImport c.typeOnly, ·) ++
    c.specifiers.flatMap fun s => s.name?.toList.map (.ofImport (c.typeOnly || s.typeOnly), ·)

/-- What a declaration defines in the scope where it stands. -/
def Declaration.defines : Declaration → List Bound
  | variableList _ ds => (ds.flatMap (·.bound)).map (.variableName, ·)
  | function name _ _ => name.toList.map (.functionName, ·)
  | classType name _ _ => name.toList.map (.className, ·)
  | interfaceType name _ | typeAlias name _ => name.toList.map (.typeName, ·)
  | enumType name _ _ => name.toList.map (.enumName, ·)
  | importFrom _ clause => clause.elim [] ImportClause.defines
  | importEquals typeOnly name => name.toList.map (.ofImport typeOnly, ·)
  | exportNames | exportAssignment | namespaceExport _ | empty => []

/-- Of the names of a namespace only the first is defined where it stands. -/
def Statement.defines : Statement → List Bound
  | plain _ d => d.defines
  | module _ names isGlobal _ _ =>
    if isGlobal || isAmbientModule names then [] else names.head?.toList.map (.namespaceName, ·)

namespace ScopeTree.Grows

theorem bindSpecifiers (t : ScopeTree) (scope : ScopeId) (typeOnly : Bool) (ss : List ImportSpecifier) :
    Grows scope (ss.flatMap fun s => s.name?.toList.map (.ofImport (typeOnly || s.typeOnly), ·)) t
      (ss.foldl (fun t s => t.bind? scope (.ofImport (typeOnly || s.typeOnly)) s.name?) t) := by
  induction ss generalizing t with
  | nil => exact refl scope t
  | cons s rest ih => exact (bind? t scope _ s.name?).trans (ih _)

/-- A clause grows its scope by what it defines. -/
theorem bindClause (t : ScopeTree) (scope : ScopeId) (c : ImportClause) :
    Grows scope c.defines t (t.bindClause scope c) :=
  ((bind? t scope _ _).trans (bind? _ scope _ _)).trans (bindSpecifiers _ scope _ _)

/-- A name, and a scope for what stands inside. -/
theorem headed {u : ScopeTree} (t : ScopeTree) (scope : ScopeId) (own : DefinitionKind) (n : Option Name)
    (h : Grows scope [] (t.bind? scope own n) u) : Grows scope (n.toList.map (own, ·)) t u := by
  simpa using (bind? t scope own n).trans h

/-- So does a declaration. -/
theorem bindDeclaration (t : ScopeTree) (scope : ScopeId) (span : Span) (d : Declaration) :
    Grows scope d.defines t (t.bindDeclaration scope span d) := by
  cases d with
  | variableList _ ds => exact bindAll t scope _ _
  | function name types parameters =>
    have types := opened (t.bind? scope .functionName name) scope span
      (show ScopeKind.functionBody ≠ .moduleBody by decide) .typeParameter ((types.getD []).filterMap id)
    exact headed t scope _ name (types.inner (bindAll _ _ .parameter _) (Nat.le_refl _))
  | classType name => exact headed t scope _ name (opened _ scope span (by decide) _ _)
  | interfaceType name | typeAlias name =>
    exact headed t scope _ name (opened _ scope span (by decide) _ _)
  | enumType name => exact headed t scope _ name (opened _ scope span (by decide) _ _)
  | importFrom _ clause =>
    cases clause with
    | none => exact refl scope t
    | some c => exact bindClause t scope c
  | importEquals typeOnly name => exact bind? t scope _ name
  | exportNames | exportAssignment | namespaceExport | empty => exact refl scope t

/-- The namespaces of a dotted name: the first name is bound, and the innermost scope is new. -/
theorem openNamespaces (t : ScopeTree) (scope : ScopeId) (span : Span) (n : Name) (rest : List Name) :
    Grows scope [(.namespaceName, n)] t (t.openNamespaces scope span (n :: rest)).1 ∧
      t.size ≤ (t.openNamespaces scope span (n :: rest)).2 := by
  have first := bind t scope .namespaceName n
  have pushed := push (t.bind scope .namespaceName n) scope scope span
    (show ScopeKind.namespaceBody ≠ .moduleBody by decide)
  induction rest generalizing t scope n with
  | nil => exact ⟨first.trans pushed, first.size⟩
  | cons m more ih =>
    obtain ⟨grows, new⟩ := ih _ _ m (bind _ _ .namespaceName m) (push _ _ _ span (by decide))
    exact ⟨(first.trans pushed).inner grows first.size, Nat.le_trans (first.trans pushed).size new⟩

/-- A module binds its first name, when what its block binds is known to be added somewhere. -/
theorem bindModule (t : ScopeTree) (scope : ScopeId) (head : Head) (names : List Name) (isGlobal : Bool)
    (block : Option Span) (body : List Statement) (named : isGlobal = true ∨ names ≠ [])
    (h : ∀ t inner, ∃ added, Grows inner added t (bindStatements t inner body)) :
    Grows scope (Statement.module head names isGlobal block body).defines t
      (bindStatement t scope (.module head names isGlobal block body)) := by
  by_cases elsewhere : (isGlobal || Statement.isAmbientModule names) = true
  · simp only [Statement.defines, bindStatement, if_pos elsewhere]
    cases block with
    | none => exact refl scope t
    | some span =>
      obtain ⟨_, grows⟩ := h (t.push scope .namespaceBody span) t.size
      exact (push t scope scope span (by decide)).inner grows (Nat.le_refl _)
  · simp only [Statement.defines, bindStatement, if_neg elsewhere]
    have local' : isGlobal = false := by
      cases isGlobal with
      | false => rfl
      | true => exact absurd rfl elsewhere
    cases names with
    | nil => exact absurd rfl (named.resolve_left (by simp [local']))
    | cons n rest =>
      obtain ⟨grows, new⟩ := openNamespaces t scope (block.getD head.span) n rest
      obtain ⟨_, inner⟩ := h (t.openNamespaces scope (block.getD head.span) (n :: rest)).1
        (t.openNamespaces scope (block.getD head.span) (n :: rest)).2
      exact grows.inner inner new

end ScopeTree.Grows

namespace ScopeTree

mutual

/-- Some names are added to the scope of a statement, whatever it is. -/
theorem exists_grows (t : ScopeTree) (scope : ScopeId) :
    (s : Statement) → ∃ added, Grows scope added t (bindStatement t scope s)
  | .plain head d => by
    rw [bindStatement]
    exact ⟨_, .bindDeclaration t scope head.span d⟩
  | .module head names isGlobal block body => by
    have inner (t inner) := exists_growsAll t inner body
    by_cases named : isGlobal = true ∨ names ≠ []
    · exact ⟨_, .bindModule t scope head names isGlobal block body named inner⟩
    · -- without a name there is no scope, and the block belongs to the one outside
      obtain ⟨notGlobal, nameless⟩ := not_or.1 named
      cases Decidable.not_not.1 nameless
      cases isGlobal with
      | true => exact absurd rfl notGlobal
      | false => exact inner t scope

theorem exists_growsAll (t : ScopeTree) (scope : ScopeId) :
    (ss : List Statement) → ∃ added, Grows scope added t (bindStatements t scope ss)
  | [] => ⟨[], .refl scope t⟩
  | s :: rest => by
    obtain ⟨_, first⟩ := exists_grows t scope s
    obtain ⟨_, more⟩ := exists_growsAll (bindStatement t scope s) scope rest
    exact ⟨_, first.trans more⟩

end

/-- A statement adds what it defines to its scope. -/
theorem grows_of_named (t : ScopeTree) (scope : ScopeId) {s : Statement} (named : s.Named) :
    Grows scope s.defines t (bindStatement t scope s) := by
  cases s with
  | plain head d =>
    rw [bindStatement]
    exact .bindDeclaration t scope head.span d
  | module head names isGlobal block body =>
    exact .bindModule t scope head names isGlobal block body named fun t inner =>
      exists_growsAll t inner body

/-- A list of statements grows its scope by what they define. -/
theorem growsAll_of_named (t : ScopeTree) (scope : ScopeId) {ss : List Statement}
    (named : ∀ s ∈ ss, s.Named) :
    Grows scope (ss.flatMap Statement.defines) t (bindStatements t scope ss) := by
  induction ss generalizing t with
  | nil => exact .refl scope t
  | cons s rest ih =>
    have first := grows_of_named t scope (named s List.mem_cons_self)
    exact first.trans (ih _ fun s mem => named s (List.mem_cons_of_mem _ mem))

end ScopeTree

end ImplicitGlobals
