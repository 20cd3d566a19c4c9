import ImplicitGlobals.Scope.Binding

/-!
# Regions of scopes

Binding statements does two things: it binds a name in a scope, or it opens a scope there and goes on
inside it. The scopes that are opened under one scope take up one region of the source after the
other, and each stays in its region.
-/

namespace ImplicitGlobals

/-- The span goes forward, between two positions. -/
structure Span.Within (lo hi : Nat) (s : Span) : Prop where
  low : lo ≤ s.start
  forward : s.start ≤ s.stop
  high : s.stop ≤ hi

theorem Span.Within.le {lo hi : Nat} {s : Span} (h : s.Within lo hi) : lo ≤ hi :=
  Nat.le_trans h.low (Nat.le_trans h.forward h.high)

/-- Bounds may be widened. -/
theorem Span.Within.widen {lo hi lo' hi' : Nat} {s : Span} (h : s.Within lo hi) (low : lo' ≤ lo) (high : hi ≤ hi') :
    s.Within lo' hi' :=
  ⟨Nat.le_trans low h.low, h.forward, Nat.le_trans h.high high⟩

/-! ### Names of statements -/

/-- The names that an import introduces. -/
def ImportClause.names (c : ImportClause) : List Name :=
  c.default?.toList ++ c.asNamespace?.toList ++ c.specifiers.flatMap (·.name?.toList)

/-- The names that a declaration introduces, in its own scopes as well. -/
def Declaration.names : Declaration → List Name
  | variableList _ ds => ds.flatMap (·.bound)
  | function name types parameters =>
    name.toList ++ (types.getD []).filterMap id ++ (parameters.getD []).flatten
  | classType name types _ | interfaceType name types | typeAlias name types =>
    name.toList ++ (types.getD []).filterMap id
  | enumType name _ members => name.toList ++ members.filterMap id
  | importFrom _ clause => clause.elim [] ImportClause.names
  | importEquals _ name => name.toList
  | exportNames | exportAssignment | namespaceExport _ | empty => []

/-- Whether a declaration opens a scope. -/
def Declaration.opens : Declaration → Bool
  | function .. | classType .. | interfaceType .. | typeAlias .. | enumType .. => true
  | _ => false

namespace Statement

mutual

/-- What the statement binds are `fit` names, and the scopes that it opens lie between `lo` and `hi`: those
in a block in the region of the block. -/
def Laid (fit : Name → Prop) (lo hi : Nat) : Statement → Prop
  | plain head d => (∀ n ∈ d.names, fit n) ∧ (d.opens = true → head.span.Within lo hi)
  | module head names _ block body =>
    (∀ n ∈ names, fit n) ∧ (block.getD head.span).Within lo hi ∧
      AllLaid fit (block.getD head.span).start (block.getD head.span).stop body

/-- Statements one behind the other. -/
def AllLaid (fit : Name → Prop) (lo hi : Nat) : List Statement → Prop
  | [] => lo ≤ hi
  | s :: rest => ∃ mid, lo ≤ mid ∧ Laid fit lo mid s ∧ AllLaid fit mid hi rest

end

/-- Statements that are laid fit between their bounds. -/
theorem AllLaid.le {fit : Name → Prop} {lo hi : Nat} {ss : List Statement} (h : AllLaid fit lo hi ss) : lo ≤ hi := by
  induction ss generalizing lo with
  | nil => exact h
  | cons s rest ih =>
    obtain ⟨mid, le, -, rest⟩ := h
    exact Nat.le_trans le (ih rest)

end Statement

/-! ### What binding does -/

namespace ScopeTree

/-- From `t` to `u` names that are `fit` are bound in the scope, and between `lo` and `hi` scopes are opened
under it, one behind the other, with the same going on in each of them. -/
inductive Builds (fit : Name → Prop) : ScopeId → Nat → Nat → ScopeTree → ScopeTree → Prop
  | refl {scope : ScopeId} {lo hi : Nat} {t : ScopeTree} (le : lo ≤ hi) : Builds fit scope lo hi t t
  | trans {scope : ScopeId} {lo mid hi : Nat} {t u v : ScopeTree} (first : Builds fit scope lo mid t u)
    (rest : Builds fit scope mid hi u v) : Builds fit scope lo hi t v
  | bind {scope : ScopeId} {lo hi : Nat} {t : ScopeTree} (le : lo ≤ hi) (kind : DefinitionKind) {n : Name}
    (fits : fit n) : Builds fit scope lo hi t (t.bind scope kind n)
  | inner {scope : ScopeId} {lo hi : Nat} {t u : ScopeTree} (kind : ScopeKind) {span : Span}
    (within : span.Within lo hi) (body : Builds fit t.size span.start span.stop (t.push scope kind span) u) :
    Builds fit scope lo hi t u

namespace Builds

variable {fit : Name → Prop} {scope : ScopeId} {lo hi lo' hi' : Nat} {t u : ScopeTree} {kind : DefinitionKind}
  {span : Span}

theorem le (h : Builds fit scope lo hi t u) : lo ≤ hi := by
  induction h with
  | refl le | bind le => exact le
  | trans _ _ f g => exact Nat.le_trans f g
  | inner _ within => exact within.le

/-- What is built between bounds is built between wider ones. -/
theorem widen (h : Builds fit scope lo hi t u) (low : lo' ≤ lo) (high : hi ≤ hi') : Builds fit scope lo' hi' t u := by
  induction h generalizing lo' hi' with
  | refl le => exact .refl (Nat.le_trans low (Nat.le_trans le high))
  | trans _ _ f g => exact (f low (Nat.le_refl _)).trans (g (Nat.le_refl _) high)
  | bind le kind fits => exact .bind (Nat.le_trans low (Nat.le_trans le high)) kind fits
  | inner kind within body => exact .inner kind (within.widen low high) body

/-- Names bound in one scope build nothing but definitions. -/
theorem bindAll (le : lo ≤ hi) (kind : DefinitionKind) {ns : List Name} (fits : ∀ n ∈ ns, fit n) :
    Builds fit scope lo hi t (t.bindAll scope kind ns) := by
  induction ns generalizing t with
  | nil => exact .refl le
  | cons n rest ih =>
    have first : Builds fit scope lo lo t (t.bind scope kind n) :=
      .bind (Nat.le_refl _) kind (fits n List.mem_cons_self)
    exact first.trans (ih fun m mem => fits m (List.mem_cons_of_mem _ mem))

theorem bind? (le : lo ≤ hi) (kind : DefinitionKind) {n : Option Name} (fits : ∀ m ∈ n.toList, fit m) :
    Builds fit scope lo hi t (t.bind? scope kind n) := bindAll le kind fits

/-- A scope is opened within its own span. -/
theorem openWith (opened : ScopeKind) (within : span.Within lo hi) {ps : Option TypeParameters}
    (fits : ∀ n ∈ (ps.getD []).filterMap id, fit n) :
    Builds fit scope lo hi t (t.openWith scope opened span ps) :=
  .inner opened within (bindAll within.forward _ fits)

/-- Import specifiers bind in the scope of the import. -/
theorem bindSpecifiers (le : lo ≤ hi) (typeOnly : Bool) {ss : List ImportSpecifier}
    (fits : ∀ n ∈ ss.flatMap (·.name?.toList), fit n) : Builds fit scope lo hi t
      (ss.foldl (fun t s => t.bind? scope (.ofImport (typeOnly || s.typeOnly)) s.name?) t) := by
  induction ss generalizing t with
  | nil => exact .refl le
  | cons s rest ih =>
    rw [List.flatMap_cons, List.forall_mem_append] at fits
    exact (bind? (Nat.le_refl _) _ fits.1).trans (ih fits.2)

theorem bindClause (le : lo ≤ hi) {c : ImportClause} (fits : ∀ n ∈ c.names, fit n) :
    Builds fit scope lo hi t (t.bindClause scope c) := by
  simp only [ImportClause.names, List.forall_mem_append] at fits
  obtain ⟨⟨default, namespaced⟩, named⟩ := fits
  have first : Builds fit scope lo lo t (t.bind? scope (.ofImport c.typeOnly) c.default?) :=
    bind? (Nat.le_refl _) _ default
  exact first.trans ((bind? (Nat.le_refl _) _ namespaced).trans (bindSpecifiers le _ named))

/-- A declaration opens its scope inside the bounds of its statement. -/
theorem bindDeclaration (le : lo ≤ hi) {d : Declaration} (fits : ∀ n ∈ d.names, fit n)
    (within : d.opens = true → span.Within lo hi) :
    Builds fit scope lo hi t (t.bindDeclaration scope span d) := by
  -- the name itself, and a scope for what stands inside
  have headed (own : DefinitionKind) {name : Option Name} {v : ScopeTree} (fits : ∀ n ∈ name.toList, fit n)
      (inside : Builds fit scope lo hi (t.bind? scope own name) v) : Builds fit scope lo hi t v :=
    (bind? (Nat.le_refl _) own fits).trans inside
  cases d with
  | variableList _ ds => exact bindAll le _ fits
  | function name types parameters =>
    simp only [Declaration.names, List.forall_mem_append] at fits
    obtain ⟨⟨named, typed⟩, given⟩ := fits
    have opened := within rfl
    refine headed .functionName named (.inner .functionBody opened ?_)
    exact (bindAll (Nat.le_refl _) _ typed).trans (bindAll opened.forward _ given)
  | classType name types | interfaceType name types | typeAlias name types =>
    simp only [Declaration.names, List.forall_mem_append] at fits
    exact headed _ fits.1 (openWith _ (within rfl) fits.2)
  | enumType name _ members =>
    simp only [Declaration.names, List.forall_mem_append] at fits
    exact headed .enumName fits.1 (.inner .enumBody (within rfl) (bindAll (within rfl).forward _ fits.2))
  | importFrom _ clause =>
    cases clause with
    | none => exact .refl le
    | some c => exact bindClause le fits
  | importEquals typeOnly name => exact bind? le _ fits
  | exportNames | exportAssignment | namespaceExport | empty => exact .refl le

/-- Whatever is built in the innermost of the namespaces. -/
theorem openNamespaces (within : span.Within lo hi) {names : List Name} (fits : ∀ n ∈ names, fit n)
    (body : Builds fit (t.openNamespaces scope span names).2 span.start span.stop
      (t.openNamespaces scope span names).1 u) : Builds fit scope lo hi t u := by
  induction names generalizing t scope lo hi with
  | nil => exact body.widen within.low within.high
  | cons n rest ih =>
    have first : Builds fit scope lo lo t (t.bind scope .namespaceName n) :=
      .bind (Nat.le_refl _) _ (fits n List.mem_cons_self)
    have whole : span.Within span.start span.stop := ⟨Nat.le_refl _, within.forward, Nat.le_refl _⟩
    exact first.trans (.inner .namespaceBody within (ih whole (fun m mem => fits m (List.mem_cons_of_mem _ mem)) body))

mutual

/-- A statement builds within its bounds; by induction over the tree with `bindStatements`. -/
theorem bindStatement (s : Statement) {t : ScopeTree} {scope : ScopeId} {lo hi : Nat} (le : lo ≤ hi)
    (laid : s.Laid fit lo hi) : Builds fit scope lo hi t (t.bindStatement scope s) := by
  cases s with
  | plain head d => exact bindDeclaration le laid.1 laid.2
  | module head names isGlobal block body =>
    obtain ⟨fits, within, inside⟩ := laid
    by_cases elsewhere : (isGlobal || Statement.isAmbientModule names) = true
    · simp only [ScopeTree.bindStatement, if_pos elsewhere]
      cases block with
      | none => exact .refl le
      | some span => exact .inner .namespaceBody within (bindStatements body inside)
    · simp only [ScopeTree.bindStatement, if_neg elsewhere]
      exact openNamespaces within fits (bindStatements body inside)

/-- A list of statements builds between the bounds of its parts. -/
theorem bindStatements (ss : List Statement) {t : ScopeTree} {scope : ScopeId} {lo hi : Nat}
    (laid : Statement.AllLaid fit lo hi ss) : Builds fit scope lo hi t (t.bindStatements scope ss) := by
  cases ss with
  | nil => exact .refl laid
  | cons s rest =>
    obtain ⟨mid, le, first, rest'⟩ := laid
    exact (bindStatement s le first).trans (bindStatements rest rest')

end

/-- The scopes of statements, from the global scope on. -/
theorem ofStatements {type : SourceType} {globals : List (String × Classification)} {span : Span}
    {ss : List Statement} (laid : Statement.AllLaid fit span.start span.stop ss) :
    Builds fit globalId span.start span.stop ((ofSpan span).seed globals)
      (ScopeTree.ofStatements type globals span ss) := by
  cases type with
  | module => exact .inner .moduleBody ⟨Nat.le_refl _, laid.le, Nat.le_refl _⟩ (bindStatements ss laid)
  | script => exact bindStatements ss laid

end Builds

end ScopeTree

end ImplicitGlobals
