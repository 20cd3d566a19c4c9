import ImplicitGlobals.Proofs.Scope.Growth
import ImplicitGlobals.Proofs.Syntax.Names

/-!
# What a scope declares

A name gets into a scope with its first definition, and every definition that is read from the source
stands where the name does. So no name is without definitions, and in the source there is just the name
at each of them.
-/

namespace ImplicitGlobals

namespace DefinitionKind

/-- Whether what introduces a name is in the source. -/
def isWritten : DefinitionKind → Bool
  | implicitGlobal _ => false
  | _ => true

end DefinitionKind

/-- There are definitions, and those in the source spell the name. -/
structure Definitions.Declare (spelled : Span → String → Prop) (name : String) (ds : Definitions) : Prop where
  some : ds ≠ []
  each : ∀ d ∈ ds, d.kind.isWritten = true → spelled d.span name

/-- What holds of the values of a table holds after one is changed or added. -/
theorem Table.forall_mem_alter {α : Type} {P : String → α → Prop} {t : Table α} {name : String} {f : α → α} {fresh : α}
    (all : ∀ p ∈ t, P p.1 p.2) (changed : ∀ v, P name v → P name (f v)) (added : P name fresh) :
    ∀ p ∈ t.alter name f fresh, P p.1 p.2 := by
  induction t with
  | nil => simpa [alter] using added
  | cons q rest ih =>
    rw [List.forall_mem_cons] at all
    rw [alter]
    split
    · next here => exact List.forall_mem_cons.2 ⟨here ▸ changed _ (here ▸ all.1), all.2⟩
    · exact List.forall_mem_cons.2 ⟨all.1, ih all.2⟩

namespace ScopeTree

variable {spelled : Span → String → Prop} {t u : ScopeTree} {scope : ScopeId} {lo hi : Nat}

/-- Every name of every scope is declared. -/
def Declares (spelled : Span → String → Prop) (t : ScopeTree) : Prop :=
  ∀ id s, t.get? id = some s → ∀ v ∈ s.bindings, v.2.Declare spelled v.1

namespace Declares

/-- At first nothing is declared. -/
theorem ofSpan (span : Span) : Declares spelled (.ofSpan span) := by
  intro id s found v mem
  cases id with
  | zero =>
    obtain rfl : Scope.fresh .global none span = s := Option.some.inj found
    cases mem
  | succ => cases found

/-- One definition more, spelt by its name. -/
theorem define (h : t.Declares spelled) (id : ScopeId) (name : String) {d : Definition}
    (spells : d.kind.isWritten = true → spelled d.span name) : (t.define id name d).Declares spelled := by
  have alone : Definitions.Declare spelled name [d] := ⟨List.cons_ne_nil _ _, by simpa using spells⟩
  intro j s found
  rw [get?_define] at found
  split at found
  · obtain ⟨before, was, rfl⟩ := Option.map_eq_some_iff.1 found
    refine Table.forall_mem_alter (h j before was) (fun ds declared => ?_) alone
    exact ⟨by simp, List.forall_mem_append.2 ⟨declared.each, alone.each⟩⟩
  · exact h j s found

/-- One name bound, spelt by its span. -/
theorem bind (h : t.Declares spelled) (kind : DefinitionKind) {n : Name} (spells : spelled n.span n.text) :
    (t.bind scope kind n).Declares spelled := by
  unfold ScopeTree.bind
  split
  · exact h
  · exact h.define scope n.text fun _ => spells

/-- A scope more declares nothing. -/
theorem push (h : t.Declares spelled) (parent : ScopeId) (kind : ScopeKind) (span : Span) :
    (t.push parent kind span).Declares spelled := by
  have opened (j : ScopeId) (s : Scope) (found : (if j = t.size then some (.fresh kind (some parent) span) else t.get? j) =
      some s) : ∀ v ∈ s.bindings, v.2.Declare spelled v.1 := by
    split at found
    · obtain rfl := Option.some.inj found
      exact fun v mem => absurd mem List.not_mem_nil
    · exact h j s found
  intro j s found
  rw [get?_push] at found
  obtain ⟨before, was, rfl⟩ := Option.map_eq_some_iff.1 found
  split <;> exact opened j before was

theorem seed (h : t.Declares spelled) (globals : List (String × Classification)) : (t.seed globals).Declares spelled := by
  induction globals generalizing t with
  | nil => exact h
  | cons g rest ih => exact ih (h.define globalId g.1 fun written => Bool.noConfusion written)

/-- Binding names that are spelled declares them. -/
theorem builds (built : Builds (fun n => spelled n.span n.text) scope lo hi t u) (h : t.Declares spelled) :
    u.Declares spelled := by
  induction built with
  | refl => exact h
  | trans _ _ f g => exact g (f h)
  | bind _ kind spells => exact h.bind kind spells
  | inner kind _ _ ih => exact ih (h.push _ kind _)

end Declares

end ScopeTree

/-- Every name of every scope has a definition, and at each one that is not an implicit global the source
has one token and no more: it is the name, or if it is a string, the name between its quotes. -/
theorem SourceUnit.definitions_of_read {options : SourceOptions} {text : String} {u : SourceUnit}
    (accepted : SourceUnit.read options text = .ok u) {id : ScopeId} {s : Scope} (found : u.scopes.get? id = some s)
    {name : String} {ds : Definitions} (declared : (name, ds) ∈ s.bindings) :
    ds ≠ [] ∧ ∀ d ∈ ds, (∀ c, d.kind ≠ .implicitGlobal c) → d.span.Spells text name := by
  have start : ScopeTree.Declares (Span.Spells text) ((ScopeTree.ofSpan (SyntaxTree.span u.tree)).seed
      options.implicitGlobals) := (ScopeTree.Declares.ofSpan _).seed _
  have declare := start.builds (builds_of_read accepted) id s found (name, ds) declared
  refine ⟨declare.some, fun d mem other => declare.each d mem ?_⟩
  cases kind : d.kind with
  | implicitGlobal c => exact absurd kind (other c)
  | _ => rfl

/-- A member of an enum with its quotes, behind a comment. -/
theorem SourceUnit.definitions_of_read_quoted :
    ∃ u, SourceUnit.read {} "enum E \x7b /* 1 */ 'a-b' = 1 \x7d" = .ok u ∧
      ∃ s, u.scopes.get? 2 = some s ∧ ("a-b", [⟨.enumMember, ⟨17, 22⟩⟩]) ∈ s.bindings ∧
        (Span.mk 17 22).Spells "enum E \x7b /* 1 */ 'a-b' = 1 \x7d" "a-b" := by
  have found : (SourceUnit.read {} "enum E \x7b /* 1 */ 'a-b' = 1 \x7d").toOption.any (fun u => decide (
      ∃ s ∈ u.scopes.get? 2, ("a-b", [⟨.enumMember, ⟨17, 22⟩⟩]) ∈ s.bindings)) = true := by
    decide +kernel
  obtain ⟨u, accepted, found⟩ := exists_of_any_toOption found
  obtain ⟨s, here, declared⟩ := of_decide_eq_true found
  have spelled := (SourceUnit.definitions_of_read accepted here declared).2 _ List.mem_cons_self nofun
  exact ⟨u, accepted, s, here, declared, spelled⟩

end ImplicitGlobals
