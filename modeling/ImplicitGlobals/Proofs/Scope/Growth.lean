import ImplicitGlobals.Scope.Binding

/-!
# Binding grows a scope tree

Whatever is bound, scopes are only added, and of those that are there one alone gets
names: the scope of the statement. What is declared further inside goes into scopes
that are opened for it.
-/

namespace ImplicitGlobals

/-- A name and what introduces it. -/
abbrev Bound := DefinitionKind × Name

namespace Table

/-- The bindings of a scope with one more; a name without text is not bound. -/
def record (bs : Table Definitions) (b : Bound) : Table Definitions :=
  if b.2.text = "" then bs else bs.alter b.2.text (· ++ [⟨b.1, b.2.span⟩]) [⟨b.1, b.2.span⟩]

/-- Records definitions one after the other. -/
def recordAll (bs : Table Definitions) (all : List Bound) : Table Definitions := all.foldl record bs

end Table

namespace ScopeTree

variable {t u v : ScopeTree} {scope other : ScopeId} {a b : List Bound}

/-- Defining a name changes the one scope. -/
theorem get?_define (t : ScopeTree) (id j : ScopeId) (name : String) (d : Definition) :
    (t.define id name d).get? j =
      if id = j then (t.get? j).map (·.define name d) else t.get? j := by
  simp [define, get?, Array.getElem?_modify]

theorem get?_lt {id : ScopeId} {s : Scope} (h : t.get? id = some s) : id < t.size :=
  (Array.getElem?_eq_some_iff.1 h).1

/-- What opening a scope leaves: a new scope at the end, and one more child for its parent. -/
theorem get?_push (t : ScopeTree) (parent : ScopeId) (kind : ScopeKind) (span : Span) (j : ScopeId) :
    (t.push parent kind span).get? j =
      (if j = t.size then some (.fresh kind (some parent) span) else t.get? j).map fun s =>
        if parent = j then { s with children := s.children ++ [t.size] } else s := by
  simp only [push, get?, Array.getElem?_modify, Array.getElem?_push, size]
  by_cases h : parent = j
  · simp [h]
  · simp only [if_neg h, Option.map_id']
    rfl

/-- From `t` to `u` the names are bound in the scope, and for the rest there are only scopes
added to the tree and to the children of scopes. No module body is among the new ones. -/
structure Grows (scope : ScopeId) (names : List Bound) (t u : ScopeTree) : Prop where
  size : t.size ≤ u.size
  kept : ∀ id s, t.get? id = some s → ∃ s', u.get? id = some s' ∧ s'.kind = s.kind ∧
    s.children <+: s'.children ∧
    s'.bindings = if id = scope then s.bindings.recordAll names else s.bindings
  fresh : ∀ id s, t.size ≤ id → u.get? id = some s → s.kind ≠ .moduleBody

namespace Grows

theorem refl (scope : ScopeId) (t : ScopeTree) : Grows scope [] t t where
  size := Nat.le_refl _
  kept _ s h := ⟨s, h, rfl, List.prefix_rfl, by simp [Table.recordAll]⟩
  fresh id _ out h := absurd (get?_lt h) (Nat.not_lt.2 out)

/-- A scope that is not new was there before, with the same kind. -/
theorem kind_kept (h : Grows scope a t u) {id : ScopeId} {s : Scope} (old : id < t.size)
    (found : u.get? id = some s) : ∃ s', t.get? id = some s' ∧ s.kind = s'.kind := by
  have before : t.get? id = some t.scopes[id] := Array.getElem?_eq_getElem old
  obtain ⟨s', after, kind, -⟩ := h.kept id _ before
  exact ⟨_, before, Option.some.inj (found.symm.trans after) ▸ kind⟩

/-- A scope added by the second step is no module body either. -/
theorem fresh_trans (f : Grows scope a t u) (g : Grows other b u v) {id : ScopeId} {s : Scope}
    (new : t.size ≤ id) (found : v.get? id = some s) : s.kind ≠ .moduleBody := by
  rcases Nat.lt_or_ge id u.size with old | out
  · obtain ⟨s', before, kind⟩ := g.kind_kept old found
    exact kind ▸ f.fresh id s' new before
  · exact g.fresh id s out found

/-- Growth in two steps records both lists. -/
theorem trans (f : Grows scope a t u) (g : Grows scope b u v) : Grows scope (a ++ b) t v where
  size := Nat.le_trans f.size g.size
  kept id s h := by
    obtain ⟨s', h', kind', children', bindings'⟩ := f.kept id s h
    obtain ⟨s'', h'', kind'', children'', bindings''⟩ := g.kept id s' h'
    refine ⟨s'', h'', kind''.trans kind', children'.trans children'', ?_⟩
    rw [bindings'', bindings']
    split <;> simp [Table.recordAll]
  fresh _ _ := f.fresh_trans g

/-- What goes on in a scope that was opened since does not reach the scopes from before. -/
theorem inner (f : Grows scope a t u) (g : Grows other b u v) (new : t.size ≤ other) :
    Grows scope a t v where
  size := Nat.le_trans f.size g.size
  kept id s h := by
    obtain ⟨s', h', kind', children', bindings'⟩ := f.kept id s h
    obtain ⟨s'', h'', kind'', children'', bindings''⟩ := g.kept id s' h'
    have apart : id ≠ other := Nat.ne_of_lt (Nat.lt_of_lt_of_le (get?_lt h) new)
    rw [if_neg apart] at bindings''
    exact ⟨s'', h'', kind''.trans kind', children'.trans children'', bindings''.trans bindings'⟩
  fresh _ _ := f.fresh_trans g

/-- Binding a name records it. -/
theorem bind (t : ScopeTree) (scope : ScopeId) (kind : DefinitionKind) (n : Name) :
    Grows scope [(kind, n)] t (t.bind scope kind n) := by
  unfold ScopeTree.bind
  split
  next empty =>
    refine { refl scope t with kept := fun _ s h => ⟨s, h, rfl, List.prefix_rfl, ?_⟩ }
    simp [Table.recordAll, Table.record, empty]
  next filled =>
    refine ⟨Nat.le_of_eq (size_define t ..).symm, fun id s h => ?_, fun id s out h => ?_⟩
    · by_cases here : scope = id
      · refine ⟨s.define n.text ⟨kind, n.span⟩, ?_, rfl, List.prefix_rfl, ?_⟩
        · rw [get?_define, if_pos here, h]
          rfl
        · simp [here, Scope.define, Table.recordAll, Table.record, filled]
      · refine ⟨s, ?_, rfl, List.prefix_rfl, (if_neg (Ne.symm here)).symm⟩
        rw [get?_define, if_neg here, h]
    · have bound := get?_lt h
      rw [size_define] at bound
      exact absurd bound (Nat.not_lt.2 out)

/-- A scope added inside another records nothing. -/
theorem push (t : ScopeTree) (scope parent : ScopeId) {kind : ScopeKind} (span : Span)
    (inner : kind ≠ .moduleBody) : Grows scope [] t (t.push parent kind span) := by
  refine ⟨by simp, fun id s h => ?_, fun id s out h => ?_⟩
  · have old : id ≠ t.size := Nat.ne_of_lt (get?_lt h)
    refine ⟨if parent = id then { s with children := s.children ++ [t.size] } else s, ?_, ?_, ?_, ?_⟩
    · rw [get?_push, if_neg old, h]
      rfl
    · split <;> rfl
    · split
      · exact List.prefix_append _ _
      · exact List.prefix_rfl
    · split <;> simp [Table.recordAll]
  · have bound := get?_lt h
    rw [size_push] at bound
    have last : id = t.size := Nat.le_antisymm (Nat.le_of_lt_succ bound) out
    rw [get?_push, if_pos last] at h
    simp only [Option.map_some, Option.some.injEq] at h
    rw [← h]
    split <;> exact inner

/-- Binding several names records them in turn. -/
theorem bindAll (t : ScopeTree) (scope : ScopeId) (kind : DefinitionKind) (ns : List Name) :
    Grows scope (ns.map (kind, ·)) t (t.bindAll scope kind ns) := by
  induction ns generalizing t with
  | nil => exact refl scope t
  | cons n rest ih => exact (bind t scope kind n).trans (ih _)

theorem bind? (t : ScopeTree) (scope : ScopeId) (kind : DefinitionKind) (n : Option Name) :
    Grows scope (n.toList.map (kind, ·)) t (t.bind? scope kind n) := bindAll t scope kind n.toList

/-- A scope that is opened with names of its own binds none outside. -/
theorem opened (t : ScopeTree) (scope : ScopeId) {kind : ScopeKind} (span : Span)
    (inner : kind ≠ .moduleBody) (own : DefinitionKind) (ns : List Name) :
    Grows scope [] t ((t.push scope kind span).bindAll t.size own ns) :=
  (push t scope scope span inner).inner (bindAll _ _ own ns) (Nat.le_refl _)

end Grows

end ScopeTree

end ImplicitGlobals
