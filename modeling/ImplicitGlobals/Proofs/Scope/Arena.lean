import ImplicitGlobals.Proofs.Scope.Growth
import ImplicitGlobals.Proofs.Syntax.Names

/-!
# Scope trees are trees

The scopes refer to each other by numbers, and each has a span of its own. Opening scopes keeps the
numbers consistent: parents come before their children and list them in order. Where scopes are opened
in regions of the source, the spans are nested as the scopes are.
-/

namespace ImplicitGlobals

namespace ScopeTree

/-- A tree of scopes in which what is said of parents, children and spans agrees. -/
structure WellFormed (t : ScopeTree) : Prop where
  root : ∃ s, t.get? globalId = some s ∧ s.kind = .global ∧ s.parent? = none
  /-- Every other scope is opened after its parent. -/
  parent : ∀ j v, t.get? j = some v → j ≠ globalId → ∃ i s, i < j ∧ t.get? i = some s ∧ v.parent? = some i
  /-- The children of a scope are those whose parent it is. -/
  children : ∀ i s, t.get? i = some s → ∀ j, j ∈ s.children ↔ ∃ v, t.get? j = some v ∧ v.parent? = some i
  /-- Each is listed once, in the order in which they were opened. -/
  increasing : ∀ i s, t.get? i = some s → s.children.Pairwise (· < ·)
  forward : ∀ i s, t.get? i = some s → s.span.start ≤ s.span.stop
  /-- Children lie within their parents. -/
  within : ∀ i s j v, t.get? i = some s → t.get? j = some v → v.parent? = some i →
    s.span.start ≤ v.span.start ∧ v.span.stop ≤ s.span.stop
  /-- Siblings lie one behind the other. -/
  apart : ∀ j v k w, t.get? j = some v → t.get? k = some w → j < k → v.parent? = w.parent? →
    v.span.stop ≤ w.span.start

variable {t u v : ScopeTree} {scope : ScopeId} {lo mid hi stop : Nat}

/-! ### What a scope keeps -/

/-- From `t` to `u` scopes are added under the scope or under one that was added, and those of `t` keep their
parents and spans. -/
structure Extends (scope : ScopeId) (t u : ScopeTree) : Prop where
  size : t.size ≤ u.size
  kept : ∀ i s, t.get? i = some s → ∃ s', u.get? i = some s' ∧ s'.parent? = s.parent? ∧ s'.span = s.span
  fresh : ∀ j v, u.get? j = some v → t.size ≤ j → v.parent? = some scope ∨ ∃ i, v.parent? = some i ∧ t.size ≤ i

namespace Extends

theorem refl (scope : ScopeId) (t : ScopeTree) : Extends scope t t where
  size := Nat.le_refl _
  kept _ s h := ⟨s, h, rfl, rfl⟩
  fresh _ _ h out := absurd (get?_lt h) (Nat.not_lt.2 out)

/-- A scope that is not new was there before. -/
theorem before (h : Extends scope t u) {i : ScopeId} {s : Scope} (found : u.get? i = some s) (old : i < t.size) :
    ∃ s', t.get? i = some s' ∧ s.parent? = s'.parent? ∧ s.span = s'.span := by
  have here : t.get? i = some t.scopes[i] := Array.getElem?_eq_getElem old
  obtain ⟨s', there, same⟩ := h.kept i _ here
  exact ⟨_, here, Option.some.inj (found.symm.trans there) ▸ same⟩

/-- What is added later goes into the scope as well, or into one that is new. -/
theorem trans (f : Extends scope t u) {other : ScopeId} (g : Extends other u v)
    (under : other = scope ∨ t.size ≤ other) : Extends scope t v where
  size := Nat.le_trans f.size g.size
  kept i s h := by
    obtain ⟨s', h', parent', span'⟩ := f.kept i s h
    obtain ⟨s'', h'', parent'', span''⟩ := g.kept i s' h'
    exact ⟨s'', h'', parent''.trans parent', span''.trans span'⟩
  fresh j w found out := by
    rcases Nat.lt_or_ge j u.size with old | new
    · obtain ⟨w', found', parent, -⟩ := g.before found old
      rw [parent]
      exact f.fresh j w' found' out
    · rcases g.fresh j w found new with here | ⟨i, above, behind⟩
      · rcases under with rfl | inside
        · exact .inl here
        · exact .inr ⟨other, here, inside⟩
      · exact .inr ⟨i, above, Nat.le_trans f.size behind⟩

end Extends

/-! ### Binding names -/

/-- The trees differ in names alone. -/
structure Renames (t u : ScopeTree) : Prop where
  forth : ∀ i s, t.get? i = some s → ∃ bindings, u.get? i = some { s with bindings }
  back : ∀ i s', u.get? i = some s' → ∃ s bindings, t.get? i = some s ∧ s' = { s with bindings }

namespace Renames

/-- Defining a name renames nothing and moves nothing. -/
theorem define (t : ScopeTree) (id : ScopeId) (name : String) (d : Definition) :
    Renames t (t.define id name d) where
  forth i s found := by
    rw [get?_define, found]
    split
    · exact ⟨_, rfl⟩
    · exact ⟨s.bindings, rfl⟩
  back i s' found := by
    rw [get?_define] at found
    split at found
    · obtain ⟨s, was, rfl⟩ := Option.map_eq_some_iff.1 found
      exact ⟨s, _, was, rfl⟩
    · exact ⟨s', s'.bindings, found, rfl⟩

/-- Binding a name adds no scope. -/
theorem bind (t : ScopeTree) (scope : ScopeId) (kind : DefinitionKind) (n : Name) :
    Renames t (t.bind scope kind n) := by
  unfold ScopeTree.bind
  split
  · exact ⟨fun _ s found => ⟨s.bindings, found⟩, fun _ s found => ⟨s, s.bindings, found, rfl⟩⟩
  · exact define t scope _ _

theorem extended (h : Renames t u) (scope : ScopeId) (size : t.size ≤ u.size) : Extends scope t u where
  size := size
  kept i s found := by
    obtain ⟨bindings, found⟩ := h.forth i s found
    exact ⟨_, found, rfl, rfl⟩
  fresh j v found out := by
    obtain ⟨w, bindings, was, rfl⟩ := h.back j v found
    exact absurd (get?_lt was) (Nat.not_lt.2 out)

/-- Well-formedness does not ask for names. -/
theorem wellFormed (h : Renames t u) (formed : t.WellFormed) : u.WellFormed where
  root := by
    obtain ⟨s, found, kind, parent⟩ := formed.root
    obtain ⟨bindings, found⟩ := h.forth _ s found
    exact ⟨_, found, kind, parent⟩
  parent j v found inner := by
    obtain ⟨w, bindings, was, rfl⟩ := h.back j v found
    obtain ⟨i, s, lt, found, parent⟩ := formed.parent j w was inner
    obtain ⟨bindings, found⟩ := h.forth i s found
    exact ⟨i, _, lt, found, parent⟩
  children i s found j := by
    obtain ⟨r, bindings, was, rfl⟩ := h.back i s found
    refine (formed.children i r was j).trans ⟨fun child => ?_, fun child => ?_⟩
    · obtain ⟨v, found, parent⟩ := child
      obtain ⟨bindings, found⟩ := h.forth j v found
      exact ⟨_, found, parent⟩
    · obtain ⟨v, found, parent⟩ := child
      obtain ⟨w, bindings, was, rfl⟩ := h.back j v found
      exact ⟨w, was, parent⟩
  increasing i s found := by
    obtain ⟨r, bindings, was, rfl⟩ := h.back i s found
    exact formed.increasing i r was
  forward i s found := by
    obtain ⟨r, bindings, was, rfl⟩ := h.back i s found
    exact formed.forward i r was
  within i s j v found found' parent := by
    obtain ⟨r, bindings, was, rfl⟩ := h.back i s found
    obtain ⟨w, bindings', was', rfl⟩ := h.back j v found'
    exact formed.within i r j w was was' parent
  apart j v k w found found' lt same := by
    obtain ⟨v', bindings, was, rfl⟩ := h.back j v found
    obtain ⟨w', bindings', was', rfl⟩ := h.back k w found'
    exact formed.apart j v' k w' was was' lt same

end Renames

/-! ### Opening scopes -/

/-- In the scope what is opened up to now lies before `lo`, and there is room up to `hi`. -/
structure Room (t : ScopeTree) (scope : ScopeId) (lo hi : Nat) : Prop where
  here : ∃ s, t.get? scope = some s ∧ s.span.start ≤ lo ∧ hi ≤ s.span.stop
  behind : ∀ k v, t.get? k = some v → v.parent? = some scope → v.span.stop ≤ lo

theorem Renames.room (h : Renames t u) (room : t.Room scope lo hi) : u.Room scope lo hi where
  here := by
    obtain ⟨s, found, within⟩ := room.here
    obtain ⟨bindings, found⟩ := h.forth scope s found
    exact ⟨_, found, within⟩
  behind k v found parent := by
    obtain ⟨w, bindings, was, rfl⟩ := h.back k v found
    exact room.behind k w was parent

section

variable {kind : ScopeKind} {span : Span} {i j : ScopeId} {s w : Scope}

/-- The children of scope `j`, when one was opened under `scope`. -/
def childrenAfter (t : ScopeTree) (scope j : ScopeId) (s : Scope) : List ScopeId :=
  if scope = j then s.children ++ [t.size] else s.children

/-- The children of a scope after a push: the new one belongs to its parent. -/
theorem mem_childrenAfter : j ∈ t.childrenAfter scope i s ↔ j ∈ s.children ∨ scope = i ∧ j = t.size := by
  by_cases here : scope = i <;> simp [childrenAfter, here]

theorem get?_push_of_get? (found : t.get? i = some s) :
    (t.push scope kind span).get? i = some { s with children := t.childrenAfter scope i s } := by
  rw [get?_push, if_neg (Nat.ne_of_lt (get?_lt found)), found, Option.map_some, childrenAfter]
  split <;> rfl

/-- The new scope is the last one. -/
theorem get?_push_size (known : scope < t.size) :
    (t.push scope kind span).get? t.size = some (.fresh kind (some scope) span) := by
  rw [get?_push, if_pos rfl, Option.map_some, if_neg (Nat.ne_of_lt known)]

/-- A scope was there before, but for its children, or it is the new one. -/
theorem exists_of_get?_push (known : scope < t.size) (found : (t.push scope kind span).get? j = some w) :
    (∃ s, t.get? j = some s ∧ w = { s with children := t.childrenAfter scope j s }) ∨
      (j = t.size ∧ w = .fresh kind (some scope) span) := by
  by_cases old : j < t.size
  · have was : t.get? j = some t.scopes[j] := Array.getElem?_eq_getElem old
    exact .inl ⟨_, was, Option.some.inj (found.symm.trans (get?_push_of_get? was))⟩
  · have bound := get?_lt found
    rw [size_push] at bound
    obtain rfl : j = t.size := Nat.le_antisymm (Nat.le_of_lt_succ bound) (Nat.not_lt.1 old)
    exact .inr ⟨rfl, Option.some.inj (found.symm.trans (get?_push_size known))⟩

/-- A push extends the tree. -/
theorem Extends.push (known : scope < t.size) : Extends scope t (t.push scope kind span) where
  size := by simp
  kept i s found := ⟨_, get?_push_of_get? found, rfl, rfl⟩
  fresh j v found out := by
    rcases exists_of_get?_push known found with ⟨s, was, -⟩ | ⟨-, rfl⟩
    · exact absurd (get?_lt was) (Nat.not_lt.2 out)
    · exact .inl rfl

namespace WellFormed

variable (formed : t.WellFormed) {v : Scope}
include formed

/-- Parents come before their children. -/
theorem parent_lt (found : t.get? j = some v) (parent : v.parent? = some i) : i < t.size := by
  by_cases root : j = globalId
  · obtain ⟨s, top, -, none⟩ := formed.root
    rw [root, top] at found
    rw [← Option.some.inj found, none] at parent
    cases parent
  · obtain ⟨i', s, -, known, parent'⟩ := formed.parent j v found root
    obtain rfl := Option.some.inj (parent'.symm.trans parent)
    exact get?_lt known

theorem child_lt (found : t.get? i = some s) (child : j ∈ s.children) : j < t.size := by
  obtain ⟨v, known, -⟩ := (formed.children i s found j).1 child
  exact get?_lt known

/-- Opening a scope where there is room for it keeps the tree well formed. -/
theorem push (room : t.Room scope lo hi) (within : span.Within lo hi) :
    (t.push scope kind span).WellFormed := by
  obtain ⟨top, here, low, high⟩ := room.here
  have known : scope < t.size := get?_lt here
  -- Each law is asked of the scopes there were and of the new one.
  exact
  { root := by
      obtain ⟨s, found, kind, parent⟩ := formed.root
      exact ⟨_, get?_push_of_get? found, kind, parent⟩
    parent := fun j v found inner => by
      rcases exists_of_get?_push known found with ⟨w, was, rfl⟩ | ⟨rfl, rfl⟩
      · obtain ⟨i, s, lt, above, parent⟩ := formed.parent j w was inner
        exact ⟨i, _, lt, get?_push_of_get? above, parent⟩
      · exact ⟨scope, _, known, get?_push_of_get? here, rfl⟩
    children := fun i s found j => by
      rcases exists_of_get?_push known found with ⟨r, was, rfl⟩ | ⟨rfl, rfl⟩
      · refine mem_childrenAfter.trans ⟨fun child => ?_, fun child => ?_⟩
        · rcases child with child | ⟨rfl, rfl⟩
          · obtain ⟨v, found, parent⟩ := (formed.children i r was j).1 child
            exact ⟨_, get?_push_of_get? found, parent⟩
          · exact ⟨_, get?_push_size known, rfl⟩
        · obtain ⟨v, found, parent⟩ := child
          rcases exists_of_get?_push known found with ⟨w, was', rfl⟩ | ⟨rfl, rfl⟩
          · exact .inl ((formed.children i r was j).2 ⟨w, was', parent⟩)
          · exact .inr ⟨Option.some.inj parent, rfl⟩
      · refine ⟨fun child => absurd child List.not_mem_nil, fun child => ?_⟩
        obtain ⟨v, found, parent⟩ := child
        rcases exists_of_get?_push known found with ⟨w, was, rfl⟩ | ⟨rfl, rfl⟩
        · exact absurd (formed.parent_lt was parent) (Nat.lt_irrefl _)
        · exact absurd (Option.some.inj parent) (Nat.ne_of_lt known)
    increasing := fun i s found => by
      rcases exists_of_get?_push known found with ⟨r, was, rfl⟩ | ⟨rfl, rfl⟩
      · show (t.childrenAfter scope i r).Pairwise (· < ·)
        unfold childrenAfter
        split
        · refine List.pairwise_append.2 ⟨formed.increasing i r was, List.pairwise_singleton _ _, fun a child b new => ?_⟩
          rw [List.mem_singleton.1 new]
          exact formed.child_lt was child
        · exact formed.increasing i r was
      · exact .nil
    forward := fun i s found => by
      rcases exists_of_get?_push known found with ⟨r, was, rfl⟩ | ⟨rfl, rfl⟩
      · exact formed.forward i r was
      · exact within.forward
    within := fun i s j v found found' parent => by
      rcases exists_of_get?_push known found' with ⟨w, was', rfl⟩ | ⟨rfl, rfl⟩ <;>
        rcases exists_of_get?_push known found with ⟨r, was, rfl⟩ | ⟨rfl, rfl⟩
      · exact formed.within i r j w was was' parent
      · exact absurd (formed.parent_lt was' parent) (Nat.lt_irrefl _)
      · obtain rfl := Option.some.inj parent
        obtain rfl := Option.some.inj (here.symm.trans was)
        exact ⟨Nat.le_trans low within.low, Nat.le_trans within.high high⟩
      · exact absurd (Option.some.inj parent) (Nat.ne_of_lt known)
    -- The new scope is the last one, so it has to begin behind its siblings: that is its room.
    apart := fun j v k w found found' lt same => by
      rcases exists_of_get?_push known found with ⟨v, was, rfl⟩ | ⟨rfl, rfl⟩ <;>
        rcases exists_of_get?_push known found' with ⟨w, was', rfl⟩ | ⟨rfl, rfl⟩
      · exact formed.apart j v k w was was' lt same
      · exact Nat.le_trans (room.behind j v was same) within.low
      · exact absurd (get?_lt was') (Nat.not_lt.2 (Nat.le_of_lt lt))
      · exact absurd lt (Nat.lt_irrefl _) }

end WellFormed

/-- In the new scope there is room from its start to its end. -/
theorem Room.push (formed : t.WellFormed) (known : scope < t.size) :
    (t.push scope kind span).Room t.size span.start span.stop where
  here := ⟨_, get?_push_size known, Nat.le_refl _, Nat.le_refl _⟩
  behind k v found parent := by
    rcases exists_of_get?_push known found with ⟨w, was, rfl⟩ | ⟨rfl, rfl⟩
    · exact absurd (formed.parent_lt was parent) (Nat.lt_irrefl _)
    · exact absurd (Option.some.inj parent) (Nat.ne_of_lt known)

end

/-- What is built where there is room for it keeps the tree well formed, and what it opens in the scope
lies before `hi`. -/
theorem Builds.wellFormed {fit : Name → Prop} (built : Builds fit scope lo hi t u) (formed : t.WellFormed)
    (room : t.Room scope lo hi) : u.WellFormed ∧ Extends scope t u ∧
      ∀ k v, u.get? k = some v → v.parent? = some scope → v.span.stop ≤ hi := by
  induction built with
  | refl le => exact ⟨formed, .refl _ _, fun k v found parent => Nat.le_trans (room.behind k v found parent) le⟩
  | @trans scope lo mid hi t u v first rest ihFirst ihRest =>
    obtain ⟨top, here, low, high⟩ := room.here
    obtain ⟨formedU, extendsU, behindU⟩ := ihFirst formed ⟨⟨top, here, low, Nat.le_trans rest.le high⟩, room.behind⟩
    obtain ⟨top', here', -, span⟩ := extendsU.kept _ _ here
    have low' : top'.span.start ≤ mid := span ▸ Nat.le_trans low first.le
    obtain ⟨formedV, extendsV, behindV⟩ := ihRest formedU ⟨⟨top', here', low', span ▸ high⟩, behindU⟩
    exact ⟨formedV, extendsU.trans extendsV (.inl rfl), behindV⟩
  | @bind scope lo hi t le kind n fits =>
    have renames := Renames.bind t scope kind n
    have size : t.size ≤ (t.bind scope kind n).size := (Grows.bind t scope kind n).size
    refine ⟨renames.wellFormed formed, renames.extended scope size, fun k v found parent => ?_⟩
    exact Nat.le_trans ((renames.room room).behind k v found parent) le
  | @inner scope lo hi t u kind span within body ih =>
    obtain ⟨top, here, -⟩ := room.here
    have known : scope < t.size := get?_lt here
    have pushed : Extends scope t (t.push scope kind span) := .push known
    obtain ⟨formedU, inside, -⟩ := ih (formed.push room within) (.push formed known)
    refine ⟨formedU, pushed.trans inside (.inr (Nat.le_refl _)), fun k v found parent => ?_⟩
    -- A child of `scope` was there before, or it is the scope just opened.
    rcases Nat.lt_or_ge k (t.push scope kind span).size with old | new
    · obtain ⟨w, was, parent', span'⟩ := inside.before found old
      rw [span']
      rcases exists_of_get?_push known was with ⟨r, was', rfl⟩ | ⟨rfl, rfl⟩
      · exact Nat.le_trans (room.behind k r was' (parent'.symm.trans parent)) within.le
      · exact within.high
    · -- what is opened further inside has another parent
      rcases inside.fresh k v found new with under | ⟨i, under, behind⟩
      · exact absurd (Option.some.inj (parent.symm.trans under)) (Nat.ne_of_lt known)
      · obtain rfl := Option.some.inj (parent.symm.trans under)
        exact absurd (Nat.lt_of_lt_of_le known pushed.size) (Nat.not_lt.2 behind)

/-! ### From the global scope on -/

/-- At first the global scope is the only one. -/
theorem eq_of_get?_ofSpan {span : Span} {i : ScopeId} {s : Scope} (found : (ofSpan span).get? i = some s) :
    i = globalId ∧ s = .fresh .global none span := by
  cases i with
  | zero => exact ⟨rfl, (Option.some.inj found).symm⟩
  | succ => cases found

/-- The tree it makes is well formed. -/
theorem wellFormed_ofSpan {span : Span} (forward : span.start ≤ span.stop) : (ofSpan span).WellFormed where
  root := ⟨_, rfl, rfl, rfl⟩
  parent j v found inner := absurd (eq_of_get?_ofSpan found).1 inner
  children i s found j := by
    obtain ⟨rfl, rfl⟩ := eq_of_get?_ofSpan found
    refine ⟨fun child => absurd child List.not_mem_nil, fun child => ?_⟩
    obtain ⟨v, found, parent⟩ := child
    obtain ⟨-, rfl⟩ := eq_of_get?_ofSpan found
    cases parent
  increasing i s found := by
    obtain ⟨rfl, rfl⟩ := eq_of_get?_ofSpan found
    exact .nil
  forward i s found := by
    obtain ⟨rfl, rfl⟩ := eq_of_get?_ofSpan found
    exact forward
  within i s j v found found' parent := by
    obtain ⟨-, rfl⟩ := eq_of_get?_ofSpan found'
    cases parent
  apart j v k w found found' lt same := by
    obtain ⟨rfl, rfl⟩ := eq_of_get?_ofSpan found
    obtain ⟨rfl, rfl⟩ := eq_of_get?_ofSpan found'
    exact absurd lt (Nat.lt_irrefl _)

/-- It has room for everything. -/
theorem room_ofSpan (span : Span) : (ofSpan span).Room globalId span.start span.stop where
  here := ⟨_, rfl, Nat.le_refl _, Nat.le_refl _⟩
  behind k v found parent := by
    obtain ⟨-, rfl⟩ := eq_of_get?_ofSpan found
    cases parent

/-- Names given in advance are defined without harm. -/
theorem wellFormed_seed (formed : t.WellFormed) (room : t.Room globalId lo hi)
    (globals : List (String × Classification)) :
    (t.seed globals).WellFormed ∧ (t.seed globals).Room globalId lo hi := by
  induction globals generalizing t with
  | nil => exact ⟨formed, room⟩
  | cons g rest ih =>
    have renames := Renames.define t globalId g.1 ⟨.implicitGlobal g.2, .point 0⟩
    exact ih (renames.wellFormed formed) (renames.room room)

end ScopeTree

/-- The scopes of a source are a tree: the first is the global one, the others come behind their parents
and are listed there once and in order, and they lie within them one behind the other. -/
theorem SourceUnit.wellFormed_of_read {options : SourceOptions} {text : String} {u : SourceUnit}
    (accepted : SourceUnit.read options text = .ok u) : u.scopes.WellFormed := by
  have built := builds_of_read accepted
  obtain ⟨formed, room⟩ := ScopeTree.wellFormed_seed (ScopeTree.wellFormed_ofSpan built.le)
    (ScopeTree.room_ofSpan (SyntaxTree.span u.tree)) options.implicitGlobals
  exact (built.wellFormed formed room).1

/-- Two namespaces of one name, the first with two parts and a class in it, and a function between them. -/
theorem SourceUnit.wellFormed_of_read_dotted : ∃ u, SourceUnit.read { type := .script }
      "namespace A.B \x7b class C \x7b\x7d \x7d function f(x); namespace A \x7b\x7d" = .ok u ∧
    u.scopes.WellFormed ∧
    u.scopes.scopes.toList.map (fun s => (s.kind, s.parent?, s.children, s.span)) =
      [(.global, none, [1, 4, 5], ⟨0, 58⟩), (.namespaceBody, some 0, [2], ⟨14, 28⟩),
        (.namespaceBody, some 1, [3], ⟨14, 28⟩), (.classBody, some 2, [], ⟨16, 26⟩),
        (.functionBody, some 0, [], ⟨29, 43⟩), (.namespaceBody, some 0, [], ⟨56, 58⟩)] := by
  have found : (SourceUnit.read { type := .script }
      "namespace A.B \x7b class C \x7b\x7d \x7d function f(x); namespace A \x7b\x7d").toOption.any (fun u => decide (
        u.scopes.scopes.toList.map (fun s => (s.kind, s.parent?, s.children, s.span)) =
          [(.global, none, [1, 4, 5], ⟨0, 58⟩), (.namespaceBody, some 0, [2], ⟨14, 28⟩),
            (.namespaceBody, some 1, [3], ⟨14, 28⟩), (.classBody, some 2, [], ⟨16, 26⟩),
            (.functionBody, some 0, [], ⟨29, 43⟩), (.namespaceBody, some 0, [], ⟨56, 58⟩)])) = true := by
    decide +kernel
  obtain ⟨u, accepted, found⟩ := exists_of_any_toOption found
  exact ⟨u, accepted, SourceUnit.wellFormed_of_read accepted, of_decide_eq_true found⟩

end ImplicitGlobals
