import ImplicitGlobals.Grammar.Cursor

/-!
# How deep a tree is nested

The budget bounds two things: how many words are read, and how deep blocks and patterns lie in
one another. A cursor holds a tree that is not finished yet. If its open nodes were closed where
it stands, that tree would be nested as deep as the cursor `reach`es, and whatever a rule adds,
it never comes back from there.
-/

namespace ImplicitGlobals

/-- How many levels of the nesting budget a node of the kind takes. -/
def NodeKind.level : NodeKind → Nat
  | .moduleBlock | .bindingPattern => 1
  | _ => 0

namespace Tree

variable {α β : Type}

mutual

/-- The largest number of levels on one path down from the root. -/
def nesting : Tree α → Nat
  | leaf _ => 0
  | node kind children => kind.level + nestingOf children

/-- The largest number of levels on one path down from any of the roots. -/
def nestingOf : List (Tree α) → Nat
  | [] => 0
  | t :: rest => max t.nesting (nestingOf rest)

end

@[simp] theorem nestingOf_append (as bs : List (Tree α)) :
    nestingOf (as ++ bs) = max (nestingOf as) (nestingOf bs) := by
  induction as with
  | nil => simp [nestingOf]
  | cons a as ih => rw [List.cons_append, nestingOf, nestingOf, ih, Nat.max_assoc]

@[simp] theorem nestingOf_map_leaf (as : List α) : nestingOf (as.map leaf) = 0 := by
  induction as with
  | nil => rfl
  | cons a as ih => simp [nestingOf, nesting, ih]

@[simp] theorem nestingOf_singleton (t : Tree α) : nestingOf [t] = t.nesting := by
  simp [nestingOf]

mutual

/-- What is put in the place of the leaves does not nest. -/
theorem nestingOf_expand (f : α → List β) (t : Tree α) : nestingOf (t.expand f) = t.nesting := by
  cases t with
  | leaf a => simp [expand, nesting]
  | node kind children => simp [expand, nesting, nestingOf_expandAll f children]

theorem nestingOf_expandAll (f : α → List β) (ts : List (Tree α)) :
    nestingOf (expandAll f ts) = nestingOf ts := by
  cases ts with
  | nil => rfl
  | cons t rest =>
    rw [expandAll, nestingOf_append, nestingOf, nestingOf_expand f t, nestingOf_expandAll f rest]

end

end Tree

namespace Grammar

open ImplicitGlobals.Tree (nestingOf)

/-! ### Open nodes -/

/-- How many of the open nodes are levels. -/
def levels : List Opened → Nat
  | [] => 0
  | o :: os => o.kind.level + levels os

/-- The parts once the open nodes are closed, the innermost first. -/
def closing : List Opened → List (Tree Slot) → List (Tree Slot)
  | [], ps => ps
  | o :: os, ps => closing os (ps.take o.first ++ [.node o.kind (ps.drop o.first)])

/-- The open nodes begin among `n` parts, and each within the next one. -/
def Stacked : Nat → List Opened → Prop
  | _, [] => True
  | n, o :: os => o.first ≤ n ∧ Stacked o.first os

variable {n m : Nat} {os : List Opened} {ps ts : List (Tree Slot)} {kind : NodeKind} {first : Nat}

theorem Stacked.mono (h : Stacked n os) (le : n ≤ m) : Stacked m os := by
  cases os with
  | nil => trivial
  | cons o os => exact ⟨Nat.le_trans h.1 le, h.2⟩

/-- What is added to the parts lies within all nodes that are open. -/
theorem nestingOf_closing (h : Stacked ps.length os) (ts : List (Tree Slot)) :
    nestingOf (closing os (ps ++ ts)) =
      max (nestingOf (closing os ps)) (levels os + nestingOf ts) := by
  induction os generalizing ps ts with
  | nil => simp [closing, levels]
  | cons o os ih =>
    obtain ⟨among, outer⟩ := h
    have outer : Stacked (ps.take o.first).length os := by
      rwa [List.length_take_of_le among]
    have closed (inner : List (Tree Slot)) :
        nestingOf (closing os (ps.take o.first ++ [.node o.kind inner])) =
          max (nestingOf (closing os (ps.take o.first)))
            (levels os + (o.kind.level + nestingOf inner)) := by
      rw [ih outer, Tree.nestingOf_singleton, Tree.nesting]
    rw [closing, closing, List.take_append_of_le_length among, List.drop_append_of_le_length among,
      closed, closed, levels, Tree.nestingOf_append]
    omega

/-- As deep as the open nodes lie, so deep the parts are nested. -/
theorem levels_le_closing (h : Stacked ps.length os) : levels os ≤ nestingOf (closing os ps) := by
  have added := nestingOf_closing h []
  rw [List.append_nil] at added
  rw [added]
  exact Nat.le_trans (Nat.le_add_right _ _) (Nat.le_max_right _ _)

/-- A node that begins before the last parts takes them one level deeper, if it is a level. -/
theorem nestingOf_closing_cons (h : Stacked first os) (among : first ≤ ps.length) :
    nestingOf (closing (⟨kind, first⟩ :: os) ps) =
      max (nestingOf (closing os (ps.take first)))
        (levels os + (kind.level + nestingOf (ps.drop first))) := by
  have outer : Stacked (ps.take first).length os := by rwa [List.length_take_of_le among]
  rw [closing, nestingOf_closing outer, Tree.nestingOf_singleton, Tree.nesting]

theorem nestingOf_closing_split (h : Stacked first os) (among : first ≤ ps.length) :
    nestingOf (closing os ps) =
      max (nestingOf (closing os (ps.take first))) (levels os + nestingOf (ps.drop first)) := by
  have outer : Stacked (ps.take first).length os := by rwa [List.length_take_of_le among]
  rw [← nestingOf_closing outer, List.take_append_drop]

/-! ### The reach of a cursor -/

namespace Cursor

variable {c : Cursor}

/-- How deep the tree is nested that the cursor holds. -/
def reach (c : Cursor) : Nat := nestingOf (closing c.opened c.parts.toList)

/-- The open nodes of the cursor lie in one another. -/
def Stacked (c : Cursor) : Prop := Grammar.Stacked c.parts.toList.length c.opened

theorem Stacked.levels_le (h : c.Stacked) : levels c.opened ≤ c.reach := levels_le_closing h

/-- The innermost node begins among the parts. -/
theorem Stacked.innermost (h : c.Stacked) : ∀ o ∈ c.opened.head?, o.first ≤ c.parts.size := by
  unfold Stacked at h
  cases opened : c.opened with
  | nil => exact fun _ none => nomatch none
  | cons o os =>
    rw [opened] at h
    rintro _ ⟨⟩
    simpa using h.1

/-- A cursor that has only more leaves. -/
theorem Stacked.leaves {d : Cursor} (h : c.Stacked) (opened : d.opened = c.opened)
    (more : ∃ slots : List Slot, d.parts.toList = c.parts.toList ++ slots.map .leaf) :
    d.Stacked ∧ d.reach = c.reach := by
  obtain ⟨slots, parts⟩ := more
  refine ⟨?_, ?_⟩
  · rw [Stacked, parts, opened]
    exact Grammar.Stacked.mono h (by simp)
  · have flat := h.levels_le
    rw [reach] at flat ⊢
    rw [parts, opened, nestingOf_closing h, Tree.nestingOf_map_leaf, reach]
    omega

/-- A node that begins lies within all that are open. What is there already it takes up only if
its kind is no level. -/
theorem Stacked.openNode (h : c.Stacked) {point : Nat} (among : point ≤ c.parts.size)
    (inner : ∀ o ∈ c.opened.head?, o.first ≤ point)
    (place : kind.level = 0 ∨ point = c.parts.size) :
    (c.openNode kind point).Stacked ∧
      (c.openNode kind point).reach = max c.reach (levels (c.openNode kind point).opened) := by
  have among : point ≤ c.parts.toList.length := by simpa using among
  have outer : Grammar.Stacked point c.opened := by
    unfold Stacked at h
    cases opened : c.opened with
    | nil => trivial
    | cons o os =>
      rw [opened] at h inner
      exact ⟨inner o rfl, h.2⟩
  refine ⟨⟨among, outer⟩, ?_⟩
  have before : c.reach = max (nestingOf (closing c.opened (c.parts.toList.take point)))
      (levels c.opened + nestingOf (c.parts.toList.drop point)) :=
    nestingOf_closing_split outer among
  have behind : (c.openNode kind point).reach =
      max (nestingOf (closing c.opened (c.parts.toList.take point)))
        (levels c.opened + (kind.level + nestingOf (c.parts.toList.drop point))) :=
    nestingOf_closing_cons outer among
  have deep : levels (c.openNode kind point).opened = kind.level + levels c.opened := rfl
  have flat := h.levels_le
  rw [behind, before, deep]
  rcases place with none | last
  · omega
  · have none : nestingOf (c.parts.toList.drop point) = 0 := by
      rw [last, ← Array.length_toList, List.drop_length]
      rfl
    omega

/-- Closing the innermost node is what the reach counts with. -/
theorem Stacked.closeNode (h : c.Stacked) {o : Opened} {os : List Opened}
    (opened : c.opened = o :: os) :
    (c.closeNode o.kind o.first).Stacked ∧ (c.closeNode o.kind o.first).reach = c.reach := by
  have parts : (c.closeNode o.kind o.first).parts.toList =
      c.parts.toList.take o.first ++ [.node o.kind (c.parts.toList.drop o.first)] := by
    simp [Cursor.closeNode]
  have left : (c.closeNode o.kind o.first).opened = os := by simp [Cursor.closeNode, opened]
  rw [Stacked, opened] at h
  refine ⟨?_, ?_⟩
  · rw [Stacked, parts, left]
    refine Grammar.Stacked.mono h.2 ?_
    rw [List.length_append, List.length_take_of_le h.1]
    exact Nat.le_add_right _ _
  · rw [reach, parts, left, reach, opened, closing]

end Cursor

end Grammar

end ImplicitGlobals
