import ImplicitGlobals.Proofs.Budget.Reach
import ImplicitGlobals.Proofs.Syntax.Places
import Mathlib.Data.List.Forall2

/-!
# Trees without bodies

A body in which only words stand can be left out of a tree: what the tree says and how deep it is
nested is the same without it. Two trees match if they are the same but for such bodies.
-/

namespace ImplicitGlobals

namespace Tree

variable {α β γ : Type}

mutual

/-- The tree without the bodies in which only leaves stand; nothing for such a body. -/
def prune : Tree α → List (Tree α)
  | leaf a => [leaf a]
  | node kind children =>
    if kind.isBody && children.all isLeaf then [] else [node kind (pruneAll children)]

/-- A list of trees without its bodies. -/
def pruneAll : List (Tree α) → List (Tree α)
  | [] => []
  | t :: rest => t.prune ++ pruneAll rest

end

theorem pruneAll_append (ts us : List (Tree α)) : pruneAll (ts ++ us) = pruneAll ts ++ pruneAll us := by
  induction ts with
  | nil => rfl
  | cons t rest ih => simp [pruneAll, ih]

/-- A body of leaves is pruned away. -/
theorem prune_body {kind : NodeKind} {ts : List (Tree α)} (body : kind.isBody = true)
    (flat : ts.all isLeaf = true) : prune (node kind ts) = [] := by
  rw [prune, if_pos (by rw [body, flat]; rfl)]

theorem level_of_isBody {kind : NodeKind} (body : kind.isBody = true) : kind.level = 0 := by
  cases kind <;> first | rfl | cases body

/-- Leaves are nested in nothing. -/
theorem nestingOf_leaves {ts : List (Tree α)} (flat : ts.all isLeaf = true) : nestingOf ts = 0 := by
  induction ts with
  | nil => rfl
  | cons t rest ih =>
    rw [List.all_cons, Bool.and_eq_true] at flat
    cases t with
    | leaf a => rw [nestingOf, ih flat.2]; rfl
    | node kind children => cases flat.1

mutual

/-- What is pruned has no level of its own, so nesting stays. -/
theorem nestingOf_prune (t : Tree α) : nestingOf t.prune = t.nesting := by
  cases t with
  | leaf a => rfl
  | node kind children =>
    rw [prune, nesting]
    split
    · next pruned =>
      obtain ⟨body, flat⟩ := Bool.and_eq_true_iff.1 pruned
      rw [level_of_isBody body, nestingOf_leaves flat]
      rfl
    · rw [nestingOf_singleton, nesting, nestingOf_pruneAll children]

/-- Bodies do not nest. -/
theorem nestingOf_pruneAll (ts : List (Tree α)) : nestingOf (pruneAll ts) = nestingOf ts := by
  cases ts with
  | nil => rfl
  | cons t rest =>
    rw [pruneAll, nestingOf_append, nestingOf, nestingOf_prune t, nestingOf_pruneAll rest]

end

/-- What is put in the place of a leaf are leaves. -/
theorem all_isLeaf_expandAll (f : α → List β) (ts : List (Tree α)) :
    (expandAll f ts).all isLeaf = ts.all isLeaf := by
  induction ts with
  | nil => rfl
  | cons t rest ih =>
    rw [expandAll, List.all_append, List.all_cons, ih]
    congr 1
    cases t with
    | leaf a => simp [expand, isLeaf]
    | node kind children => rfl

/-! ### Matching trees -/

/-- With `f` put in for the leaves of the one tree and `g` for those of the other, they are the same
but for bodies. -/
structure Matches (f : α → List γ) (g : β → List γ) (t : Tree α) (u : Tree β) : Prop where
  isLeaf : t.isLeaf = u.isLeaf
  pruned : pruneAll (t.expand f) = pruneAll (u.expand g)

namespace Matches

variable {f : α → List γ} {g : β → List γ} {ts : List (Tree α)} {us : List (Tree β)}

/-- Equal leaves match. -/
theorem ofLeaf {a : α} {b : β} (same : f a = g b) : Matches f g (leaf a) (leaf b) :=
  ⟨rfl, by rw [expand, expand, same]⟩

theorem all_isLeaf (h : List.Forall₂ (Matches f g) ts us) : ts.all Tree.isLeaf = us.all Tree.isLeaf := by
  induction h with
  | nil => rfl
  | cons first _ ih => rw [List.all_cons, List.all_cons, first.isLeaf, ih]

/-- Matching lists are equal once pruned. -/
theorem pruneAll (h : List.Forall₂ (Matches f g) ts us) :
    pruneAll (expandAll f ts) = Tree.pruneAll (expandAll g us) := by
  induction h with
  | nil => rfl
  | cons first _ ih =>
    rw [expandAll, expandAll, pruneAll_append, pruneAll_append, first.pruned, ih]

/-- Nodes around matching lists match. -/
theorem node (kind : NodeKind) (h : List.Forall₂ (Matches f g) ts us) :
    Matches f g (node kind ts) (node kind us) :=
  ⟨rfl, by simp only [expand, Tree.pruneAll, prune, all_isLeaf_expandAll, all_isLeaf h, pruneAll h]⟩

/-- Two bodies match, whatever words stand in them. -/
theorem body {kind : NodeKind} (body : kind.isBody = true) (flat : ts.all Tree.isLeaf = true)
    (flat' : us.all Tree.isLeaf = true) : Matches f g (.node kind ts) (.node kind us) := by
  refine ⟨rfl, ?_⟩
  simp only [expand, Tree.pruneAll]
  rw [prune_body body (by rw [all_isLeaf_expandAll, flat]),
    prune_body body (by rw [all_isLeaf_expandAll, flat'])]

end Matches

end Tree

namespace SyntaxTree

/-- Bodies may be left out. -/
theorem trims_pruneAll : Trims Tree.pruneAll where
  nil := rfl
  leaf a rest := ⟨[a], rfl, List.append_nil _⟩
  node kind cs rest := by
    rw [Tree.pruneAll, Tree.prune]
    split
    · next pruned => exact .inr ⟨rfl, Bool.and_eq_true_iff.1 pruned⟩
    · exact .inl rfl

end SyntaxTree

end ImplicitGlobals
