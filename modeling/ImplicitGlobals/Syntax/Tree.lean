import ImplicitGlobals.Syntax.Token
import ImplicitGlobals.Text.Escaped

/-!
# Syntax trees

A tree has labelled inner nodes, and its leaves in order are its content. The
tree of a source has tokens for leaves; the tree the grammar grows has places
for them. `expand` turns one into the other and keeps the nodes.
-/

namespace ImplicitGlobals

inductive Tree (α : Type) where
  | leaf (a : α)
  | node (kind : NodeKind) (children : List (Tree α))
deriving Repr, Inhabited

namespace Tree

variable {α β : Type}

mutual

/-- The leaves from left to right. -/
def leaves : Tree α → List α
  | leaf a => [a]
  | node _ children => leavesOf children

def leavesOf : List (Tree α) → List α
  | [] => []
  | t :: rest => t.leaves ++ leavesOf rest

end

mutual

/-- The first leaf. -/
def firstLeaf? : Tree α → Option α
  | leaf a => some a
  | node _ children => firstLeafOf? children

def firstLeafOf? : List (Tree α) → Option α
  | [] => none
  | t :: rest =>
    match t.firstLeaf? with
    | some a => some a
    | none => firstLeafOf? rest

end

mutual

/-- The last leaf. -/
def lastLeaf? : Tree α → Option α
  | leaf a => some a
  | node _ children => lastLeafOf? children

def lastLeafOf? : List (Tree α) → Option α
  | [] => none
  | t :: rest =>
    match lastLeafOf? rest with
    | some a => some a
    | none => t.lastLeaf?

end

mutual

/-- Puts the leaves `f a` in the place of each leaf `a`. -/
def expand (f : α → List β) : Tree α → List (Tree β)
  | leaf a => (f a).map leaf
  | node kind children => [node kind (expandAll f children)]

def expandAll (f : α → List β) : List (Tree α) → List (Tree β)
  | [] => []
  | t :: rest => t.expand f ++ expandAll f rest

end

def children : Tree α → List (Tree α)
  | leaf _ => []
  | node _ cs => cs

/-- Whether the tree is a node of the kind. -/
def isNode (kind : NodeKind) : Tree α → Bool
  | leaf _ => false
  | node k _ => k == kind

mutual

/-- The nodes of a kind, outer before inner, from left to right; the root counts. -/
def descendants (kind : NodeKind) : Tree α → List (Tree α)
  | leaf _ => []
  | node k cs =>
    if k = kind then node k cs :: descendantsOf kind cs else descendantsOf kind cs

def descendantsOf (kind : NodeKind) : List (Tree α) → List (Tree α)
  | [] => []
  | t :: rest => t.descendants kind ++ descendantsOf kind rest

end

mutual

theorem head?_leaves (t : Tree α) : t.leaves.head? = t.firstLeaf? := by
  cases t with
  | leaf a => rfl
  | node kind cs => exact head?_leavesOf cs

theorem head?_leavesOf (ts : List (Tree α)) : (leavesOf ts).head? = firstLeafOf? ts := by
  cases ts with
  | nil => rfl
  | cons t rest =>
    rw [leavesOf, firstLeafOf?, List.head?_append, head?_leaves t, head?_leavesOf rest]
    cases t.firstLeaf? <;> rfl

end

mutual

theorem getLast?_leaves (t : Tree α) : t.leaves.getLast? = t.lastLeaf? := by
  cases t with
  | leaf a => rfl
  | node kind cs => exact getLast?_leavesOf cs

theorem getLast?_leavesOf (ts : List (Tree α)) : (leavesOf ts).getLast? = lastLeafOf? ts := by
  cases ts with
  | nil => rfl
  | cons t rest =>
    rw [leavesOf, lastLeafOf?, List.getLast?_append, getLast?_leaves t, getLast?_leavesOf rest]
    cases lastLeafOf? rest <;> rfl

end

@[simp] theorem leavesOf_append (as bs : List (Tree α)) :
    leavesOf (as ++ bs) = leavesOf as ++ leavesOf bs := by
  induction as with
  | nil => rfl
  | cons a as ih => simp [leavesOf, ih]

@[simp] theorem leavesOf_map_leaf (as : List α) : leavesOf (as.map leaf) = as := by
  induction as with
  | nil => rfl
  | cons a as ih => simp [leavesOf, leaves, ih]

mutual

theorem leavesOf_expand (f : α → List β) (t : Tree α) :
    leavesOf (t.expand f) = t.leaves.flatMap f := by
  cases t with
  | leaf a => simp [expand, leaves]
  | node kind cs => simp [expand, leaves, leavesOf, leavesOf_expandAll f cs]

theorem leavesOf_expandAll (f : α → List β) (ts : List (Tree α)) :
    leavesOf (expandAll f ts) = (leavesOf ts).flatMap f := by
  cases ts with
  | nil => rfl
  | cons t rest => simp [expandAll, leavesOf, leavesOf_expand f t, leavesOf_expandAll f rest]

end

end Tree

/-- A token in a tree, under the kind the grammar gave it. -/
structure Leaf where
  kind : LeafKind
  token : Token
deriving DecidableEq, Repr, Inhabited

/-- The tree of a source. -/
abbrev SyntaxTree := Tree Leaf

namespace SyntaxTree

/-- The bytes between the first leaf and the last; an empty tree stands at the start. -/
def span (t : SyntaxTree) : Span :=
  match t.firstLeaf?, t.lastLeaf? with
  | some first, some last => ⟨first.token.start, last.token.stop⟩
  | _, _ => .point 0

/-- The text of a tree. -/
def text (t : SyntaxTree) : String := String.join (t.leaves.map (·.token.text))

/-- The leaves that stand directly under the root. -/
def leafChildren (t : SyntaxTree) : List Leaf :=
  t.children.filterMap fun
    | .leaf a => some a
    | .node .. => none

/-- Whether a leaf of the kind stands directly under the root. -/
def hasLeaf (t : SyntaxTree) (kind : LeafKind) : Bool :=
  t.leafChildren.any (·.kind == kind)

def childrenOf (t : SyntaxTree) (kind : NodeKind) : List SyntaxTree :=
  t.children.filter (Tree.isNode kind)

def child? (t : SyntaxTree) (kind : NodeKind) : Option SyntaxTree :=
  t.children.find? (Tree.isNode kind)

def indent (depth : Nat) : String := String.ofList (List.replicate (depth * 2) ' ')

mutual

/-- One line for each node and token, indented by depth. Trivia is left out
unless `trivia` asks for it. -/
def outline (trivia : Bool) (depth : Nat) : SyntaxTree → List String
  | .leaf a =>
    if trivia || !a.kind.isTrivia then
      [indent depth ++ a.kind.label ++ " " ++ Text.Escaped.quote a.token.text]
    else []
  | .node kind cs => (indent depth ++ kind.label) :: outlineOf trivia (depth + 1) cs

def outlineOf (trivia : Bool) (depth : Nat) : List SyntaxTree → List String
  | [] => []
  | t :: rest => outline trivia depth t ++ outlineOf trivia depth rest

end

end SyntaxTree

end ImplicitGlobals
