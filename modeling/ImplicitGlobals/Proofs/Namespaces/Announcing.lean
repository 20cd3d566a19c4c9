import ImplicitGlobals.Proofs.Angles.Trees
import ImplicitGlobals.Proofs.Bodies.Pruning

/-!
# Modules and the keywords that announce them

A module in a tree is found by its keyword. That holds of the tree of slots as of the tree of tokens:
putting in the tokens neither adds a module nor takes one away.
-/

namespace ImplicitGlobals

/-- Whether statements stand in nodes of the kind, or in one of their parts. -/
def NodeKind.enclosesStatements : NodeKind → Bool
  | sourceFile | moduleDeclaration | moduleBlock => true
  | _ => false

namespace LeafKind

/-- Whether a module begins with such a leaf, behind its modifiers. -/
def announcesModule : LeafKind → Bool
  | keyword .kwNamespace | keyword .kwModule | keyword .kwGlobal => true
  | _ => false

/-- Whether the leaf is an identifier, read as a keyword or as it is. -/
def isIdentifier : LeafKind → Bool
  | keyword _ | token .ident => true
  | _ => false

/-- What announces a module is a word that is spelt with letters. -/
theorem isIdentifier_of_announcesModule {kind : LeafKind} (announces : kind.announcesModule = true) :
    kind.isIdentifier = true := by
  cases kind with
  | keyword => rfl
  | token => cases announces

/-- Trivia are no such words. -/
theorem not_isIdentifier_of_isTrivia {kind : LeafKind} (trivia : kind.isTrivia = true) :
    kind.isIdentifier = false := by
  cases kind with
  | keyword => cases trivia
  | token t => cases t <;> first | rfl | cases trivia

/-- Trivia announce nothing. -/
theorem not_announcesModule_of_isTrivia {kind : LeafKind} (trivia : kind.isTrivia = true) :
    kind.announcesModule = false := by
  cases kind with
  | keyword => cases trivia
  | token => rfl

end LeafKind

/-- What a slot is read as; a gap is trivia. -/
def Slot.label : Slot → LeafKind
  | gap _ => .token .whitespace
  | word _ label => label

namespace Tree

variable {α β : Type} {kind : α → LeafKind} {a : α} {t : Tree α}

/-- The leaf `a` leads the parts of a module: behind it no other identifier stands directly in the module,
and before it there are leaves that announce nothing. -/
inductive LedBy (kind : α → LeafKind) (a : α) : List (Tree α) → Prop
  | intro {before behind : List (Tree α)} (leaves : before.all isLeaf = true)
      (first : ∀ b, leaf b ∈ before → (kind b).announcesModule = false)
      (last : ∀ b, leaf b ∈ behind → (kind b).isIdentifier = false) : LedBy kind a (before ++ leaf a :: behind)

/-- A module of the source, or of the block of another module, is announced by the leaf. -/
inductive Announced (kind : α → LeafKind) (a : α) : Tree α → Prop
  | here {parts : List (Tree α)} (led : LedBy kind a parts) : Announced kind a (.node .moduleDeclaration parts)
  | within {k : NodeKind} (encloses : k.enclosesStatements = true) {before behind : List (Tree α)} {t : Tree α}
      (inner : Announced kind a t) : Announced kind a (.node k (before ++ t :: behind))

namespace Announced

/-- A leaf announces in a node that encloses statements. -/
theorem exists_node (h : Announced kind a t) : ∃ k ts, t = .node k ts ∧ k.enclosesStatements = true := by
  cases h with
  | here => exact ⟨_, _, rfl, rfl⟩
  | within encloses => exact ⟨_, _, rfl, encloses⟩

/-- The leaf is one of the tree's. -/
theorem mem_leaves (h : Announced kind a t) : a ∈ t.leaves := by
  induction h with
  | here led =>
    obtain ⟨-, -, -⟩ := led
    simp [leaves, leavesOf]
  | within _ _ ih => simp [leaves, leavesOf, ih]

end Announced

/-! ### Looking for the announced module -/

/-- Whether the tree is no leaf with an identifier. -/
def isSilent (kind : α → LeafKind) : Tree α → Bool
  | leaf b => !(kind b).isIdentifier
  | node .. => true

/-- Only such words and nodes are not silent. -/
theorem all_isSilent_iff {ts : List (Tree α)} :
    ts.all (isSilent kind) = true ↔ ∀ b, leaf b ∈ ts → (kind b).isIdentifier = false := by
  rw [List.all_eq_true]
  refine ⟨fun all b mem => by simpa [isSilent] using all _ mem, fun all t mem => ?_⟩
  cases t with
  | leaf b => simp [isSilent, all b mem]
  | node => rfl

section

variable [DecidableEq α]

/-- Decides whether the leaf leads the list. -/
def leads (kind : α → LeafKind) (a : α) : List (Tree α) → Bool
  | [] => false
  | node .. :: _ => false
  | leaf b :: rest => b == a && rest.all (isSilent kind) ||
      !(kind b).announcesModule && leads kind a rest

mutual

/-- Decides whether the leaf announces a module in the tree. -/
def announces (kind : α → LeafKind) (a : α) : Tree α → Bool
  | leaf _ => false
  | node k ts => k == .moduleDeclaration && leads kind a ts || k.enclosesStatements && announcesAny kind a ts

/-- Decides it of a list of trees. -/
def announcesAny (kind : α → LeafKind) (a : α) : List (Tree α) → Bool
  | [] => false
  | t :: rest => announces kind a t || announcesAny kind a rest

end

/-- The decision on leading is right. -/
theorem leads_iff {ts : List (Tree α)} : leads kind a ts = true ↔ LedBy kind a ts := by
  induction ts with
  | nil =>
    refine ⟨fun leads => (by cases leads), fun led => ?_⟩
    generalize none : ([] : List (Tree α)) = ts at led
    obtain @⟨before, _, -, -, -⟩ := led
    cases before <;> cases none
  | cons t rest ih =>
    cases t with
    | node k cs =>
      refine ⟨fun leads => (by cases leads), fun led => ?_⟩
      generalize split : node k cs :: rest = ts at led
      obtain @⟨before, _, leaves, -, -⟩ := led
      cases before with
      | nil => cases split
      | cons => cases (List.cons.inj split).1 ▸ leaves
    | leaf b =>
      rw [leads, Bool.or_eq_true, Bool.and_eq_true, Bool.and_eq_true, all_isSilent_iff, ih]
      constructor
      · rintro (⟨is, last⟩ | ⟨quiet, led⟩)
        · obtain rfl := eq_of_beq is
          exact .intro rfl (fun _ mem => absurd mem List.not_mem_nil) last
        · obtain ⟨leaves, first, last⟩ := led
          refine @LedBy.intro _ _ _ (leaf b :: _) _ (by simpa [isLeaf] using leaves) (fun c mem => ?_) last
          rcases List.mem_cons.1 mem with is | mem
          · cases is
            simpa using quiet
          · exact first c mem
      · intro led
        -- The leaf itself leads the list, or it is silent and the rest is led.
        generalize split : leaf b :: rest = ts at led
        obtain @⟨before, behind, leaves, first, last⟩ := led
        cases before with
        | nil =>
          cases split
          exact .inl ⟨beq_self_eq_true _, last⟩
        | cons u before =>
          cases split
          rw [List.all_cons, Bool.and_eq_true] at leaves
          have later := fun c mem => first c (List.mem_cons_of_mem _ mem)
          exact .inr ⟨by simp [first b List.mem_cons_self], .intro leaves.2 later last⟩

mutual

/-- The decision on announcing is right. -/
theorem announces_iff : (t : Tree α) → (announces kind a t = true ↔ Announced kind a t)
  | leaf b => ⟨fun h => (by cases h), fun h => (by cases h)⟩
  | node k ts => by
    rw [announces, Bool.or_eq_true, Bool.and_eq_true, Bool.and_eq_true, leads_iff, announcesAny_iff ts]
    constructor
    · rintro (⟨is, led⟩ | ⟨encloses, t, mem, inner⟩)
      · obtain rfl := eq_of_beq is
        exact .here led
      · obtain ⟨before, behind, rfl⟩ := List.append_of_mem mem
        exact .within encloses inner
    · intro h
      cases h with
      | here led => exact .inl ⟨rfl, led⟩
      | within encloses inner => exact .inr ⟨encloses, _, List.mem_append_right _ List.mem_cons_self, inner⟩

/-- It is right of lists. -/
theorem announcesAny_iff : (ts : List (Tree α)) →
    (announcesAny kind a ts = true ↔ ∃ t ∈ ts, Announced kind a t)
  | [] => by simp [announcesAny]
  | t :: rest => by
    rw [announcesAny, Bool.or_eq_true, announces_iff t, announcesAny_iff rest]
    simp

end

instance : Decidable (Announced kind a t) := decidable_of_iff _ (announces_iff t)

end

/-! ### Putting in leaves -/

/-- A leaf of an expanded list comes from one of its leaves. -/
theorem mem_leaf_expandAll {f : α → List β} {ts : List (Tree α)} {b : β} :
    leaf b ∈ expandAll f ts ↔ ∃ x, leaf x ∈ ts ∧ b ∈ f x := by
  rw [mem_expandAll]
  constructor
  · rintro ⟨u, among, inside⟩
    cases u with
    | leaf x =>
      obtain ⟨y, mem, is⟩ := List.mem_map.1 inside
      cases is
      exact ⟨x, among, mem⟩
    | node k cs => simp [expand] at inside
  · rintro ⟨x, among, mem⟩
    exact ⟨leaf x, among, List.mem_map_of_mem mem⟩

section

variable {f : α → List β} {kind' : β → LeafKind} {b : β}

/-- A leaf that leads still leads once the leaves are expanded. -/
theorem LedBy.expand {ts : List (Tree α)} (is : f a = [b])
    (keeps : ∀ x, ∀ y ∈ f x, kind' y = kind x ∨ (kind' y).isTrivia = true) (h : LedBy kind a ts) :
    LedBy kind' b (expandAll f ts) := by
  obtain ⟨leaves, first, last⟩ := h
  rw [expandAll_append, expandAll, Tree.expand, is]
  refine .intro (by rw [all_isLeaf_expandAll, leaves]) (fun y mem => ?_) fun y mem => ?_
  · obtain ⟨x, among, inside⟩ := mem_leaf_expandAll.1 mem
    exact (keeps x y inside).elim (fun same => same ▸ first x among) LeafKind.not_announcesModule_of_isTrivia
  · obtain ⟨x, among, inside⟩ := mem_leaf_expandAll.1 mem
    exact (keeps x y inside).elim (fun same => same ▸ last x among) LeafKind.not_isIdentifier_of_isTrivia

/-- What is put in for the announcing leaf announces the module. -/
theorem Announced.expand (is : f a = [b])
    (keeps : ∀ x, ∀ y ∈ f x, kind' y = kind x ∨ (kind' y).isTrivia = true) (h : Announced kind a t) :
    ∃ k us, t.expand f = [.node k us] ∧ Announced kind' b (.node k us) := by
  induction h with
  | here led => exact ⟨_, _, rfl, .here (led.expand is keeps)⟩
  | @within k encloses before behind t _ ih =>
    obtain ⟨k', us, node, inner⟩ := ih
    have parts : expandAll f (before ++ t :: behind) = expandAll f before ++ .node k' us :: expandAll f behind := by
      simp [expandAll_append, expandAll, node]
    exact ⟨_, _, by rw [Tree.expand, parts], .within encloses inner⟩

/-- A leaf that leads the expanded list led before. -/
theorem LedBy.ofExpand {ts : List (Tree α)} (is : f a = [b]) (only : ∀ x, b ∈ f x → x = a)
    (loud : (kind' b).announcesModule = true) (h : LedBy kind' b (expandAll f ts))
    (shows : ∀ x ∈ leavesOf ts, (kind x).isIdentifier = true → ∃ y ∈ f x, kind' y = kind x) : LedBy kind a ts := by
  generalize split : expandAll f ts = us at h
  obtain @⟨before, behind, leaves, first, last⟩ := h
  obtain ⟨x, among, inside⟩ := mem_leaf_expandAll.1 (split ▸ List.mem_append_right before List.mem_cons_self)
  obtain rfl := only x inside
  obtain ⟨front, rest, rfl⟩ := List.append_of_mem among
  have parts : expandAll f (front ++ leaf x :: rest) = expandAll f front ++ leaf b :: expandAll f rest := by
    simp [expandAll_append, expandAll, Tree.expand, is]
  have early : leaf b ∉ before := fun mem => by simp [first b mem] at loud
  have late : leaf b ∉ behind := fun mem => by
    have own := LeafKind.isIdentifier_of_announcesModule loud
    simp [last b mem] at own
  obtain ⟨rfl, -, rfl⟩ := (List.append_cons_inj_of_notMem early late).1 (split.symm.trans parts)
  have shown {y : α} (mem : leaf y ∈ front ∨ leaf y ∈ rest) (identifier : (kind y).isIdentifier = true) :
      ∃ z ∈ f y, kind' z = kind y := by
    refine shows y (mem_leavesOf.2 ⟨leaf y, ?_, List.mem_singleton.2 rfl⟩) identifier
    exact mem.elim (List.mem_append_left _) fun mem => List.mem_append_right _ (List.mem_cons_of_mem _ mem)
  refine .intro (by rw [← all_isLeaf_expandAll f, leaves]) (fun y mem => ?_) fun y mem => ?_
  · rw [Bool.eq_false_iff]
    intro announces
    obtain ⟨z, inside, same⟩ := shown (.inl mem) (LeafKind.isIdentifier_of_announcesModule announces)
    simp [← same, first z (mem_leaf_expandAll.2 ⟨y, mem, inside⟩)] at announces
  · rw [Bool.eq_false_iff]
    intro identifier
    obtain ⟨z, inside, same⟩ := shown (.inr mem) identifier
    simp [← same, last z (mem_leaf_expandAll.2 ⟨y, mem, inside⟩)] at identifier

/-- A module that is announced in a filled tree is announced in the tree. -/
theorem Announced.ofExpand (is : f a = [b]) (only : ∀ x, b ∈ f x → x = a) (loud : (kind' b).announcesModule = true)
    {u : Tree β} (h : Announced kind' b u) {k : NodeKind} {ts : List (Tree α)} (filled : u = .node k (expandAll f ts))
    (shows : ∀ x ∈ leavesOf ts, (kind x).isIdentifier = true → ∃ y ∈ f x, kind' y = kind x) :
    Announced kind a (.node k ts) := by
  induction h generalizing k ts with
  | here led =>
    obtain ⟨rfl, rfl⟩ := Tree.node.inj filled
    exact .here (led.ofExpand is only loud shows)
  | within encloses inner ih =>
    obtain ⟨rfl, split⟩ := Tree.node.inj filled
    obtain ⟨k', us, rfl, -⟩ := inner.exists_node
    obtain ⟨front, vs, rest, rfl, -, rfl, -⟩ := expandAll_split split.symm
    refine .within encloses (ih rfl fun y mem => shows y ?_)
    simp only [leavesOf_append, leavesOf, Tree.leaves, List.mem_append]
    exact .inr (.inl mem)

end

end Tree

end ImplicitGlobals
