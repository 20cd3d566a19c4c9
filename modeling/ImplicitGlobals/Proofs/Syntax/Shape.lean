import ImplicitGlobals.Proofs.Syntax.Lossless
import ImplicitGlobals.Syntax.Statement

/-!
# What nodes hold

Where the grammar complains of nothing, every node holds what nodes of its kind have
to hold, and filling in the tokens takes nothing away. So the statements of a source
without errors have the parts that binding relies on.

The slots of a source are filled with its tokens: a gap with trivia alone, a word with one token
that is no trivia.
-/

namespace ImplicitGlobals

/-- Every node of the tree holds what a node of its kind has to hold. -/
inductive Tree.Formed : Tree Slot → Prop where
  | leaf (s : Slot) : Formed (.leaf s)
  | node {kind : NodeKind} {parts : List (Tree Slot)} (holds : kind.holds parts)
    (inner : ∀ t ∈ parts, Formed t) : Formed (.node kind parts)

namespace Grammar

/-- Where nothing is complained of, all parts are well formed. -/
def Formed (c : Cursor) : Prop := c.complaints = [] → ∀ t ∈ c.parts.toList, t.Formed

/-- Placing the gap keeps the parts formed. -/
theorem Formed.placeGap {c : Cursor} (h : Formed c) : Formed c.placeGap := by
  intro clean t mem
  rw [Cursor.toList_parts_placeGap] at mem
  rcases List.mem_append.1 mem with mem | mem
  · exact h clean t mem
  · exact Gap.eq_of_mem_due mem ▸ .leaf _

/-- Reading a word keeps them formed. -/
theorem Formed.read {c : Cursor} (h : Formed c) (label : LeafKind) : Formed (c.read label) := by
  intro clean t mem
  have parts : (c.read label).parts.toList =
      c.placeGap.parts.toList ++ [.leaf (.word c.passed label)] := by simp
  rw [parts] at mem
  rcases List.mem_append.1 mem with mem | mem
  · exact h.placeGap clean t mem
  · exact List.mem_singleton.1 mem ▸ .leaf _

/-- Closing a node keeps them formed if the node may hold what it takes in. -/
theorem Formed.closeNode {e : Cursor} {kind : NodeKind} {first : Nat} (h : Formed e)
    (holds : e.complaints = [] → kind.holds (e.parts.toList.drop first)) :
    Formed (e.closeNode kind first) := by
  intro clean t mem
  rw [Cursor.toList_parts_closeNode] at mem
  rcases List.mem_append.1 mem with mem | mem
  · exact h clean t (List.mem_of_mem_take mem)
  · rw [List.mem_singleton.1 mem]
    exact .node (holds clean) fun u inner => h clean u (List.mem_of_mem_drop inner)

/-- Every walk keeps them formed. -/
theorem Walk.formed {c d : Cursor} (walk : Walk c d) (h : Formed c) : Formed d := by
  induction walk with
  | refl => exact h
  | trans _ _ f g => exact g (f h)
  | count | skipGap => exact h
  | placeGap => exact h.placeGap
  | read => exact h.read _
  | note => exact fun clean => absurd clean (List.cons_ne_nil _ _)
  | node _ _ _ holds f g => exact (g (f h)).closeNode holds
  | within _ _ _ _ _ f => exact f (h.read _)

end Grammar

/-! ### Statements of trees -/

theorem Tree.mem_expandAll {α β : Type} {f : α → List β} {ts : List (Tree α)} {u : Tree β} :
    u ∈ expandAll f ts ↔ ∃ t ∈ ts, u ∈ t.expand f := by
  induction ts with
  | nil => simp [expandAll]
  | cons t rest ih => simp [expandAll, ih]

/-- The statements of a list are those of its trees. -/
theorem Statement.mem_ofTrees {ts : List SyntaxTree} {s : Statement} :
    s ∈ ofTrees ts ↔ ∃ t ∈ ts, ofTree? t = some s := by
  induction ts with
  | nil => simp [ofTrees]
  | cons t rest ih =>
    rw [ofTrees]
    cases first : ofTree? t with
    | none => simp [ih, first]
    | some s' => simp [ih, first, eq_comm]

/-- A statement whose names belong to it alone: a module, unless it is global, has one. -/
def Statement.Named : Statement → Prop
  | plain .. => True
  | module _ names isGlobal _ _ => isGlobal = true ∨ names ≠ []

theorem Slot.lt_of_mem_through {i j : Nat} {label : LeafKind} {labels : List LeafKind}
    (mem : Slot.word j label ∈ through i labels) : j < i + labels.length := by
  induction labels generalizing i with
  | nil => simp [through, read] at mem
  | cons l rest ih =>
    rw [through_cons] at mem
    simp only [List.mem_cons, reduceCtorEq, Slot.word.injEq, false_or] at mem
    rcases mem with ⟨rfl, -⟩ | mem
    · simp
    · have := ih mem
      simp only [List.length_cons]
      omega

theorem Tree.mem_leavesOf {α : Type} {ts : List (Tree α)} {a : α} :
    a ∈ leavesOf ts ↔ ∃ t ∈ ts, a ∈ t.leaves := by
  induction ts with
  | nil => simp [leavesOf]
  | cons t rest ih => simp [leavesOf, ih]

/-- The name or the keyword that a module holds is there when its tokens are. -/
theorem Statement.named_of_holds {l : Layout} {parts : List (Tree Slot)} {s : Statement}
    (holds : NodeKind.moduleDeclaration.holds parts)
    (words : ∀ i label, Slot.word i label ∈ Tree.leavesOf parts → i < l.words.size)
    (is : ofTree? (.node .moduleDeclaration (Tree.expandAll l.fill parts)) = some s) : s.Named := by
  simp only [ofTree?, if_true, Option.some.injEq] at is
  rw [← is]
  obtain ⟨t, mem, found⟩ := List.any_eq_true.1 holds
  rcases Bool.or_eq_true_iff.1 found with isName | isGlobal
  · right
    obtain ⟨inner, rfl⟩ : ∃ inner, t = .node .name inner := by
      cases t with
      | leaf => cases isName
      | node kind inner => exact ⟨inner, by simpa [Tree.isNode] using isName⟩
    have here : Tree.node .name (Tree.expandAll l.fill inner) ∈ Tree.expandAll l.fill parts :=
      Tree.mem_expandAll.2 ⟨_, mem, by simp [Tree.expand]⟩
    have child := List.mem_filter.2 ⟨here, show Tree.isNode .name _ = true from rfl⟩
    exact List.ne_nil_of_mem (List.mem_map_of_mem child)
  · left
    obtain ⟨i, rfl⟩ : ∃ i, t = .leaf (.word i (.keyword .kwGlobal)) := by
      cases t with
      | node => cases isGlobal
      | leaf slot =>
        cases slot with
        | gap => cases isGlobal
        | word i label => exact ⟨i, by simpa [Tree.isKeyword] using isGlobal⟩
    have bound := words i _ (Tree.mem_leavesOf.2 ⟨_, mem, List.mem_singleton.2 rfl⟩)
    have here : Tree.leaf ⟨.keyword .kwGlobal, l.words[i]⟩ ∈ Tree.expandAll l.fill parts :=
      Tree.mem_expandAll.2 ⟨_, mem, by simp [Tree.expand, Layout.fill, bound]⟩
    refine List.any_eq_true.2 ⟨⟨.keyword .kwGlobal, l.words[i]⟩, ?_, by simp⟩
    exact List.mem_filterMap.2 ⟨_, here, rfl⟩

/-- The statements of a source without errors are named. -/
theorem named_of_parseWithin {budget : Budget} {text : String} {p : Parsed}
    (parsed : parseWithin budget text = .ok p) (clean : p.diagnostics = []) :
    ∀ s ∈ SyntaxTree.statements p.tree, s.Named := by
  obtain ⟨c, children, labels, walk, tree, rfl, takes, slots⟩ := slots_of_parseWithin parsed
  have none : c.complaints = [] := by simpa [Outline.dress] using clean
  have formed : Tree.Formed (.node .sourceFile children) :=
    walk.formed (fun _ _ mem => absurd mem List.not_mem_nil) none _ (tree ▸ List.mem_singleton.2 rfl)
  cases formed with
  | node _ inner =>
    intro s mem
    rw [Outline.tree_dress] at mem
    obtain ⟨u, inTree, is⟩ := Statement.mem_ofTrees.1 mem
    obtain ⟨t, inParts, expanded⟩ := Tree.mem_expandAll.1 inTree
    cases inner t inParts with
    | leaf slot =>
      obtain ⟨a, -, rfl⟩ := List.mem_map.1 expanded
      cases is
    | @node kind parts holds _ =>
      rw [Tree.expand, List.mem_singleton] at expanded
      subst expanded
      -- A declaration of any other kind has no name to check.
      by_cases module : kind = .moduleDeclaration
      · subst module
        refine Statement.named_of_holds holds (fun i label leaf => ?_) is
        have all : Slot.word i label ∈ Slot.through 0 labels :=
          slots ▸ Tree.mem_leavesOf.2 ⟨_, inParts, leaf⟩
        have bound := Slot.lt_of_mem_through all
        rw [← takes.length_eq] at bound
        simpa [Layout.ofTokens] using bound
      · simp only [Statement.ofTree?, if_neg module, Option.map_eq_some_iff] at is
        obtain ⟨d, -, rfl⟩ := is
        trivial

/-- Without trivia the kinds of the words are the kinds of the tokens. -/
theorem Word.kinds_after (broken : Bool) (tokens : List Token) :
    (after broken tokens).map (·.kind) = (tokens.map (·.kind)).filter (!·.isTrivia) := by
  induction tokens generalizing broken with
  | nil => rfl
  | cons t rest ih =>
    by_cases trivia : t.kind.isTrivia = true <;> simp [after, trivia, ih]

/-- The word of the slot is there, and is no trivia. -/
def Slot.Fits (l : Layout) : Slot → Prop
  | gap _ => True
  | word i label => i < l.words.size ∧ label.isTrivia = false

/-- The trivia of a layout is in its gaps. -/
def Layout.Parted (l : Layout) : Prop := ∀ run ∈ l.gaps.toList, ∀ t ∈ run, t.kind.isTrivia = true

theorem Layout.isTrivia_gapsAfter {held : List Token} (tokens : List Token)
    (trivia : ∀ t ∈ held, t.kind.isTrivia = true) :
    ∀ run ∈ gapsAfter held tokens, ∀ t ∈ run, t.kind.isTrivia = true := by
  induction tokens generalizing held with
  | nil => simpa [gapsAfter] using trivia
  | cons t rest ih =>
    by_cases blank : t.kind.isTrivia = true
    · rw [gapsAfter, if_pos blank]
      exact ih (by simpa using ⟨blank, trivia⟩)
    · rw [gapsAfter, if_neg blank]
      have inner : ∀ run ∈ gapsAfter [] rest, ∀ t ∈ run, t.kind.isTrivia = true := ih (by simp)
      simpa using ⟨trivia, inner⟩

/-- Tokens are parted into words and runs of trivia. -/
theorem Layout.parted_ofTokens (tokens : List Token) : (ofTokens tokens).Parted := by
  have all : ∀ run ∈ gapsAfter [] tokens, ∀ t ∈ run, t.kind.isTrivia = true := 
    isTrivia_gapsAfter tokens (by simp)
  simpa [Parted, ofTokens] using all

/-- What fills a gap is trivia. -/
theorem Layout.Parted.isTrivia_fill {l : Layout} (h : l.Parted) (i : Nat) :
    ∀ a ∈ l.fill (.gap i), a.kind.isTrivia = true := by
  intro a mem
  obtain ⟨t, inGap, rfl⟩ := List.mem_map.1 mem
  cases run : l.gaps[i]? with
  | none => simp [run] at inGap
  | some ts =>
    rw [run] at inGap
    exact h ts (Array.mem_toList_iff.2 (Array.mem_of_getElem? run)) t inGap

theorem Slot.mem_of_mem_through {i j : Nat} {label : LeafKind} {labels : List LeafKind}
    (mem : Slot.word j label ∈ through i labels) : label ∈ labels := by
  induction labels generalizing i with
  | nil => simp [through, read] at mem
  | cons l rest ih =>
    rw [through_cons] at mem
    simp only [List.mem_cons, reduceCtorEq, Slot.word.injEq, false_or] at mem
    rcases mem with ⟨-, rfl⟩ | mem
    · exact List.mem_cons_self
    · exact List.mem_cons_of_mem _ (ih mem)

/-- A word is not read as trivia. -/
theorem Token.plain_of_takes {tokens : List Token} {labels : List LeafKind}
    (takes : List.Forall₂ Takes tokens labels) (plain : ∀ t ∈ tokens, t.kind.isTrivia = false) :
    ∀ label ∈ labels, label.isTrivia = false := by
  induction takes with
  | nil => nofun
  | cons first _ ih =>
    rw [List.forall_mem_cons] at plain ⊢
    refine ⟨?_, ih plain.2⟩
    rcases first with rfl | ⟨k, rfl, -⟩
    · exact plain.1
    · rfl

/-- The slots of a source fit what is put in. -/
theorem Slot.fits_through {tokens : List Token} {labels : List LeafKind}
    (takes : List.Forall₂ Token.Takes (tokens.filter (!·.kind.isTrivia)) labels) :
    ∀ s ∈ through 0 labels, s.Fits (.ofTokens tokens) := by
  rintro (i | ⟨i, label⟩) mem
  · trivial
  · refine ⟨?_, ?_⟩
    · have bound := lt_of_mem_through mem
      rw [← takes.length_eq] at bound
      simpa [Layout.ofTokens] using bound
    · exact Token.plain_of_takes takes
        (fun t word => by simpa using (List.mem_filter.1 word).2) label
        (mem_of_mem_through mem)

end ImplicitGlobals
