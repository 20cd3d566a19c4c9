import ImplicitGlobals.Proofs.Angles.Runs
import ImplicitGlobals.Proofs.Grammar.Keeping
import ImplicitGlobals.Proofs.Acceptance.Soundness

/-!
# Types in trees

Every type in the tree of a source without diagnostics was read by a run, and by nothing else but
the expression of an export does a node of that kind come about. So what a run says of its angles
holds of every type, and the word behind the run is the word behind the type.
-/

namespace ImplicitGlobals

open Grammar

/-! ### Subtrees -/

namespace Tree

variable {α β : Type} {f : α → List β} {t s : Tree α} {behind : List α}

/-- The tree stands in the other one, where these leaves come behind it. -/
inductive StandsIn (t : Tree α) : Tree α → List α → Prop where
  | self : StandsIn t t []
  | child {kind : NodeKind} {before after : List (Tree α)} {s : Tree α} {behind : List α}
      (inner : StandsIn t s behind) :
      StandsIn t (.node kind (before ++ s :: after)) (behind ++ leavesOf after)

theorem StandsIn.leaves (stands : t.StandsIn s behind) :
    ∃ front, s.leaves = front ++ t.leaves ++ behind := by
  induction stands with
  | self => exact ⟨[], by simp⟩
  | @child kind before after s behind inner ih =>
    obtain ⟨front, leaves⟩ := ih
    exact ⟨leavesOf before ++ front, by simp [Tree.leaves, leavesOf, leaves]⟩

mutual

/-- Every node of a tree stands in it. -/
theorem exists_standsIn {kind : NodeKind} (s : Tree α) (among : t ∈ s.descendants kind) :
    ∃ behind, t.StandsIn s behind := by
  cases s with
  | leaf a => cases among
  | node k children =>
    have inner (among : t ∈ descendantsOf kind children) : ∃ behind, t.StandsIn (.node k children) behind := by
      obtain ⟨before, s, after, behind, rfl, stands⟩ := exists_standsIn_children children among
      exact ⟨_, .child stands⟩
    rw [descendants] at among
    split at among
    · rcases List.mem_cons.1 among with rfl | among
      · exact ⟨[], .self⟩
      · exact inner among
    · exact inner among

theorem exists_standsIn_children {kind : NodeKind} (ts : List (Tree α)) (among : t ∈ descendantsOf kind ts) :
    ∃ before s after behind, ts = before ++ s :: after ∧ t.StandsIn s behind := by
  cases ts with
  | nil => cases among
  | cons s rest =>
    rcases List.mem_append.1 among with first | later
    · obtain ⟨behind, stands⟩ := exists_standsIn s first
      exact ⟨[], s, rest, behind, rfl, stands⟩
    · obtain ⟨before, u, after, behind, rfl, stands⟩ := exists_standsIn_children rest later
      exact ⟨s :: before, u, after, behind, rfl, stands⟩

end

/-- A node among the filled parts comes from one among the parts. -/
theorem expandAll_split {kind : NodeKind} {ts : List (Tree α)} {us before after : List (Tree β)}
    (split : expandAll f ts = before ++ .node kind us :: after) :
    ∃ front vs rest, ts = front ++ .node kind vs :: rest ∧ expandAll f front = before ∧
      expandAll f vs = us ∧ expandAll f rest = after := by
  induction ts generalizing before with
  | nil => cases before <;> cases split
  | cons t others ih =>
    have later {between : List (Tree β)} (first : before = t.expand f ++ between)
        (split : expandAll f others = between ++ .node kind us :: after) : ∃ front vs rest,
        t :: others = front ++ .node kind vs :: rest ∧ expandAll f front = before ∧
          expandAll f vs = us ∧ expandAll f rest = after := by
      obtain ⟨front, vs, rest, rfl, rfl, inner, behind⟩ := ih split
      exact ⟨t :: front, vs, rest, rfl, first.symm, inner, behind⟩
    -- The node stands behind what the first tree becomes, or it is what that tree becomes.
    rcases List.append_eq_append_iff.1 split with ⟨more, first, split⟩ | ⟨more, first, split⟩
    · exact later first split
    cases more with
    | nil => exact later (by simpa using first.symm : before = t.expand f ++ []) split.symm
    | cons u more =>
      obtain ⟨rfl, rfl⟩ := List.cons.inj split
      cases t with
      | leaf a =>
        have among : Tree.node kind us ∈ (leaf a).expand f := by
          rw [first]
          exact List.mem_append_right _ List.mem_cons_self
        obtain ⟨b, -, is⟩ := List.mem_map.1 among
        cases is
      | node k vs =>
        cases before with
        | nil =>
          obtain ⟨is, rfl⟩ := List.cons.inj first
          cases is
          exact ⟨[], vs, others, rfl, rfl, rfl, rfl⟩
        | cons b before => cases before <;> cases (List.cons.inj first).2

/-- A node that stands in a filled tree comes from one that stands in the tree. -/
theorem StandsIn.unfilled {kind : NodeKind} {us : List (Tree β)} {s : Tree β} {behind : List β}
    (stands : (node kind us).StandsIn s behind) {k : NodeKind} {ts : List (Tree α)}
    (filled : s = .node k (expandAll f ts)) :
    ∃ vs slots, (node kind vs).StandsIn (.node k ts) slots ∧ expandAll f vs = us ∧
      slots.flatMap f = behind := by
  induction stands generalizing k ts with
  | self =>
    cases filled
    exact ⟨ts, [], .self, rfl, rfl⟩
  | @child k' before after s behind inner ih =>
    obtain ⟨rfl, split⟩ := Tree.node.inj filled
    cases s with
    | leaf a => cases inner
    | node i children =>
      obtain ⟨front, vs, rest, rfl, -, rfl, rfl⟩ := expandAll_split split.symm
      obtain ⟨us', slots, stands, same, rfl⟩ := ih rfl
      exact ⟨us', slots ++ leavesOf rest, .child stands, same, by simp [leavesOf_expandAll]⟩

/-! ### What types hold -/

/-- The parts are words of the source as they are, with the angles of a type. -/
def Angled (all : List Word) (parts : List (Tree Slot)) : Prop :=
  ∃ before ws behind, all = before ++ ws ++ behind ∧ Spelt before.length ws parts ∧
    AnglesRead (ws.map (·.kind)) behind

/-- A leaf, or an expression that is kept like a type. -/
def Flat : Tree Slot → Prop
  | leaf _ => True
  | node kind parts => kind = .typeExpr ∧ ∀ t ∈ parts, ∃ s, t = leaf s

/-- All types in the tree were read as types, but for the expressions of exports. -/
inductive Typed (all : List Word) : Tree Slot → Prop where
  | leaf (s : Slot) : Typed all (leaf s)
  | type {parts : List (Tree Slot)} (angled : Angled all parts) : Typed all (node .typeExpr parts)
  | node {kind : NodeKind} {parts : List (Tree Slot)} (ordinary : Ordinary kind)
      (each : ∀ t ∈ parts, t.Typed all) : Typed all (node kind parts)
  | exported {parts : List (Tree Slot)} (each : ∀ t ∈ parts, ¬t.Flat → t.Typed all) :
      Typed all (node .exportAssignment parts)

/-- Only the node itself stands in a node that has leaves alone. -/
theorem StandsIn.of_leaves {kind k : NodeKind} {us parts : List (Tree α)} {behind : List α}
    (stands : (Tree.node kind us).StandsIn (.node k parts) behind)
    (leaves : ∀ t ∈ parts, ∃ a, t = Tree.leaf a) : us = parts := by
  cases stands with
  | self => rfl
  | child inner =>
    obtain ⟨a, rfl⟩ := leaves _ (List.mem_append_right _ List.mem_cons_self)
    cases inner

/-- A type in a typed tree, but for an expression of an export, has the angles of a type. -/
theorem Typed.angled {all : List Word} {t : Tree Slot} (typed : t.Typed all) {kind : NodeKind}
    (other : kind ≠ .exportAssignment) {before us after : List (Tree Slot)} {behind : List Slot}
    (stands : (Tree.node kind (before ++ .node .typeExpr us :: after)).StandsIn t behind) :
    Angled all us := by
  have among {t : Tree Slot} {front rest : List (Tree Slot)} : t ∈ front ++ t :: rest :=
    List.mem_append_right _ List.mem_cons_self
  have inLeaves {k : NodeKind} {parts : List (Tree Slot)} {behind : List Slot}
      (stands : (Tree.node kind (before ++ .node .typeExpr us :: after)).StandsIn (.node k parts) behind)
      (leaves : ∀ t ∈ parts, ∃ s, t = Tree.leaf s) : False := by
    obtain ⟨s, leaf⟩ := leaves (.node .typeExpr us) (stands.of_leaves leaves ▸ among)
    cases leaf
  induction typed generalizing behind with
  | leaf s => cases stands
  | type angled =>
    obtain ⟨_, ws, _, _, spelt, _⟩ := angled
    exact (inLeaves stands spelt.leaves).elim
  | node ordinary each ih =>
    cases stands with
    | self =>
      cases each _ among with
      | type angled => exact angled
      | node ordinary => exact absurd rfl ordinary.1
    | child inner => exact ih _ among inner
  | exported each ih =>
    cases stands with
    | self => exact absurd rfl other
    | @child _ _ _ s _ inner =>
      by_cases flat : s.Flat
      · cases s with
        | leaf a => cases inner
        | node k parts => exact (inLeaves inner flat.2).elim
      · exact ih s among flat inner

end Tree

namespace Grammar

/-! ### What the rules bring -/

variable {all ws : List Word} {c d e : Cursor} {sort : Tree Slot → Prop}

/-- Between the cursors words were read, and the parts that came are of the sort. -/
structure Brings (sort : Tree Slot → Prop) (c d : Cursor) : Prop where
  opened : d.opened = c.opened
  words : ∃ ws, c.rest = ws ++ d.rest ∧ d.passed = c.passed + ws.length
  parts : ∃ ps, d.parts.toList = c.parts.toList ++ ps ∧ ∀ t ∈ ps, sort t

namespace Brings

theorem trans (h : Brings sort c d) (g : Brings sort d e) : Brings sort c e := by
  obtain ⟨us, read, passed⟩ := h.words
  obtain ⟨vs, read', passed'⟩ := g.words
  obtain ⟨ps, parts, first⟩ := h.parts
  obtain ⟨qs, parts', more⟩ := g.parts
  refine ⟨g.opened.trans h.opened, ⟨us ++ vs, ?_, ?_⟩, ps ++ qs, ?_, ?_⟩
  · rw [read, read', List.append_assoc]
  · rw [passed', passed, List.length_append, Nat.add_assoc]
  · rw [parts', parts, List.append_assoc]
  · exact fun t mem => (List.mem_append.1 mem).elim (first t) (more t)

theorem same (same : Same c d) : Brings sort c d := by
  obtain ⟨_, _, _, rfl⟩ := same
  exact ⟨rfl, ⟨[], rfl, rfl⟩, [], by simp, nofun⟩

theorem took (leaf : ∀ s, sort (.leaf s)) {label : LeafKind} {w : Word} (took : Took label w c d) :
    Brings sort c d := by
  obtain ⟨gap, parts⟩ := took.parts
  refine ⟨took.opened, ⟨[w], took.rest, took.passed⟩, _, parts.trans (List.append_assoc ..), ?_⟩
  intro t mem
  rcases List.mem_append.1 mem with due | word
  · exact Gap.eq_of_mem_due due ▸ leaf _
  · exact List.mem_singleton.1 word ▸ leaf _

theorem placeGap (leaf : ∀ s, sort (.leaf s)) (c : Cursor) : Brings sort c c.placeGap :=
  ⟨rfl, ⟨[], rfl, rfl⟩, _, Cursor.toList_parts_placeGap c, fun _ due => Gap.eq_of_mem_due due ▸ leaf _⟩

end Brings

theorem one_brings {r : Rule Unit} (one : ∀ c, Yields r c fun _ d => ∃ w label, Took label w c d)
    (leaf : ∀ s, sort (.leaf s)) (c : Cursor) : Accepts r c fun _ d => Brings sort c d :=
  Yields.imp (one c) fun _ _ ⟨_, _, took⟩ tidy => ⟨took.tidy tidy, .took leaf took⟩

/-- A node around words that are read as they are. -/
theorem node_brings {kind : NodeKind} {body : Rule Unit} {Q : List Word → List Word → Prop}
    (h : ∀ c, Accepts body c fun _ d => ∃ ws, Copies c d ws ∧ Q ws d.rest)
    (leaf : ∀ s, sort (.leaf s)) (c : Cursor)
    (holds : ∀ ws us behind, c.rest = ws ++ behind → Spelt c.passed ws us → Q ws behind →
      sort (.node kind us)) :
    Accepts (node kind body) c fun _ d => Brings sort c d := by
  refine Yields.imp (node_yields (h _)) fun _ d closed tidy => ?_
  obtain ⟨e, o, os, post, opened, rfl⟩ := closed
  obtain ⟨began, ws, copies, about⟩ := post tidy.ofClose
  obtain ⟨ps, parts, spelt⟩ := copies.parts
  obtain ⟨rfl, rfl⟩ := List.cons.inj (opened.symm.trans copies.opened)
  refine ⟨⟨began.complaints, began.lastPlace, began.refused⟩,
    .trans (.placeGap leaf c) ⟨by simp [Cursor.closeNode, opened], ⟨ws, copies.rest, copies.passed⟩,
      [.node kind ps], ?_, ?_⟩⟩
  · have whole : e.parts.toList = c.placeGap.parts.toList ++ ps := parts
    rw [Cursor.toList_parts_closeNode, whole, ← Array.length_toList, List.take_left, List.drop_left]
  · simpa using holds ws ps e.rest copies.rest spelt about

/-- A run that has to have a word. -/
theorem expected_reads (stop : KindSet) (mode : RunMode) (kind : DiagnosticKind) (c : Cursor) :
    Accepts (do if !(← balanced stop mode) then error kind) c fun _ d => ∃ ws, Copies c d ws ∧
      (mode.angles = true → AnglesRead (ws.map (·.kind)) d.rest) := by
  refine (balanced_reads stop mode c).bind fun _ _ post => ?_
  refine .ite (fun _ => error_accepts _ _) fun _ => ?_
  refine .pure fun tidy => ?_
  exact (post tidy).2

/-! ### Exports -/

theorem expectSemicolon_brings (leaf : ∀ s, sort (.leaf s)) (c : Cursor) :
    Accepts expectSemicolon c fun _ d => Brings sort c d := by
  have ends := atEnd_answers.or ((currentIs_answers .braceClose).or onFreshLine_answers)
  have eaten : Accepts (eat .semicolon) c fun _ d => Brings sort c d :=
    Yields.imp (eat_yields _ c) fun b d eaten tidy => by
      cases b with
      | false => exact ⟨eaten.1.tidy tidy, .same eaten.1⟩
      | true =>
        obtain ⟨w, -, took⟩ := eaten
        exact ⟨took.tidy tidy, .took leaf took⟩
  refine eaten.bind fun b d post => .ite (fun _ => .pure fun tidy => (post tidy).2) fun _ => ?_
  refine .ask ends fun e same => .ite (fun _ => .pure fun tidy => ?_) fun _ => complain_accepts _ _
  exact (post (same.tidy tidy)).2.trans (.same same)

/-- The expression of an export, and what ends it. -/
theorem expressionTail_brings (c : Cursor) :
    Accepts expressionTail c fun _ d => Brings Tree.Flat c d := by
  have leaf (s : Slot) : Tree.Flat (.leaf s) := trivial
  have expression : Accepts (node .typeExpr do
      if !(← skipExpression .statementEnd) then error .expectedExpression) c
      fun _ d => Brings Tree.Flat c d :=
    node_brings (Q := fun _ _ => True) (fun c => (expected_reads _ _ _ c).imp fun _ _ _ _ ⟨ws, copies, _⟩ =>
      ⟨ws, copies, trivial⟩) leaf c fun _ _ _ _ spelt _ => ⟨rfl, spelt.leaves⟩
  refine expression.bind fun _ d post => (expectSemicolon_brings leaf d).imp fun _ e between _ more => ?_
  exact (post between).2.trans more

theorem exportAssignment_brings (c : Cursor) :
    Accepts (do takeKeyword .kwExport; bump; expressionTail) c fun _ d => Brings Tree.Flat c d := by
  have leaf (s : Slot) : Tree.Flat (.leaf s) := trivial
  refine (one_brings (takeKeyword_one _) leaf c).bind fun _ d first => ?_
  refine (one_brings bump_one leaf d).bind fun _ e second => ?_
  refine (expressionTail_brings e).imp fun _ f between _ more => ?_
  obtain ⟨tidy, equals⟩ := second between
  exact ((first tidy).2.trans equals).trans more

/-! ### Typed parts -/

/-- The words that are left end the source, and all parts are typed. -/
structure AllTyped (all : List Word) (c : Cursor) : Prop where
  words : ∃ before, all = before ++ c.rest ∧ before.length = c.passed
  parts : ∀ t ∈ c.parts.toList, t.Typed all

namespace AllTyped

theorem further (typed : AllTyped all c) (read : ∃ ws, c.rest = ws ++ d.rest ∧
    d.passed = c.passed + ws.length) : ∃ before, all = before ++ d.rest ∧ before.length = d.passed := by
  obtain ⟨before, whole, count⟩ := typed.words
  obtain ⟨ws, rest, passed⟩ := read
  exact ⟨before ++ ws, by rw [whole, rest, List.append_assoc], by rw [List.length_append, count, passed]⟩

theorem brings (typed : AllTyped all c) (brings : Brings (Tree.Typed all) c d) : AllTyped all d where
  words := typed.further brings.words
  parts t mem := by
    obtain ⟨ps, parts, more⟩ := brings.parts
    rw [parts] at mem
    exact (List.mem_append.1 mem).elim (typed.parts t) (more t)

/-- The parts from some place on, closed into a node. -/
theorem close (typed : AllTyped all c) {kind : NodeKind} {first : Nat}
    (holds : Tree.Typed all (.node kind (c.parts.toList.drop first)))
    (before : ∀ t ∈ c.parts.toList.take first, t.Typed all) : AllTyped all (c.closeNode kind first) where
  words := typed.words
  parts t mem := by
    rw [Cursor.toList_parts_closeNode] at mem
    rcases List.mem_append.1 mem with old | new
    · exact before t old
    · exact List.mem_singleton.1 new ▸ holds

end AllTyped

/-- A node at a checkpoint begins among the parts that are there. -/
theorem nodeAt_begins (point : Checkpoint) (kind : NodeKind) (body : Rule Unit) (c : Cursor) :
    Yields (nodeAt point kind body) c fun _ _ => point ≤ c.parts.size := by
  have starts : Yields (startNodeAt point kind) c fun _ _ => point ≤ c.parts.size := by
    refine .get (.ite (fun _ => (Yields.throw _).bind fun _ _ none => none) fun kept x d run => ?_)
    simp only [Bool.or_eq_true, decide_eq_true_eq, not_or, Nat.not_lt] at kept
    exact kept.1
  exact starts.bind fun _ _ kept _ _ _ => kept

/-- An export around an expression. -/
theorem exported_upholds {body : Rule Unit} (h : ∀ c, Accepts body c fun _ d => Brings Tree.Flat c d)
    (point : Checkpoint) : Upholds (AllTyped all) (nodeAt point .exportAssignment body) := by
  intro c x d run tidy
  have kept := nodeAt_begins point _ body c x d run
  obtain ⟨e, o, os, post, opened, rfl⟩ := nodeAt_yields (h _) x d run
  obtain ⟨began, brings⟩ := post tidy.ofClose
  obtain ⟨ps, parts, flat⟩ := brings.parts
  obtain ⟨rfl, rfl⟩ := List.cons.inj (opened.symm.trans brings.opened)
  refine ⟨⟨began.complaints, began.lastPlace, began.refused⟩, by simp [Cursor.closeNode, opened],
    fun typed => ⟨typed.further brings.words, fun t mem => ?_⟩⟩
  have whole : e.parts.toList = c.parts.toList ++ ps := parts
  -- The node begins among the old parts, so all that its body brought is in it.
  rw [Cursor.toList_parts_closeNode, whole, List.take_append_of_le_length (by simpa using kept)] at mem
  rcases List.mem_append.1 mem with old | new
  · exact typed.parts t (List.mem_of_mem_take old)
  · refine List.mem_singleton.1 new ▸ .exported fun u among other => ?_
    exact (List.mem_append.1 (List.mem_of_mem_drop among)).elim (typed.parts u) fun more =>
      absurd (flat u more) other

theorem typed_lasting (all : List Word) : Lasting (AllTyped all) where
  congr rest passed parts typed := by
    obtain ⟨words, typed⟩ := typed
    exact ⟨by rwa [rest, passed], by rwa [parts]⟩
  took took typed := typed.brings (.took .leaf took)
  placeGap typed := typed.brings (.placeGap .leaf _)
  close ordinary first typed := typed.close
    (.node ordinary fun t mem => typed.parts t (List.mem_of_mem_drop mem))
    fun t mem => typed.parts t (List.mem_of_mem_take mem)
  typeExpr stop c := by
    have type : Accepts (typeExpr stop) c fun _ d => Brings (fun t => AllTyped all c → t.Typed all) c d :=
      node_brings (Q := fun ws behind => AnglesRead (ws.map (·.kind)) behind)
        (fun c => (expected_reads _ _ _ c).imp fun _ _ _ _ ⟨ws, copies, angles⟩ => ⟨ws, copies, angles rfl⟩)
        (fun s _ => .leaf s) c fun ws us behind read spelt angles typed => by
          obtain ⟨before, whole, count⟩ := typed.words
          exact .type ⟨before, ws, behind, by rw [whole, read, List.append_assoc], count ▸ spelt, angles⟩
    refine type.imp fun _ d _ _ brings => ?_
    obtain ⟨opened, words, ps, parts, each⟩ := brings
    exact ⟨opened, fun typed => typed.brings ⟨opened, words, ps, parts, fun t mem => each t mem typed⟩⟩
  exportDefault point := exported_upholds expressionTail_brings point
  exportAssignment point := exported_upholds exportAssignment_brings point

end Grammar

/-! ### Words by their numbers -/

theorem filterMap_range' {α : Type} (xs : List α) (a n : Nat) :
    (List.range' a n).filterMap (xs[·]?) = (xs.drop a).take n := by
  induction n generalizing a with
  | zero => simp
  | succ n ih =>
    rw [List.range'_succ, List.filterMap_cons, ih]
    by_cases inside : a < xs.length
    · rw [List.getElem?_eq_getElem inside, List.drop_eq_getElem_cons inside, List.take_succ_cons]
    · have past : xs.length ≤ a := Nat.not_lt.1 inside
      rw [List.getElem?_eq_none past, List.drop_eq_nil_of_le past,
        List.drop_eq_nil_of_le (Nat.le_succ_of_le past)]
      simp

/-- Of all numbers, those behind some are the numbers of what is behind. -/
theorem numbers_behind {α : Type} {before ws behind : List α} (some : ws ≠ []) {front back : List Nat}
    (split : List.range' 0 (before ++ ws ++ behind).length =
      front ++ (List.range' before.length ws.length ++ back)) :
    back.filterMap ((before ++ ws ++ behind)[·]?) = behind := by
  obtain ⟨k, -, -, later⟩ := List.range'_eq_append_iff.1 split
  obtain ⟨n, -, here, rfl⟩ := List.range'_eq_append_iff.1 later.symm
  have count : n = ws.length := by simpa using (congrArg List.length here).symm
  obtain ⟨m, length⟩ := Nat.exists_eq_succ_of_ne_zero (List.length_pos_iff.2 some).ne'
  have first : k = before.length := by
    rw [count, length, List.range'_succ, List.range'_succ] at here
    simpa using (List.cons.inj here).1.symm
  rw [filterMap_range', count, first]
  simp

/-- The kinds of the words that the slots name. -/
def slotKinds (all : List Word) (slots : List Slot) : List TokenKind :=
  (slots.filterMap Slot.word?).filterMap ((all.map (·.kind))[·]?)

/-- In a typed tree of the whole source the angles of a type match, or a bracket closes behind it. -/
theorem Tree.Typed.angles {all : List Word} {t : Tree Slot} (typed : t.Typed all)
    (numbers : wordsOf [t] = List.range' 0 all.length) {kind : NodeKind}
    (other : kind ≠ .exportAssignment) {before us after : List (Tree Slot)} {behind : List Slot}
    (stands : (Tree.node kind (before ++ .node .typeExpr us :: after)).StandsIn t behind) :
    WellNested false (slotKinds all (leavesOf us)) ∧
    (AnglesMatch (slotKinds all (leavesOf us)) ∨
      ∃ k ∈ (slotKinds all (leavesOf after ++ behind)).head?, k.isCloser = true) := by
  obtain ⟨first, ws, later, rfl, spelt, nested, angles⟩ := typed.angled other stands
  obtain ⟨ahead, leaves⟩ := stands.leaves
  have among : slotKinds (first ++ ws ++ later) (leavesOf us) = ws.map (·.kind) := by
    rw [slotKinds, ← wordsOf, spelt.numbers, filterMap_range']
    simp
  rw [among]
  refine ⟨nested, ?_⟩
  -- A type without words has no numbers that tell where it stands, but no angles either.
  by_cases empty : ws = []
  · exact .inl (by rw [empty]; rfl)
  have split : List.range' 0 (first ++ ws ++ later).length =
      (ahead ++ leavesOf before).filterMap Slot.word? ++
        (List.range' first.length ws.length ++ (leavesOf after ++ behind).filterMap Slot.word?) := by
    rw [← numbers, ← spelt.numbers, wordsOf, leavesOf, leavesOf, List.append_nil, leaves]
    simp [Tree.leaves, leavesOf, wordsOf]
  have back : slotKinds (first ++ ws ++ later) (leavesOf after ++ behind) = later.map (·.kind) := by
    rw [slotKinds, List.map_append, List.map_append]
    exact numbers_behind (by simpa using empty)
      (by simpa only [List.length_append, List.length_map] using split)
  rw [back, List.head?_map]
  rcases angles with closed | ⟨w, next, closer⟩
  · exact .inl closed
  · exact .inr ⟨w.kind, Option.mem_map_of_mem _ next, closer⟩

/-! ### Types of a source -/

/-- The kinds of the tokens in the leaves, trivia left out. -/
def wordKinds (leaves : List Leaf) : List TokenKind :=
  (leaves.map (·.token.kind)).filter (!·.isTrivia)

theorem wordKinds_append (first more : List Leaf) :
    wordKinds (first ++ more) = wordKinds first ++ wordKinds more := by
  simp [wordKinds]

/-- What is filled in are the words that the slots name. -/
theorem wordKinds_fill (tokens : List Token) (slots : List Slot) :
    wordKinds (slots.flatMap (Layout.ofTokens tokens).fill) = slotKinds (Word.ofTokens tokens) slots := by
  have kinds : (Word.ofTokens tokens).map (·.kind) =
      (tokens.filter (!·.kind.isTrivia)).map (·.kind) := by
    rw [Word.ofTokens, Word.kinds_after, List.filter_map]
    rfl
  rw [slotKinds, kinds]
  induction slots with
  | nil => rfl
  | cons s rest ih =>
    rw [List.flatMap_cons, wordKinds_append, ih]
    cases s with
    | gap i =>
      have blank : wordKinds ((Layout.ofTokens tokens).fill (.gap i)) = [] := by
        refine List.filter_eq_nil_iff.2 fun k mem => ?_
        obtain ⟨a, filled, rfl⟩ := List.mem_map.1 mem
        have trivia := (Layout.parted_ofTokens tokens).isTrivia_fill i a filled
        obtain ⟨t, -, rfl⟩ := List.mem_map.1 filled
        simpa [LeafKind.isTrivia] using trivia
      rw [blank]
      rfl
    | word i label =>
      rw [List.filterMap_cons_some (show Slot.word? (.word i label) = some i from rfl), List.filterMap_cons,
        List.getElem?_map]
      simp only [Layout.fill, Layout.ofTokens, List.getElem?_toArray]
      cases found : (tokens.filter (!·.kind.isTrivia))[i]? with
      | none => rfl
      | some t =>
        have word := (List.mem_filter.1 (List.mem_of_getElem? found)).2
        have one : wordKinds [⟨label, t⟩] = [t.kind] := by simpa [wordKinds] using word
        exact congrArg (· ++ _) one

/-- In a source without diagnostics the brackets of each type are well nested, and outside of them
every `<` is closed by a `>` of the type, unless a closing bracket stands directly behind the type:
what is open then was no bracket. Only the expression of an export is no type. -/
theorem parseWithin_angles {budget : Budget} {text : String} {p : Parsed}
    (parsed : parseWithin budget text = .ok p) (clean : p.diagnostics = [])
    {kind : NodeKind} (other : kind ≠ .exportAssignment) {before us after : List SyntaxTree}
    {behind : List Leaf}
    (stands : (Tree.node kind (before ++ .node .typeExpr us :: after)).StandsIn p.tree behind) :
    WellNested false (wordKinds (Tree.leavesOf us)) ∧
    (AnglesMatch (wordKinds (Tree.leavesOf us)) ∨
      ∃ k ∈ (wordKinds (Tree.leavesOf after ++ behind)).head?, k.isCloser = true) := by
  obtain ⟨c, children, run, walk, kept, rest, gap, tree, rfl⟩ := run_of_parseWithin parsed
  have none : c.complaints = [] := by simpa [Outline.dress] using clean
  have tidy : c.Tidy :=
    ⟨none, Classical.not_not.1 fun noted => walk.frame.noted (absurd rfl) noted none, kept⟩
  have typed : AllTyped (Word.ofTokens (lex text)) c :=
    ((typed_lasting _).source _ () c run tidy).2.2 ⟨⟨[], rfl, rfl⟩, fun t mem => by cases mem⟩
  have numbers : Tree.wordsOf [.node .sourceFile children] =
      List.range' 0 (Word.ofTokens (lex text)).length := by
    obtain ⟨added, parts, words⟩ := walk.wordsOf
    obtain rfl : [.node .sourceFile children] = added := by rw [← tree, parts]; rfl
    obtain ⟨passed, all, count⟩ := typed.words
    rw [words, all, rest, List.append_nil, count]
    rfl
  have root := typed.parts (.node .sourceFile children) (by rw [tree]; exact List.mem_singleton.2 rfl)
  -- The tokens are put in slot by slot, so the type and what is behind it have slots of their own.
  obtain ⟨parts, slots, inRoot, filled, rfl⟩ := stands.unfilled (Outline.tree_dress children _ _)
  obtain ⟨front, vs, last, rfl, -, rfl, rfl⟩ := Tree.expandAll_split filled
  have angles := root.angles numbers other inRoot
  rw [Tree.leavesOf_expandAll, Tree.leavesOf_expandAll, ← List.flatMap_append, wordKinds_fill,
    wordKinds_fill]
  exact angles

/-- The alias takes in the declaration behind it, up to the end of the namespace. -/
theorem parseWithin_angles_namespace : ∃ p before us after behind,
    parseWithin {} "namespace N \x7b type A = B<C; var x: number; \x7d" = .ok p ∧
    (Tree.node .typeAliasDeclaration (before ++ .node .typeExpr us :: after)).StandsIn p.tree behind ∧
    WellNested false (wordKinds (Tree.leavesOf us)) ∧ ¬AnglesMatch (wordKinds (Tree.leavesOf us)) ∧
    ∃ k ∈ (wordKinds (Tree.leavesOf after ++ behind)).head?, k.isCloser = true := by
  have found : (parseWithin {} "namespace N \x7b type A = B<C; var x: number; \x7d").toOption.any (fun p =>
      p.diagnostics.isEmpty && decide (∃ t ∈ p.tree.descendants .typeAliasDeclaration,
        t.isNode .typeAliasDeclaration = true ∧ ∃ u ∈ SyntaxTree.childrenOf t .typeExpr,
          ¬AnglesMatch (wordKinds u.leaves))) = true := by decide +kernel
  obtain ⟨p, parsed, found⟩ := exists_of_any_toOption found
  simp only [Bool.and_eq_true, List.isEmpty_iff, decide_eq_true_eq] at found
  obtain ⟨clean, t, among, is, u, child, unmatched⟩ := found
  obtain ⟨behind, stands⟩ := Tree.exists_standsIn p.tree among
  cases t with
  | leaf a => cases is
  | node kind children =>
    obtain rfl : kind = .typeAliasDeclaration := by simpa [Tree.isNode] using is
    obtain ⟨inChildren, isType⟩ := List.mem_filter.1 child
    cases u with
    | leaf a => cases isType
    | node k us =>
      obtain rfl : k = .typeExpr := by simpa [Tree.isNode] using isType
      obtain ⟨before, after, rfl⟩ := List.append_of_mem inChildren
      obtain ⟨nested, angles⟩ := parseWithin_angles parsed clean (by decide) stands
      exact ⟨p, before, us, after, behind, parsed, stands, nested, unmatched,
        angles.resolve_left unmatched⟩

/-- Nobody complains of a type that takes in the next parameter, nor of an angle that is still open
where its bracket closes. -/
theorem open_angles_accepted :
    (∃ p, parse "declare function f(a: A<B, c: C): void;" = .ok p ∧ p.diagnostics = [] ∧
      (p.tree.descendants .parameter).length = 1 ∧
      ∃ t ∈ p.tree.descendants .typeAscription, ∃ u ∈ SyntaxTree.childrenOf t .typeExpr,
        ¬AnglesMatch (wordKinds u.leaves)) ∧
    ∃ p, parse "type A = (B < C);" = .ok p ∧ p.diagnostics = [] ∧
      ∃ t ∈ p.tree.descendants .typeAliasDeclaration, ∃ u ∈ SyntaxTree.childrenOf t .typeExpr,
        .angleOpen ∈ wordKinds u.leaves ∧ .angleClose ∉ wordKinds u.leaves := by
  constructor
  · have found : (parse "declare function f(a: A<B, c: C): void;").toOption.any (fun p =>
        decide (p.diagnostics.isEmpty = true ∧ (p.tree.descendants .parameter).length = 1 ∧
          ∃ t ∈ p.tree.descendants .typeAscription, ∃ u ∈ SyntaxTree.childrenOf t .typeExpr,
            ¬AnglesMatch (wordKinds u.leaves))) = true := by decide +kernel
    obtain ⟨p, parsed, found⟩ := exists_of_any_toOption found
    exact ⟨p, parsed, by simpa only [List.isEmpty_iff, decide_eq_true_eq] using found⟩
  · have found : (parse "type A = (B < C);").toOption.any (fun p => decide (p.diagnostics.isEmpty = true ∧
        ∃ t ∈ p.tree.descendants .typeAliasDeclaration, ∃ u ∈ SyntaxTree.childrenOf t .typeExpr,
          .angleOpen ∈ wordKinds u.leaves ∧ .angleClose ∉ wordKinds u.leaves)) = true := by
      decide +kernel
    obtain ⟨p, parsed, found⟩ := exists_of_any_toOption found
    exact ⟨p, parsed, by simpa only [List.isEmpty_iff, decide_eq_true_eq] using found⟩

end ImplicitGlobals
