import ImplicitGlobals.Proofs.Acceptance.Soundness
import ImplicitGlobals.Proofs.Grammar.Advancing

/-!
# Complaints stay

A rule only ever adds complaints, of words that it has come to and once of each. So behind a word, or
where it was complained of, it is settled whether a semicolon is missing in front of it.
-/

namespace ImplicitGlobals.Grammar

variable {α β : Type} {c d e : Cursor} {i : Nat}

/-! ### Rules side by side -/

section

variable {c' : Cursor} {r r' : Rule α} {P Q : α → Cursor → Prop} {R : α → α → Cursor → Cursor → Prop}

/-- What each of two rules comes back with. -/
theorem Yields.both (h : Yields r c P) (g : Yields r' c' Q) :
    Yields r c fun x d => Yields r' c' fun y d' => P x d ∧ Q y d' :=
  h.imp fun _ _ left => g.imp fun _ _ right => ⟨left, right⟩

/-- Two rules that go on from two others. -/
theorem Yields.bindBoth {f g : α → Rule β} {S : β → β → Cursor → Cursor → Prop}
    (h : Yields r c fun x d => Yields r' c' fun y d' => R x y d d')
    (next : ∀ x y d d', R x y d d' → Yields (f x) d fun z e => Yields (g y) d' fun w e' => S z w e e') :
    Yields (r >>= f) c fun z e => Yields (r' >>= g) c' fun w e' => S z w e e' :=
  h.bind fun x d post z e run => Yields.bind post fun y d' rel => next x y d d' rel z e run

end

/-! ### What is left behind -/

/-- The node is among the parts or inside one of them. -/
def Cursor.Has (c : Cursor) (kind : NodeKind) (us : List (Tree Slot)) : Prop :=
  .node kind us ∈ Tree.descendantsOf kind c.parts.toList

/-- Between the cursors complaints were added, and no node was taken apart. -/
structure Notes (c d : Cursor) : Prop extends Advances c d where
  added : ∃ new, d.complaints = new ++ c.complaints ∧
    ∀ k ∈ new, c.passed ≤ k.place ∧ (c.lastPlace = some c.passed → c.passed < k.place)
  last : c.lastPlace = some c.passed → d.passed = c.passed → d.lastPlace = some d.passed
  nodes : ∀ kind us, c.Has kind us → d.Has kind us

namespace Notes

/-- Nothing was complained of. -/
theorem still (advances : Advances c d) (complaints : d.complaints = c.complaints) (lastPlace : d.lastPlace = c.lastPlace)
    {more : List (Tree Slot)} (parts : d.parts.toList = c.parts.toList ++ more) : Notes c d where
  toAdvances := advances
  added := ⟨[], complaints, fun _ mem => absurd mem List.not_mem_nil⟩
  last last same := by rw [lastPlace, last, same]
  nodes kind us has := by
    rw [Cursor.Has, parts, Tree.descendantsOf_append]
    exact List.mem_append_left _ has

/-- Nothing was noted. -/
theorem refl (c : Cursor) : Notes c c := still (.refl c) rfl rfl (List.append_nil _).symm

/-- What was noted in two steps was noted. -/
theorem trans (h : Notes c d) (g : Notes d e) : Notes c e where
  toAdvances := h.toAdvances.trans g.toAdvances
  added := by
    obtain ⟨new, added, places⟩ := h.added
    obtain ⟨more, added', places'⟩ := g.added
    refine ⟨more ++ new, by rw [added', added, List.append_assoc], fun k mem => ?_⟩
    rcases List.mem_append.1 mem with mem | mem
    · have between := h.passed_le
      have place := places' k mem
      refine ⟨Nat.le_trans between place.1, fun last => ?_⟩
      by_cases same : d.passed = c.passed
      · exact same ▸ place.2 (h.last last same)
      · omega
    · exact places k mem
  last last same := by
    have first := h.passed_le
    have second := g.passed_le
    exact g.last (h.last last (by omega)) (by omega)
  nodes kind us has := g.nodes kind us (h.nodes kind us has)

/-- A word that is read notes nothing. -/
theorem took {label : LeafKind} {w : Word} (took : Took label w c d) : Notes c d :=
  have ⟨_, parts⟩ := took.parts
  still (.took took) took.complaints took.lastPlace (parts.trans (List.append_assoc ..))

/-- A fresh complaint is noted where the cursor stands. -/
theorem note {k : Complaint} (fresh : c.lastPlace ≠ some c.passed) (place : k.place = c.passed) :
    Notes c (c.note k) where
  toAdvances := .note c k
  added := ⟨[k], rfl, fun j mem => by
    obtain rfl := List.mem_singleton.1 mem
    exact ⟨Nat.le_of_eq place.symm, fun last => absurd last fresh⟩⟩
  last last := absurd last fresh
  nodes _ _ := id

/-- A node that is closed takes others in. -/
theorem has_closeNode {kind : NodeKind} {us : List (Tree Slot)} (k : NodeKind) (first : Nat) (has : c.Has kind us) :
    (c.closeNode k first).Has kind us := by
  rw [Cursor.Has, ← List.take_append_drop first c.parts.toList, Tree.descendantsOf_append] at has
  rw [Cursor.Has, Cursor.toList_parts_closeNode, Tree.descendantsOf_append]
  rcases List.mem_append.1 has with outside | inside
  · exact List.mem_append_left _ outside
  · exact List.mem_append_right _ (Tree.mem_descendantsOf.2
      ⟨_, List.mem_singleton.2 rfl, Tree.mem_descendants_node.2 (.inr inside)⟩)

/-- A node that is closed behind its body holds the words that were read since it began. -/
theorem closes {kind : NodeKind} (h : Notes (c.openNode kind c.parts.size) e) :
    ∃ us, (e.closeNode kind c.parts.size).Has kind us ∧ Tree.wordsOf us = List.range' c.passed (e.passed - c.passed) := by
  refine ⟨e.parts.toList.drop c.parts.size, ?_, h.toAdvances.wordsOf_drop⟩
  rw [Cursor.Has, Cursor.toList_parts_closeNode, Tree.descendantsOf_append]
  exact List.mem_append_right _ (Tree.mem_descendantsOf.2
    ⟨_, List.mem_singleton.2 rfl, Tree.mem_descendants_node.2 (.inl ⟨rfl, rfl⟩)⟩)

end Notes

/-- The steps of the grammar follow the trail of notes. -/
theorem notes_trail : Trail (fun _ => True) Notes where
  refl := .refl
  trans := .trans
  opened h := h.opened
  count c gap looks depth _ kept := .still (advances_trail.count c gap looks depth kept) rfl rfl (List.append_nil _).symm
  took := .took
  placeGap c := .still (.placeGap c) rfl rfl (Cursor.toList_parts_placeGap c)
  note fresh makes := .note fresh makes.place
  close {_ _ kind first} _ among outer body :=
    { body with
      toAdvances := body.toAdvances.close among outer
      nodes := fun k us has => Notes.has_closeNode kind first (body.nodes k us has) }
  within _ read body :=
    have inner := (Notes.took read).trans body
    { inner with toAdvances := inner.toAdvances.pop }

/-- Every rule only adds complaints. -/
def noting : GrammarRelation := notes_trail.whole

section

variable {σ : Type} {turn : Rule Bool}

/-- Rounds take no note back. -/
theorem notes_rounds {step : σ → Rule (Turn σ)} (h : ∀ s, Trails Notes (step s)) (n : Nat) (s : σ) :
    Trails Notes (rounds step n s) :=
  show noting.Rel Anywhere .same (rounds step n s) (rounds step n s) from
    noting.rounds (I := .same) (fun s _ _ => h s) n n s s rfl

/-- Repetitions take no note back. -/
theorem notes_repeatWhile (h : Trails Notes turn) : Trails Notes (repeatWhile turn) :=
  show noting.Rel Anywhere .same (repeatWhile turn) (repeatWhile turn) from noting.repeatWhile h

/-- Lists take no note back. -/
theorem notes_delimited (d : Delimiters) (unclosed : d.unclosed.isUnclosed = true) (h : Trails Notes turn) :
    Trails Notes (delimited d turn) :=
  show noting.Rel Anywhere .same (delimited d turn) (delimited d turn) from noting.delimited d unclosed h

end

/-! ### Building -/

/-- Two cursors between which nothing was done but look and build. -/
structure Stays (c d : Cursor) : Prop where
  same : ∃ gap looks depth parts opened, d = { c with gap, looks, depth, parts, opened }
  nodes : ∀ kind us, c.Has kind us → d.Has kind us

/-- Looking is nothing but looking. -/
theorem Same.stays (same : Same c d) : Stays c d := by
  obtain ⟨gap, looks, depth, rfl⟩ := same
  exact ⟨⟨gap, looks, depth, _, _, rfl⟩, fun _ _ => id⟩

namespace Stays

/-- Two such steps make one. -/
theorem trans (h : Stays c d) (g : Stays d e) : Stays c e where
  same := by
    obtain ⟨_, _, _, _, _, rfl⟩ := h.same
    obtain ⟨_, _, _, _, _, rfl⟩ := g.same
    exact ⟨_, _, _, _, _, rfl⟩
  nodes kind us has := g.nodes kind us (h.nodes kind us has)

/-- Placing the gap only builds. -/
theorem placeGap (c : Cursor) : Stays c c.placeGap :=
  ⟨⟨_, _, _, _, _, rfl⟩, (notes_trail.placeGap c).nodes⟩

/-- Opening a node only builds. -/
theorem openNode (c : Cursor) (kind : NodeKind) (first : Nat) : Stays c (c.openNode kind first) :=
  ⟨⟨_, _, _, _, _, rfl⟩, fun _ _ => id⟩

/-- Closing a node only builds, and the node is among the parts then. -/
theorem closeNode (c : Cursor) (kind : NodeKind) (first : Nat) : Stays c (c.closeNode kind first) :=
  ⟨⟨_, _, _, _, _, rfl⟩, fun _ _ => Notes.has_closeNode kind first⟩

variable (h : Stays c d)
include h

/-- The words ahead are the same. -/
theorem rest : d.rest = c.rest := by obtain ⟨_, _, _, _, _, rfl⟩ := h.same; rfl

/-- As many words are behind. -/
theorem passed : d.passed = c.passed := by obtain ⟨_, _, _, _, _, rfl⟩ := h.same; rfl

/-- The same delimiters are open. -/
theorem openers : d.openers = c.openers := by obtain ⟨_, _, _, _, _, rfl⟩ := h.same; rfl

/-- The budget is the same. -/
theorem budget : d.budget = c.budget := by obtain ⟨_, _, _, _, _, rfl⟩ := h.same; rfl

/-- It is spent or not as before. -/
theorem refused : d.refused = c.refused := by obtain ⟨_, _, _, _, _, rfl⟩ := h.same; rfl

/-- The last complaint is the same. -/
theorem lastPlace : d.lastPlace = c.lastPlace := by obtain ⟨_, _, _, _, _, rfl⟩ := h.same; rfl

/-- The complaints are the same. -/
theorem complaints : d.complaints = c.complaints := by obtain ⟨_, _, _, _, _, rfl⟩ := h.same; rfl

end Stays

/-- What comes before and behind the body of a node only builds. -/
theorem node_builds {kind : NodeKind} {body : Rule Unit} {Q : Cursor → Prop}
    (h : ∀ d, Stays c d → Yields body d fun _ e => ∀ f, Stays e f → Q f) : Yields (node kind body) c fun _ f => Q f :=
  (node_yields (h _ ((Stays.placeGap c).trans (.openNode _ kind _)))).imp fun _ _ closed => by
    obtain ⟨e, o, os, post, -, rfl⟩ := closed
    exact post _ (.closeNode e o.kind o.first)

/-- A node is seen through from its entry to its end. -/
theorem nodeAt_builds {point : Checkpoint} {kind : NodeKind} {body : Rule Unit} {Q : Cursor → Prop}
    (h : ∀ d, Stays c d → Yields body d fun _ e => ∀ f, Stays e f → Q f) :
    Yields (nodeAt point kind body) c fun _ f => Q f :=
  (nodeAt_yields (h _ (.openNode c kind point))).imp fun _ _ closed => by
    obtain ⟨e, o, os, post, -, rfl⟩ := closed
    exact post _ (.closeNode e o.kind o.first)

section

variable {c' : Cursor} {kind : NodeKind} {body body' : Rule Unit} {R : Cursor → Cursor → Prop}
  (h : ∀ d d', Stays c d → Stays c' d' →
    Yields body d fun _ e => Yields body' d' fun _ e' => ∀ f f', Stays e f → Stays e' f' → R f f')
include h

/-- Of two nodes that are read side by side the bodies count. -/
theorem nodes_build : Yields (node kind body) c fun _ f => Yields (node kind body') c' fun _ f' => R f f' :=
  node_builds fun d left _ e run f after => node_builds fun d' right _ e' run' f' after' =>
    h d d' left right _ e run _ e' run' f f' after after'

/-- Two nodes are, whatever their checkpoints. -/
theorem nodesAt_build {point point' : Checkpoint} :
    Yields (nodeAt point kind body) c fun _ f => Yields (nodeAt point' kind body') c' fun _ f' => R f f' :=
  nodeAt_builds fun d left _ e run f after => nodeAt_builds fun d' right _ e' run' f' after' =>
    h d d' left right _ e run _ e' run' f f' after after'

end

/-- The node of the second rule holds the words that its body has read. -/
theorem nodes_close {c' : Cursor} {kind : NodeKind} {body body' : Rule Unit} {R : Cursor → Cursor → Prop}
    (notes : Trails Notes body') (h : ∀ d d', Stays c d → Stays c' d' →
      Yields body d fun _ e => Yields body' d' fun _ e' => ∀ f f', Stays e f → Stays e' f' →
        (∃ us, f'.Has kind us ∧ Tree.wordsOf us = List.range' c'.passed (e'.passed - c'.passed)) → R f f') :
    Yields (node kind body) c fun _ f => Yields (node kind body') c' fun _ f' => R f f' :=
  node_builds fun d left _ e run f after => by
    let start := c'.placeGap.openNode kind c'.placeGap.parts.size
    have opens : Stays c' start := (Stays.placeGap c').trans (.openNode _ kind _)
    refine Yields.imp (node_yields (Q := fun e' => Notes start e' ∧ ∀ f', Stays e' f' →
      (∃ us, f'.Has kind us ∧ Tree.wordsOf us = List.range' c'.passed (e'.passed - c'.passed)) → R f f')
      fun y e' run' => ⟨notes start y e' run', fun f' => h d start left opens _ e run y e' run' f f' after⟩) fun _ f' closed => ?_
    obtain ⟨e', o, os, ⟨noted, post⟩, opened, rfl⟩ := closed
    obtain ⟨rfl, -⟩ := List.cons.inj (opened.symm.trans noted.opened)
    exact post _ (.closeNode ..) noted.closes

/-! ### What is settled -/

/-- No semicolon is missing in front of word `i`, and it is too late to say so. -/
structure Cursor.Judged (i : Nat) (c : Cursor) : Prop where
  behind : i < c.passed ∨ c.passed = i ∧ c.lastPlace = some i
  whole : ∀ enclosing, .noSemicolon i enclosing ∉ c.complaints

/-- Nothing was complained of at word `i`, and it is behind the cursor. -/
structure Cursor.Silent (i : Nat) (c : Cursor) : Prop where
  behind : i < c.passed
  silent : ∀ k ∈ c.complaints, k.place ≠ i

/-- The complaints before word `i` are these. -/
structure Cursor.Onto (i : Nat) (old : List Complaint) (c : Cursor) : Prop where
  behind : i ≤ c.passed
  added : ∃ new, c.complaints = new ++ old ∧ ∀ k ∈ new, i ≤ k.place

namespace Notes

/-- A question that is settled stays settled. -/
theorem judged (h : Notes c d) (judged : c.Judged i) : d.Judged i := by
  obtain ⟨new, added, places⟩ := h.added
  have between := h.passed_le
  refine ⟨?_, fun enclosing mem => ?_⟩
  · rcases judged.behind with behind | ⟨here, last⟩
    · exact .inl (by omega)
    · by_cases same : d.passed = c.passed
      · have still := h.last (here ▸ last) same
        rw [same, here] at still
        exact .inr ⟨same.trans here, still⟩
      · exact .inl (by omega)
  · rw [added] at mem
    rcases List.mem_append.1 mem with mem | mem
    · have place : c.passed ≤ i ∧ (c.lastPlace = some c.passed → c.passed < i) := places _ mem
      rcases judged.behind with behind | ⟨here, last⟩
      · omega
      · have := place.2 (here ▸ last)
        omega
    · exact judged.whole enclosing mem

/-- A word that is behind without a complaint stays so. -/
theorem silent (h : Notes c d) (silent : c.Silent i) : d.Silent i := by
  obtain ⟨new, added, places⟩ := h.added
  refine ⟨Nat.lt_of_lt_of_le silent.behind h.passed_le, fun k mem => ?_⟩
  rw [added] at mem
  rcases List.mem_append.1 mem with mem | mem
  · have place := (places k mem).1
    have behind := silent.behind
    omega
  · exact silent.silent k mem

/-- The complaints before a word stay the same. -/
theorem onto {old : List Complaint} (h : Notes c d) (onto : c.Onto i old) : d.Onto i old := by
  obtain ⟨new, added, places⟩ := h.added
  obtain ⟨before, were, early⟩ := onto.added
  refine ⟨Nat.le_trans onto.behind h.passed_le, new ++ before, by rw [added, were, List.append_assoc], fun k mem => ?_⟩
  rcases List.mem_append.1 mem with mem | mem
  · exact Nat.le_trans onto.behind (places k mem).1
  · exact early k mem

end Notes

namespace Stays

/-- Building settles and unsettles nothing. -/
theorem judged (h : Stays c d) (judged : c.Judged i) : d.Judged i := by
  obtain ⟨_, _, _, _, _, rfl⟩ := h.same
  exact ⟨judged.behind, judged.whole⟩

/-- It complains of nothing. -/
theorem silent (h : Stays c d) (silent : c.Silent i) : d.Silent i := by
  obtain ⟨_, _, _, _, _, rfl⟩ := h.same
  exact ⟨silent.behind, silent.silent⟩

/-- It adds to no complaints. -/
theorem onto {old : List Complaint} (h : Stays c d) (onto : c.Onto i old) : d.Onto i old := by
  obtain ⟨_, _, _, _, _, rfl⟩ := h.same
  exact ⟨onto.behind, onto.added⟩

end Stays

end ImplicitGlobals.Grammar
