import ImplicitGlobals.Proofs.Namespaces.Rewriting

/-!
# Reading the other form

Two runs, over words with a namespace and over the words with its other form, are at the same words up
to the keyword and again behind the namespace. There the first one has put the namespace into its tree
and the second one the other form into the same place.
-/

namespace ImplicitGlobals.Grammar

variable {c c' d d' e e' : Cursor} {point : Checkpoint}

/-! ### Reading a namespace -/

/-- A module was read from its keyword on, behind the gap and with the parts from `point` on as its first ones. -/
structure Declared (words back : List Word) (ts : List SyntaxTree) (point : Checkpoint) (c d : Cursor) : Prop where
  advances : Advances c d
  ready : Ready words d
  left : d.rest = back
  gap : d.gap = .ahead
  added : ∃ ps, d.parts.toList = c.skipGap.placeGap.parts.toList.take point ++ [.node .moduleDeclaration
    (c.skipGap.placeGap.parts.toList.drop point ++ .leaf (.word c.passed (.keyword .kwNamespace)) :: ps)] ∧
      Tree.expandAll (bareSlot words) ps = ts

/-- Reading a module from its keyword on declares it. -/
theorem ReadsRest.declared {words ahead back : List Word} {ts : List SyntaxTree} {keyword : Word}
    (reads : ReadsRest words ahead back ts) (is : keyword.isWord Keyword.kwNamespace.word = true)
    (ready : Ready words c) (rest : c.rest = keyword :: (ahead ++ back)) (point : Checkpoint) (n : Nat) :
    Yields (moduleDeclaration point (statementWithin n)) c fun _ d => Declared words back ts point c d := by
  let o := c.openNode .moduleDeclaration point
  have body : Yields (do bumpKeyword; moduleRest (statementWithin n)) o fun _ e => Ready words e ∧ e.rest = back ∧
      e.gap = .ahead ∧ e.opened = o.opened ∧ ∃ ps, e.parts.toList = c.skipGap.placeGap.parts.toList ++
        .leaf (.word c.passed (.keyword .kwNamespace)) :: ps ∧ Tree.expandAll (bareSlot words) ps = ts := by
    refine (bumpKeyword_bumped o).bind fun _ f read => ?_
    obtain ⟨w, read⟩ := read
    obtain ⟨rfl, left⟩ := List.cons.inj (read.rest.symm.trans (show o.rest = _ from rest))
    have behind := read.behind
    rw [wordLabel_of_isWord is] at behind
    have begun : Ready words o := ready.of rfl rfl rfl rfl rfl rfl
    refine (reads n f (read.toTook.ready begun) left).imp fun _ e post => ?_
    obtain ⟨ready', left', ahead', added⟩ := post
    obtain ⟨ps, parts, trees⟩ := added.parts
    exact ⟨ready', left', ahead', added.opened.trans read.opened, ps, by rw [parts, behind, List.append_assoc]; rfl, trees⟩
  have moved : advancing.points.Holds point point := trivial
  have advances : Yields (moduleDeclaration point (statementWithin n)) c fun _ d => Advances c d :=
    advancing.moduleDeclaration (advancing.statementWithin (p := Anywhere) n n) moved c
  intro x d run
  obtain ⟨among, -, e, k, ks, ⟨ready', left', ahead', opened, ps, parts, trees⟩, top, rfl⟩ := nodeAt_closes body x d run
  obtain ⟨rfl, -⟩ := List.cons.inj (top.symm.trans opened)
  have among : point ≤ c.skipGap.placeGap.parts.toList.length := by
    rw [Cursor.toList_parts_placeGap, List.length_append]
    exact Nat.le_add_right_of_le among
  refine ⟨advances x _ run, ready'.of rfl rfl rfl rfl rfl rfl, left', ahead', ps, ?_, trees⟩
  rw [Cursor.toList_parts_closeNode, parts, List.take_append_of_le_length among, List.drop_append_of_le_length among]

namespace Rewriting

variable {b : Rewriting}

/-! ### Two runs -/

/-- How far the two runs are. -/
inductive Stage (b : Rewriting) (c c' : Cursor) : Prop
  | before (upTo : c.passed ≤ b.start) (passed' : c'.passed = c.passed) (parts' : c'.parts.toList = c.parts.toList)
  | behind (k : Nat) (passed : c.passed = b.start + b.width + k) (passed' : c'.passed = b.start + b.width' + k)
      (rewritten : b.RewrittenIn c.parts.toList c'.parts.toList)

/-- The second run stands where the first one does, but for the namespace. -/
structure Alongside (b : Rewriting) (c c' : Cursor) : Prop where
  ready : Ready b.words c
  ready' : Ready b.words' c'
  stage : b.Stage c c'
  gap : c'.gap = c.gap
  opened : c'.opened = c.opened
  openers : c'.openers.map (·.kind) = c.openers.map (·.kind)
  read : Tree.wordsOf c.parts.toList = List.range' 0 c.passed

namespace Alongside

/-- Before the namespace is reached it is not among the parts. -/
theorem not_found (read : Tree.wordsOf c.parts.toList = List.range' 0 c.passed) (upTo : c.passed ≤ b.start) :
    ¬b.FoundIn c.parts.toList := fun found => by
  have mem := mem_wordsOf_of_foundIn found
  rw [read, List.mem_range'_1] at mem
  omega

section

variable (h : b.Alongside c c')
include h

/-- The words ahead agree outside the namespace. -/
theorem agree : Agree c.rest c'.rest := by
  rw [h.ready.rest, h.ready'.rest]
  cases h.stage with
  | before upTo passed' =>
    rw [passed', words, words', namespaceWords, namespaceWords, List.drop_append_of_le_length upTo,
      List.drop_append_of_le_length upTo]
    exact (Agree.header _ _ _ b.announces).behind _
  | behind k passed passed' =>
    rw [passed, passed', drop_words_behind, drop_words'_behind]
    exact .refl _

/-- There are as many parts in both runs. -/
theorem size : c'.parts.size = c.parts.size := by
  rw [← Array.length_toList, ← Array.length_toList]
  cases h.stage with
  | before _ _ parts' => rw [parts']
  | behind _ _ _ rewritten => exact rewritten.length_eq

/-- Steps that only count, or open and shut brackets. -/
theorem still {d d' : Cursor} (ready : Ready b.words d) (ready' : Ready b.words' d') (passed : d.passed = c.passed)
    (passed' : d'.passed = c'.passed) (parts : d.parts = c.parts) (parts' : d'.parts = c'.parts)
    (gap : d'.gap = d.gap) (opened : d'.opened = d.opened)
    (openers : d'.openers.map (·.kind) = d.openers.map (·.kind)) : b.Alongside d d' where
  ready := ready
  ready' := ready'
  stage := by
    cases h.stage with
    | before upTo same same' => exact .before (passed ▸ upTo) (by rw [passed', same, passed]) (by rw [parts', same', parts])
    | behind k here here' rewritten =>
      exact .behind k (passed.trans here) (passed'.trans here') (parts ▸ parts' ▸ rewritten)
  gap := gap
  opened := opened
  openers := openers
  read := by rw [parts, passed, h.read]

/-- Both runs place their gap. -/
theorem placeGap : b.Alongside c.placeGap c'.placeGap where
  ready := h.ready.of rfl rfl rfl rfl rfl rfl
  ready' := h.ready'.of rfl rfl rfl rfl rfl rfl
  stage := by
    cases h.stage with
    | before upTo passed' parts' =>
      refine .before upTo passed' ?_
      rw [Cursor.toList_parts_placeGap, Cursor.toList_parts_placeGap, parts', h.gap, passed']
    | behind k passed passed' rewritten =>
      refine .behind k passed passed' ?_
      rw [Cursor.toList_parts_placeGap, Cursor.toList_parts_placeGap, h.gap]
      exact rewritten.append (sameWords_due _ _ _)
  gap := by rw [Cursor.placeGap, Cursor.placeGap, h.gap]
  opened := h.opened
  openers := h.openers
  read := by
    rw [Cursor.toList_parts_placeGap, Tree.wordsOf_append, wordsOf_due, List.append_nil]
    exact h.read

/-- A word read in both runs keeps them alongside, unless the namespace is lost. -/
theorem word {w : Word} {ws : List Word} (current : c.rest = w :: ws) (label : LeafKind) :
    b.Lost (c.read label) ∨ b.Alongside (c.read label) (c'.read label) := by
  have read : Tree.wordsOf (c.read label).parts.toList = List.range' 0 (c.passed + 1) := by
    have one : Tree.wordsOf [.leaf (.word c.passed label)] = [c.passed] := rfl
    rw [Cursor.toList_parts_read, Tree.wordsOf_append, Tree.wordsOf_append, wordsOf_due, one, h.read,
      List.range'_1_concat, List.append_nil, Nat.zero_add]
  have next (stage : b.Stage (c.read label) (c'.read label)) : b.Alongside (c.read label) (c'.read label) :=
    ⟨h.ready.read label, h.ready'.read label, stage, rfl, h.opened, h.openers, read⟩
  cases h.stage with
  | before upTo passed' parts' =>
    rcases Nat.eq_or_lt_of_le upTo with here | less
    · refine .inl ⟨Nat.lt_of_lt_of_eq (Nat.lt_succ_self _) (congrArg (· + 1) here.symm), fun _ found => ?_⟩
      rw [Cursor.toList_parts_read, List.append_assoc, foundIn_append, foundIn_append] at found
      exact found.elim (not_found h.read upTo)
        (not_or.2 ⟨not_foundIn_due _ _, not_foundIn_leaves rfl⟩)
    · refine .inr (next (.before less (congrArg (· + 1) passed') ?_))
      rw [Cursor.toList_parts_read, Cursor.toList_parts_read, parts', h.gap, passed']
  | behind k passed passed' rewritten =>
    have here : b.words[c.passed]? = some w := by rw [← List.head?_drop, ← h.ready.rest, current]; rfl
    have here' : b.words'[c'.passed]? = some w := by
      rw [← List.head?_drop, passed', drop_words'_behind, ← drop_words_behind, ← passed, List.head?_drop, here]
    refine .inr (next (.behind (k + 1) (congrArg (· + 1) passed) (congrArg (· + 1) passed') ?_))
    rw [Cursor.toList_parts_read, Cursor.toList_parts_read, List.append_assoc, List.append_assoc, h.gap]
    refine rewritten.append (List.rel_append (sameWords_due _ _ _) (.cons ?_ .nil))
    rw [SameWords, Tree.Coincide, Tree.expand, Tree.expand, bareSlot, bareSlot, here, here']

/-- A node closed in both runs keeps them alongside, unless the namespace is lost. -/
theorem closeNode (kind : NodeKind) (first : Nat) (found : ¬b.Lost (c.closeNode kind first)) :
    b.Alongside (c.closeNode kind first) (c'.closeNode kind first) where
  ready := h.ready.of rfl rfl rfl rfl rfl rfl
  ready' := h.ready'.of rfl rfl rfl rfl rfl rfl
  stage := by
    cases h.stage with
    | before upTo passed' parts' =>
      refine .before upTo passed' ?_
      rw [Cursor.toList_parts_closeNode, Cursor.toList_parts_closeNode, parts']
    | behind k passed passed' rewritten =>
      have late : b.start < c.passed := by rw [passed, width]; omega
      refine .behind k passed passed' ?_
      have found : b.FoundIn (c.closeNode kind first).parts.toList := foundIn_of_not_lost late found
      rw [Cursor.toList_parts_closeNode] at found ⊢
      rw [Cursor.toList_parts_closeNode]
      exact rewritten.close found
  gap := h.gap
  opened := by rw [Cursor.closeNode, Cursor.closeNode, h.opened]
  openers := h.openers
  read := (Advances.wordsOf_closeNode c kind first).trans h.read

end

end Alongside

/-- The runs are in lockstep by these steps. -/
theorem lockstep (b : Rewriting) : Lockstep (· ≠ .moduleDeclaration) b.Leaves .same b.Lost b.Alongside where
  trail := Leaves.trail
  tidy h := h.toAdvances.tidy
  openers h := h.toAdvances.openers
  lost := Leaves.lost
  agree := Alongside.agree
  gap := Alongside.gap
  refused h := h.ready'.refused.trans h.ready.refused.symm
  opened outer inner top := ⟨_, rfl, by rw [inner.opened, top, outer.opened]⟩
  size h := h.size.symm
  block h := by
    have first (os : List Opener) : os.head?.any (·.kind == .braceOpen) =
        (os.map (·.kind)).head?.any (· == .braceOpen) := by
      rw [List.head?_map, Option.any_map]
    rw [first, first, h.openers]
  unbounded h := ⟨h.ready.budget, h.ready'.budget⟩
  count h _ _ _ _ _ := h.still (h.ready.of rfl rfl rfl rfl rfl rfl) (h.ready'.of rfl rfl rfl rfl rfl rfl) rfl rfl rfl
    rfl rfl h.opened h.openers
  read h current label := h.word current label
  placeGap := Alongside.placeGap
  openNode h kind _ _ moved _ := by
    cases moved
    exact h.still (h.ready.of rfl rfl rfl rfl rfl rfl) (h.ready'.of rfl rfl rfl rfl rfl rfl) rfl rfl rfl rfl h.gap
      (congrArg (_ :: ·) h.opened) h.openers
  lost_closeNode ordinary first lost := ⟨lost.1, fun tidy found =>
    lost.2 ⟨tidy.complaints, tidy.lastPlace, tidy.refused⟩ (foundIn_of_closeNode found fun is => absurd is ordinary)⟩
  closeNode _ _ inner _ moved _ found := by
    cases moved
    exact inner.closeNode _ _ found
  pushOpener h kind := h.still (h.ready.of rfl rfl rfl rfl rfl rfl) (h.ready'.of rfl rfl rfl rfl rfl rfl) rfl rfl rfl
    rfl h.gap h.opened (congrArg (kind :: ·) h.openers)
  lost_popOpener lost := ⟨lost.1, fun tidy => lost.2 ⟨tidy.complaints, tidy.lastPlace, tidy.refused⟩⟩
  popOpener _ h _ := h.still (h.ready.of rfl rfl rfl rfl rfl rfl) (h.ready'.of rfl rfl rfl rfl rfl rfl) rfl rfl rfl rfl
    h.gap h.opened (by simpa [Cursor.popOpener, List.map_tail] using congrArg List.tail h.openers)

end Rewriting

end ImplicitGlobals.Grammar
