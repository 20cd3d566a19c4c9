import ImplicitGlobals.Proofs.Boundary.Recovery
import ImplicitGlobals.Proofs.Grammar.Trail

/-!
# Going forward

What every run leaves behind, whatever it reads: the words that it passes are in the tree, once each
and in order, what is open stays open, and nothing that was done before is undone.
-/

namespace ImplicitGlobals.Grammar

variable {W : List Word} {c d e : Cursor}

/-- What is ahead is the rest of the words. -/
def Cursor.Within (W : List Word) (c : Cursor) : Prop := c.rest = W.drop c.passed

/-- Between the cursors words were read and put into the tree, behind what was there before the
innermost node began. -/
structure Advances (c d : Cursor) : Prop where
  opened : d.opened = c.opened
  openers : d.openers = c.openers
  read : ∃ ws, c.rest = ws ++ d.rest ∧ d.passed = c.passed + ws.length
  words : Tree.wordsOf d.parts.toList =
    Tree.wordsOf c.parts.toList ++ List.range' c.passed (d.passed - c.passed)
  kept : ∀ o ∈ c.opened.head?, o.first ≤ c.parts.size →
    d.parts.toList.take o.first = c.parts.toList.take o.first
  tidy : d.Tidy → c.Tidy
  unbounded : c.budget = {} → d.budget = {}

namespace Advances

/-- The cursor does not go back. -/
theorem passed_le (h : Advances c d) : c.passed ≤ d.passed := by
  obtain ⟨ws, -, passed⟩ := h.read
  omega

/-- What lies within the words still does. -/
theorem within (h : Advances c d) (within : c.Within W) : d.Within W := by
  obtain ⟨ws, rest, passed⟩ := h.read
  rw [Cursor.Within] at within ⊢
  rw [passed, ← List.drop_drop, ← within, rest, List.drop_left]

/-- Nothing was done that is seen in the words or in the tree. -/
theorem still (opened : d.opened = c.opened) (openers : d.openers = c.openers) (rest : d.rest = c.rest)
    (passed : d.passed = c.passed) (parts : d.parts = c.parts) (tidy : d.Tidy → c.Tidy)
    (unbounded : c.budget = {} → d.budget = {}) : Advances c d :=
  ⟨opened, openers, ⟨[], rest.symm, passed⟩, by simp [parts, passed], fun _ _ _ => by rw [parts], tidy,
    unbounded⟩

theorem refl (c : Cursor) : Advances c c := still rfl rfl rfl rfl rfl id id

/-- Two advances make one. -/
theorem trans (h : Advances c d) (g : Advances d e) : Advances c e where
  opened := g.opened.trans h.opened
  openers := g.openers.trans h.openers
  read := by
    obtain ⟨us, rest, passed⟩ := h.read
    obtain ⟨vs, rest', passed'⟩ := g.read
    exact ⟨us ++ vs, by rw [rest, rest', List.append_assoc], by
      rw [passed', passed, List.length_append, Nat.add_assoc]⟩
  words := by rw [g.words, h.words, List.append_assoc, range'_meet h.passed_le g.passed_le]
  kept o head within := by
    have same := h.kept o head within
    have within : o.first ≤ d.parts.size := by
      have := congrArg List.length same
      simp only [List.length_take, Array.length_toList] at this
      omega
    exact (g.kept o (h.opened ▸ head) within).trans same
  tidy := h.tidy ∘ g.tidy
  unbounded := g.unbounded ∘ h.unbounded

theorem placeGap (c : Cursor) : Advances c c.placeGap where
  opened := rfl
  openers := rfl
  read := ⟨[], rfl, rfl⟩
  words := by
    rw [Cursor.toList_parts_placeGap, Tree.wordsOf_append, wordsOf_due]
    simp [Cursor.placeGap]
  kept o _ within := by
    rw [Cursor.toList_parts_placeGap, List.take_append_of_le_length (by simpa using within)]
  tidy tidy := ⟨tidy.complaints, tidy.lastPlace, tidy.refused⟩
  unbounded := id

/-- A word that is read is one word further. -/
theorem took {label : LeafKind} {w : Word} (took : Took label w c d) : Advances c d where
  opened := took.opened
  openers := took.openers
  read := ⟨[w], took.rest, took.passed⟩
  words := by
    obtain ⟨gap, parts⟩ := took.parts
    have one : Tree.wordsOf [.leaf (.word c.passed label)] = [c.passed] := rfl
    rw [parts, Tree.wordsOf_append, Tree.wordsOf_append, wordsOf_due, one, took.passed,
      Nat.add_sub_cancel_left, List.append_nil]
    rfl
  kept o _ within := by
    obtain ⟨gap, parts⟩ := took.parts
    rw [parts, List.append_assoc, List.take_append_of_le_length (by simpa using within)]
  tidy := took.tidy
  unbounded free := (took.unbounded free).1

theorem note (c : Cursor) (k : Complaint) : Advances c (c.note k) :=
  still rfl rfl rfl rfl rfl (fun tidy => by cases tidy.lastPlace) id

/-- Closing a node takes no words out. -/
theorem wordsOf_closeNode (e : Cursor) (kind : NodeKind) (first : Nat) :
    Tree.wordsOf (e.closeNode kind first).parts.toList = Tree.wordsOf e.parts.toList := by
  rw [Cursor.toList_parts_closeNode, Tree.wordsOf_append, Tree.wordsOf_node, ← Tree.wordsOf_append,
    List.take_append_drop]

/-- The parts of a node that is closed are those that came since it began. -/
theorem close {kind : NodeKind} {first : Nat} (among : first ≤ c.parts.size)
    (outer : first < c.parts.size → ∀ o ∈ c.opened.head?, o.first ≤ first)
    (body : Advances (c.openNode kind first) e) : Advances c (e.closeNode kind first) where
  opened := by simp [Cursor.closeNode, body.opened, Cursor.openNode]
  openers := body.openers
  read := body.read
  words := (wordsOf_closeNode e kind first).trans body.words
  kept o head within := by
    have inner : o.first ≤ first := by
      by_cases less : first < c.parts.size
      · exact outer less o head
      · omega
    have kept : e.parts.toList.take first = c.parts.toList.take first := body.kept ⟨kind, first⟩ rfl among
    have size : (c.parts.toList.take first).length = first := by simpa using among
    rw [Cursor.toList_parts_closeNode, kept, List.take_append_of_le_length (size.symm ▸ inner),
      List.take_take, Nat.min_eq_left inner]
  tidy tidy :=
    have began := body.tidy ⟨tidy.complaints, tidy.lastPlace, tidy.refused⟩
    ⟨began.complaints, began.lastPlace, began.refused⟩
  unbounded := body.unbounded

/-- A delimiter that was pushed is popped. -/
theorem pop {kind : TokenKind} (h : Advances (c.pushOpener kind) e) : Advances c e.popOpener where
  opened := h.opened
  openers := by
    rw [Cursor.popOpener, h.openers]
    rfl
  read := h.read
  words := h.words
  kept := h.kept
  tidy tidy :=
    have began := h.tidy ⟨tidy.complaints, tidy.lastPlace, tidy.refused⟩
    ⟨began.complaints, began.lastPlace, began.refused⟩
  unbounded := h.unbounded

section

variable {kind : NodeKind} (body : Advances (c.openNode kind c.parts.size) e)
include body

/-- What was there when a node began that takes up nothing from before is still there. -/
theorem take_parts : e.parts.toList.take c.parts.size = c.parts.toList :=
  (body.kept ⟨kind, c.parts.size⟩ rfl (Nat.le_refl _)).trans (List.take_of_length_le (Nat.le_refl _))

/-- Such a node holds the words that were read since it began. -/
theorem wordsOf_drop : Tree.wordsOf (e.parts.toList.drop c.parts.size) =
    List.range' c.passed (e.passed - c.passed) := by
  have words : Tree.wordsOf e.parts.toList = _ := body.words
  rw [← List.take_append_drop c.parts.size e.parts.toList, Tree.wordsOf_append, body.take_parts] at words
  exact List.append_cancel_left words

end

end Advances

/-- The steps of the grammar follow this trail. -/
theorem advances_trail : Trail (fun _ => True) Advances where
  refl := .refl
  trans := .trans
  opened := Advances.opened
  count _ _ _ _ _ kept := .still rfl rfl rfl rfl rfl
    (fun tidy => ⟨tidy.complaints, tidy.lastPlace, kept tidy.refused⟩) id
  took := .took
  placeGap := .placeGap
  note {c k} _ _ := .note c k
  close _ among outer body := body.close among outer
  within _ read body := ((Advances.took read).trans body).pop

theorem Same.advances (same : Same c d) : Advances c d := advances_trail.ofSame same

/-- Every rule goes forward. -/
def advancing : GrammarRelation := advances_trail.whole

end ImplicitGlobals.Grammar
