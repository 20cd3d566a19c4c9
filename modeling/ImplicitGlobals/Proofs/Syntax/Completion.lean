import ImplicitGlobals.Proofs.Grammar.Statement
import ImplicitGlobals.Syntax.Parse

/-!
# Every source is read to its end

No source and no budget makes the grammar break one of its promises. A spent
budget refuses the result; anything else becomes a tree with one root.
-/

namespace ImplicitGlobals

open Grammar

namespace Outline

theorem ofCursor_of_refused {c : Cursor} {l : Limit} (h : c.refused = some l) :
    ofCursor c = .error (.limit l) := by
  simp [ofCursor, h]

theorem ofCursor_of_complete {c : Cursor} (kept : c.refused = none) {children : List (Tree Slot)}
    (tree : c.parts.toList = [.node .sourceFile children]) :
    ofCursor c = .ok ⟨.node .sourceFile children, c.complaints.reverse⟩ := by
  have whole : wholeTree.run c = .ok (.node .sourceFile children, c) := by
    simp only [wholeTree, StateT.run_bind, StateT.run_get, pure_bind, tree]
    rfl
  simp [ofCursor, kept, whole]

/-- The root stays the root when its leaves are filled in. -/
theorem tree_dress (children : List (Tree Slot)) (complaints : List Complaint) (l : Layout) :
    (dress ⟨.node .sourceFile children, complaints⟩ l).tree =
      .node .sourceFile (Tree.expandAll l.fill children) := rfl

end Outline

/-- What the grammar makes of a source is what parsing gives. -/
theorem parseWithin_eq {budget : Budget} {text : String} {c : Cursor}
    (run : source.run (.start budget (Word.ofTokens (lex text))) = .ok ((), c)) :
    parseWithin budget text =
      (Outline.ofCursor c).map fun o => o.dress (.ofTokens (lex text)) := by
  have outline : Outline.ofWords budget (Word.ofTokens (lex text)) = Outline.ofCursor c := by
    simp only [Outline.ofWords, run]
  rw [parseWithin, outline]
  cases Outline.ofCursor c <;> rfl

/-- A tree comes from a run over all words. -/
theorem run_of_parseWithin {budget : Budget} {text : String} {p : Parsed}
    (parsed : parseWithin budget text = .ok p) :
    ∃ c children, source.run (.start budget (Word.ofTokens (lex text))) = .ok ((), c) ∧
      Walk (.start budget (Word.ofTokens (lex text))) c ∧ c.refused = none ∧ c.rest = [] ∧ c.gap = .placed ∧
      c.parts.toList = [.node .sourceFile children] ∧
      p = Outline.dress ⟨.node .sourceFile children, c.complaints.reverse⟩ (.ofTokens (lex text)) := by
  obtain ⟨c, run, walk, complete⟩ := source_run budget (Word.ofTokens (lex text))
  obtain ⟨children, tree⟩ := complete.tree
  rw [parseWithin_eq run] at parsed
  cases spent : c.refused with
  | some l =>
    rw [Outline.ofCursor_of_refused spent] at parsed
    cases parsed
  | none =>
    rw [Outline.ofCursor_of_complete spent tree] at parsed
    cases parsed
    have rest := complete.ended.resolve_right (absurd spent)
    exact ⟨c, children, run, walk, spent, rest, complete.gap, tree, rfl⟩

/-- A tree comes from a walk over all words. -/
theorem walk_of_parseWithin {budget : Budget} {text : String} {p : Parsed}
    (parsed : parseWithin budget text = .ok p) :
    ∃ c children, Walk (.start budget (Word.ofTokens (lex text))) c ∧ c.rest = [] ∧ c.gap = .placed ∧
      c.parts.toList = [.node .sourceFile children] ∧
      p = Outline.dress ⟨.node .sourceFile children, c.complaints.reverse⟩ (.ofTokens (lex text)) := by
  obtain ⟨c, children, -, walk, -, rest, gap, tree, whole⟩ := run_of_parseWithin parsed
  exact ⟨c, children, walk, rest, gap, tree, whole⟩

/-- The grammar comes to the end of every source within every budget without a breach: it
never looks too often, never reads past the end and enters every rule where the rule may
be entered, begun nodes are closed, and the one root is a source file. Only a spent budget
keeps the result back. -/
theorem parseWithin_completes (budget : Budget) (text : String) :
    ∃ c, source.run (.start budget (Word.ofTokens (lex text))) = .ok ((), c) ∧
      c.opened = [] ∧ (c.rest = [] ∨ c.refused ≠ none) ∧
      (∃ children, c.parts.toList = [.node .sourceFile children]) ∧
      (∀ l, c.refused = some l → parseWithin budget text = .error (.limit l)) ∧
      (c.refused = none → ∃ p children,
        parseWithin budget text = .ok p ∧ p.tree = .node .sourceFile children) := by
  obtain ⟨c, run, walk, complete⟩ := source_run budget (Word.ofTokens (lex text))
  obtain ⟨children, tree⟩ := complete.tree
  refine ⟨c, run, walk.frame.opened, complete.ended, ⟨children, tree⟩, fun l spent => ?_, fun kept => ?_⟩
  · rw [parseWithin_eq run, Outline.ofCursor_of_refused spent]
    rfl
  · rw [parseWithin_eq run, Outline.ofCursor_of_complete kept tree]
    exact ⟨_, _, rfl, rfl⟩

/-- What is found in a result is found in one that is there. -/
theorem exists_of_any_toOption {ε α : Type} {result : Except ε α} {test : α → Bool}
    (found : result.toOption.any test = true) : ∃ a, result = .ok a ∧ test a = true := by
  cases result with
  | error e => cases found
  | ok a => exact ⟨a, rfl, found⟩

end ImplicitGlobals
