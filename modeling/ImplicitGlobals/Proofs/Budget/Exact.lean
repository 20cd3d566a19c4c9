import ImplicitGlobals.Proofs.Budget.Rules
import ImplicitGlobals.Proofs.Syntax.Completion
import ImplicitGlobals.Proofs.Syntax.Tiling

/-!
# A budget changes no result

Reading a source takes one word of the budget for each token that is no trivia, and as many
levels as the tree of the source has. Whoever grants that gets what parsing without bounds gives,
whatever is wrong with the source; whoever grants less is refused, and told what was short.
-/

namespace ImplicitGlobals

open Grammar

/-- The number of tokens that are no trivia. -/
def wordCount (text : String) : Nat := ((lex text).filter (!·.kind.isTrivia)).length

/-- What parsing a source takes of what the limit counts. -/
def Parsed.price (p : Parsed) (text : String) : Limit → Nat
  | .words => wordCount text
  | .nesting => p.tree.nesting

namespace Grammar

theorem Solvent.start (b : Budget) (words : List Word) : Solvent b (.start b words) where
  refused := rfl
  words := by
    show b.words = b.words.map (· - 0)
    simp
  nesting := rfl
  stacked := trivial
  covered := fun l n _ => by
    cases l <;> exact Nat.zero_le n
  depth := rfl

/-- The runs over a source within a budget and without one. -/
theorem source_cases (b : Budget) {words : List Word} {c d : Cursor}
    (run : source.run (.start b words) = .ok ((), c))
    (whole : source.run (.start {} words) = .ok ((), d)) :
    Solvent b c ∧ d = c.free ∨ ∃ l, c.refused = some l ∧ Overdrawn b l d := by
  rcases source_metered.agrees _ (.start b words) () c run with ⟨solvent, same⟩ | ⟨l, refused, late⟩
  · cases same.symm.trans whole
    exact .inl ⟨solvent, rfl⟩
  · exact .inr ⟨l, refused, late () d whole⟩

/-- Without bounds nothing is refused. -/
theorem not_refused_of_source {words : List Word} {c : Cursor}
    (run : source.run (.start {} words) = .ok ((), c)) : c.refused = none := by
  rcases source_cases {} run run with ⟨solvent, -⟩ | ⟨l, -, late⟩
  · exact solvent.refused
  · obtain ⟨n, bound, -⟩ := late.beyond
    cases l <;> cases bound

end Grammar

/-- Parsing without bounds comes to an end, and its price is what was spent there. -/
theorem exists_parse (text : String) : ∃ p c children,
    parse text = .ok p ∧ source.run (.start {} (Word.ofTokens (lex text))) = .ok ((), c) ∧
      c.parts.toList = [.node .sourceFile children] ∧ (∀ l, p.price text l = c.spent l) ∧
      p = Outline.dress ⟨.node .sourceFile children, c.complaints.reverse⟩
        (.ofTokens (lex text)) := by
  obtain ⟨c, run, walk, complete⟩ := source_run {} (Word.ofTokens (lex text))
  obtain ⟨children, tree⟩ := complete.tree
  have kept := not_refused_of_source run
  refine ⟨_, c, children, ?_, run, tree, fun l => ?_, rfl⟩
  · rw [parse, parseWithin_eq run, Outline.ofCursor_of_complete kept tree]
    rfl
  cases l with
  | words =>
    have count := walk.frame.length_rest
    have rest : c.rest = [] := complete.ended.resolve_right (absurd kept)
    rw [rest, List.length_nil] at count
    have words : (Word.ofTokens (lex text)).length = wordCount text := by
      rw [Layout.length_ofTokens]
      rfl
    show wordCount text = c.passed
    simp only [Cursor.start] at count
    omega
  | nesting =>
    have opened : c.opened = [] := walk.frame.opened
    show Tree.nesting _ = Tree.nestingOf (closing c.opened c.parts.toList)
    rw [opened, closing, tree, Tree.nestingOf_singleton, Outline.tree_dress, Tree.nesting,
      Tree.nesting, Tree.nestingOf_expandAll]

/-- Within a budget a source is parsed as without one, or refused because of a limit that its
price exceeds. -/
theorem parseWithin_cases {text : String} {p : Parsed} (parsed : parse text = .ok p) (b : Budget) :
    parseWithin b text = .ok p ∧ (∀ l, ∀ n ∈ b.bound l, p.price text l ≤ n) ∨
      ∃ l, parseWithin b text = .error (.limit l) ∧ ∃ n ∈ b.bound l, n < p.price text l := by
  obtain ⟨_, d, children, parsed', whole, tree, price, rfl⟩ := exists_parse text
  cases parsed.symm.trans parsed'
  obtain ⟨c, run, -, -⟩ := source_run b (Word.ofTokens (lex text))
  rcases source_cases b run whole with ⟨solvent, rfl⟩ | ⟨l, refused, late⟩
  · refine .inl ⟨?_, fun l n bound => price l ▸ solvent.covered l n bound⟩
    rw [parseWithin_eq run, Outline.ofCursor_of_complete solvent.refused tree]
    rfl
  · refine .inr ⟨l, ?_, price l ▸ late.beyond⟩
    rw [parseWithin_eq run, Outline.ofCursor_of_refused refused]
    rfl

/-- A budget never changes a result, it only refuses: where it covers the words of the source and
the nesting of its tree, the result is that of parsing without bounds, and else there is none.
Only a limit that is too small is reported. -/
theorem parseWithin_exact (text : String) : ∃ p, parse text = .ok p ∧ ∀ b : Budget,
    ((∀ n ∈ b.words, wordCount text ≤ n) ∧ (∀ n ∈ b.nesting, p.tree.nesting ≤ n) →
      parseWithin b text = .ok p) ∧
    (¬((∀ n ∈ b.words, wordCount text ≤ n) ∧ ∀ n ∈ b.nesting, p.tree.nesting ≤ n) →
      ∃ l, parseWithin b text = .error (.limit l)) ∧
    (parseWithin b text = .error (.limit .words) → ∃ n ∈ b.words, n < wordCount text) ∧
    (parseWithin b text = .error (.limit .nesting) → ∃ n ∈ b.nesting, n < p.tree.nesting) := by
  obtain ⟨p, _, _, parsed, -⟩ := exists_parse text
  refine ⟨p, parsed, fun b => ?_⟩
  rcases parseWithin_cases parsed b with ⟨same, covered⟩ | ⟨l, refused, n, bound, short⟩
  · refine ⟨fun _ => same, fun late => ?_, fun none => ?_, fun none => ?_⟩
    · exact absurd ⟨covered .words, covered .nesting⟩ late
    · cases same.symm.trans none
    · cases same.symm.trans none
  · refine ⟨fun covers => ?_, fun _ => ⟨l, refused⟩, fun words => ?_, fun nesting => ?_⟩
    · have enough : p.price text l ≤ n := by
        cases l with
        | words => exact covers.1 n bound
        | nesting => exact covers.2 n bound
      exact absurd short (Nat.not_lt.2 enough)
    · cases refused.symm.trans words
      exact ⟨n, bound, short⟩
    · cases refused.symm.trans nesting
      exact ⟨n, bound, short⟩

end ImplicitGlobals
