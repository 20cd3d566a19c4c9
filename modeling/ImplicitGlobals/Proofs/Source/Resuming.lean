import ImplicitGlobals.Proofs.Boundary.Resumption
import ImplicitGlobals.Proofs.Source.Joining

/-!
# Sources behind what is no statement

What is no statement is skipped up to a semicolon outside of its brackets. A source that stands
behind it, on a new line, is read as it is by itself.
-/

namespace ImplicitGlobals

open Grammar

/-- Outside of brackets there is no semicolon and no keyword, and all brackets are closed again. -/
structure NoStatement (g : String) : Prop where
  clean : ∀ t ∈ lex g, t.kind ≠ .garbage
  nested : WellNested false ((lex g).map (·.kind))
  outside : ∀ i < (lex g).length, nest false [] (((lex g).take i).map (·.kind)) = some [] →
    ∀ t ∈ (lex g)[i]?, t.kind ≠ .semicolon ∧ (t.kind = .ident → Keyword.ofWord? t.text = none)

/-! ### The words -/

theorem Word.exists_of_after {broken : Bool} {ts : List Token} {done left : List Word} {w : Word}
    (split : after broken ts = done ++ w :: left) : ∃ front t back, ts = front ++ t :: back ∧
      done.map (·.kind) = (front.map (·.kind)).filter (!·.isTrivia) ∧ w.kind = t.kind ∧ w.text = t.text := by
  induction ts generalizing broken done with
  | nil => simp [after] at split
  | cons t ts ih =>
    rw [after] at split
    by_cases trivia : t.kind.isTrivia = true
    · rw [if_pos trivia] at split
      obtain ⟨front, u, back, rfl, kinds, same⟩ := ih split
      exact ⟨t :: front, u, back, rfl, by simp [trivia, kinds], same⟩
    · rw [if_neg trivia] at split
      cases done with
      | nil =>
        obtain ⟨rfl, -⟩ := List.cons.inj split
        exact ⟨[], t, ts, rfl, rfl, rfl, rfl⟩
      | cons d done =>
        obtain ⟨rfl, behind⟩ := List.cons.inj split
        obtain ⟨front, u, back, rfl, kinds, same⟩ := ih behind
        exact ⟨t :: front, u, back, rfl, by simp [trivia, kinds], same⟩

theorem NoStatement.junk {g : String} (h : NoStatement g) {t : Token} (mem : t ∈ lex g)
    (word : t.kind.isTrivia = false) : Junk (Word.ofTokens (lex g)) where
  filled none := by
    have lexemes := Word.lexemes_after false (lex g)
    rw [← Word.ofTokens, none] at lexemes
    have kept := List.filter_eq_nil_iff.1 (List.map_eq_nil_iff.1 lexemes.symm) t mem
    simp [word] at kept
  clean w mem := by
    obtain ⟨done, left, split⟩ := List.append_of_mem mem
    obtain ⟨front, t, back, whole, -, kind, -⟩ := Word.exists_of_after split
    rw [kind]
    exact h.clean t (by simp [whole])
  nested := by
    have kinds := Word.kinds_after false (lex g)
    rw [WellNested, Word.ofTokens, kinds, nest_filter_isTrivia]
    exact h.nested
  outside done w left split closed := by
    obtain ⟨front, t, back, whole, kinds, kind, text⟩ := Word.exists_of_after split
    rw [kinds, nest_filter_isTrivia] at closed
    have here := h.outside front.length (by simp [whole]) (by rwa [whole, List.take_left]) t (by simp [whole])
    rwa [kind, text]

/-! ### The places -/

/-- Tokens that tile a text are told by their kinds and texts. -/
theorem Token.Tiled.isPrefix {start : Nat} {ts us : List Token} {more : List Lexeme} (tiled : Tiled start ts)
    (tiled' : Tiled start us) (same : us.map Token.lexeme = ts.map Token.lexeme ++ more) : ts <+: us := by
  induction ts generalizing start us with
  | nil => exact List.nil_prefix
  | cons t ts ih =>
    cases us with
    | nil => cases same
    | cons u us =>
      obtain ⟨first, rest⟩ := List.cons.inj same
      obtain rfl : t = u := by
        cases t
        cases u
        cases first
        exact congrArg _ (tiled.1.trans tiled'.1.symm)
      exact List.prefix_cons_inj _ |>.2 (ih tiled.2 tiled'.2 rest)

/-- The tokens of the text, those of `;` and a line break, and the tokens of the source behind them. -/
def Parts (g s : String) : Prop :=
  (lex (g ++ ";\n" ++ s)).map Token.lexeme = (lex g ++ lex ";\n" ++ lex s).map Token.lexeme

namespace Parts

variable {g s : String}

theorem words (h : Parts g s) : ∃ semicolon vs, semicolon.kind = .semicolon ∧ Abreast (Word.ofTokens (lex s)) vs ∧
    Word.ofTokens (lex (g ++ ";\n" ++ s)) = Word.ofTokens (lex g) ++ semicolon :: vs := by
  obtain ⟨a, first⟩ := Word.exists_after_append false (lex g)
  have between : lex ";\n" = [⟨.semicolon, ";", 0⟩, ⟨.newline, "\n", 1⟩] := by decide +kernel
  refine ⟨⟨.semicolon, ";", a⟩, Word.after true (lex s), rfl, Word.abreast_after false true (lex s), ?_⟩
  rw [Word.ofTokens, Word.after_congr false h, List.append_assoc, first, between]
  rfl

/-- The first word is that of the text in front. -/
theorem span (h : Parts g s) {t : Token} (first : (lex g).find? (!·.kind.isTrivia) = some t) :
    (Layout.ofTokens (lex (g ++ ";\n" ++ s))).span 0 = t.span := by
  rw [Parts, List.append_assoc, List.map_append] at h
  obtain ⟨us, whole⟩ := (Lexer.tiled_lex g).isPrefix (Lexer.tiled_lex _) h
  have here : (Layout.ofTokens (lex (g ++ ";\n" ++ s))).words[0]? = some t := by
    simp [Layout.ofTokens, ← whole, ← List.head?_eq_getElem?, List.head?_append, List.head?_filter, first]
  rw [Layout.span, here]

end Parts

/-- Behind words that are no statement, a semicolon and a line break a source is read as it is by
itself: one error is reported, at the first of the words, and behind one error node the tree is that
of the source, with its statements. -/
theorem parse_resumes {g s : String} {q : Parsed} (filled : ∃ t ∈ lex g, t.kind.isTrivia = false)
    (skipped : NoStatement g) (parts : Parts g s) (parsed : parse s = .ok q)
    (clean : q.diagnostics = []) :
    ∃ p d t children, parse (g ++ ";\n" ++ s) = .ok p ∧ p.diagnostics = [d] ∧ d.kind = .expectedDeclaration ∧
      (lex g).find? (!·.kind.isTrivia) = some t ∧ d.span = t.span ∧
      p.tree.bare = .node .sourceFile (.node .error children :: q.tree.bare.children) ∧
      Statement.unplacedAll p.tree.statements = Statement.unplacedAll q.tree.statements := by
  obtain ⟨u, mem, word⟩ := filled
  obtain ⟨t, first⟩ : ∃ t, (lex g).find? (!·.kind.isTrivia) = some t :=
    Option.isSome_iff_exists.1 (List.find?_isSome.2 ⟨u, mem, by simp [word]⟩)
  obtain ⟨semicolon, vs, ends, abreast, words⟩ := parts.words
  obtain ⟨m, f, run₂, -, alone⟩ := SourceUnit.statements_of_read { budget := {} } s
  have free : parseWithin (SourceOptions.budget { budget := {} }) s = .ok q := parsed
  obtain ⟨v, read⟩ := (read_iff_of_parseWithin free).2 (by rw [clean]; rfl)
  obtain ⟨tidy, -, tree⟩ := alone v read
  obtain ⟨q', parsed', -, rfl⟩ := SourceUnit.parsed_of_read read
  cases parsed.symm.trans parsed'
  obtain ⟨c, run, walk, complete⟩ := source_run {} (Word.ofTokens (lex (g ++ ";\n" ++ s)))
  obtain ⟨n, e, all, one, -, complaints, -, refused⟩ := source_yields {} _ _ c run
  rw [words] at all
  obtain ⟨kept, ⟨detail, made⟩, children, trees⟩ :=
    statements_resume (skipped.junk mem word) ends abreast run₂ tidy all
  have kept := refused.trans kept
  obtain ⟨labels, takes, slots⟩ := slots_of_walk walk (complete.ended.resolve_right (absurd kept)) complete.gap one
  let p := Outline.dress ⟨.node .sourceFile e.skipGap.placeGap.parts.toList, c.complaints.reverse⟩
    (.ofTokens (lex (g ++ ";\n" ++ s)))
  have whole : parse (g ++ ";\n" ++ s) = .ok p := by
    rw [parse, parseWithin_eq run, Outline.ofCursor_of_complete kept one]
    rfl
  -- A slot of the second part stands for the leaf it stood for when that part was alone.
  have behind : (fun a : Slot => bareSlot (Word.ofTokens (lex (g ++ ";\n" ++ s)))
      (a.shift ((Word.ofTokens (lex g)).length + 1))) = bareSlot (Word.ofTokens (lex s)) := by
    funext a
    have split : Word.ofTokens (lex g) ++ semicolon :: vs = (Word.ofTokens (lex g) ++ [semicolon]) ++ vs := by simp
    rw [words, split, ← List.length_singleton, ← List.length_append, bareSlot_shift, bareSlot_congr abreast.lexemes]
  -- The tree of the whole is an error node and then the statements of the second part.
  have bare : p.tree.bare = _ := bare_dress takes slots c.complaints.reverse
  rw [expandAll_settled (fun _ => rfl) e, trees _ fun _ => rfl, behind] at bare
  have same : q.tree.bare = _ := tree []
  rw [List.append_nil] at same
  have bare : p.tree.bare = .node .sourceFile (.node .error (Tree.expandAll
      (bareSlot (Word.ofTokens (lex (g ++ ";\n" ++ s)))) children) :: q.tree.bare.children) := by
    rw [bare, same]
    rfl
  refine ⟨p, (Complaint.here .expectedDeclaration (some detail) 0 none).locate _, t, _, whole, ?_, rfl, first,
    parts.span first, bare, ?_⟩
  · show (c.complaints.reverse.map _ : Diagnostics) = _
    rw [complaints, made]
    rfl
  · rw [← SyntaxTree.unplaced_statements_bare, bare, ← SyntaxTree.unplaced_statements_bare q.tree]
    rfl

/-- A declaration in parentheses and an array are skipped, up to the second semicolon. -/
theorem parse_resumes_parens : ∃ q p d, parse "var a" = .ok q ∧
    parse ("\n< (var x; type) []" ++ ";\n" ++ "var a") = .ok p ∧ p.diagnostics = [d] ∧
    d.kind = .expectedDeclaration ∧ d.span = ⟨1, 2⟩ ∧
    Statement.unplacedAll p.tree.statements = Statement.unplacedAll q.tree.statements := by
  have skipped : NoStatement "\n< (var x; type) []" :=
    ⟨by decide +kernel, by decide +kernel, by decide +kernel⟩
  have parts : Parts "\n< (var x; type) []" "var a" := by
    unfold Parts
    decide +kernel
  have alone : (parse "var a").toOption.map (·.diagnostics) = some [] := by decide +kernel
  have start : (lex "\n< (var x; type) []").find? (!·.kind.isTrivia) = some ⟨.angleOpen, "<", 1⟩ := by
    decide +kernel
  cases parsed : parse "var a" with
  | error e => rw [parsed] at alone; cases alone
  | ok q =>
    rw [parsed] at alone
    obtain ⟨p, d, t, children, behind, one, kind, first, span, -, same⟩ :=
      parse_resumes (by decide +kernel) skipped parts parsed (Option.some.inj alone)
    cases start.symm.trans first
    exact ⟨q, p, d, rfl, behind, one, kind, span, same⟩

/-- Without a word in front of it the semicolon is an empty statement, and no error is reported. -/
theorem blank_is_accepted : NoStatement " " ∧ Parts " " "var a" ∧
    (parse "var a").toOption.map (fun q => (q.diagnostics, q.tree.statements.length)) = some ([], 1) ∧
    (parse (" " ++ ";\n" ++ "var a")).toOption.map (fun p => (p.diagnostics, p.tree.statements.length)) =
      some ([], 2) := by
  refine ⟨⟨by decide +kernel, by decide +kernel, by decide +kernel⟩, ?_, by decide +kernel, by decide +kernel⟩
  unfold Parts
  decide +kernel

end ImplicitGlobals
