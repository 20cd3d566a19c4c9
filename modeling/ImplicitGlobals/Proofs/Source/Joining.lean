import ImplicitGlobals.Proofs.Printing.Trees
import ImplicitGlobals.Proofs.Source.References
import ImplicitGlobals.Proofs.Source.Spacing

/-!
# Sources behind each other

Where one text that is read ends with a semicolon, another one can be put behind it on a new line.
What is read then has the statements of both, what they refer to and what they declare.
-/

namespace ImplicitGlobals

open Grammar

/-- Behind a semicolon, or behind no word at all, and on a new line: there the tokens of both texts
stay what they are. -/
structure Joinable (s t : String) : Prop where
  ends : ∀ w ∈ ((lex s).filter (!·.kind.isTrivia)).getLast?, w.kind = .semicolon
  lexed : ∃ breaks : List Token, (∀ b ∈ breaks, b.breaksLine = true) ∧
    (lex (s ++ "\n" ++ t)).map Token.lexeme = (lex s ++ breaks ++ lex t).map Token.lexeme

/-! ### Words behind words -/

theorem Token.breaksLine_congr {t u : Token} (same : t.lexeme = u.lexeme) :
    t.breaksLine = u.breaksLine := by
  obtain ⟨kind, text, start⟩ := t
  obtain ⟨_, _, start'⟩ := u
  cases same
  rfl

theorem Token.isTrivia_of_breaksLine {t : Token} (breaks : t.breaksLine = true) :
    t.kind.isTrivia = true ∧ t.kind ≠ .lineComment := by
  unfold breaksLine at breaks
  split at breaks
  next newline => simp [newline, TokenKind.isTrivia]
  next comment => simp [comment, TokenKind.isTrivia]
  next => cases breaks

namespace Word

/-- Words with the same lexemes are found in tokens with the same lexemes. -/
theorem after_congr (broken : Bool) {ts us : List Token}
    (same : ts.map Token.lexeme = us.map Token.lexeme) : after broken ts = after broken us := by
  induction ts generalizing broken us with
  | nil => rw [List.map_eq_nil_iff.1 same.symm]
  | cons t ts ih =>
    cases us with
    | nil => cases same
    | cons u us =>
      obtain ⟨first, rest⟩ := List.cons.inj same
      have kind : t.kind = u.kind := congrArg Lexeme.kind first
      have text : t.text = u.text := congrArg Lexeme.text first
      simp only [after, kind, text, Token.breaksLine_congr first, ih _ rest]

/-- The trivia behind the last word goes with the words that follow. -/
theorem exists_after_append (broken : Bool) (ts : List Token) :
    ∃ b, ∀ us, after broken (ts ++ us) = after broken ts ++ after b us := by
  induction ts generalizing broken with
  | nil => exact ⟨broken, fun _ => rfl⟩
  | cons t ts ih =>
    simp only [List.cons_append, after]
    split
    · exact ih _
    · obtain ⟨b, whole⟩ := ih false
      exact ⟨b, fun us => congrArg _ (whole us)⟩

/-- Trivia are no words. -/
theorem after_eq_nil (broken : Bool) {ts : List Token} (trivia : ∀ t ∈ ts, t.kind.isTrivia = true) :
    after broken ts = [] := by
  refine List.map_eq_nil_iff.1 ((lexemes_after broken ts).trans (List.map_eq_nil_iff.2 ?_))
  exact List.filter_eq_nil_iff.2 fun t mem => by simp [trivia t mem]

/-- What stands before the first word is asked of the first word only. -/
theorem abreast_after (a b : Bool) (ts : List Token) : Abreast (after a ts) (after b ts) := by
  induction ts generalizing a b with
  | nil => exact .inl rfl
  | cons t ts ih =>
    rw [after, after]
    split
    · exact ih _ _
    · exact .inr ⟨_, _, b, rfl, rfl⟩

end Word

/-- Words abreast are spelt the same. -/
theorem Grammar.Abreast.lexemes {ws vs : List Word} (h : Abreast ws vs) :
    vs.map Word.lexeme = ws.map Word.lexeme := by
  rcases h with rfl | ⟨w, more, fresh, rfl, rfl⟩ <;> rfl

namespace Joinable

variable {s t : String}

/-- A text that may be joined holds no words, or ends with a semicolon. -/
theorem sealed (h : Joinable s t) :
    Word.ofTokens (lex s) = [] ∨ Sealed (Word.ofTokens (lex s)) := by
  have lexemes := congrArg List.getLast? (Word.lexemes_after false (lex s))
  rw [List.getLast?_map, List.getLast?_map] at lexemes
  cases last : (Word.ofTokens (lex s)).getLast? with
  | none => exact .inl (List.getLast?_eq_none_iff.1 last)
  | some w =>
    rw [← Word.ofTokens, last] at lexemes
    obtain ⟨u, final, same⟩ := Option.map_eq_some_iff.1 lexemes.symm
    exact .inr ⟨w, last, (congrArg Lexeme.kind same).symm.trans (h.ends u final)⟩

/-- The words of the joined text are those of its parts, up to the line break between. -/
theorem words (h : Joinable s t) : ∃ vs, Abreast (Word.ofTokens (lex t)) vs ∧
    Word.ofTokens (lex (s ++ "\n" ++ t)) = Word.ofTokens (lex s) ++ vs := by
  obtain ⟨breaks, breaking, lexed⟩ := h.lexed
  obtain ⟨a, first⟩ := Word.exists_after_append false (lex s)
  obtain ⟨b, second⟩ := Word.exists_after_append a breaks
  have none : Word.after a breaks = [] :=
    Word.after_eq_nil a fun b mem => (Token.isTrivia_of_breaksLine (breaking b mem)).1
  refine ⟨Word.after b (lex t), Word.abreast_after false b (lex t), ?_⟩
  rw [Word.ofTokens, Word.after_congr false lexed, List.append_assoc, first, second, none,
    List.nil_append, Word.ofTokens]

/-- Breaks between the texts refer to nothing. -/
theorem found (h : Joinable s t) : References.found (lex (s ++ "\n" ++ t)) =
    References.found (lex s) ++ References.found (lex t) := by
  obtain ⟨breaks, breaking, lexed⟩ := h.lexed
  have none : breaks.filter (·.kind == .lineComment) = [] :=
    List.filter_eq_nil_iff.2 fun b mem => by
      simp [(Token.isTrivia_of_breaksLine (breaking b mem)).2]
  rw [References.found_congr lexed, References.found_append, References.found_append]
  simp [References.found, none]

end Joinable

/-! ### Statements behind statements -/

theorem Tree.expandAll_congr {α β : Type} {f g : α → List β} (ts : List (Tree α))
    (same : ∀ a ∈ leavesOf ts, f a = g a) : expandAll f ts = expandAll g ts := by
  have once (h : α → List β) (is : ∀ a ∈ leavesOf ts, g a = h a) :
      expandAll g (expandAll (fun a => [a]) ts) = expandAll h ts :=
    Tree.expandAll_expandAll ts fun a mem => by simpa using is a mem
  exact (once f fun a mem => (same a mem).symm).symm.trans (once g fun _ _ => rfl)

theorem bareSlot_append {ws : List Word} (vs : List Word) {i : Nat} (bound : i < ws.length)
    (label : LeafKind) : bareSlot (ws ++ vs) (.word i label) = bareSlot ws (.word i label) := by
  rw [bareSlot, bareSlot, List.getElem?_append_left bound]

/-- A leaf of the second part is found as many words further on. -/
theorem bareSlot_shift (ws vs : List Word) (a : Slot) :
    bareSlot (ws ++ vs) (a.shift ws.length) = bareSlot vs a := by
  cases a with
  | gap i => rfl
  | word i label =>
    rw [Slot.shift, bareSlot, bareSlot, List.getElem?_append_right (Nat.le_add_left _ _),
      Nat.add_sub_cancel]

namespace SourceUnit

/-- A source is read if its statements are, and they are its tree, whatever words follow. -/
theorem statements_of_read (options : SourceOptions) (text : String) : ∃ n e,
    (statements n).run (.opening options.budget (Word.ofTokens (lex text))) = .ok ((), e) ∧
    (e.Tidy → ∃ u, read options text = .ok u) ∧
    ∀ u, read options text = .ok u → e.Tidy ∧ e.passed = (Word.ofTokens (lex text)).length ∧
      ∀ vs, u.tree.bare = .node .sourceFile
        (Tree.expandAll (bareSlot (Word.ofTokens (lex text) ++ vs)) e.parts.toList) := by
  obtain ⟨c, run, walk, complete⟩ := source_run options.budget (Word.ofTokens (lex text))
  obtain ⟨n, e, all, parts, passed, complaints, place, refused⟩ :=
    source_yields options.budget _ _ c run
  refine ⟨n, e, all, fun tidy => ?_, fun u accepted => ?_⟩
  -- A tidy end leaves no diagnostics, so that the text is accepted.
  · have parsed : parseWithin options.budget text = .ok (Outline.dress
        ⟨.node .sourceFile e.skipGap.placeGap.parts.toList, c.complaints.reverse⟩
        (.ofTokens (lex text))) := by
      rw [parseWithin_eq run, Outline.ofCursor_of_complete (refused.trans tidy.refused) parts]
      rfl
    rw [read_iff_of_parseWithin parsed, filtered_eq_nil_iff parsed]
    simp [Outline.dress, complaints, tidy.complaints]
  -- And an accepted text has come to a tidy end, at the last word.
  · obtain ⟨p, parsed, clean, rfl⟩ := parsed_of_read accepted
    obtain ⟨c', children, run', -, kept, rest, gap, tree, rfl⟩ := run_of_parseWithin parsed
    cases run.symm.trans run'
    obtain rfl : e.skipGap.placeGap.parts.toList = children := by
      simpa using parts.symm.trans tree
    obtain ⟨labels, takes, slots⟩ := slots_of_walk walk rest gap tree
    have none : c.complaints = [] := by simpa [Outline.dress] using clean
    have unnoted : c.lastPlace = .none :=
      Classical.not_not.1 fun noted => walk.frame.noted (absurd rfl) noted none
    have count : c.passed = (Word.ofTokens (lex text)).length := by
      simpa [rest, Cursor.start] using walk.frame.length_rest
    refine ⟨⟨complaints.symm.trans none, place.symm.trans unnoted, refused.symm.trans kept⟩,
      passed.symm.trans count, fun vs => ?_⟩
    rw [bare_dress takes slots, ← expandAll_settled (fun _ => rfl) e]
    refine congrArg _ (Tree.expandAll_congr _ fun a mem => ?_)
    cases a with
    | gap i => rfl
    | word i label =>
      have words : (Word.ofTokens (lex text)).length = labels.length := by
        simpa [Word.ofTokens, ← takes.length_eq] using
          congrArg List.length (Word.lexemes_after false (lex text))
      have bound := Slot.lt_of_mem_through (slots ▸ mem)
      exact (bareSlot_append vs (by omega) label).symm

variable {options : SourceOptions} {s t : String} {u v w : SourceUnit}

/-- Behind a text that is read and ends with a semicolon, a second one is read as it is by
itself. -/
theorem read_joined (joinable : Joinable s t) (unbounded : options.budget = {})
    (hu : read options s = .ok u) (hv : read options t = .ok v) :
    ∃ w, read options (s ++ "\n" ++ t) = .ok w ∧
      w.tree.bare = .node .sourceFile (u.tree.bare.children ++ v.tree.bare.children) := by
  obtain ⟨n₁, e₁, run₁, -, first⟩ := statements_of_read options s
  obtain ⟨n₂, e₂, run₂, -, second⟩ := statements_of_read options t
  obtain ⟨n, e, run, accepts, whole⟩ := statements_of_read options (s ++ "\n" ++ t)
  obtain ⟨vs, abreast, words⟩ := joinable.words
  obtain ⟨tidy₁, passed, trees₁⟩ := first u hu
  obtain ⟨tidy₂, -, trees₂⟩ := second v hv
  rw [unbounded] at run₁ run₂ run
  rw [words] at run
  obtain ⟨tidy, parts⟩ := statements_append joinable.sealed abreast run₁ tidy₁ run₂ tidy₂ run
  obtain ⟨w, hw⟩ := accepts tidy
  refine ⟨w, hw, ?_⟩
  have bare := (whole w hw).2.2 []
  rw [List.append_nil, words, parts _ fun _ => rfl] at bare
  have behind : (fun a : Slot => bareSlot (Word.ofTokens (lex s) ++ vs) (a.shift e₁.passed)) =
      bareSlot (Word.ofTokens (lex t)) := by
    funext a
    rw [passed, bareSlot_shift, bareSlot_congr abreast.lexemes]
  rw [behind, ← List.append_nil (Word.ofTokens (lex t))] at bare
  rw [bare, trees₁ vs, trees₂ []]
  rfl

/-- Sources compose. Where a text that is read ends with a semicolon, a second one can be put
behind it on a new line: the joined text is read, its tree has the statements of the first text
and then those of the second one, it refers to what they refer to, each name where it comes first,
and what it declares are the declared names of both, those in both with all that they are in
either. -/
theorem joined (joinable : Joinable s t) (module : options.type = .module)
    (unbounded : options.budget = {}) (hu : read options s = .ok u) (hv : read options t = .ok v) :
    ∃ w, read options (s ++ "\n" ++ t) = .ok w ∧
      w.tree.bare = .node .sourceFile (u.tree.bare.children ++ v.tree.bare.children) ∧
      Statement.unplacedAll w.tree.statements =
        Statement.unplacedAll u.tree.statements ++ Statement.unplacedAll v.tree.statements ∧
      w.references = (u.references ++ v.references).eraseDups ∧
      ∃ a b, u.globals = .ok a ∧ v.globals = .ok b ∧ w.globals = .ok (Table.unite a b) := by
  obtain ⟨w, hw, bare⟩ := read_joined joinable unbounded hu hv
  have statements : Statement.unplacedAll w.tree.statements =
      Statement.unplacedAll u.tree.statements ++ Statement.unplacedAll v.tree.statements := by
    rw [← SyntaxTree.unplaced_statements_bare, bare, ← SyntaxTree.unplaced_statements_bare u.tree,
      ← SyntaxTree.unplaced_statements_bare v.tree]
    simp only [SyntaxTree.statements, Tree.children, ofTrees_append, Statement.unplacedAll_eq_map,
      List.map_append]
  refine ⟨w, hw, bare, statements, ?_, ?_⟩
  · rw [references_eq_found hu, references_eq_found hv, references_eq_found hw, joinable.found]
    split
    · simp [Table.eraseDups_append, Table.eraseDups_eraseDups]
    · rfl
  · obtain ⟨a, ha, listsA⟩ := lists_bound u.tree
    obtain ⟨b, hb, listsB⟩ := lists_bound v.tree
    obtain ⟨c, hc, listsC⟩ := lists_bound w.tree
    refine ⟨a, b, (globals_module hu module).trans ha, (globals_module hv module).trans hb, ?_⟩
    have bound : w.tree.bound = u.tree.bound ++ v.tree.bound := by
      rw [SyntaxTree.bound_eq, ← boundIn_unplacedAll, statements, boundIn_append,
        boundIn_unplacedAll, boundIn_unplacedAll]
      rfl
    rw [bound] at listsC
    rw [globals_module hw module, hc, listsC.unique (listsA.unite listsB)]

/-- A type and a variable, and behind them a variable of the name of the type. -/
theorem joined_variable : ∃ u v w, read { budget := {} } "type A = B;\nvar x;" = .ok u ∧
    read { budget := {} } "/// <reference lib=\"a\" />\nvar A" = .ok v ∧
    read { budget := {} } "type A = B;\nvar x;\n/// <reference lib=\"a\" />\nvar A" = .ok w ∧
    w.tree.bare = .node .sourceFile (u.tree.bare.children ++ v.tree.bare.children) ∧
    w.references = ["a"] ∧
    w.globals = .ok [("A", .typeAndValue), ("x", .valueOnly)] := by
  have joinable : Joinable "type A = B;\nvar x;" "/// <reference lib=\"a\" />\nvar A" :=
    ⟨by decide +kernel, [⟨.newline, "\n", 0⟩], by decide +kernel, by decide +kernel⟩
  have first : (read { budget := {} } "type A = B;\nvar x;").toOption.map
      (fun u => (u.references, u.globals.toOption)) =
      some ([], some [("A", .typeOnly), ("x", .valueOnly)]) := by
    decide +kernel
  have second : (read { budget := {} } "/// <reference lib=\"a\" />\nvar A").toOption.map
      (fun v => (v.references, v.globals.toOption)) = some (["a"], some [("A", .valueOnly)]) := by
    decide +kernel
  cases hu : read { budget := {} } "type A = B;\nvar x;" with
  | error e => simp [hu, Except.toOption] at first
  | ok u =>
    cases hv : read { budget := {} } "/// <reference lib=\"a\" />\nvar A" with
    | error e => simp [hv, Except.toOption] at second
    | ok v =>
      obtain ⟨w, hw, bare, -, references, a, b, ha, hb, hc⟩ := joined joinable rfl rfl hu hv
      simp only [hu, ha, Except.toOption, Option.map_some, Option.some.injEq,
        Prod.mk.injEq] at first
      simp only [hv, hb, Except.toOption, Option.map_some, Option.some.injEq,
        Prod.mk.injEq] at second
      refine ⟨u, v, w, rfl, rfl, hw, bare, ?_, ?_⟩
      · rw [references, first.1, second.1]
        rfl
      · rw [hc, first.2, second.2]
        rfl

end SourceUnit

end ImplicitGlobals
