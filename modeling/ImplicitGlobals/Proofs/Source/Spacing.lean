import ImplicitGlobals.Proofs.Diagnostic.Filter
import ImplicitGlobals.Proofs.Printing.RoundTrip
import ImplicitGlobals.Proofs.Scope.Listing
import ImplicitGlobals.Proofs.Setting.Sources

/-!
# Comments and spacing

Two sources with the same words are parsed into the same tree, but for trivia and places, if the
same words begin a line in them. They have the same errors at the same words, both or none of
them is read, and what they declare is the same.
-/

namespace ImplicitGlobals

open Grammar

/-- The texts have the same words, and a line break stands between the same ones. -/
structure Respaced (s t : String) : Prop where
  words : ((lex s).filter (!·.kind.isTrivia)).map Token.lexeme =
    ((lex t).filter (!·.kind.isTrivia)).map Token.lexeme
  lines : (Word.ofTokens (lex s)).tail.map Word.freshLine =
    (Word.ofTokens (lex t)).tail.map Word.freshLine

/-- The diagnostics say the same of the same words of two layouts. -/
structure Diagnostic.Matches (l m : Layout) (d e : Diagnostic) : Prop where
  kind : d.kind = e.kind
  message : d.message = e.message
  place : ∃ first last, d.span = ⟨(l.span first).start, (l.span last).stop⟩ ∧
    e.span = ⟨(m.span first).start, (m.span last).stop⟩

/-! ### Words -/

theorem Word.eq_of_lexeme {v w : Word} (lexeme : v.lexeme = w.lexeme)
    (line : v.freshLine = w.freshLine) : v = w := by
  cases v
  cases w
  simp_all [Word.lexeme]

theorem Word.eq_of_lexemes {vs ws : List Word} (lexemes : vs.map Word.lexeme = ws.map Word.lexeme)
    (lines : vs.map Word.freshLine = ws.map Word.freshLine) : vs = ws := by
  induction vs generalizing ws with
  | nil => exact (List.map_eq_nil_iff.1 lexemes.symm).symm
  | cons v vs ih =>
    cases ws with
    | nil => cases lexemes
    | cons w ws =>
      obtain ⟨lexeme, lexemes⟩ := List.cons.inj lexemes
      obtain ⟨line, lines⟩ := List.cons.inj lines
      rw [Word.eq_of_lexeme lexeme line, ih lexemes lines]

/-- What stands in the slots depends on the kinds and the texts of the words. -/
theorem bareSlot_congr {vs ws : List Word} (same : vs.map Word.lexeme = ws.map Word.lexeme) :
    bareSlot vs = bareSlot ws := by
  funext a
  cases a with
  | gap i => rfl
  | word i label =>
    have here : vs[i]?.map Word.lexeme = ws[i]?.map Word.lexeme := by
      simpa using congrArg (·[i]?) same
    cases v : vs[i]? <;> cases w : ws[i]? <;> simp_all [bareSlot, Word.lexeme]

theorem Respaced.lexemes {s t : String} (h : Respaced s t) :
    (Word.ofTokens (lex s)).map Word.lexeme = (Word.ofTokens (lex t)).map Word.lexeme := by
  rw [Word.ofTokens, Word.ofTokens, Word.lexemes_after, Word.lexemes_after, h.words]

/-- The runs over the words begin as twins. -/
theorem Respaced.twin {s t : String} (h : Respaced s t) (budget : Budget) :
    Setting.alone.Twin (.opening budget (Word.ofTokens (lex s)))
      (.opening budget (Word.ofTokens (lex t))) where
  rest := by
    have lexemes := h.lexemes
    have lines := h.lines
    show Word.ofTokens (lex t) = Word.ofTokens (lex s) ++ [] ∨ 0 = 0 ∧ ∃ w ws fresh,
      Word.ofTokens (lex s) = w :: ws ∧
      Word.ofTokens (lex t) = { w with freshLine := fresh } :: (ws ++ [])
    -- Only the first word can differ, in whether it stands on a fresh line.
    cases first : Word.ofTokens (lex s) with
    | nil =>
      rw [first] at lexemes
      exact .inl (List.map_eq_nil_iff.1 lexemes.symm)
    | cons w ws =>
      cases second : Word.ofTokens (lex t) with
      | nil =>
        rw [first, second] at lexemes
        cases lexemes
      | cons v vs =>
        rw [first, second] at lexemes lines
        obtain ⟨lexeme, lexemes⟩ := List.cons.inj lexemes
        refine .inr ⟨rfl, w, ws, v.freshLine, rfl, ?_⟩
        rw [List.append_nil, Word.eq_of_lexemes lexemes lines]
        congr 1
        exact Word.eq_of_lexeme lexeme.symm rfl
  passed := rfl
  gap := rfl
  openers := rfl
  budget := rfl
  depth := .inr rfl
  refused := rfl
  lastPlace := rfl
  complaints := rfl
  parts := rfl
  opened := rfl

/-! ### Trees and diagnostics -/

/-- Without trivia and places a tree is what the slots of its words stand for. -/
theorem bare_dress {tokens : List Token} {children : List (Tree Slot)} {labels : List LeafKind}
    (takes : List.Forall₂ Token.Takes (tokens.filter (!·.kind.isTrivia)) labels)
    (slots : Tree.leavesOf children = Slot.through 0 labels) (complaints : List Complaint) :
    (Outline.dress ⟨.node .sourceFile children, complaints⟩ (.ofTokens tokens)).tree.bare =
      .node .sourceFile (Tree.expandAll (bareSlot (Word.ofTokens tokens)) children) := by
  rw [Outline.tree_dress, SyntaxTree.bare, Tree.expandAll_expandAll children fun a mem =>
    bare_fill tokens (Slot.fits_through takes a (slots ▸ mem))]

/-- A complaint says the same in every layout. -/
theorem Complaint.matches_locate (l m : Layout) (k : Complaint) :
    Diagnostic.Matches l m (k.locate l) (k.locate m) := by
  cases k with
  | here kind detail i enclosing => cases detail <;> exact ⟨rfl, rfl, i, i, rfl, rfl⟩
  | noSemicolon i enclosing => exact ⟨rfl, rfl, i, i, rfl, rfl⟩
  | unclosed kind note opener i => exact ⟨rfl, rfl, opener, i, rfl, rfl⟩

theorem Slot.shift_zero (a : Slot) : a.shift 0 = a := by cases a <;> rfl

theorem Complaint.shift_zero : Complaint.shift 0 = id := by
  funext k
  cases k with
  | here kind detail word enclosing => cases enclosing <;> rfl
  | noSemicolon word enclosing => cases enclosing <;> rfl
  | unclosed => rfl

/-- The tree and the diagnostics, or the refusal, are those of the other text. -/
theorem parseWithin_respaced {s t : String} (h : Respaced s t) (budget : Budget) :
    (∃ r, parseWithin budget s = .error r ∧ parseWithin budget t = .error r) ∨
      ∃ p q, parseWithin budget s = .ok p ∧ parseWithin budget t = .ok q ∧
        p.tree.bare = q.tree.bare ∧
        List.Forall₂ (Diagnostic.Matches (.ofTokens (lex s)) (.ofTokens (lex t)))
          p.diagnostics q.diagnostics := by
  obtain ⟨c, run, walk, complete⟩ := source_run budget (Word.ofTokens (lex s))
  obtain ⟨c', run', walk', complete'⟩ := source_run budget (Word.ofTokens (lex t))
  obtain ⟨n, e, all, parts, -, complaints, -, refused⟩ := source_yields budget _ _ c run
  obtain ⟨m, e', all', parts', -, complaints', -, refused'⟩ := source_yields budget _ _ c' run'
  obtain ⟨twin, -⟩ := (statements_follows rfl n m).twin _ _ (h.twin budget) (.inl rfl) trivial
    () e all () e' all' (.inl rfl)
  rw [parseWithin_eq run, parseWithin_eq run']
  -- The limit that gives out is the same one in both runs.
  have spent : c'.refused = c.refused := by rw [refused, refused', twin.refused]
  cases kept : c.refused with
  | some l =>
    rw [Outline.ofCursor_of_refused kept, Outline.ofCursor_of_refused (spent.trans kept)]
    exact .inl ⟨_, rfl, rfl⟩
  | none =>
    refine .inr ?_
    rw [Outline.ofCursor_of_complete kept parts,
      Outline.ofCursor_of_complete (spent.trans kept) parts']
    obtain ⟨labels, takes, slots⟩ := slots_of_walk walk (complete.ended.resolve_right (absurd kept))
      complete.gap parts
    obtain ⟨labels', takes', slots'⟩ := slots_of_walk walk'
      (complete'.ended.resolve_right (absurd (spent.trans kept))) complete'.gap parts'
    refine ⟨_, _, rfl, rfl, ?_, ?_⟩
    · rw [bare_dress takes slots, bare_dress takes' slots', twin.skipGap.placeGap.parts]
      simp only [Setting.alone, List.nil_append, Tree.expandAll_map, Slot.shift_zero,
        bareSlot_congr h.lexemes]
    · have same : c'.complaints = c.complaints := by
        rw [complaints, complaints', twin.complaints]
        simp only [Setting.alone, Complaint.shift_zero, List.map_id]
      simp only [Outline.dress, same, List.forall₂_map_left_iff, List.forall₂_map_right_iff,
        List.forall₂_same]
      exact fun k _ => k.matches_locate _ _

/-! ### What is read -/

namespace SourceUnit

/-- What a module declares is listed in one way. -/
theorem globals_eq_of_bound {options : SourceOptions} {s t : String} {u v : SourceUnit}
    (hu : read options s = .ok u) (hv : read options t = .ok v)
    (same : u.tree.bound = v.tree.bound) :
    u.globals = v.globals := by
  have types : options.type = .module ∨ options.type = .script := by cases options.type <;> simp
  rcases types with type | type
  · obtain ⟨a, run, lists⟩ := lists_bound u.tree
    obtain ⟨b, run', lists'⟩ := lists_bound v.tree
    rw [globals_module hu type, globals_module hv type, run, run', lists.unique (same ▸ lists')]
  · rw [globals_script hu type, globals_script hv type]

/-- Comments and spacing never change what a text means, if they break the same lines: the trees
are equal but for trivia and places, or both are refused for one reason; the errors are of the same
kinds, say the same and are at the same words, in the same order; both texts are read or none; and
they declare the same. -/
theorem respaced {s t : String} (h : Respaced s t) (options : SourceOptions) :
    ((∃ r, parseWithin options.budget s = .error r ∧ parseWithin options.budget t = .error r) ∨
      ∃ p q, parseWithin options.budget s = .ok p ∧ parseWithin options.budget t = .ok q ∧
        p.tree.bare = q.tree.bare ∧
        List.Forall₂ (Diagnostic.Matches (.ofTokens (lex s)) (.ofTokens (lex t)))
          p.diagnostics q.diagnostics) ∧
    ((∃ u, read options s = .ok u) ↔ ∃ v, read options t = .ok v) ∧
    ∀ u v, read options s = .ok u → read options t = .ok v → u.globals = v.globals := by
  have parsed := parseWithin_respaced h options.budget
  refine ⟨parsed, ?_, fun u v hu hv => ?_⟩
  · rcases parsed with ⟨r, hs, ht⟩ | ⟨p, q, hs, ht, -, errors⟩
    · simp [read, hs, ht]
    · rw [read_iff_of_parseWithin hs, read_iff_of_parseWithin ht, filtered_eq_nil_iff hs,
        filtered_eq_nil_iff ht, ← List.length_eq_zero_iff, errors.length_eq,
        List.length_eq_zero_iff]
  · obtain ⟨p, hs, -, rfl⟩ := parsed_of_read hu
    obtain ⟨q, ht, -, rfl⟩ := parsed_of_read hv
    refine globals_eq_of_bound hu hv ?_
    rcases parsed with ⟨r, refused, -⟩ | ⟨p', q', hs', ht', trees, -⟩
    · cases hs.symm.trans refused
    · cases hs.symm.trans hs'
      cases ht.symm.trans ht'
      rw [← SyntaxTree.bound_bare p.tree, trees, SyntaxTree.bound_bare]

/-- Two variables, and the same with comments between the words. -/
theorem respaced_comments : ∃ u v, read {} "var a\nvar b;" = .ok u ∧
    read {} "\n/* a */var/**/ a // ;\n  var\tb /* ... */;" = .ok v ∧ u.globals = v.globals ∧
    u.globals = .ok [("a", .valueOnly), ("b", .valueOnly)] := by
  have h : Respaced "var a\nvar b;" "\n/* a */var/**/ a // ;\n  var\tb /* ... */;" :=
    ⟨by decide +kernel, by decide +kernel⟩
  have result : (read {} "var a\nvar b;").toOption.bind (·.globals.toOption) =
      some [("a", .valueOnly), ("b", .valueOnly)] := by
    decide +kernel
  cases accepted : read {} "var a\nvar b;" with
  | error e => simp [accepted, Except.toOption] at result
  | ok u =>
    obtain ⟨-, both, same⟩ := respaced h {}
    obtain ⟨v, hv⟩ := both.1 ⟨u, accepted⟩
    refine ⟨u, v, rfl, hv, same u v accepted hv, ?_⟩
    cases globals : u.globals with
    | error e => simp [accepted, globals, Except.toOption] at result
    | ok table => simpa [accepted, globals, Except.toOption] using result

end SourceUnit

end ImplicitGlobals
