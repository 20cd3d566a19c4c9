import ImplicitGlobals.Proofs.Namespaces.Sugar
import ImplicitGlobals.Proofs.Printing.Predicates
import ImplicitGlobals.Proofs.Source.Exchange

/-!
# Dotted names of namespaces

A namespace with a dotted name is an abbreviation: where `namespace A.B` with a body is accepted,
`namespace A` around `namespace B` with that body is, and the scopes are the same but for places.
-/

namespace ImplicitGlobals

open Grammar Lexeme

/-! ### Tokens -/

/-- The lexeme at the start of a text. -/
def Lexeme.token (l : Lexeme) : Token := ⟨l.kind, l.text, 0⟩

/-- The lexeme as a word on the line of the word before it. -/
def Lexeme.flat (l : Lexeme) : Word := ⟨l.kind, l.text, false⟩

def Lexeme.blank : Lexeme := ⟨.whitespace, " "⟩

/-- The tokens of `namespace A.B.C \x7b .. \x7d` with a body between the braces. -/
def dottedNamespace (first : String) (more : List String) (body : List Lexeme) : List Lexeme :=
  ofKeyword .kwNamespace :: blank :: ⟨.ident, first⟩ ::
    (dottedLexemes more ++ blank :: ofSign .braceOpen :: (body ++ [ofSign .braceClose]))

/-- The tokens of `namespace A \x7b namespace B \x7b namespace C \x7b .. \x7d \x7d \x7d`. -/
def nestedNamespace (first : String) : List String → List Lexeme → List Lexeme
  | [], body => ofKeyword .kwNamespace :: blank :: ⟨.ident, first⟩ :: blank :: ofSign .braceOpen ::
      (body ++ [ofSign .braceClose])
  | next :: more, body => ofKeyword .kwNamespace :: blank :: ⟨.ident, first⟩ :: blank :: ofSign .braceOpen :: blank ::
      (nestedNamespace next more body ++ [blank, ofSign .braceClose])

/-- The tokens around are those of other namespaces, apart from trivia: what stands there is the body of the
innermost one, or the source if there is none. -/
def Encloses (front back : List Lexeme) : Prop :=
  ∃ outer : List (String × List String), front.filter (!·.kind.isTrivia) = openings outer ∧
    back.filter (!·.kind.isTrivia) = closers outer

/-! ### Words -/

namespace Word

theorem after_blank (broken : Bool) (ts : List Token) : after broken (blank.token :: ts) = after broken ts := by
  simp [after, blank, token, TokenKind.isTrivia, Token.breaksLine]

theorem after_cons (broken : Bool) {l : Lexeme} (plain : l.kind.isTrivia = false) (ts : List Token) :
    after broken (l.token :: ts) = ⟨l.kind, l.text, broken⟩ :: after false ts := by
  simp [after, token, plain]

/-- Words with nothing between them. -/
theorem after_flat {ls : List Lexeme} (plain : ∀ l ∈ ls, l.kind.isTrivia = false) (ts : List Token) :
    after false (ls.map token ++ ts) = ls.map flat ++ after false ts := by
  induction ls with
  | nil => rfl
  | cons l rest ih =>
    rw [List.forall_mem_cons] at plain
    rw [List.map_cons, List.cons_append, after_cons false plain.1, ih plain.2]
    rfl

theorem lexemes_flat (ls : List Lexeme) : (ls.map flat).map Word.lexeme = ls := by
  simp [Function.comp_def, flat, Word.lexeme]

theorem lexemes_after_token (broken : Bool) (ls : List Lexeme) :
    (after broken (ls.map token)).map Word.lexeme = ls.filter (!·.kind.isTrivia) := by
  rw [lexemes_after, List.filter_map, List.map_map]
  exact List.map_id _

/-- The words of the forms: what is behind the name and before the braces stands on one line. -/
theorem after_namespaces (body : List Lexeme) : ∃ broken, ∀ (first : String) (more : List String) (start : Bool) ts,
    after start ((dottedNamespace first more body).map token ++ ts) =
      ⟨.ident, Keyword.kwNamespace.word, start⟩ :: flat ⟨.ident, first⟩ :: ((dottedLexemes more).map flat ++
        flat (ofSign .braceOpen) :: (after false (body.map token) ++
          ⟨.braceClose, TokenKind.braceClose.sign, broken⟩ :: after false ts)) ∧
    after start ((nestedNamespace first more body).map token ++ ts) =
      ⟨.ident, Keyword.kwNamespace.word, start⟩ :: flat ⟨.ident, first⟩ :: ((levelLexemes more).map flat ++
        flat (ofSign .braceOpen) :: (after false (body.map token) ++
          ⟨.braceClose, TokenKind.braceClose.sign, broken⟩ :: ((closers more).map flat ++ after false ts))) := by
  -- Whether the body ends on a new line decides how its closing brace is read, in both forms.
  obtain ⟨broken, inner⟩ := exists_after_append false (body.map token)
  refine ⟨broken, fun first more start ts => ⟨?_, ?_⟩⟩
  · have segments : ∀ l ∈ dottedLexemes more, l.kind.isTrivia = false := fun l mem => by
      obtain ⟨next, -, among⟩ := List.mem_flatMap.1 mem
      rcases List.mem_pair.1 among with rfl | rfl <;> rfl
    have head : (dottedNamespace first more body).map token ++ ts =
        (ofKeyword .kwNamespace).token :: blank.token :: token ⟨.ident, first⟩ :: ((dottedLexemes more).map token ++
          blank.token :: (ofSign .braceOpen).token :: (body.map token ++ (ofSign .braceClose).token :: ts)) := by
      simp [dottedNamespace]
    rw [head, after_cons start rfl, after_blank, after_cons false rfl, after_flat segments, after_blank,
      after_cons false rfl, inner, after_cons broken rfl]
    rfl
  -- One level of the nested form for each further name.
  · induction more generalizing first start ts with
    | nil =>
      have head : (nestedNamespace first [] body).map token ++ ts =
          (ofKeyword .kwNamespace).token :: blank.token :: token ⟨.ident, first⟩ :: blank.token ::
            (ofSign .braceOpen).token :: (body.map token ++ (ofSign .braceClose).token :: ts) := by
        simp [nestedNamespace]
      rw [head, after_cons start rfl, after_blank, after_cons false rfl, after_blank, after_cons false rfl, inner,
        after_cons broken rfl]
      rfl
    | cons next more ih =>
      have head : (nestedNamespace first (next :: more) body).map token ++ ts =
          (ofKeyword .kwNamespace).token :: blank.token :: token ⟨.ident, first⟩ :: blank.token ::
            (ofSign .braceOpen).token :: blank.token :: ((nestedNamespace next more body).map token ++
              blank.token :: (ofSign .braceClose).token :: ts) := by
        simp [nestedNamespace]
      have last := closers_cons next more (a := [])
      rw [List.append_nil] at last
      rw [head, after_cons start rfl, after_blank, after_cons false rfl, after_blank, after_cons false rfl, after_blank,
        ih, after_blank, after_cons false rfl, last]
      simp [levelLexemes, flat, ofKeyword, ofSign]

end Word

/-- The words of two sources that are the same but for the form of a namespace. -/
theorem exists_sugar {s s' : String} {front body back : List Lexeme} {first : String} {more : List String}
    (dotted : (lex s).map Token.lexeme = front ++ (dottedNamespace first more body ++ back))
    (nested : (lex s').map Token.lexeme = front ++ (nestedNamespace first more body ++ back))
    (wellNested : WellNested false (body.map (·.kind))) : ∃ g : Sugar, Word.ofTokens (lex s) = g.dottedWords ∧
      Word.ofTokens (lex s') = g.nestedWords ∧ g.front.map Word.lexeme = front.filter (!·.kind.isTrivia) ∧
        g.back.map Word.lexeme = back.filter (!·.kind.isTrivia) := by
  have words {text : String} {form : List Lexeme} (written : (lex text).map Token.lexeme = front ++ (form ++ back)) :
      Word.ofTokens (lex text) = Word.after false (front.map token ++ (form.map token ++ back.map token)) := by
    refine Word.after_congr false (written.trans ?_)
    simp [Function.comp_def, token, Token.lexeme]
  obtain ⟨start, before⟩ := Word.exists_after_append false (front.map token)
  obtain ⟨broken, forms⟩ := Word.after_namespaces body
  obtain ⟨own, own'⟩ := forms first more start (back.map token)
  refine ⟨⟨Word.after false (front.map token), ⟨.ident, Keyword.kwNamespace.word, start⟩, flat ⟨.ident, first⟩,
    (dottedLexemes more).map flat, (levelLexemes more).map flat, flat (ofSign .braceOpen), flat (ofSign .braceOpen),
    Word.after false (body.map token), ⟨.braceClose, TokenKind.braceClose.sign, broken⟩, (closers more).map flat,
    Word.after false (back.map token), first, more, by simp [Word.isWord], rfl, Word.lexemes_flat _, Word.lexemes_flat _,
    rfl, rfl, rfl, Word.lexemes_flat _, ?_⟩, ?_, ?_, Word.lexemes_after_token .., Word.lexemes_after_token ..⟩
  · have kinds := Word.kinds_after false (body.map token)
    rw [WellNested, kinds, nest_filter_isTrivia, List.map_map]
    exact wellNested
  · rw [words dotted, before, own]
    simp [Sugar.dottedWords, namespaceWords, Sugar.dotted]
  · rw [words nested, before, own']
    simp [Sugar.nestedWords, namespaceWords, Sugar.nested]

/-! ### Scopes -/

namespace SourceUnit

/-- The token of that number is the keyword of a module that is a statement of the source or of a namespace. -/
def ModuleAt (u : SourceUnit) (text : String) (i : Nat) : Prop :=
  ∃ t, (lex text)[i]? = some t ∧ u.tree.AnnouncedBy t

instance (u : SourceUnit) (text : String) (i : Nat) : Decidable (u.ModuleAt text i) :=
  decidable_of_iff ((lex text)[i]?.any fun t => decide (u.tree.Announced Leaf.kind ⟨.keyword .kwNamespace, t⟩)) <| by
    simp [ModuleAt, SyntaxTree.AnnouncedBy, Option.any_eq_true]

/-- Without a bound on nesting and with enough words a source is read when it is parsed without a diagnostic. -/
theorem read_iff {options : SourceOptions} {text : String} (unbounded : options.budget.nesting = none)
    (fits : ∀ n ∈ options.budget.words, wordCount text ≤ n) {u : SourceUnit} : read options text = .ok u ↔
      ∃ p, parse text = .ok p ∧ p.diagnostics = [] ∧ u = ⟨p.tree, scopesOf options p.tree, options.comments⟩ := by
  obtain ⟨p, -, -, whole, -⟩ := exists_parse text
  have enough : parseWithin options.budget text = .ok p := by
    refine ((parseWithin_cases whole options.budget).resolve_right fun ⟨l, _, n, bound, short⟩ => ?_).1
    cases l with
    | words => exact Nat.not_lt.2 (fits n bound) short
    | nesting =>
      have bound : n ∈ options.budget.nesting := bound
      rw [unbounded] at bound
      cases bound
  constructor
  · intro accepted
    obtain ⟨q, parsed, faultless, rfl⟩ := parsed_of_read accepted
    cases enough.symm.trans parsed
    exact ⟨p, whole, faultless, rfl⟩
  · rintro ⟨q, parsed, faultless, rfl⟩
    cases whole.symm.trans parsed
    simp [read, enough, faultless, Diagnostics.filtered]

theorem ofStatements_congr {type : SourceType} {globals : List (String × Classification)} {span : Span}
    {ss us : List Statement}
    (same : ∀ (t : ScopeTree) scope, t.bindStatements scope ss = t.bindStatements scope us) :
    ScopeTree.ofStatements type globals span ss = ScopeTree.ofStatements type globals span us := by
  cases type <;> exact same _ _

/-- Where the statements bind the same, the scopes are the same but for places. -/
theorem unplaced_scopesOf {options : SourceOptions} {tree tree' : SyntaxTree} {us us' : List SyntaxTree}
    (own : Statement.unplacedAll tree.statements = Statement.unplacedAll (Statement.ofTrees us))
    (own' : Statement.unplacedAll tree'.statements = Statement.unplacedAll (Statement.ofTrees us'))
    (same : SyntaxTree.Alike (.node .sourceFile us) (.node .sourceFile us')) :
    (scopesOf options tree').unplaced = (scopesOf options tree).unplaced := by
  obtain ⟨k, _, _, is, is', -, parts⟩ := same.parts
  cases is
  cases is'
  rw [scopesOf, scopesOf, ScopeTree.unplaced_ofStatements, ScopeTree.unplaced_ofStatements, own, own']
  exact ofStatements_congr fun t scope => (parts (by decide) t scope).symm

/-! ### Both forms -/

section

variable {options : SourceOptions} {s s' : String}

/-- The token behind some others, counted with trivia and without it. -/
theorem exists_token {tokens : List Token} {front behind : List Lexeme} {l : Lexeme}
    (plain : l.kind.isTrivia = false) (written : tokens.map Token.lexeme = front ++ l :: behind) :
    ∃ t, tokens[front.length]? = some t ∧
      (tokens.filter (!·.kind.isTrivia))[(front.filter (!·.kind.isTrivia)).length]? = some t := by
  obtain ⟨before, rest, rfl, rfl, rest'⟩ := List.map_eq_append_iff.1 written
  obtain ⟨t, more, rfl, rfl, -⟩ := List.map_eq_cons_iff.1 rest'
  have kept : t.kind.isTrivia = false := plain
  refine ⟨t, by simp, ?_⟩
  have size : ((before.map Token.lexeme).filter (!·.kind.isTrivia)).length =
      (before.filter (!·.kind.isTrivia)).length := by
    rw [List.filter_map, List.length_map]
    rfl
  rw [List.filter_append, List.filter_cons_of_pos (by simp [kept]), size, List.getElem?_append_right (Nat.le_refl _)]
  simp

/-- With the other form of a namespace a source is read as before. -/
theorem read_exchanged {b : Rewriting} (unbounded : options.budget.nesting = none)
    (fits : ∀ n ∈ options.budget.words, wordCount s ≤ n) (fits' : ∀ n ∈ options.budget.words, wordCount s' ≤ n)
    (words : Word.ofTokens (lex s) = b.words) (words' : Word.ofTokens (lex s') = b.words') {i : Nat} {t t' : Token}
    (here : (lex s)[i]? = some t ∧ ((lex s).filter (!·.kind.isTrivia))[b.start]? = some t)
    (here' : (lex s')[i]? = some t' ∧ ((lex s').filter (!·.kind.isTrivia))[b.start]? = some t')
    (same : ∀ {u v}, SyntaxTree.Exchanged b.Forms u v → SyntaxTree.Alike u v) {u : SourceUnit}
    (accepted : read options s = .ok u) (stands : u.ModuleAt s i) :
    ∃ v, read options s' = .ok v ∧ v.ModuleAt s' i ∧ v.scopes.unplaced = u.scopes.unplaced := by
  obtain ⟨p, parsed, faultless, rfl⟩ := (read_iff unbounded fits).1 accepted
  obtain ⟨_, is, announced⟩ := stands
  cases here.1.symm.trans is
  obtain ⟨q, parsed', faultless', announced', us, us', own, own', exchanged⟩ :=
    parse_exchanged words words' here.2 here'.2 parsed faultless announced
  exact ⟨_, (read_iff unbounded fits').2 ⟨q, parsed', faultless', rfl⟩, ⟨t', here'.1, announced'⟩,
    unplaced_scopesOf own own' (same exchanged)⟩

/-- In other namespaces, or by itself, a form is read where its body is, and then its scopes are known. -/
theorem read_enclosed {form : List Word} {g : Sugar} {parts : List SyntaxTree → List SyntaxTree}
    {outer : List (String × List String)} (around : g.front.map Word.lexeme = openings outer)
    (behind : g.back.map Word.lexeme = closers outer)
    (words : Word.ofTokens (lex s) = namespaceWords g.front g.keyword g.name form g.back)
    (reads : ∀ ts, g.Reads ts → ∀ n, ReadsIn (Word.ofTokens (lex s)) (moduleRest (statementWithin n))
      ((g.name :: form).map Word.lexeme ++ g.back.map Word.lexeme) (g.back.map Word.lexeme) () (parts ts))
    (rejects : (∀ ts, ¬g.Reads ts) → ∀ n, Rejects (Word.ofTokens (lex s)) (moduleRest (statementWithin n))
      ((g.name :: form).map Word.lexeme ++ g.back.map Word.lexeme) ()) :
    (∀ ts, g.Reads ts → ∃ p, parse s = .ok p ∧ p.diagnostics = [] ∧ Statement.unplacedAll p.tree.statements =
      Statement.unplacedAll (Statement.ofTrees
        [enclosed outer (.node .moduleDeclaration (keywordLeaf .kwNamespace :: parts ts))])) ∧
      ∀ p, parse s = .ok p → p.diagnostics = [] → ∃ ts, g.Reads ts := by
  have written : ((lex s).filter (!·.kind.isTrivia)).map Token.lexeme =
      (namespaceWords g.front g.keyword g.name form g.back).map Word.lexeme := by
    rw [← words]
    exact (Word.lexemes_after false (lex s)).symm
  refine ⟨fun ts own => ?_, fun p parsed faultless => ?_⟩
  · obtain ⟨p, parsed, faultless, bare⟩ :=
      parse_of_source_reads written (g.readsIn_source around behind (reads ts own))
    exact ⟨p, parsed, faultless, by rw [SyntaxTree.statements, ← Statement.unplaced_ofTrees_bare, bare]⟩
  · by_contra none
    obtain ⟨q, parsed', faulty⟩ :=
      parse_of_source_rejects written (g.rejects_source around behind (rejects (not_exists.1 none)))
    cases parsed.symm.trans parsed'
    exact faulty faultless

/-- Where what is parsed of two sources is alike, the one is read when the other is. -/
theorem read_alike (unbounded : options.budget.nesting = none) (fits : ∀ n ∈ options.budget.words, wordCount s ≤ n)
    (fits' : ∀ n ∈ options.budget.words, wordCount s' ≤ n) {Reads : List SyntaxTree → Prop}
    {tree tree' : List SyntaxTree → SyntaxTree}
    (accepts : ∀ p, parse s = .ok p → p.diagnostics = [] → ∃ ts, Reads ts)
    (reads : ∀ ts, Reads ts → ∃ p, parse s = .ok p ∧ p.diagnostics = [] ∧
      Statement.unplacedAll p.tree.statements = Statement.unplacedAll (Statement.ofTrees [tree ts]))
    (reads' : ∀ ts, Reads ts → ∃ p, parse s' = .ok p ∧ p.diagnostics = [] ∧
      Statement.unplacedAll p.tree.statements = Statement.unplacedAll (Statement.ofTrees [tree' ts]))
    (same : ∀ ts, SyntaxTree.Alike (.node .sourceFile [tree ts]) (.node .sourceFile [tree' ts])) {u : SourceUnit}
    (accepted : read options s = .ok u) : ∃ v, read options s' = .ok v ∧ v.scopes.unplaced = u.scopes.unplaced := by
  obtain ⟨p, parsed, faultless, rfl⟩ := (read_iff unbounded fits).1 accepted
  obtain ⟨ts, own⟩ := accepts p parsed faultless
  obtain ⟨_, again, -, statements⟩ := reads ts own
  cases parsed.symm.trans again
  obtain ⟨q, parsed', faultless', statements'⟩ := reads' ts own
  exact ⟨_, (read_iff unbounded fits').2 ⟨q, parsed', faultless', rfl⟩,
    unplaced_scopesOf statements statements' (same ts)⟩

/-- A dotted name of a namespace is an abbreviation, for any names and any body in which the brackets are well
nested and which is lexed alike in both places. Where either form stands as a statement of the source or of the
body of a module, whatever stands around it, the source is accepted with the one when it is with the other, and
the scopes are the same but for places. By itself, or within other namespaces, nothing has to be known of
where the form stands. -/
theorem read_dotted_iff (unbounded : options.budget.nesting = none)
    (fits : ∀ n ∈ options.budget.words, wordCount s ≤ n ∧ wordCount s' ≤ n) {front body back : List Lexeme}
    {first : String} {more : List String}
    (dotted : (lex s).map Token.lexeme = front ++ (dottedNamespace first more body ++ back))
    (nested : (lex s').map Token.lexeme = front ++ (nestedNamespace first more body ++ back))
    (wellNested : WellNested false (body.map (·.kind))) :
    ((∃ u, read options s = .ok u ∧ u.ModuleAt s front.length) ↔
      ∃ v, read options s' = .ok v ∧ v.ModuleAt s' front.length) ∧
    (Encloses front back → ((∃ u, read options s = .ok u) ↔ ∃ v, read options s' = .ok v)) ∧
    ∀ u v, read options s = .ok u → read options s' = .ok v → u.ModuleAt s front.length ∨ Encloses front back →
      v.scopes.unplaced = u.scopes.unplaced := by
  obtain ⟨g, words, words', around, behind⟩ := exists_sugar dotted nested wellNested
  have fits' := fun n mem => (fits n mem).2
  have fits := fun n mem => (fits n mem).1
  have start : g.front.length = (front.filter (!·.kind.isTrivia)).length := by rw [← around, List.length_map]
  obtain ⟨t, here⟩ := exists_token rfl dotted
  obtain ⟨t', here'⟩ : ∃ t', (lex s')[front.length]? = some t' ∧
      ((lex s').filter (!·.kind.isTrivia))[(front.filter (!·.kind.isTrivia)).length]? = some t' := by
    cases more <;> exact exists_token rfl nested
  rw [← start] at here here'
  have toNested {u : SourceUnit} (accepted : read options s = .ok u) (stands : u.ModuleAt s front.length) :=
    read_exchanged (b := g.toNested) unbounded fits fits' words words' here here' (fun exchanged => exchanged.binds)
      accepted stands
  have toDotted {v : SourceUnit} (accepted : read options s' = .ok v) (stands : v.ModuleAt s' front.length) :=
    read_exchanged (b := g.toDotted) unbounded fits' fits words' words here' here
      (fun exchanged => exchanged.flip.binds.symm) accepted stands
  -- in other namespaces both forms are read where the body is
  have enclosed (encloses : Encloses front back) : (∀ u, read options s = .ok u → ∃ v, read options s' = .ok v ∧
      v.scopes.unplaced = u.scopes.unplaced) ∧ ∀ v, read options s' = .ok v → ∃ u, read options s = .ok u := by
    obtain ⟨outer, own, own'⟩ := encloses
    obtain ⟨reads, accepts⟩ := read_enclosed (around.trans own) (behind.trans own') words
      (fun ts h => words ▸ g.readsIn_dotted h) fun none => words ▸ g.rejects_dotted none
    obtain ⟨reads', accepts'⟩ := read_enclosed (around.trans own) (behind.trans own') words'
      (fun ts h => words' ▸ g.readsIn_nested h) fun none => words' ▸ g.rejects_nested none
    have same (ts : List SyntaxTree) : SyntaxTree.Alike _ _ := SyntaxTree.Exchanged.binds <|
      @SyntaxTree.Exchanged.within SameNamespaces .sourceFile rfl [] [] _ _ <| SyntaxTree.Exchanged.enclosed
        (@SyntaxTree.Exchanged.here SameNamespaces [] _ _ rfl (fun _ mem => absurd mem List.not_mem_nil)
          (.intro g.first g.more ts)) outer
    refine ⟨fun u accepted => read_alike unbounded fits fits' accepts reads reads' same accepted, fun v accepted => ?_⟩
    obtain ⟨u, accepted', -⟩ :=
      read_alike unbounded fits' fits accepts' reads' reads (fun ts => (same ts).symm) accepted
    exact ⟨u, accepted'⟩
  refine ⟨⟨fun ⟨u, accepted, stands⟩ => ?_, fun ⟨v, accepted, stands⟩ => ?_⟩, fun encloses => ?_,
    fun u v accepted accepted' place => ?_⟩
  · obtain ⟨v, accepted', stands', -⟩ := toNested accepted stands
    exact ⟨v, accepted', stands'⟩
  · obtain ⟨u, accepted', stands', -⟩ := toDotted accepted stands
    exact ⟨u, accepted', stands'⟩
  · exact ⟨fun ⟨u, accepted⟩ => ((enclosed encloses).1 u accepted).imp fun _ post => post.1,
      fun ⟨v, accepted⟩ => (enclosed encloses).2 v accepted⟩
  · rcases place with stands | encloses
    · obtain ⟨_, again, -, same⟩ := toNested accepted stands
      cases accepted'.symm.trans again
      exact same
    · obtain ⟨_, again, same⟩ := (enclosed encloses).1 u accepted
      cases accepted'.symm.trans again
      exact same

/-- Behind a namespace of the same name, with a body that declares the name of the inner one. -/
theorem read_dotted_iff_merged :
    let s := "namespace A \x7b var x \x7d\nnamespace A.B \x7b type B = A \x7d"
    let s' := "namespace A \x7b var x \x7d\nnamespace A \x7b namespace B \x7b type B = A \x7d \x7d"
    ∃ u v, read ⟨true, .module, [], {}⟩ s = .ok u ∧ u.ModuleAt s 12 ∧ read ⟨true, .module, [], {}⟩ s' = .ok v ∧
      v.ModuleAt s' 12 ∧ v.scopes.unplaced = u.scopes.unplaced := by
  intro s s'
  let front := ((lex s).map Token.lexeme).take 12
  let body := (((lex s).map Token.lexeme).drop 19).take 9
  have written : (lex s).map Token.lexeme = front ++ (dottedNamespace "A" ["B"] body ++ []) := by decide +kernel
  have written' : (lex s').map Token.lexeme = front ++ (nestedNamespace "A" ["B"] body ++ []) := by decide +kernel
  obtain ⟨both, -, alike⟩ := @read_dotted_iff ⟨true, .module, [], {}⟩ s s' rfl (fun _ bound => by cases bound) front body
    [] "A" ["B"] written written' (by decide +kernel)
  have twelve : front.length = 12 := by decide +kernel
  rw [twelve] at both alike
  have found : (read ⟨true, .module, [], {}⟩ s).toOption.any (fun u => decide (u.ModuleAt s 12)) = true := by
    decide +kernel
  obtain ⟨u, accepted, stands⟩ := exists_of_any_toOption found
  have stands : u.ModuleAt s 12 := of_decide_eq_true stands
  obtain ⟨v, accepted', stands'⟩ := both.1 ⟨u, accepted, stands⟩
  exact ⟨u, v, accepted, stands, accepted', stands', alike u v accepted accepted' (.inl stands)⟩

end

end SourceUnit

end ImplicitGlobals
