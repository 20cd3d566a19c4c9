import ImplicitGlobals.Proofs.Diagnostic.Reports
import ImplicitGlobals.Proofs.Mending.Sources
import ImplicitGlobals.Proofs.Source.Joining
import ImplicitGlobals.Proofs.Syntax.Inserting

/-!
# The fix of a missing semicolon

A source is parted behind one of its words. Put there, a semicolon is one word more: the words before it
stand where they stood, and those behind it one byte further on.

Where a semicolon is said to be missing, the fix that comes with it puts one behind the word before. The
source is then read as before up to there, and no semicolon is missing there any more unless a type takes
in the one that was put there. Where a statement begins behind it, one diagnostic less is reported.
-/

namespace ImplicitGlobals

/-! ### Words -/

/-- Behind a word the words are those of what follows. -/
theorem Word.after_append_word {broken : Bool} (front : List Token) {t : Token} (word : t.kind.isTrivia = false)
    (back : List Token) : after broken (front ++ t :: back) = after broken (front ++ [t]) ++ after false back := by
  induction front generalizing broken with
  | nil => simp [after, word]
  | cons u front ih => by_cases trivia : u.kind.isTrivia = true <;> simp [after, trivia, ih]

/-- A source without garbage, parted behind one of its words. -/
structure Seam (source : String) where
  front : List Token
  word : Token
  back : List Token
  tokens : lex source = front ++ word :: back
  plain : word.kind.isTrivia = false
  clean : ∀ t ∈ lex source, t.kind ≠ .garbage

namespace Seam

variable {source : String} (s : Seam source)

/-- The source up to the end of the word. -/
def before : String := String.join ((s.front ++ [s.word]).map (·.text))

/-- The source from there on. -/
def after : String := String.join (s.back.map (·.text))

/-- The source with a semicolon behind the word. -/
def mended : String := s.before ++ ";" ++ s.after

/-- The semicolon that is put there. -/
def semicolon : Token := ⟨.semicolon, ";", s.word.stop⟩

/-- The tokens that are no trivia, but for the word at the seam. -/
def tokensBefore : List Token := s.front.filter (!·.kind.isTrivia)
def tokensAfter : List Token := s.back.filter (!·.kind.isTrivia)

/-- How many words stand before the seam. -/
def place : Nat := s.tokensBefore.length + 1

/-- The words before the seam and those behind it. -/
def wordsBefore : List Word := Word.ofTokens (s.front ++ [s.word])
def wordsAfter : List Word := Word.ofTokens s.back

/-- There is a seam behind every word. -/
theorem exists_of_place (clean : ∀ t ∈ lex source, t.kind ≠ .garbage) {i : Nat} (begun : 0 < i)
    (bound : i ≤ (Word.ofTokens (lex source)).length) : ∃ s : Seam source, s.place = i := by
  rw [Word.ofTokens, Layout.length_after] at bound
  have short : i - 1 < ((lex source).filter (!·.kind.isTrivia)).length := by omega
  have split := List.take_append_drop (i - 1) ((lex source).filter (!·.kind.isTrivia))
  rw [List.drop_eq_getElem_cons short] at split
  obtain ⟨first, _, tokens, early, rest⟩ := List.filter_eq_append_iff.1 split.symm
  obtain ⟨skipped, back, rfl, trivia, plain, -⟩ := List.filter_eq_cons_iff.1 rest
  refine ⟨⟨first ++ skipped, _, back, by rw [tokens, List.append_assoc], by simpa using plain, clean⟩, ?_⟩
  have none : skipped.filter (!·.kind.isTrivia) = [] := List.filter_eq_nil_iff.2 trivia
  simp only [place, tokensBefore, List.filter_append, early, none, List.append_nil, List.length_take]
  omega

theorem source_eq : source = s.before ++ s.after := by
  have whole := Lexer.join_lex source
  rw [s.tokens, List.append_cons, List.map_append, String.join_append] at whole
  exact whole.symm

/-- The word stops where the part before the seam ends. -/
theorem stop_eq : s.word.stop = s.before.utf8ByteSize := by
  have tiled := Lexer.tiled_lex source
  rw [s.tokens] at tiled
  rw [before, ← Token.sizeOf_eq_join, Token.stop, tiled.start_eq, Nat.zero_add]
  simp [Token.sizeOf_eq_join]

theorem lex_mended : lex s.mended = s.front ++ s.word :: s.semicolon :: s.back.map (Token.moved 1) := by
  have tokens := s.tokens
  rw [List.append_cons] at tokens
  have inserted := lex_insert tokens s.clean fun t mem comment => ?_
  · rw [mended, before, after, inserted, Token.sizeOf_eq_join, ← before, ← stop_eq, ← List.append_cons]
    rfl
  · obtain rfl : t = s.word := by simpa using mem.symm
    have plain := s.plain
    rw [comment] at plain
    cases plain

theorem length_wordsBefore : s.wordsBefore.length = s.place := by
  rw [wordsBefore, Word.ofTokens, Layout.length_after, List.filter_append, List.length_append, place, tokensBefore]
  simp [s.plain]

theorem words : Word.ofTokens (lex source) = s.wordsBefore ++ s.wordsAfter := by
  rw [s.tokens, Word.ofTokens, Word.after_append_word _ s.plain]
  rfl

/-- In the mended source there is one word more. -/
theorem words_mended : Word.ofTokens (lex s.mended) = s.wordsBefore ++ ⟨.semicolon, ";", false⟩ :: s.wordsAfter := by
  have same : (s.back.map (Token.moved 1)).map Token.lexeme = s.back.map Token.lexeme := by
    rw [List.map_map]
    rfl
  rw [s.lex_mended, Word.ofTokens, Word.after_append_word _ s.plain, wordsAfter, Word.ofTokens,
    ← Word.after_congr false same]
  rfl

/-! ### Places -/

/-- The tokens of the words. -/
theorem tokens_words : (Layout.ofTokens (lex source)).words.toList = s.tokensBefore ++ [s.word] ++ s.tokensAfter := by
  simp [Layout.ofTokens, s.tokens, s.plain, tokensBefore, tokensAfter]

theorem tokens_words_mended : (Layout.ofTokens (lex s.mended)).words.toList =
    s.tokensBefore ++ [s.word] ++ s.semicolon :: s.tokensAfter.map (Token.moved 1) := by
  have kinds : (s.back.map (Token.moved 1)).filter (!·.kind.isTrivia) = s.tokensAfter.map (Token.moved 1) := by
    rw [List.filter_map]
    rfl
  have plain : s.semicolon.kind.isTrivia = false := rfl
  simp [Layout.ofTokens, s.lex_mended, s.plain, kinds, plain, tokensBefore]

theorem length_words : (Word.ofTokens (lex source)).length = s.place + s.tokensAfter.length := by
  rw [Layout.length_ofTokens, ← Array.length_toList, s.tokens_words]
  simp [place, Nat.add_right_comm, ← Nat.add_assoc]

theorem span_of_getElem? {l : Layout} {i : Nat} {t : Token} (word : l.words.toList[i]? = some t) : l.span i = t.span := by
  rw [Array.getElem?_toList] at word
  rw [Layout.span, word]

/-- The words before the seam stand where they stood. -/
theorem span_mended {i : Nat} (before : i < s.place) :
    (Layout.ofTokens (lex s.mended)).span i = (Layout.ofTokens (lex source)).span i := by
  have short : i < (s.tokensBefore ++ [s.word]).length := by simpa [place] using before
  have word := List.getElem?_eq_getElem short
  rw [span_of_getElem? (t := (s.tokensBefore ++ [s.word])[i]), span_of_getElem? (t := (s.tokensBefore ++ [s.word])[i])]
  · rw [s.tokens_words, List.getElem?_append_left short, word]
  · rw [s.tokens_words_mended, List.getElem?_append_left short, word]

/-- The words behind it stand one byte further on. -/
theorem span_mended_succ {i : Nat} (behind : s.place ≤ i) (bound : i < (Word.ofTokens (lex source)).length) :
    (Layout.ofTokens (lex s.mended)).span (i + 1) =
      ⟨((Layout.ofTokens (lex source)).span i).start + 1, ((Layout.ofTokens (lex source)).span i).stop + 1⟩ := by
  obtain ⟨j, rfl⟩ := Nat.exists_eq_add_of_le behind
  have short : j < s.tokensAfter.length := by
    rw [s.length_words] at bound
    omega
  have word := List.getElem?_eq_getElem short
  have index : s.place + j = (s.tokensBefore ++ [s.word]).length + j := by simp [place]
  rw [span_of_getElem? (t := s.tokensAfter[j].moved 1), span_of_getElem? (t := s.tokensAfter[j])]
  · simp only [Token.span, Token.moved, Token.stop, Nat.add_right_comm]
  · rw [s.tokens_words, index, List.getElem?_append_right (Nat.le_add_right ..), Nat.add_sub_cancel_left, word]
  · rw [s.tokens_words_mended, index, Nat.add_assoc, List.getElem?_append_right (Nat.le_add_right ..),
      Nat.add_sub_cancel_left, List.getElem?_cons_succ, List.getElem?_map, word]
    rfl

/-- The word at the seam is the last one before it. -/
theorem endBefore_place : (Layout.ofTokens (lex source)).endBefore s.place = s.word.stop := by
  have word : (Layout.ofTokens (lex source)).words.toList[s.tokensBefore.length]? = some s.word := by
    rw [s.tokens_words]
    simp
  rw [Array.getElem?_toList] at word
  rw [Layout.endBefore, place, if_neg (Nat.succ_ne_zero _), Nat.add_sub_cancel, word]
  rfl

/-- The semicolon is the word at the seam. -/
theorem word_mended : (Layout.ofTokens (lex s.mended)).words[s.place]? = some s.semicolon := by
  rw [← Array.getElem?_toList, s.tokens_words_mended, place, List.getElem?_append_right (by simp)]
  simp

end Seam

open Grammar

/-- The grammar takes a statement to begin at the word that stands there. -/
def Span.BeginsStatement (source : String) (s : Span) : Prop :=
  ∃ i c d, (Layout.ofTokens (lex source)).span i = s ∧ c.rest = (Word.ofTokens (lex source)).drop i ∧
    atStatementStart.run c = .ok (true, d)

/-- The semicolon at the position is in a type. -/
def SyntaxTree.TakesIn (t : SyntaxTree) (position : Nat) : Prop :=
  ∃ u ∈ Tree.descendants .typeExpr t, ∃ leaf ∈ u.leaves, leaf.token = ⟨.semicolon, ";", position⟩

/-! ### Nodes and words of a source -/

theorem Tree.mem_descendantsOf_expandAll {α β : Type} (f : α → List β) {kind : NodeKind} {children : List (Tree α)} :
    (ts : List (Tree α)) → node kind children ∈ descendantsOf kind ts →
      node kind (expandAll f children) ∈ descendantsOf kind (expandAll f ts)
  | [], among => by cases among
  | leaf a :: rest, among => by
    obtain ⟨u, mem, inside⟩ := mem_descendantsOf.1 among
    rcases List.mem_cons.1 mem with rfl | mem
    · cases inside
    · have behind := mem_descendantsOf_expandAll f rest (mem_descendantsOf.2 ⟨u, mem, inside⟩)
      rw [expandAll, descendantsOf_append]
      exact List.mem_append_right _ behind
  | node k cs :: rest, among => by
    obtain ⟨u, mem, inside⟩ := mem_descendantsOf.1 among
    rw [expandAll, descendantsOf_append]
    rcases List.mem_cons.1 mem with rfl | mem
    · refine List.mem_append_left _ (mem_descendantsOf.2 ⟨_, List.mem_singleton.2 rfl, mem_descendants_node.2 ?_⟩)
      rcases mem_descendants_node.1 inside with ⟨rfl, eq⟩ | inside
      · cases eq
        exact .inl ⟨rfl, rfl⟩
      · exact .inr (mem_descendantsOf_expandAll f cs inside)
    · exact List.mem_append_right _ (mem_descendantsOf_expandAll f rest (mem_descendantsOf.2 ⟨u, mem, inside⟩))

/-- No other word stands where a word of the source stands. -/
theorem Layout.eq_of_span_eq {source : String} {i j : Nat} (bound : i < (Word.ofTokens (lex source)).length)
    (same : (ofTokens (lex source)).span j = (ofTokens (lex source)).span i) : j = i := by
  have ordered := Layout.ordered_lex source
  rw [length_ofTokens] at bound
  rcases Nat.lt_trichotomy j i with less | is | more
  · exact absurd (congrArg Span.start same) (Nat.ne_of_lt (ordered.starts less (Nat.le_of_lt bound)))
  · exact is
  · rcases Nat.lt_or_ge (ofTokens (lex source)).words.size j with past | within
    · have last := ordered.starts bound (Nat.le_refl _)
      rw [span_of_ge (Nat.le_of_lt past), ← span_of_ge (Nat.le_refl _)] at same
      exact absurd (congrArg Span.start same).symm (Nat.ne_of_lt last)
    · exact absurd (congrArg Span.start same).symm (Nat.ne_of_lt (ordered.starts more within))

/-- A word stops no later than those behind it. -/
theorem Layout.stop_le_stop (source : String) {i j : Nat} (le : i ≤ j) :
    ((ofTokens (lex source)).span i).stop ≤ ((ofTokens (lex source)).span j).stop := by
  rcases Nat.eq_or_lt_of_le le with rfl | lt
  · exact Nat.le_refl _
  · exact Nat.le_trans (stop_le_start (Lexer.tiled_lex source) lt) (start_le_stop _ j)

/-- A semicolon is missing only in front of a word. -/
theorem Grammar.between_of_source {words : List Word} {c : Cursor} (run : source.run (.start {} words) = .ok ((), c))
    {k : Complaint} (mem : k ∈ c.complaints) (kind : k.kind = .expectedSemicolon) :
    ∃ i enclosing, k = .noSemicolon i enclosing ∧ i < words.length := by
  obtain ⟨_, run', walk, -⟩ := source_run {} words
  cases run'.symm.trans run
  have start : (Cursor.start {} words).Between := fun _ mem => absurd mem List.not_mem_nil
  have keeps : KeepsBetween Anywhere source := KeepsBetween.whole.source
  obtain ⟨i, enclosing, is, bound⟩ := keeps _ trivial start () c run k mem kind
  have count : c.passed + c.rest.length = 0 + words.length := walk.frame.length_rest
  exact ⟨i, enclosing, is, by omega⟩

/-- What is complained of before the seam is reported alike. -/
theorem Seam.span_locate {source : String} (s : Seam source) {k : Complaint} (made : k.WellMade)
    (before : k.place < s.place) :
    (k.locate (.ofTokens (lex s.mended))).span = (k.locate (.ofTokens (lex source))).span := by
  have first := s.span_mended (Nat.lt_of_le_of_lt made.first_le before)
  have last := s.span_mended before
  have ext {a b : Span} (start : a.start = b.start) (stop : a.stop = b.stop) : a = b := by
    cases a
    cases b
    cases start
    cases stop
    rfl
  refine ext ?_ ?_
  · rw [Complaint.start_locate, Complaint.start_locate, first]
  · rw [Complaint.stop_locate, Complaint.stop_locate, last]

/-- The node that holds the word at the seam holds the semicolon. -/
theorem Seam.takesIn {source : String} (s : Seam source) {c : Cursor} {children us : List (Tree Slot)}
    {complaints : List Complaint} (tree : c.parts.toList = [.node .sourceFile children]) (has : c.Has .typeExpr us)
    (mem : s.place ∈ Tree.wordsOf us) : SyntaxTree.TakesIn
      (Outline.dress ⟨.node .sourceFile children, complaints⟩ (.ofTokens (lex s.mended))).tree s.before.utf8ByteSize := by
  rw [Cursor.Has, tree] at has
  have filled := Tree.mem_descendantsOf_expandAll (Layout.ofTokens (lex s.mended)).fill _ has
  obtain ⟨u, alone, inside⟩ := Tree.mem_descendantsOf.1 filled
  refine ⟨_, List.mem_singleton.1 alone ▸ inside, ?_⟩
  obtain ⟨slot, among, is⟩ := List.mem_filterMap.1 mem
  cases slot with
  | gap => cases is
  | word i label =>
    obtain rfl : i = s.place := Option.some.inj is
    refine ⟨⟨label, s.semicolon⟩, ?_, by rw [Seam.semicolon, s.stop_eq]⟩
    rw [Tree.leaves, Tree.leavesOf_expandAll]
    exact List.mem_flatMap.2 ⟨_, among, by simp [Layout.fill, s.word_mended]⟩

/-! ### The fix -/

/-- The suggested semicolon mends a source without garbage. Put where the fix says, it leaves what was
reported before as it was, and nothing more is reported before it. It is not said to be missing there any
more, unless no statement begins there and a type has taken it in. Where a statement begins behind it, one
diagnostic less is reported. -/
theorem parse_mended {source : String} {p : Parsed} {front back : Diagnostics} {d : Diagnostic}
    (clean : ∀ t ∈ lex source, t.kind ≠ .garbage) (parsed : parse source = .ok p)
    (split : p.diagnostics = front ++ d :: back) (kind : d.kind = .expectedSemicolon) :
    ∃ fix before after q, d.fix? = some fix ∧ source = before ++ after ∧ fix.span = .point before.utf8ByteSize ∧
      parse (before ++ fix.replacement ++ after) = .ok q ∧
      (∃ same more, q.diagnostics = same ++ more ∧
        same.map (fun e => (e.kind, e.span)) = front.map (fun e => (e.kind, e.span)) ∧
        ∀ e ∈ more, before.utf8ByteSize < e.span.stop) ∧
      ((∃ e ∈ q.diagnostics, e.kind = .expectedSemicolon ∧ e.span = ⟨d.span.start + 1, d.span.stop + 1⟩) →
        ¬ d.span.BeginsStatement source ∧ q.tree.TakesIn before.utf8ByteSize) ∧
      (d.span.BeginsStatement source → q.diagnostics.length + 1 = p.diagnostics.length) := by
  obtain ⟨_, c, children, parsed', run, -, -, rfl⟩ := exists_parse source
  cases parsed.symm.trans parsed'
  obtain ⟨_, run', walk, -⟩ := source_run {} (Word.ofTokens (lex source))
  cases run'.symm.trans run
  have orderly := walk.orderly (.start {} _)
  -- The complaint behind the diagnostic, and the seam in front of its word.
  obtain ⟨older, rest, listed, rfl, others⟩ := List.map_eq_append_iff.1 split
  obtain ⟨k, newer, rfl, rfl, rfl⟩ := List.map_eq_cons_iff.1 others
  have complaints : c.complaints = newer.reverse ++ k :: older.reverse := by
    simpa using congrArg List.reverse listed
  have among : k ∈ c.complaints := complaints ▸ List.mem_append_right _ List.mem_cons_self
  rw [Complaint.kind_locate] at kind
  obtain ⟨i, enclosing, rfl, bound⟩ := between_of_source run among kind
  obtain ⟨s, rfl⟩ := Seam.exists_of_place clean ((orderly.made _ among).begun _ _ rfl) (Nat.le_of_lt bound)
  obtain ⟨q, c', children', parsed', run', tree', -, rfl⟩ := exists_parse s.mended
  obtain ⟨w, behind, ahead⟩ : ∃ w behind, s.wordsAfter = w :: behind := by
    refine List.exists_cons_of_ne_nil fun none => ?_
    rw [s.words, none, List.append_nil, s.length_wordsBefore] at bound
    exact Nat.lt_irrefl _ bound
  have words := s.words
  have words' := s.words_mended
  rw [ahead] at words words'
  rw [words] at run
  rw [words'] at run'
  rw [← s.length_wordsBefore] at complaints
  obtain ⟨⟨new, grown, places⟩, swallowed, fewer⟩ := Mending.source_mended run run' complaints
  rw [s.length_wordsBefore] at swallowed complaints places
  have begins (h : (Layout.span (.ofTokens (lex source)) s.place).BeginsStatement source) :
      beginsStatement (w :: behind) = true := by
    obtain ⟨j, e, f, same, rest, answer⟩ := h
    obtain rfl : j = s.place := Layout.eq_of_span_eq bound same
    have starts := ((Mending.atStatementStart_answers e) _ _ answer).1
    rw [rest, words, ← s.length_wordsBefore, List.drop_left] at starts
    exact starts.symm
  refine ⟨_, s.before, s.after, _, rfl, s.source_eq, ?_, parsed', ?_, fun again => ?_, fun starts => ?_⟩
  · rw [s.endBefore_place, s.stop_eq]
  · refine ⟨older.map (·.locate (.ofTokens (lex s.mended))), new.reverse.map (·.locate (.ofTokens (lex s.mended))), ?_, ?_, ?_⟩
    · simp only [Outline.dress, grown, List.reverse_append, List.reverse_reverse, List.map_append]
    · have order := orderly.order
      rw [complaints, List.pairwise_append, List.pairwise_cons] at order
      simp only [List.map_map]
      refine List.map_congr_left fun e mem => ?_
      have mem := List.mem_reverse.2 mem
      have made := orderly.made e (complaints ▸ List.mem_append_right _ (List.mem_cons_of_mem _ mem))
      have early : e.place < s.place := (order.2.1.1 e mem).behind
      simp only [Function.comp_apply, Complaint.kind_locate, s.span_locate made early]
    · intro e mem
      obtain ⟨k, among, rfl⟩ := List.mem_map.1 mem
      have within := Layout.stop_le_stop s.mended (places k (List.mem_reverse.1 among))
      rw [Layout.span, s.word_mended] at within
      rw [Complaint.stop_locate, ← s.stop_eq]
      exact within
  · obtain ⟨e, mem, kind, stands⟩ := again
    obtain ⟨k, made, rfl⟩ := List.mem_map.1 mem
    rw [Complaint.kind_locate] at kind
    obtain ⟨j, o, rfl, within⟩ := between_of_source run' (List.mem_reverse.1 made) kind
    obtain rfl : j = s.place + 1 := by
      refine Layout.eq_of_span_eq ?_ (stands.trans (s.span_mended_succ (Nat.le_refl _) bound).symm)
      rw [words', List.length_append, s.length_wordsBefore, List.length_cons, List.length_cons]
      omega
    obtain ⟨stray, us, has, inside⟩ := swallowed ⟨o, List.mem_reverse.1 made⟩
    exact ⟨fun starts => Bool.false_ne_true (stray.symm.trans (begins starts)), s.takesIn tree' has inside⟩
  · simpa [Outline.dress] using fewer (begins starts)

/-- The second variable statement of `var ; var a var b;` is told apart from the first one, and of the two
diagnostics that the source has the one in front remains. -/
theorem parse_mended_variables : ∃ p e d fix before after q, parse "var ; var a var b;" = .ok p ∧
    p.diagnostics = [e, d] ∧ e.span = ⟨0, 3⟩ ∧ d.span = ⟨12, 15⟩ ∧ d.kind = .expectedSemicolon ∧
    d.span.BeginsStatement "var ; var a var b;" ∧ d.fix? = some fix ∧ "var ; var a var b;" = before ++ after ∧
    fix.span = .point before.utf8ByteSize ∧ parse (before ++ fix.replacement ++ after) = .ok q ∧
    q.diagnostics.map (fun f => (f.kind, f.span)) = [(e.kind, e.span)] := by
  have said : (parse "var ; var a var b;").toOption.map (·.diagnostics.map fun d => (d.kind, d.span)) =
      some [(.expectedDeclaration, ⟨0, 3⟩), (.expectedSemicolon, ⟨12, 15⟩)] := by decide +kernel
  cases parsed : parse "var ; var a var b;" with
  | error e => rw [parsed] at said; cases said
  | ok p =>
    rw [parsed] at said
    obtain ⟨e, rest, listed, is, others⟩ := List.map_eq_cons_iff.1 (Option.some.inj said)
    obtain ⟨d, none, rfl, isSemicolon, ends⟩ := List.map_eq_cons_iff.1 others
    obtain rfl := List.map_eq_nil_iff.1 ends
    obtain ⟨-, atFirst⟩ := Prod.mk.inj is
    obtain ⟨kind, place⟩ := Prod.mk.inj isSemicolon
    have split : p.diagnostics = [e] ++ d :: [] := listed
    have begins : d.span.BeginsStatement "var ; var a var b;" := by
      have starts : (atStatementStart.run (.start {} ((Word.ofTokens (lex "var ; var a var b;")).drop 4))).toOption.map
          Prod.fst = some true := by decide +kernel
      cases ran : atStatementStart.run (.start {} ((Word.ofTokens (lex "var ; var a var b;")).drop 4)) with
      | error e => rw [ran] at starts; cases starts
      | ok r =>
        obtain ⟨b, c⟩ := r
        rw [ran] at starts
        obtain rfl : b = true := Option.some.inj starts
        exact ⟨4, .start {} _, c, by rw [place]; decide +kernel, rfl, ran⟩
    obtain ⟨fix, before, after, q, suggested, parts, stands, mended, ⟨same, more, diagnostics, kept, -⟩, -, fewer⟩ :=
      parse_mended (by decide +kernel) parsed split kind
    refine ⟨p, e, d, fix, before, after, q, rfl, listed, atFirst, place, kind, begins, suggested, parts, stands, mended, ?_⟩
    have one := congrArg List.length kept
    have count := fewer begins
    rw [listed, diagnostics] at count
    obtain rfl : more = [] := List.eq_nil_of_length_eq_zero (by simp at one count; omega)
    rw [diagnostics, List.append_nil, kept]
    rfl

/-- An open angle takes the suggested semicolon in, which is missing then as it was. -/
theorem angle_takes_semicolon : (∀ t ∈ lex "type A = b < ]", t.kind ≠ .garbage) ∧
    (parse "type A = b < ]").toOption.map (·.diagnostics.map fun d => (d.kind, d.span, d.fix?.map (·.span))) =
      some [(.expectedSemicolon, ⟨13, 14⟩, some (.point 12))] ∧
    (parse "type A = b <; ]").toOption.map (·.diagnostics.map fun d => (d.kind, d.span)) =
      some [(.expectedSemicolon, ⟨14, 15⟩)] := by
  decide +kernel

end ImplicitGlobals
