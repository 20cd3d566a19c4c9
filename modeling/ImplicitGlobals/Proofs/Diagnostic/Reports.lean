import ImplicitGlobals.Proofs.Diagnostic.Filter
import Mathlib.Data.List.Perm.Subperm

/-!
# Where diagnostics stand

The grammar complains of a word once and from left to right, so there is at most one complaint
for each word and one more for the end of the source. What a diagnostic points at stands in the
source, from a token on and up to one.
-/

namespace ImplicitGlobals

/-- All places that a diagnostic names: where it stands and what it suppresses, where its fix goes and
what it refers to. -/
def Diagnostic.spans (d : Diagnostic) : List Span :=
  d.span :: d.suppression :: ((d.fix?.map Fix.span).toList ++ d.related.map Related.span)

/-- The span lies in the source, starts where a token starts or stops, and stops where one stops or
at the end of the source. -/
structure Span.Marks (text : String) (s : Span) : Prop where
  forward : s.start ≤ s.stop
  within : s.stop ≤ text.utf8ByteSize
  starts : ∃ t ∈ lex text, s.start = t.start ∨ s.start = t.stop
  stops : s.stop = text.utf8ByteSize ∨ ∃ t ∈ lex text, s.stop = t.stop

/-! ### Words in the source -/

namespace Layout

variable {start : Nat} {tokens : List Token} {text : String} {i j : Nat}

theorem endOf_of_tiled (tiled : Token.Tiled start tokens) (some : tokens ≠ []) :
    endOf tokens = start + Token.sizeOf tokens := by
  obtain ⟨front, last, rfl⟩ : ∃ front last, tokens = front ++ [last] :=
    ⟨_, _, (List.dropLast_concat_getLast some).symm⟩
  have ends : endOf (front ++ [last]) = last.stop := by simp [endOf]
  have sizes : Token.sizeOf (front ++ [last]) = Token.sizeOf front + last.text.utf8ByteSize := by
    have sums (ts : List Token) : Token.sizeOf ts = (ts.map (·.text.utf8ByteSize)).sum := rfl
    simp [sums]
  rw [ends, sizes, Token.stop, tiled.start_eq, Nat.add_assoc]

theorem size_lex (some : lex text ≠ []) : (ofTokens (lex text)).size = text.utf8ByteSize := by
  have joined := Token.utf8ByteSize_join ((lex text).map (·.text))
  rw [Lexer.join_lex, List.map_map] at joined
  exact (endOf_of_tiled (Lexer.tiled_lex text) some).trans ((Nat.zero_add _).trans joined.symm)

/-- Every word starts with a token, and the end of the source is where the last one stops. -/
theorem exists_start (some : lex text ≠ []) (i : Nat) :
    ∃ t ∈ lex text, ((ofTokens (lex text)).span i).start = t.start ∨
      ((ofTokens (lex text)).span i).start = t.stop := by
  rcases Nat.lt_or_ge i (ofTokens (lex text)).words.size with short | past
  · exact ⟨_, mem_of_words short, .inl (by rw [span_of_lt short]; rfl)⟩
  · refine ⟨(lex text).getLast some, List.getLast_mem some, .inr ?_⟩
    rw [span_of_ge past]
    simp [Span.point, ofTokens, endOf, List.getLast?_eq_some_getLast some]

theorem exists_stop (some : lex text ≠ []) (i : Nat) :
    ((ofTokens (lex text)).span i).stop = text.utf8ByteSize ∨
      ∃ t ∈ lex text, ((ofTokens (lex text)).span i).stop = t.stop := by
  rcases Nat.lt_or_ge i (ofTokens (lex text)).words.size with short | past
  · exact .inr ⟨_, mem_of_words short, by rw [span_of_lt short]; rfl⟩
  · exact .inl (by rw [span_of_ge past]; exact size_lex some)

theorem start_le_stop (tokens : List Token) (i : Nat) :
    ((ofTokens tokens).span i).start ≤ ((ofTokens tokens).span i).stop := by
  rcases Nat.lt_or_ge i (ofTokens tokens).words.size with short | past
  · rw [span_of_lt short]
    exact Token.start_le_stop _
  · rw [span_of_ge past]
    exact Nat.le_refl _

/-- From a word to the end of it or of a later one. -/
theorem marks_between (some : lex text ≠ []) (le : i ≤ j) :
    Span.Marks text ⟨((ofTokens (lex text)).span i).start, ((ofTokens (lex text)).span j).stop⟩ where
  forward := by
    rcases Nat.eq_or_lt_of_le le with rfl | lt
    · exact start_le_stop _ i
    · exact Nat.le_trans (Nat.le_trans (start_le_stop _ i) (stop_le_start (Lexer.tiled_lex text) lt))
        (start_le_stop _ j)
  within := size_lex some ▸ stop_le_size (Lexer.tiled_lex text) j
  starts := exists_start some i
  stops := exists_stop some j

theorem marks_span (some : lex text ≠ []) (i : Nat) : ((ofTokens (lex text)).span i).Marks text :=
  marks_between some (Nat.le_refl i)

/-- Behind a word that was read the place is where that word stops. -/
theorem marks_endBefore (begun : 0 < i) (bound : i ≤ (ofTokens (lex text)).words.size) :
    (Span.point ((ofTokens (lex text)).endBefore i)).Marks text := by
  have short : i - 1 < (ofTokens (lex text)).words.size := by omega
  have place : (ofTokens (lex text)).endBefore i = ((ofTokens (lex text)).words[i - 1]).stop := by
    simp [endBefore, Nat.ne_of_gt begun, short]
  have among := mem_of_words short
  have some : lex text ≠ [] := List.ne_nil_of_mem among
  rw [place]
  exact ⟨Nat.le_refl _, size_lex some ▸ stop_le_endOf (Lexer.tiled_lex text) among,
    ⟨_, among, .inr rfl⟩, .inr ⟨_, among, rfl⟩⟩

end Layout

namespace Complaint

variable {text : String} {k : Complaint}

theorem marks_reach (some : lex text ≠ []) {i : Nat} {enclosing : Option Nat}
    (opener : ∀ o ∈ enclosing, o < i) (bound : i ≤ (Layout.ofTokens (lex text)).words.size) :
    (reach (.ofTokens (lex text)) i enclosing).Marks text := by
  cases enclosing with
  | none => exact Layout.marks_span some i
  | some o =>
    have before : o ≤ (Layout.ofTokens (lex text)).words.size :=
      Nat.le_trans (Nat.le_of_lt (opener o rfl)) bound
    have toEnd := Layout.marks_between some before
    rwa [Layout.span_of_ge (Nat.le_refl _)] at toEnd

/-- What a complaint of the words points at, it points at rightly. -/
theorem marks_spans (some : lex text ≠ []) (made : k.WellMade)
    (bound : k.place ≤ (Layout.ofTokens (lex text)).words.size) :
    ∀ s ∈ (k.locate (.ofTokens (lex text))).spans, s.Marks text := by
  have here := Layout.marks_span some k.place
  cases k with
  | here kind detail i enclosing =>
    have reach := marks_reach some made.opener bound
    cases detail <;> exact List.forall_mem_cons.2 ⟨here, List.forall_mem_singleton.2 reach⟩
  | noSemicolon i enclosing =>
    have reach := marks_reach some made.opener bound
    have fix := Layout.marks_endBefore (made.begun i enclosing rfl) bound
    exact List.forall_mem_cons.2 ⟨here, List.forall_mem_cons.2 ⟨reach, List.forall_mem_singleton.2 fix⟩⟩
  | unclosed kind note opener i =>
    have whole := Layout.marks_between some (Nat.le_of_lt (made.opener opener rfl))
    have related := Layout.marks_span some opener
    exact List.forall_mem_cons.2 ⟨whole, List.forall_mem_cons.2 ⟨whole, List.forall_mem_singleton.2 related⟩⟩

end Complaint

/-- A source without words has nothing to complain of. -/
theorem Outline.complaints_of_no_words {budget : Budget} {o : Outline}
    (outlined : ofWords budget [] = .ok o) : o.complaints = [] := by
  have read : ofWords budget [] = .ok ⟨.node .sourceFile [.leaf (.gap 0)], []⟩ := rfl
  cases read.symm.trans outlined
  rfl

/-- The words at which the grammar complains come one behind the other, so there are no more complaints
than words and the end of the source. All that the diagnostics point at lies in the source, from where
a token starts or stops to where one stops or the source ends. -/
theorem parseWithin_reports {budget : Budget} {text : String} {p : Parsed}
    (parsed : parseWithin budget text = .ok p) :
    ∃ o, Outline.ofWords budget (Word.ofTokens (lex text)) = .ok o ∧
      p.diagnostics = o.complaints.map (Complaint.locate (.ofTokens (lex text))) ∧
      (o.complaints.map Complaint.place).Pairwise (· < ·) ∧
      (∀ k ∈ o.complaints, k.place ≤ (Word.ofTokens (lex text)).length) ∧
      p.diagnostics.length ≤ (Word.ofTokens (lex text)).length + 1 ∧
      ∀ d ∈ p.diagnostics, ∀ s ∈ d.spans, s.Marks text := by
  obtain ⟨c, children, run, walk, kept, -, -, tree, rfl⟩ := run_of_parseWithin parsed
  have orderly := walk.orderly (.start budget _)
  have outlined : Outline.ofWords budget (Word.ofTokens (lex text)) =
      .ok ⟨.node .sourceFile children, c.complaints.reverse⟩ := by
    simp only [Outline.ofWords, run]
    exact Outline.ofCursor_of_complete kept tree
  have order : (c.complaints.reverse.map Complaint.place).Pairwise (· < ·) := by
    rw [List.map_reverse, List.pairwise_reverse, List.pairwise_map]
    exact orderly.order.imp Complaint.Follows.behind
  -- A complaint stands at a word that was passed or at the end.
  have bound (k : Complaint) (mem : k ∈ c.complaints.reverse) :
      k.place ≤ (Word.ofTokens (lex text)).length := by
    have count := walk.frame.length_rest
    have behind := orderly.behind k (List.mem_reverse.1 mem)
    simp only [Grammar.Cursor.start] at count
    omega
  refine ⟨_, outlined, rfl, order, bound, ?_, ?_⟩
  · -- the places are different numbers up to that of the words
    have among : c.complaints.reverse.map Complaint.place ⊆
        List.range ((Word.ofTokens (lex text)).length + 1) := by
      intro i mem
      obtain ⟨k, complaint, rfl⟩ := List.mem_map.1 mem
      exact List.mem_range.2 (Nat.lt_succ_of_le (bound k complaint))
    have few := (List.subperm_of_subset (order.imp Nat.ne_of_lt) among).length_le
    simpa [Outline.dress] using few
  · intro d among s mem
    obtain ⟨k, complaint, rfl⟩ := List.mem_map.1 among
    have some : lex text ≠ [] := by
      intro none
      rw [none] at outlined
      exact absurd complaint (Outline.complaints_of_no_words outlined ▸ List.not_mem_nil)
    exact Complaint.marks_spans some (orderly.made k (List.mem_reverse.1 complaint))
      (Layout.length_ofTokens _ ▸ bound k complaint) s mem

/-- A `;` that is missing in a block, with its fix, and the brace that is left open, with its opener. -/
theorem parseWithin_reports_block :
    ∃ p, parseWithin {} "namespace N \x7b var a var b;" = .ok p ∧
      p.diagnostics.map (fun d => (d.kind, d.spans)) =
        [(.expectedSemicolon, [⟨20, 23⟩, ⟨12, 26⟩, ⟨19, 19⟩]),
          (.unclosedBrace, [⟨12, 26⟩, ⟨12, 26⟩, ⟨12, 13⟩])] ∧
      p.diagnostics.length ≤ 8 + 1 ∧
      ∀ d ∈ p.diagnostics, ∀ s ∈ d.spans, s.Marks "namespace N \x7b var a var b;" := by
  have found : (parseWithin {} "namespace N \x7b var a var b;").toOption.any (fun p =>
      decide (p.diagnostics.map (fun d => (d.kind, d.spans)) =
        [(.expectedSemicolon, [⟨20, 23⟩, ⟨12, 26⟩, ⟨19, 19⟩]),
          (.unclosedBrace, [⟨12, 26⟩, ⟨12, 26⟩, ⟨12, 13⟩])])) = true := by
    decide +kernel
  obtain ⟨p, parsed, found⟩ := exists_of_any_toOption found
  obtain ⟨o, -, -, -, -, few, marks⟩ := parseWithin_reports parsed
  have words : (Word.ofTokens (lex "namespace N \x7b var a var b;")).length = 8 := by decide +kernel
  exact ⟨p, parsed, of_decide_eq_true found, words ▸ few, marks⟩

end ImplicitGlobals
