import ImplicitGlobals.Syntax.Lexer
import ImplicitGlobals.Syntax.Word

/-!
# The tokens tile the source

Every token starts where the one before it stops, the first at the start of the
source, and no token is empty. So words start one behind the other and stop before
the end of the source.
-/

namespace ImplicitGlobals

namespace Token

/-- Tokens one behind the other, the first at `start`. -/
def Tiled : Nat → List Token → Prop
  | _, [] => True
  | start, t :: rest => t.start = start ∧ Tiled t.stop rest

/-- The length of the texts of tokens in bytes. -/
def sizeOf (tokens : List Token) : Nat := (tokens.map (·.text.utf8ByteSize)).foldr (· + ·) 0

/-- Behind some tokens the rest is tiled from where they end. -/
theorem Tiled.split {start : Nat} {before after : List Token} (h : Tiled start (before ++ after)) :
    Tiled (start + sizeOf before) after := by
  induction before generalizing start with
  | nil => exact h
  | cons t rest ih =>
    obtain ⟨here, rest⟩ := h
    have behind := ih rest
    simpa [sizeOf, stop, here, Nat.add_assoc] using behind

/-- A token starts where the tokens before it end. -/
theorem Tiled.start_eq {start : Nat} {before after : List Token} {t : Token}
    (h : Tiled start (before ++ t :: after)) : t.start = start + sizeOf before :=
  h.split.1

theorem Tiled.le_start {start : Nat} {tokens : List Token} (h : Tiled start tokens) {t : Token}
    (mem : t ∈ tokens) : start ≤ t.start := by
  obtain ⟨before, after, rfl⟩ := List.append_of_mem mem
  rw [h.start_eq]
  exact Nat.le_add_right _ _

/-- No token starts before an earlier one has stopped. -/
theorem Tiled.pairwise {start : Nat} {tokens : List Token} (h : Tiled start tokens) :
    tokens.Pairwise fun a b => a.stop ≤ b.start := by
  induction tokens generalizing start with
  | nil => exact .nil
  | cons t rest ih => exact .cons (fun _ mem => h.2.le_start mem) (ih h.2)

theorem start_le_stop (t : Token) : t.start ≤ t.stop := Nat.le_add_right _ _

theorem start_lt_stop {t : Token} (filled : t.text ≠ "") : t.start < t.stop :=
  Nat.lt_add_of_pos_right (Nat.pos_of_ne_zero fun h => filled (String.utf8ByteSize_eq_zero_iff.1 h))

theorem utf8ByteSize_join (texts : List String) :
    (String.join texts).utf8ByteSize = (texts.map String.utf8ByteSize).foldr (· + ·) 0 := by
  induction texts with
  | nil => rfl
  | cons s rest ih => simp [ih]

end Token

namespace Lexer

/-- What is placed from `start` on tiles the text from there. -/
theorem tiled_place (start : Nat) (ps : List Piece) : Token.Tiled start (place start ps) := by
  induction ps generalizing start with
  | nil => trivial
  | cons p rest ih => exact ⟨rfl, ih _⟩

/-- The tokens of a text tile it from its start. -/
theorem tiled_lex (source : String) : Token.Tiled 0 (lex source) := tiled_place 0 _

/-- No piece is empty. -/
theorem ne_nil_of_mem_pieces {cs : List Char} {p : Piece} (mem : p ∈ pieces cs) : p.2 ≠ [] := by
  fun_induction pieces cs with
  | case1 => simp at mem
  | case2 c rest f ih =>
    rcases List.mem_cons.1 mem with rfl | mem
    · exact List.cons_ne_nil _ _
    · exact ih mem

/-- Joining keeps pieces from being empty. -/
theorem ne_nil_of_mem_joinGarbage {ps : List Piece} (filled : ∀ p ∈ ps, p.2 ≠ []) {p : Piece}
    (mem : p ∈ joinGarbage ps) : p.2 ≠ [] := by
  fun_induction joinGarbage ps with
  | case1 => simp at mem
  | case2 t rest u more e ih =>
    rw [e] at ih
    rcases List.mem_cons.1 mem with rfl | mem
    · simpa using fun h => absurd h (filled (.garbage, t) List.mem_cons_self)
    · exact ih (fun q h => filled q (List.mem_cons_of_mem _ h)) (List.mem_cons_of_mem _ mem)
  | case3 k t rest _ ih =>
    rcases List.mem_cons.1 mem with rfl | mem
    · exact filled _ List.mem_cons_self
    · exact ih (fun q h => filled q (List.mem_cons_of_mem _ h)) mem

theorem exists_of_mem_place {start : Nat} {ps : List Piece} {t : Token} (mem : t ∈ place start ps) :
    ∃ p ∈ ps, t.kind = p.1 ∧ t.text = String.ofList p.2 := by
  induction ps generalizing start with
  | nil => simp [place] at mem
  | cons p rest ih =>
    rcases List.mem_cons.1 mem with rfl | mem
    · exact ⟨p, List.mem_cons_self, rfl, rfl⟩
    · obtain ⟨q, h, same⟩ := ih mem
      exact ⟨q, List.mem_cons_of_mem _ h, same⟩

/-- No token is empty. -/
theorem text_ne_empty {source : String} {t : Token} (mem : t ∈ lex source) : t.text ≠ "" := by
  obtain ⟨p, h, -, text⟩ := exists_of_mem_place mem
  have filled := ne_nil_of_mem_joinGarbage (fun q => ne_nil_of_mem_pieces) h
  rw [text]
  intro empty
  exact filled (by simpa using congrArg String.toList empty)

/-- The texts of the tokens make up the source. -/
theorem join_lex (source : String) : String.join ((lex source).map (·.text)) = source := by
  apply String.toList_inj.1
  rw [String.toList_join, List.flatMap_map, flatMap_lex]

end Lexer

/-! ### Where words stand -/

namespace Layout

/-- Words that start one behind the other, the end of the source behind them all, and stop
within the source. -/
structure Ordered (l : Layout) : Prop where
  starts : ∀ {i j : Nat}, i < j → j ≤ l.words.size → (l.span i).start < (l.span j).start
  stops : ∀ i : Nat, (l.span i).stop ≤ l.size

/-- Later words do not begin earlier. -/
theorem Ordered.start_le_start {l : Layout} (h : l.Ordered) {i j : Nat} (le : i ≤ j)
    (bound : j ≤ l.words.size) : (l.span i).start ≤ (l.span j).start := by
  rcases Nat.eq_or_lt_of_le le with rfl | lt
  · exact Nat.le_refl _
  · exact Nat.le_of_lt (h.starts lt bound)

theorem span_of_lt {l : Layout} {i : Nat} (h : i < l.words.size) : l.span i = l.words[i].span := by
  simp [span, h]

/-- Behind the last word the span is the end of the text. -/
theorem span_of_ge {l : Layout} {i : Nat} (h : l.words.size ≤ i) : l.span i = .point l.size := by
  simp [span, h]

theorem length_after (broken : Bool) (tokens : List Token) :
    (Word.after broken tokens).length = (tokens.filter (!·.kind.isTrivia)).length := by
  induction tokens generalizing broken with
  | nil => rfl
  | cons t rest ih => by_cases trivia : t.kind.isTrivia = true <;> simp [Word.after, trivia, ih]

/-- A layout has the words that the grammar reads. -/
theorem length_ofTokens (tokens : List Token) :
    (Word.ofTokens tokens).length = (ofTokens tokens).words.size := by
  simp [Word.ofTokens, ofTokens, length_after]

variable {start : Nat} {tokens : List Token}

theorem mem_of_words {i : Nat} (h : i < (ofTokens tokens).words.size) :
    (ofTokens tokens).words[i] ∈ tokens :=
  (List.mem_filter.1 (List.mem_toArray.1 (Array.getElem_mem h))).1

/-- All tokens stop at or before the last stop. -/
theorem stop_le_endOf (tiled : Token.Tiled start tokens) {t : Token} (mem : t ∈ tokens) :
    t.stop ≤ endOf tokens := by
  obtain ⟨front, last, rfl⟩ : ∃ front last, tokens = front ++ [last] :=
    ⟨_, _, (List.dropLast_concat_getLast (List.ne_nil_of_mem mem)).symm⟩
  have ends : endOf (front ++ [last]) = last.stop := by simp [endOf]
  rw [ends]
  rcases List.mem_append.1 mem with mem | mem
  · have before := (List.pairwise_append.1 tiled.pairwise).2.2 t mem last List.mem_cons_self
    exact Nat.le_trans before last.start_le_stop
  · cases List.mem_singleton.1 mem
    exact Nat.le_refl _

/-- No word ends behind the text. -/
theorem stop_le_size (tiled : Token.Tiled start tokens) (i : Nat) :
    ((ofTokens tokens).span i).stop ≤ (ofTokens tokens).size := by
  rcases Nat.lt_or_ge i (ofTokens tokens).words.size with h | h
  · rw [span_of_lt h]
    exact stop_le_endOf tiled (mem_of_words h)
  · rw [span_of_ge h]
    exact Nat.le_refl _

/-- A word stops before the next one starts. -/
theorem stop_le_start (tiled : Token.Tiled start tokens) {i j : Nat} (lt : i < j) :
    ((ofTokens tokens).span i).stop ≤ ((ofTokens tokens).span j).start := by
  rcases Nat.lt_or_ge j (ofTokens tokens).words.size with h | h
  · have short : i < (ofTokens tokens).words.size := Nat.lt_trans lt h
    have words := tiled.pairwise.filter fun t => !t.kind.isTrivia
    rw [span_of_lt short, span_of_lt h]
    exact List.pairwise_iff_getElem.1 words i j short h lt
  · rw [span_of_ge h]
    exact stop_le_size tiled i

/-- A word is not empty. -/
theorem start_lt_stop (filled : ∀ t ∈ tokens, t.text ≠ "") {i : Nat}
    (h : i < (ofTokens tokens).words.size) :
    ((ofTokens tokens).span i).start < ((ofTokens tokens).span i).stop := by
  rw [span_of_lt h]
  exact Token.start_lt_stop (filled _ (mem_of_words h))

/-- The words of tokens that tile a source are in order. -/
theorem Ordered.ofTiled (tiled : Token.Tiled start tokens) (filled : ∀ t ∈ tokens, t.text ≠ "") :
    (ofTokens tokens).Ordered where
  starts lt le := Nat.lt_of_lt_of_le (start_lt_stop filled (Nat.lt_of_lt_of_le lt le)) (stop_le_start tiled lt)
  stops := stop_le_size tiled

/-- The words of a text stand in order. -/
theorem ordered_lex (text : String) : (ofTokens (lex text)).Ordered :=
  .ofTiled (Lexer.tiled_lex text) fun _ => Lexer.text_ne_empty

end Layout

end ImplicitGlobals
