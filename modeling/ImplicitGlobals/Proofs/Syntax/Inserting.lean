import ImplicitGlobals.Proofs.Syntax.Cutting
import ImplicitGlobals.Proofs.Syntax.LongestMatch

/-!
# A semicolon behind a word

A semicolon is text in literals and comments only. A literal and a block comment end at the first mark
that can end them, and a line comment at the end of its line, so behind any of them a semicolon is no
longer part of it.

Where a semicolon is put behind a word of a source, the tokens before it are the same, and those behind
it stand one byte further on.
-/

namespace ImplicitGlobals

namespace CharSet

/-- All characters but some. -/
theorem contains_except_iff {cs : List Char} {c : Char} : (except cs).contains c = true ↔ c ∉ cs := by
  rw [contains_except, Bool.not_eq_true', Bool.eq_false_iff, ne_eq, contains_ofList_iff]

end CharSet

namespace Regex

variable {a b r : Regex} {c mark : Char} {excluded v w : List Char}

/-! ### Parts of expressions -/

theorem matches_set_iff {s : CharSet} : Matches (.set s) w ↔ ∃ c, w = [c] ∧ s.contains c = true := by
  constructor
  · intro matched
    cases matched with
    | set mem => exact ⟨_, rfl, mem⟩
  · rintro ⟨c, rfl, mem⟩
    exact .set mem

theorem matches_star_set_iff {s : CharSet} : Matches (.star (.set s)) w ↔ ∀ c ∈ w, s.contains c = true := by
  induction w with
  | nil => exact ⟨fun _ => nofun, fun _ => .nil⟩
  | cons c w ih =>
    rw [matches_star_cons_iff, List.forall_mem_cons, ← ih]
    constructor
    · rintro ⟨u, v, rfl, first, others⟩
      obtain ⟨d, one, mem⟩ := matches_set_iff.1 first
      obtain ⟨rfl, rfl⟩ := List.cons.inj one
      exact ⟨mem, others⟩
    · rintro ⟨mem, others⟩
      exact ⟨[], w, rfl, .set mem, others⟩

theorem matches_char_seq_iff : Matches (.seq (char c) r) w ↔ ∃ v, w = c :: v ∧ Matches r v := by
  rw [matches_seq_iff]
  constructor
  · rintro ⟨u, v, rfl, first, rest⟩
    rw [matches_char_iff.1 first]
    exact ⟨v, rfl, rest⟩
  · rintro ⟨v, rfl, rest⟩
    exact ⟨[c], v, rfl, matches_char_iff.2 rfl, rest⟩

theorem matches_assoc : Matches (.seq (.seq a b) r) w ↔ Matches (.seq a (.seq b r)) w := by
  simp only [matches_seq_iff]
  constructor
  · rintro ⟨_, v, rfl, ⟨u, t, rfl, left, middle⟩, right⟩
    exact ⟨u, t ++ v, List.append_assoc .., left, t, v, rfl, middle, right⟩
  · rintro ⟨u, _, rfl, left, t, v, rfl, middle, right⟩
    exact ⟨u ++ t, v, (List.append_assoc ..).symm, ⟨u, t, rfl, left, middle⟩, right⟩

/-! ### Texts without a character -/

/-- No text of the expression holds the character. -/
def avoids (c : Char) : Regex → Bool
  | .none | .empty => true
  | .set s => !s.contains c
  | .seq a b | .alt a b => a.avoids c && b.avoids c
  | .star a => a.avoids c

theorem not_mem_of_avoids (avoids : r.avoids c = true) (matched : Matches r w) : c ∉ w := by
  induction matched with
  | empty | nil => exact List.not_mem_nil
  | set mem =>
    intro here
    obtain rfl := List.mem_singleton.1 here
    simp [Regex.avoids, mem] at avoids
  | seq _ _ left right =>
    have both := Bool.and_eq_true_iff.1 avoids
    exact fun mem => (List.mem_append.1 mem).elim (left both.1) (right both.2)
  | left _ ih => exact ih (Bool.and_eq_true_iff.1 avoids).1
  | right _ ih => exact ih (Bool.and_eq_true_iff.1 avoids).2
  | cons _ _ first others => exact fun mem => (List.mem_append.1 mem).elim (first avoids) (others avoids)

/-! ### Literals -/

/-- What follows the first mark of a literal. -/
def literalRest (mark : Char) (excluded : List Char) : Regex :=
  .seq (.star (.alt (.set (.except (mark :: '\\' :: excluded))) (.seq (char '\\') (.set TokenRules.anyChar))))
    (char mark)

/-- A literal ends at its mark, and goes on behind any other character. -/
theorem matches_literalRest_cons (other : mark ≠ '\\') : Matches (literalRest mark excluded) (c :: w) ↔
    if c = mark then w = [] else if c = '\\' then ∃ d v, w = d :: v ∧ Matches (literalRest mark excluded) v
      else c ∉ excluded ∧ Matches (literalRest mark excluded) w := by
  have self (d : Char) : (CharSet.one d).contains d = true := by simp [CharSet.contains, CharSet.one]
  rw [← matches_deriv_iff]
  by_cases isMark : c = mark
  · subst isMark
    have out : (CharSet.except (c :: '\\' :: excluded)).contains c = false := by
      simp [Bool.eq_false_iff, CharSet.contains_except_iff]
    simp [literalRest, deriv, char, out, CharSet.contains_one_of_ne other, self, andThen, orElse, nullable, matches_empty_iff]
  by_cases isSlash : c = '\\'
  · subst isSlash
    have out : (CharSet.except (mark :: '\\' :: excluded)).contains '\\' = false := by
      simp [Bool.eq_false_iff, CharSet.contains_except_iff]
    have any (d : Char) : TokenRules.anyChar.contains d = true := by
      simp [CharSet.contains, TokenRules.anyChar, CharSet.except]
    let body : Regex := .star (.alt (.set (.except (mark :: '\\' :: excluded))) (.seq (char '\\') (.set TokenRules.anyChar)))
    have behind : (literalRest mark excluded).deriv '\\' = .seq (.seq (.set TokenRules.anyChar) body) (char mark) := by
      simp [body, literalRest, deriv, char, out, CharSet.contains_one_of_ne isMark, self, andThen, orElse, nullable]
    rw [if_neg isMark, if_pos rfl, behind, matches_seq_iff]
    constructor
    · rintro ⟨_, v, rfl, front, last⟩
      obtain ⟨_, u, rfl, one, middle⟩ := matches_seq_iff.1 front
      obtain ⟨d, rfl, -⟩ := matches_set_iff.1 one
      exact ⟨d, u ++ v, rfl, .seq middle last⟩
    · rintro ⟨d, _, rfl, rest⟩
      obtain ⟨u, v, rfl, middle, last⟩ := matches_seq_iff.1 rest
      exact ⟨d :: u, v, rfl, .seq (u := [d]) (.set (any d)) middle, last⟩
  rw [if_neg isMark, if_neg isSlash]
  by_cases mem : c ∈ excluded
  · have out : (CharSet.except (mark :: '\\' :: excluded)).contains c = false := by
      simp [Bool.eq_false_iff, CharSet.contains_except_iff, mem]
    simp [literalRest, deriv, char, out, CharSet.contains_one_of_ne isMark, CharSet.contains_one_of_ne isSlash,
      andThen, orElse, nullable, mem, not_matches_none]
  · have inside : (CharSet.except (mark :: '\\' :: excluded)).contains c = true := by
      simp [CharSet.contains_except_iff, mem, isMark, isSlash]
    simp [literalRest, deriv, char, inside, CharSet.contains_one_of_ne isMark, CharSet.contains_one_of_ne isSlash,
      andThen, orElse, nullable, mem]

/-- A literal is not closed without its mark. -/
theorem not_matches_literalRest_nil : ¬Matches (literalRest mark excluded) [] := fun matched => by
  have ends := (nullable_iff _).2 matched
  simp [literalRest, nullable, char] at ends

/-- No literal goes on behind another one. -/
theorem literalRest_whole (other : mark ≠ '\\') (short : Matches (literalRest mark excluded) v)
    (long : Matches (literalRest mark excluded) (v ++ w)) : w = [] := by
  induction n : v.length using Nat.strong_induction_on generalizing v with
  | _ n ih =>
    cases v with
    | nil => exact absurd short not_matches_literalRest_nil
    | cons c v =>
      rw [List.cons_append, matches_literalRest_cons other] at long
      rw [matches_literalRest_cons other] at short
      simp only [List.length_cons] at n
      split at short
      · next is =>
        rw [if_pos is, short] at long
        exact long
      · next isMark =>
        rw [if_neg isMark] at long
        split at short
        · next isSlash =>
          rw [if_pos isSlash] at long
          obtain ⟨d, u, rfl, short⟩ := short
          obtain ⟨_, _, eq, long⟩ := long
          obtain ⟨rfl, rfl⟩ := List.cons.inj eq
          exact ih u.length (by simp only [List.length_cons] at n; omega) short long rfl
        · next isSlash =>
          rw [if_neg isSlash] at long
          exact ih v.length (by omega) short.2 long.2 rfl

/-! ### Comments -/

/-- What follows the opening mark of a comment up to the end of the line. -/
def lineRest : Regex := .star (.set (.except ['\n', '\r']))

/-- A character that ends no comment, and what follows it up to the last star in a row. -/
def commentTurn : Regex :=
  .seq (.set (.except ['/', '*'])) (.seq (.star (.set (.except ['*']))) (plus (char '*')))

/-- What follows the stars in a comment. -/
def starsRest : Regex := .seq (.star (char '*')) (.seq (.star commentTurn) (char '/'))

/-- What follows the opening mark of a comment. -/
def commentRest : Regex :=
  .seq (.star (.set (.except ['*']))) (.seq (plus (char '*')) (.seq (.star commentTurn) (char '/')))

/-- What is behind `/*`, character by character. -/
theorem matches_commentRest_cons : Matches commentRest (c :: w) ↔
    if c = '*' then Matches starsRest w else Matches commentRest w := by
  rw [← matches_deriv_iff]
  by_cases is : c = '*'
  · subst is
    rw [if_pos rfl, show commentRest.deriv '*' = starsRest by decide +kernel]
  · have inside : (CharSet.except ['*']).contains c = true := by simp [CharSet.contains_except_iff, is]
    rw [if_neg is, show commentRest.deriv c = commentRest by
      simp [commentRest, plus, deriv, char, inside, CharSet.contains_one_of_ne is, andThen, orElse, nullable]]

/-- What is behind a star in a comment. -/
theorem matches_starsRest_cons : Matches starsRest (c :: w) ↔
    if c = '*' then Matches starsRest w else if c = '/' then w = [] else Matches commentRest w := by
  rw [← matches_deriv_iff]
  by_cases isStar : c = '*'
  · subst isStar
    rw [if_pos rfl, show starsRest.deriv '*' = starsRest by decide +kernel]
  by_cases isSlash : c = '/'
  · subst isSlash
    rw [if_neg (by decide), if_pos rfl, show starsRest.deriv '/' = .empty by decide +kernel, matches_empty_iff]
  · have inside : (CharSet.except ['/', '*']).contains c = true := by simp [CharSet.contains_except_iff, isStar, isSlash]
    rw [if_neg isStar, if_neg isSlash, commentRest, ← matches_assoc, ← matches_assoc,
      show starsRest.deriv c = .seq (.seq (.seq (.star (.set (.except ['*']))) (plus (char '*'))) (.star commentTurn))
          (char '/') by
        simp [starsRest, commentTurn, plus, deriv, char, inside, CharSet.contains_one_of_ne isStar,
          CharSet.contains_one_of_ne isSlash, andThen, orElse, nullable]]

/-- A comment is not closed by nothing. -/
theorem not_matches_commentRest_nil : ¬Matches commentRest [] ∧ ¬Matches starsRest [] := by
  rw [← nullable_iff, ← nullable_iff]
  decide

/-- No comment goes on behind another one. -/
theorem commentRest_whole (v : List Char) : (Matches commentRest v → Matches commentRest (v ++ w) → w = []) ∧
    (Matches starsRest v → Matches starsRest (v ++ w) → w = []) := by
  induction v with
  | nil =>
    obtain ⟨open', starred⟩ := not_matches_commentRest_nil
    exact ⟨fun none => absurd none open', fun none => absurd none starred⟩
  | cons c v ih =>
    obtain ⟨inside, behind⟩ := ih
    rw [List.cons_append, matches_commentRest_cons, matches_commentRest_cons, matches_starsRest_cons, matches_starsRest_cons]
    refine ⟨fun short long => ?_, fun short long => ?_⟩
    · split at short
      · next is => exact behind short (by rwa [if_pos is] at long)
      · next is => exact inside short (by rwa [if_neg is] at long)
    · split at short
      · next is => exact behind short (by rwa [if_pos is] at long)
      · next isStar =>
        rw [if_neg isStar] at long
        split at short
        · next is => rwa [if_pos is, short] at long
        · next is => exact inside short (by rwa [if_neg is] at long)

/-- Where a comment ends it does so behind a star as well. -/
theorem exists_starsRest (matched : Matches commentRest w) : ∃ u, u <+: w ∧ Matches starsRest u := by
  cases w with
  | nil => exact absurd matched not_matches_commentRest_nil.1
  | cons c w =>
    rw [matches_commentRest_cons] at matched
    by_cases isStar : c = '*'
    · rw [if_pos isStar] at matched
      exact ⟨c :: w, List.prefix_rfl, by rwa [matches_starsRest_cons, if_pos isStar]⟩
    by_cases isSlash : c = '/'
    · exact ⟨[c], by simp, by rw [matches_starsRest_cons, if_neg isStar, if_pos isSlash]⟩
    · refine ⟨c :: w, List.prefix_rfl, ?_⟩
      rw [matches_starsRest_cons, if_neg isStar, if_neg isSlash]
      rwa [if_neg isStar] at matched

/-- Without a character that belongs to no mark, a comment ends too, if not earlier. -/
theorem exists_commentRest {d : Char} (notStar : d ≠ '*') (notSlash : d ≠ '/') (v w : List Char) :
    (Matches commentRest (v ++ d :: w) → ∃ u, u <+: v ++ w ∧ Matches commentRest u) ∧
      (Matches starsRest (v ++ d :: w) → ∃ u, u <+: v ++ w ∧ Matches starsRest u) := by
  induction v with
  | nil =>
    rw [List.nil_append, matches_commentRest_cons, matches_starsRest_cons, if_neg notStar, if_neg notStar, if_neg notSlash]
    exact ⟨fun matched => ⟨w, List.prefix_rfl, matched⟩, exists_starsRest⟩
  | cons c v ih =>
    obtain ⟨inside, behind⟩ := ih
    rw [List.cons_append, matches_commentRest_cons, matches_starsRest_cons]
    refine ⟨fun matched => ?_, fun matched => ?_⟩
    · split at matched
      · next is =>
        obtain ⟨u, opens, matched⟩ := behind matched
        exact ⟨c :: u, List.prefix_cons_inj c |>.2 opens, by rwa [matches_commentRest_cons, if_pos is]⟩
      · next is =>
        obtain ⟨u, opens, matched⟩ := inside matched
        exact ⟨c :: u, List.prefix_cons_inj c |>.2 opens, by rwa [matches_commentRest_cons, if_neg is]⟩
    · split at matched
      · next is =>
        obtain ⟨u, opens, matched⟩ := behind matched
        exact ⟨c :: u, List.prefix_cons_inj c |>.2 opens, by rwa [matches_starsRest_cons, if_pos is]⟩
      · next isStar =>
        split at matched
        · exact absurd matched (by simp)
        · next isSlash =>
          obtain ⟨u, opens, matched⟩ := inside matched
          exact ⟨c :: u, List.prefix_cons_inj c |>.2 opens, by rwa [matches_starsRest_cons, if_neg isStar, if_neg isSlash]⟩

end Regex

namespace TokenRules

open Regex

variable {kind : TokenKind} {c : Char} {w : List Char}

/-- A kind decides a text if a rule that is live behind its first character matches the rest. -/
theorem decides_cons_iff : Decides kind (c :: w) ↔ ∃ r, (kind, r) ∈ Lexer.advance rules c ∧ Matches r w := by
  constructor
  · rintro ⟨r, mem, matched⟩
    exact ⟨_, Lexer.deriv_mem_advance mem matched, (matches_deriv_iff c r w).2 matched⟩
  · rintro ⟨_, mem, matched⟩
    obtain ⟨r, rule, rfl⟩ := Lexer.exists_of_mem_advance mem
    exact ⟨r, rule, (matches_deriv_iff c r w).1 matched⟩

/-- The marks with which literals and comments begin. -/
def openingMarks : List Char := ['"', '\'', '\x60', '/']

/-- A semicolon stands in what begins as a literal or a comment. -/
theorem mem_openingMarks (h : Decides kind (c :: w)) (mem : ';' ∈ w) : c ∈ openingMarks := by
  have table : ∀ p ∈ rules, p.2.avoids ';' = true ∨ p.2 = text ";" ∨
      ∀ f ∈ p.2.firsts, f.1 = f.2 ∧ f.1 ∈ openingMarks := by
    decide +kernel
  obtain ⟨r, rule, matched⟩ := h
  rcases table _ rule with avoids | is | marks
  · exact absurd (List.mem_cons_of_mem c mem) (not_mem_of_avoids avoids matched)
  · rw [show r = text ";" from is, matches_text_iff] at matched
    obtain ⟨-, rfl⟩ := List.cons.inj matched
    cases mem
  · obtain ⟨f, among, low, high⟩ := exists_first matched
    obtain ⟨single, mark⟩ := marks f among
    exact Char.le_antisymm low (single ▸ high) ▸ mark

/-- What begins as a literal goes on as one. -/
theorem decides_literal {mark : Char} (begins : mark ∈ ['"', '\'', '\x60']) : mark ≠ '\\' ∧ ∃ excluded, ∀ kind w,
    Decides kind (mark :: w) → Matches (literalRest mark excluded) w := by
  have only {mark : Char} {k : TokenKind} {excluded : List Char}
      (table : Lexer.advance rules mark = [(k, literalRest mark excluded)]) (kind : TokenKind) (w : List Char)
      (h : Decides kind (mark :: w)) : Matches (literalRest mark excluded) w := by
    obtain ⟨r, mem, matched⟩ := decides_cons_iff.1 h
    rw [table] at mem
    cases List.mem_singleton.1 mem
    exact matched
  simp only [List.mem_cons, List.not_mem_nil, or_false] at begins
  rcases begins with rfl | rfl | rfl
  · exact ⟨by decide, ['\n'], only (k := .stringLiteral) (by decide +kernel)⟩
  · exact ⟨by decide, ['\n'], only (k := .stringLiteral) (by decide +kernel)⟩
  · exact ⟨by decide, [], only (k := .templateLiteral) (by decide +kernel)⟩

/-- A slash stands alone or begins a comment. -/
theorem decides_slash_iff : Decides kind ('/' :: w) ↔ kind = .slash ∧ w = [] ∨
    kind = .lineComment ∧ (∃ v, w = '/' :: v ∧ Matches lineRest v) ∨
    kind = .blockComment ∧ ∃ v, w = '*' :: v ∧ Matches commentRest v := by
  have table : Lexer.advance rules '/' = [(.slash, .empty), (.lineComment, .seq (char '/') lineRest),
      (.blockComment, .seq (char '*') commentRest)] := by decide +kernel
  rw [decides_cons_iff, table, ← matches_char_seq_iff, ← matches_char_seq_iff, ← matches_empty_iff]
  simp only [List.mem_cons, Prod.mk.injEq, List.not_mem_nil, or_false]
  constructor
  · rintro ⟨r, ⟨rfl, rfl⟩ | ⟨rfl, rfl⟩ | ⟨rfl, rfl⟩, matched⟩
    · exact .inl ⟨rfl, matched⟩
    · exact .inr (.inl ⟨rfl, matched⟩)
    · exact .inr (.inr ⟨rfl, matched⟩)
  · rintro (⟨rfl, matched⟩ | ⟨rfl, matched⟩ | ⟨rfl, matched⟩)
    · exact ⟨_, .inl ⟨rfl, rfl⟩, matched⟩
    · exact ⟨_, .inr (.inl ⟨rfl, rfl⟩), matched⟩
    · exact ⟨_, .inr (.inr ⟨rfl, rfl⟩), matched⟩

end TokenRules

namespace Lexer

open Regex TokenRules

/-- What begins with a slash goes on with a mark that was there before. -/
theorem split_of_slash {d : Char} {t x z v : List Char} (other : d ≠ ';') (rest : t ++ x ++ ';' :: z = d :: v) :
    ∃ v', t ++ x = d :: v' ∧ v = v' ++ ';' :: z := by
  cases front : t ++ x with
  | nil =>
    rw [front] at rest
    exact absurd (List.cons.inj rest).1.symm other
  | cons c v' =>
    rw [front] at rest
    obtain ⟨rfl, rfl⟩ := List.cons.inj rest
    exact ⟨v', rfl, rfl⟩

/-- What begins with a slash is as long as the longest match says. -/
theorem longest_slash {kind kind' : TokenKind} {t x y z : List Char}
    (longest : ∀ k v, v <+: '/' :: t ++ x ++ y → Decides k v → v.length ≤ t.length + 1)
    (ruled : Decides kind ('/' :: t)) (further : x = [] → kind ≠ .lineComment) (opens : z <+: y) :
    ¬Decides kind' ('/' :: t ++ x ++ ';' :: z) := fun h => by
  rw [List.cons_append, List.cons_append, decides_slash_iff] at h
  rw [decides_slash_iff] at ruled
  -- A lone slash, a line comment and a block comment are all that begin with one.
  rcases h with ⟨-, none⟩ | ⟨-, v, rest, line⟩ | ⟨-, v, rest, comment⟩
  · simp at none
  · obtain ⟨v', front, rfl⟩ := split_of_slash (by decide) rest
    have shorter : Matches lineRest v' := matches_star_set_iff.2 fun c mem =>
      matches_star_set_iff.1 line c (List.mem_append_left _ mem)
    have bound := longest .lineComment ('/' :: (t ++ x)) (by simp)
      (decides_slash_iff.2 (.inr (.inl ⟨rfl, v', front, shorter⟩)))
    rw [List.length_cons, List.length_append] at bound
    obtain rfl : x = [] := List.eq_nil_of_length_eq_zero (by omega)
    rw [List.append_nil] at front
    subst front
    rcases ruled with ⟨-, none⟩ | ⟨is, -⟩ | ⟨-, _, eq, -⟩
    · cases none
    · exact further rfl is
    · simp at eq
  · obtain ⟨v', front, rfl⟩ := split_of_slash (by decide) rest
    obtain ⟨p, within, shorter⟩ := (exists_commentRest (by decide) (by decide) v' z).1 comment
    have bound := longest .blockComment ('/' :: '*' :: p)
      (by
        rw [List.cons_append, List.cons_append, front]
        simpa using within.trans ((List.prefix_append_right_inj v').2 opens))
      (decides_slash_iff.2 (.inr (.inr ⟨rfl, p, rfl, shorter⟩)))
    rcases ruled with ⟨-, rfl⟩ | ⟨-, w, rfl, -⟩ | ⟨-, w, rfl, whole⟩
    · simp at bound
    · simp at front
    · obtain ⟨-, rfl⟩ := List.cons.inj front
      have comment : Matches commentRest (w ++ (x ++ ';' :: z)) := by simpa using comment
      exact absurd ((commentRest_whole w).1 whole comment) (by simp)

/-- A semicolon behind a piece does not make it longer, unless it is a comment up to the end of its line. -/
theorem Decided.longest_before {kind kind' : TokenKind} {t x y u : List Char} (decided : Decided kind t (t ++ x ++ y))
    (proper : kind ≠ .garbage) (further : x = [] → kind ≠ .lineComment) (opens : u <+: t ++ x ++ ';' :: y)
    (h : Decides kind' u) : u.length ≤ t.length := by
  have longest (k : TokenKind) (v : List Char) (opens : v <+: t ++ x ++ y) (h : Decides k v) : v.length ≤ t.length :=
    decided.longest proper k v opens h
  have ruled := decided.ruled proper
  rcases List.prefix_or_prefix_of_prefix opens (List.prefix_append (t ++ x) _) with within | ⟨s, rfl⟩
  · exact longest _ _ (within.trans (List.prefix_append _ _)) h
  rw [List.prefix_append_right_inj] at opens
  cases s with
  | nil => exact longest _ _ (by simp) h
  | cons d z =>
    obtain ⟨rfl, behind⟩ := List.cons_prefix_cons.1 opens
    cases t with
    | nil => exact absurd rfl ruled.ne_nil
    | cons c t =>
      have mark := mem_openingMarks h (by simp)
      by_cases literal : c ∈ ['"', '\'', '\x60']
      · obtain ⟨other, excluded, goes⟩ := decides_literal literal
        have long := goes _ _ h
        have long : Matches (literalRest c excluded) (t ++ (x ++ ';' :: z)) := by simpa using goes _ _ h
        exact absurd (literalRest_whole other (goes _ _ ruled) long) (by simp)
      · obtain rfl : c = '/' := by
          simp only [openingMarks, List.mem_cons, List.not_mem_nil, or_false, not_or] at mark literal
          exact ((mark.resolve_left literal.1).resolve_left literal.2.1).resolve_left literal.2.2
        exact absurd h (longest_slash longest ruled further behind)

/-! ### Pieces -/

/-- What a rule matches and no rule goes beyond is a piece. -/
theorem pieces_of_longest {kind : TokenKind} {t x : List Char} (ruled : Decides kind t)
    (longest : ∀ k u, u <+: t ++ x → Decides k u → u.length ≤ t.length) :
    pieces (t ++ x) = (kind, t) :: pieces x := by
  cases t with
  | nil => exact absurd rfl ruled.ne_nil
  | cons c us =>
    have opens : c :: us <+: c :: (us ++ x) := List.prefix_append (c :: us) x
    obtain ⟨ruled', longest', -, unruled⟩ := decided_front c (us ++ x)
    have proper : (front (c :: (us ++ x))).1 ≠ .garbage := fun garbage => unruled garbage kind _ opens ruled
    have within : c :: (us ++ x).take (front (c :: (us ++ x))).2 <+: c :: (us ++ x) := by
      simpa using List.take_prefix _ (us ++ x)
    have same : c :: (us ++ x).take (front (c :: (us ++ x))).2 = c :: us :=
      (List.prefix_of_prefix_length_le within opens (longest _ _ within (ruled' proper))).eq_of_length
        (Nat.le_antisymm (longest _ _ within (ruled' proper)) (longest' proper _ _ opens ruled))
    have taken := (List.cons.inj same).2
    have left := List.take_append_drop (front (c :: (us ++ x))).2 (us ++ x)
    rw [taken, List.append_right_inj] at left
    rw [List.cons_append, pieces, left, same, (ruled' proper).unique (same ▸ ruled)]

theorem exists_of_pieces_eq_cons {cs : List Char} {p : Piece} {ps : List Piece} (cut : pieces cs = p :: ps) :
    ∃ more, cs = p.2 ++ more ∧ pieces more = ps := by
  cases cs with
  | nil => simp [pieces] at cut
  | cons c rest =>
    rw [pieces] at cut
    obtain ⟨rfl, behind⟩ := List.cons.inj cut
    exact ⟨rest.drop (front (c :: rest)).2, by simp, behind⟩

/-- A semicolon between two pieces is a piece and leaves the others as they are, unless it is put behind a
comment up to the end of its line. -/
theorem pieces_insert {cs : List Char} {ps qs : List Piece} (cut : pieces cs = ps ++ qs)
    (proper : ∀ p ∈ ps, p.1 ≠ .garbage) (last : ∀ p ∈ ps.getLast?, p.1 ≠ .lineComment) :
    pieces (ps.flatMap (·.2) ++ ';' :: qs.flatMap (·.2)) = ps ++ (.semicolon, [';']) :: qs := by
  induction ps generalizing cs with
  | nil =>
    have alone : front (';' :: ([] ++ cs)) = (.semicolon, ([] : List Char).length) :=
      front_steady (l := (.semicolon, .empty)) (by decide +kernel) rfl (by simp) fun _ _ => rfl
    rw [List.nil_append] at cut
    rw [← cut, flatMap_pieces]
    exact pieces_of_front alone
  | cons p ps ih =>
    rw [List.forall_mem_cons] at proper
    obtain ⟨more, rfl, rest⟩ := exists_of_pieces_eq_cons cut
    have decided := allDecided_pieces (p.2 ++ more)
    rw [cut] at decided
    have here : Decided p.1 p.2 (p.2 ++ ps.flatMap (·.2) ++ qs.flatMap (·.2)) := by
      simpa using decided.1
    have further : ps.flatMap (·.2) = [] → p.1 ≠ .lineComment := fun none => by
      have alone : ps = [] := by
        cases ps with
        | nil => rfl
        | cons q ps =>
          have mem : q ∈ pieces more := by rw [rest]; exact List.mem_cons_self
          have filled := ne_nil_of_mem_pieces mem
          simp [filled] at none
      exact last p (by simp [alone])
    rw [List.flatMap_cons, List.append_assoc, pieces_of_longest (here.ruled proper.1) fun k u opens h =>
        here.longest_before proper.1 further (by simpa using opens) h, List.cons_append]
    refine congrArg _ (ih rest proper.2 fun q mem => last q ?_)
    cases ps with
    | nil => cases mem
    | cons => simpa using mem

/-! ### Tokens -/

theorem proper_of_joinGarbage {ps : List Piece} (proper : ∀ p ∈ joinGarbage ps, p.1 ≠ .garbage) :
    ∀ p ∈ ps, p.1 ≠ .garbage := by
  fun_induction joinGarbage ps with
  | case1 => exact proper
  | case2 t rest u more e ih => exact absurd rfl (proper _ List.mem_cons_self)
  | case3 k t rest _ ih =>
    rw [List.forall_mem_cons] at proper ⊢
    exact ⟨proper.1, ih proper.2⟩

theorem place_append (start : Nat) (ps qs : List Piece) :
    place start (ps ++ qs) = place start ps ++ place (start + Token.sizeOf (place start ps)) qs := by
  induction ps generalizing start with
  | nil => rfl
  | cons p ps ih => simp [place, ih, Token.sizeOf, Token.stop, Nat.add_assoc]

theorem kinds_place (start : Nat) (ps : List Piece) : (place start ps).map (·.kind) = ps.map (·.1) := by
  induction ps generalizing start with
  | nil => rfl
  | cons p ps ih => simp [place, ih]

theorem length_place (start : Nat) (ps : List Piece) : (place start ps).length = ps.length := by
  simpa using congrArg List.length (kinds_place start ps)

end Lexer

/-- The token, some bytes further on. -/
def Token.moved (n : Nat) (t : Token) : Token := { t with start := t.start + n }

namespace Lexer

/-- Placing the pieces further on moves the tokens. -/
theorem place_moved (start n : Nat) (ps : List Piece) : place (start + n) ps = (place start ps).map (Token.moved n) := by
  induction ps generalizing start with
  | nil => rfl
  | cons p ps ih =>
    have behind : start + n + (String.ofList p.2).utf8ByteSize = start + (String.ofList p.2).utf8ByteSize + n :=
      Nat.add_right_comm ..
    simp [place, Token.stop, Token.moved, behind, ih]

/-- The tokens of a source, split, are those of pieces. -/
theorem exists_of_place_eq_append {start : Nat} {ps : List Piece} {front back : List Token}
    (placed : place start ps = front ++ back) : ∃ us vs, ps = us ++ vs ∧ place start us = front ∧
      place (start + Token.sizeOf front) vs = back := by
  have split := List.take_append_drop front.length ps
  rw [← split, place_append] at placed
  have count : front.length ≤ ps.length := by
    have all := congrArg List.length placed
    rw [← place_append, split, length_place, List.length_append] at all
    omega
  obtain ⟨first, second⟩ := List.append_inj placed (by rw [length_place, List.length_take, Nat.min_eq_left count])
  rw [first] at second
  exact ⟨_, _, split.symm, first, second⟩

theorem toList_join_place (start : Nat) (ps : List Piece) :
    (String.join ((place start ps).map (·.text))).toList = ps.flatMap (·.2) := by
  rw [String.toList_join, List.flatMap_map, flatMap_place]

end Lexer

open Lexer in
/-- The tokens of a source with a semicolon between two of them. -/
theorem lex_insert {source : String} {front back : List Token} (tokens : lex source = front ++ back)
    (clean : ∀ t ∈ lex source, t.kind ≠ .garbage) (last : ∀ t ∈ front.getLast?, t.kind ≠ .lineComment) :
    lex (String.join (front.map (·.text)) ++ ";" ++ String.join (back.map (·.text))) =
      front ++ ⟨.semicolon, ";", Token.sizeOf front⟩ :: back.map (Token.moved 1) := by
  have proper : ∀ p ∈ pieces source.toList, p.1 ≠ .garbage := by
    refine proper_of_joinGarbage fun p mem => ?_
    have kind : p.1 ∈ (lex source).map (·.kind) := by
      rw [lex, kinds_place]
      exact List.mem_map_of_mem mem
    obtain ⟨t, among, is⟩ := List.mem_map.1 kind
    exact is ▸ clean t among
  rw [lex, joinGarbage_of_proper proper] at tokens
  obtain ⟨ps, qs, cut, rfl, rfl⟩ := exists_of_place_eq_append tokens
  have last : ∀ p ∈ ps.getLast?, p.1 ≠ .lineComment := fun p mem => by
    have kind : p.1 ∈ ((place 0 ps).map (·.kind)).getLast? := by
      rw [kinds_place, List.getLast?_map]
      exact Option.mem_map_of_mem _ mem
    rw [List.getLast?_map] at kind
    obtain ⟨t, among, is⟩ := Option.map_eq_some_iff.1 kind
    exact is ▸ last t among
  have inserted := pieces_insert cut (fun p mem => proper p (cut ▸ List.mem_append_left _ mem)) last
  have clean : ∀ p ∈ ps ++ (.semicolon, [';']) :: qs, p.1 ≠ .garbage := by
    rw [cut, List.forall_mem_append] at proper
    exact List.forall_mem_append.2 ⟨proper.1, List.forall_mem_cons.2 ⟨by decide, proper.2⟩⟩
  have text : ps.flatMap (·.2) ++ ";".toList ++ qs.flatMap (·.2) = ps.flatMap (·.2) ++ ';' :: qs.flatMap (·.2) := by simp
  rw [lex, String.toList_append, String.toList_append, toList_join_place, toList_join_place, text, inserted,
    joinGarbage_of_proper clean, place_append, Nat.zero_add, ← place_moved]
  rfl

end ImplicitGlobals
