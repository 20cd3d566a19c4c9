import ImplicitGlobals.Proofs.Syntax.Lexing
import ImplicitGlobals.Proofs.Syntax.Places
import ImplicitGlobals.Text.Identifier

/-!
# Where tokens end

Names, signs, spacing and plain literals are cut out of a text as they were written: their rules
go on for as long as the characters are of one kind, and no other rule begins as they do.
-/

namespace ImplicitGlobals

namespace CharSet

theorem contains_ofList_iff {cs : List Char} {c : Char} :
    (ofList cs).contains c = true ↔ c ∈ cs := by
  simp only [contains, ofList, Bool.bne_false, List.any_map, List.any_eq_true, Function.comp_apply,
    Bool.and_eq_true, decide_eq_true_eq]
  refine ⟨fun found => ?_, fun mem => ⟨c, mem, Char.le_refl c, Char.le_refl c⟩⟩
  obtain ⟨d, mem, bounds⟩ := found
  exact Char.le_antisymm bounds.1 bounds.2 ▸ mem

theorem contains_except (cs : List Char) (c : Char) :
    (except cs).contains c = !(ofList cs).contains c := by
  simp [contains, except, ofList]

theorem contains_one_of_ne {c d : Char} (other : c ≠ d) : (one d).contains c = false := by
  rw [Bool.eq_false_iff, ne_eq, show one d = ofList [d] from rfl, contains_ofList_iff]
  simpa using other

end CharSet

namespace Lexer

variable {live : List Live} {kind : TokenKind} {best : Option (TokenKind × Nat)} {n : Nat} {c : Char}
  {us rest : List Char} {words : List Lexeme}

/-! ### Runs of the rules -/

/-- No rule goes on with what follows. -/
def Ended (live : List Live) (rest : List Char) : Prop := ∀ c ∈ rest.head?, advance live c = []

/-- Where nothing more can match the best match so far is taken. -/
theorem reach_of_ended (ended : Ended live rest) : reach live best n rest = ⟨best, n⟩ := by
  cases rest with
  | nil => rfl
  | cons c rest => rw [reach, ended c rfl]

/-- Where some rules are live after a character, one more is taken. -/
theorem reach_cons {l : Live} {more : List Live} (next : advance live c = l :: more) :
    reach live best n (c :: rest) =
      reach (l :: more) (((accepting (l :: more)).map (·, n + 1)).or best) (n + 1) rest := by
  rw [reach, next]

section

variable {l : Live}

/-- Characters that leave a rule as it is, while it may not end, are passed. -/
theorem reach_silent (silent : accepting [l] = none) (steady : ∀ c ∈ us, advance [l] c = [l]) :
    reach [l] best n (us ++ rest) = reach [l] best (n + us.length) rest := by
  induction us generalizing n with
  | nil => rfl
  | cons c us ih =>
    rw [List.forall_mem_cons] at steady
    rw [List.cons_append, reach_cons steady.1, silent, Option.map_none, Option.none_or,
      ih steady.2, List.length_cons, Nat.add_assoc, Nat.add_comm 1]

/-- Where a rule may end at every character, it ends at the last one. -/
theorem reach_steady (accepts : accepting [l] = some kind)
    (steady : ∀ c ∈ us, advance [l] c = [l]) (ended : Ended [l] rest) :
    reach [l] (some (kind, n)) n (us ++ rest) =
      ⟨some (kind, n + us.length), n + us.length⟩ := by
  induction us generalizing n with
  | nil => exact reach_of_ended ended
  | cons c us ih =>
    rw [List.forall_mem_cons] at steady
    rw [List.cons_append, reach_cons steady.1, accepts, Option.map_some, Option.some_or,
      ih steady.2, List.length_cons, Nat.add_assoc, Nat.add_comm 1]

/-- A piece of a first character and those with which the one rule that is left goes on. -/
theorem front_steady (first : advance TokenRules.rules c = [l]) (accepts : accepting [l] = some kind)
    (steady : ∀ c ∈ us, advance [l] c = [l]) (ended : Ended [l] rest) :
    front (c :: (us ++ rest)) = (kind, us.length) := by
  rw [front, reach_cons first, accepts, Option.map_some, Option.some_or,
    reach_steady accepts steady ended]
  simp

end

/-- The first piece is what the longest match says. -/
theorem pieces_of_front (h : front (c :: (us ++ rest)) = (kind, us.length)) :
    pieces (c :: (us ++ rest)) = (kind, c :: us) :: pieces rest := by
  rw [pieces, h]
  simp

/-! ### Names -/

theorem contains_namePart (c : Char) :
    TokenRules.namePart.contains c = Text.isIdentifierPart c := by
  have one (d : Char) : (decide (d ≤ c) && decide (c ≤ d)) = (c == d) := by
    rw [Bool.eq_iff_iff]
    simp only [Bool.and_eq_true, decide_eq_true_eq, beq_iff_eq]
    exact ⟨fun bounds => Char.le_antisymm bounds.2 bounds.1,
      fun is => is ▸ ⟨Char.le_refl c, Char.le_refl c⟩⟩
  simp only [CharSet.contains, TokenRules.namePart, List.any_cons, List.any_nil, one,
    Text.isIdentifierPart, Text.isIdentifierStart, Text.isAsciiLetter, Text.isAsciiDigit]
  grind

/-- Inside a name only the characters of names go on. -/
theorem advance_name (c : Char) :
    advance [(.ident, .star (.set TokenRules.namePart))] c =
      if Text.isIdentifierPart c = true then [(.ident, .star (.set TokenRules.namePart))] else [] := by
  rw [← contains_namePart]
  cases part : TokenRules.namePart.contains c <;>
    simp [advance, Regex.deriv, part, Regex.andThen, Regex.isNone]

/-- Only names begin with the character. -/
theorem advance_of_isIdentifierStart (start : Text.isIdentifierStart c = true) :
    advance TokenRules.rules c = [(.ident, .star (.set TokenRules.namePart))] := by
  have ascii : c.toNat < 128 := by
    simp only [Text.isIdentifierStart, Text.isAsciiLetter, Bool.or_eq_true, Bool.and_eq_true,
      decide_eq_true_eq, beq_iff_eq] at start
    rcases start with ((⟨-, small⟩ | ⟨-, capital⟩) | rfl) | rfl
    · exact Nat.lt_of_le_of_lt small (by decide)
    · exact Nat.lt_of_le_of_lt capital (by decide)
    · decide
    · decide
  have all : ∀ n : Fin 128, Text.isIdentifierStart (Char.ofNat n) = true →
      advance TokenRules.rules (Char.ofNat n) = [(.ident, .star (.set TokenRules.namePart))] := by
    decide +kernel
  simpa using all ⟨c.toNat, ascii⟩ (by simpa using start)

/-! ### What a text is cut into -/

/-- The text is cut into pieces that are no garbage, and the words among them are these. -/
structure Cuts (cs : List Char) (words : List Lexeme) : Prop where
  proper : ∀ p ∈ pieces cs, p.1 ≠ .garbage
  words : ((pieces cs).filter (!·.1.isTrivia)).map (fun p => ⟨p.1, String.ofList p.2⟩) = words

/-- Without garbage nothing is joined. -/
theorem joinGarbage_of_proper {ps : List Piece} (proper : ∀ p ∈ ps, p.1 ≠ .garbage) :
    joinGarbage ps = ps := by
  induction ps with
  | nil => rfl
  | cons p ps ih =>
    rw [List.forall_mem_cons] at proper
    obtain ⟨kind, t⟩ := p
    cases kind <;> first | exact absurd rfl proper.1 | simp [joinGarbage, ih proper.2]

theorem lexemes_place (start : Nat) (ps : List Piece) :
    ((place start ps).filter (!·.kind.isTrivia)).map Token.lexeme =
      (ps.filter (!·.1.isTrivia)).map fun p => ⟨p.1, String.ofList p.2⟩ := by
  induction ps generalizing start with
  | nil => rfl
  | cons p ps ih =>
    by_cases trivia : p.1.isTrivia = true <;> simp [place, trivia, ih, Token.lexeme]

/-- The words of a text are those its cuts give. -/
theorem Cuts.lex {text : String} (h : Cuts text.toList words) :
    ((lex text).filter (!·.kind.isTrivia)).map Token.lexeme = words := by
  rw [ImplicitGlobals.lex, joinGarbage_of_proper h.proper, lexemes_place, h.words]

namespace Cuts

theorem nil : Cuts [] [] := ⟨by simp [pieces], by simp [pieces]⟩

/-- A word in front. -/
theorem word (cut : pieces (us ++ rest) = (kind, us) :: pieces rest) (plain : kind.isTrivia = false)
    (proper : kind ≠ .garbage) (h : Cuts rest words) :
    Cuts (us ++ rest) (⟨kind, String.ofList us⟩ :: words) where
  proper := by simpa [cut, proper] using h.proper
  words := by simp [cut, plain, h.words]

/-- Trivia in front. -/
theorem trivia (cut : pieces (us ++ rest) = (kind, us) :: pieces rest)
    (trivia : kind.isTrivia = true) (h : Cuts rest words) : Cuts (us ++ rest) words where
  proper := by
    have proper : kind ≠ .garbage := fun is => by simp [is, TokenKind.isTrivia] at trivia
    simpa [cut, proper] using h.proper
  words := by simp [cut, trivia, h.words]

/-- A sign that no other rule begins with. -/
theorem sign (only : advance TokenRules.rules c = [(kind, .empty)]) (plain : kind.isTrivia = false)
    (proper : kind ≠ .garbage) (h : Cuts rest words) :
    Cuts (c :: rest) (⟨kind, String.ofList [c]⟩ :: words) := by
  have cut : front (c :: ([] ++ rest)) = (kind, ([] : List Char).length) :=
    front_steady only rfl (by simp) fun _ _ => rfl
  have alone : pieces ([c] ++ rest) = (kind, [c]) :: pieces rest := pieces_of_front cut
  exact word alone plain proper h

/-- Blanks, up to what is none. -/
theorem blanks (us : List Char) (blank : ∀ c ∈ us, c = ' ') (some : us ≠ [])
    (ended : ∀ c ∈ rest.head?, c ∉ [' ', '\t', '\x0c']) (h : Cuts rest words) :
    Cuts (us ++ rest) words := by
  cases us with
  | nil => exact absurd rfl some
  | cons c us =>
    rw [List.forall_mem_cons] at blank
    obtain ⟨rfl, blank⟩ := blank
    have cut : front (' ' :: (us ++ rest)) = (.whitespace, us.length) := by
      refine front_steady
        (l := (.whitespace, .star (.set (.ofList [' ', '\t', '\x0c'])))) (by decide +kernel) rfl
        (fun c mem => by rw [blank c mem]; decide +kernel) fun c here => ?_
      have none : (CharSet.ofList [' ', '\t', '\x0c']).contains c = false := by
        rw [Bool.eq_false_iff, ne_eq, CharSet.contains_ofList_iff]
        exact ended c here
      simp [advance, Regex.deriv, none, Regex.andThen, Regex.isNone]
    exact trivia (pieces_of_front cut) rfl h

/-- A name, up to what is no part of it. -/
theorem name (identifier : Text.isIdentifierList us = true)
    (ended : ∀ c ∈ rest.head?, Text.isIdentifierPart c = false) (h : Cuts rest words) :
    Cuts (us ++ rest) (⟨.ident, String.ofList us⟩ :: words) := by
  cases us with
  | nil => cases identifier
  | cons c us =>
    rw [Text.isIdentifierList, Bool.and_eq_true, List.all_eq_true] at identifier
    refine word (pieces_of_front (front_steady (advance_of_isIdentifierStart identifier.1) rfl
      (fun c mem => ?_) fun c here => ?_)) rfl (by decide) h
    · rw [advance_name, if_pos (identifier.2 c mem)]
    · rw [advance_name, if_neg (by simp [ended c here])]

/-- A literal between double quotes in which nothing has to be escaped. -/
theorem literal (plain : ∀ c ∈ us, c ∉ ['"', '\\', '\n']) (h : Cuts rest words) :
    Cuts ('"' :: us ++ ['"'] ++ rest)
      (⟨.stringLiteral, String.ofList ('"' :: us ++ ['"'])⟩ :: words) := by
  let within : Live := (.stringLiteral, .seq (.star (.alt (.set (.except ['"', '\\', '\n']))
    (.seq (.char '\\') (.set TokenRules.anyChar)))) (.char '"'))
  have steady (c : Char) (mem : c ∈ us) : advance [within] c = [within] := by
    have out : (CharSet.ofList ['"', '\\', '\n']).contains c = false := by
      rw [Bool.eq_false_iff, ne_eq, CharSet.contains_ofList_iff]
      exact plain c mem
    have quote : (CharSet.one '"').contains c = false :=
      CharSet.contains_one_of_ne fun is => plain c mem (by simp [is])
    have slash : (CharSet.one '\\').contains c = false :=
      CharSet.contains_one_of_ne fun is => plain c mem (by simp [is])
    simp [within, advance, Regex.deriv, CharSet.contains_except, out, quote, slash, Regex.char,
      Regex.nullable, Regex.andThen, Regex.orElse, Regex.isNone]
  have cut : front ('"' :: ((us ++ ['"']) ++ rest)) = (.stringLiteral, (us ++ ['"']).length) := by
    have first : advance TokenRules.rules '"' = [within] := by decide +kernel
    have last : advance [within] '"' = [(.stringLiteral, .empty)] := by decide +kernel
    rw [front, reach_cons first, List.append_assoc, reach_silent rfl steady, List.singleton_append,
      reach_cons last, reach_of_ended fun _ _ => rfl]
    simp [accepting, Regex.nullable, Nat.add_comm]
  exact word (pieces_of_front cut) rfl (by decide) h

end Cuts

end Lexer

end ImplicitGlobals
