import ImplicitGlobals.Generated.BundleFile
import ImplicitGlobals.Proofs.Syntax.Cutting

/-!
# Written literals and keys

A literal that is written in single quotes is one token, whatever its text: each character is
written so that the rule for literals passes it and stands where it stood. So is a key, which is a
name where it can be one.
-/

namespace ImplicitGlobals

namespace Lexer

open Text.Quoted (encode encodeChar)

variable {best : Option (TokenKind × Nat)} {n : Nat} {rest : List Char}

/-! ### Inside a literal -/

/-- The rule for literals between its quotes. -/
def inQuotes : Live := (.stringLiteral, .seq (.star (.alt (.set (.except ['\'', '\\', '\n']))
  (.seq (.char '\\') (.set TokenRules.anyChar)))) (.char '\''))

/-- The rule for literals behind a backslash. -/
def escaping : Live := (.stringLiteral, .seq (.seq (.set TokenRules.anyChar)
  (.star (.alt (.set (.except ['\'', '\\', '\n'])) (.seq (.char '\\') (.set TokenRules.anyChar)))))
  (.char '\''))

/-- Inside quotes an ordinary character changes nothing. -/
theorem advance_inQuotes {c : Char} (plain : c ∉ ['\'', '\\', '\n']) :
    advance [inQuotes] c = [inQuotes] := by
  have out : (CharSet.ofList ['\'', '\\', '\n']).contains c = false := by
    rw [Bool.eq_false_iff, ne_eq, CharSet.contains_ofList_iff]
    exact plain
  have quote : (CharSet.one '\'').contains c = false :=
    CharSet.contains_one_of_ne fun is => plain (by simp [is])
  have slash : (CharSet.one '\\').contains c = false :=
    CharSet.contains_one_of_ne fun is => plain (by simp [is])
  simp [inQuotes, advance, Regex.deriv, CharSet.contains_except, out, quote, slash, Regex.char,
    Regex.nullable, Regex.andThen, Regex.orElse, Regex.isNone]

/-- Two characters that write one leave the rule as it was. -/
theorem reach_escape {c : Char} (escape : c ∈ ['\'', '\\', 'n', 'r']) :
    reach [inQuotes] best n ('\\' :: c :: rest) = reach [inQuotes] best (n + 2) rest := by
  have first : advance [inQuotes] '\\' = [escaping] := by decide +kernel
  have second : advance [escaping] c = [inQuotes] := by
    simp only [List.mem_cons, List.not_mem_nil, or_false] at escape
    rcases escape with rfl | rfl | rfl | rfl <;> decide +kernel
  rw [reach_cons first, reach_cons second]
  rfl

/-- Nor does a character with its escape. -/
theorem reach_encodeChar (c : Char) :
    reach [inQuotes] best n (encodeChar c ++ rest) =
      reach [inQuotes] best (n + (encodeChar c).length) rest := by
  unfold encodeChar
  split
  · exact reach_escape (by decide)
  split
  · exact reach_escape (by decide)
  split
  · exact reach_escape (by decide)
  split
  · exact reach_escape (by decide)
  · next quote slash feed _ =>
    exact reach_silent rfl fun d mem => by
      rw [List.mem_singleton.1 mem]
      exact advance_inQuotes (by simp [quote, slash, feed])

/-- Nor does a whole encoded text. -/
theorem reach_encode (cs : List Char) :
    reach [inQuotes] best n (encode cs ++ rest) =
      reach [inQuotes] best (n + (encode cs).length) rest := by
  induction cs generalizing n with
  | nil => rfl
  | cons c cs ih =>
    rw [Text.Quoted.encode_cons, List.append_assoc, reach_encodeChar, ih, List.length_append,
      Nat.add_assoc]

/-- A written literal is one piece, up to its closing quote. -/
theorem pieces_quote (s : String) (rest : List Char) :
    pieces ((Text.Quoted.quote s).toList ++ rest) =
      (.stringLiteral, (Text.Quoted.quote s).toList) :: pieces rest := by
  rw [Text.Quoted.toList_quote]
  apply pieces_of_front
  have first : advance TokenRules.rules '\'' = [inQuotes] := by decide +kernel
  have last : advance [inQuotes] '\'' = [(.stringLiteral, .empty)] := by decide +kernel
  rw [front, reach_cons first, List.append_assoc, reach_encode, List.singleton_append,
    reach_cons last, reach_of_ended fun _ _ => rfl]
  simp [accepting, Regex.nullable, Nat.add_comm, inQuotes]

/-- A text that is one piece is one token. -/
theorem lex_of_pieces {s : String} {kind : TokenKind} (cut : pieces s.toList = [(kind, s.toList)]) :
    lex s = [⟨kind, s, 0⟩] := by
  rw [lex, cut]
  cases kind <;> simp [joinGarbage, place]

/-- A quoted text is one token. -/
theorem lex_quote (s : String) :
    lex (Text.Quoted.quote s) = [⟨.stringLiteral, Text.Quoted.quote s, 0⟩] := by
  apply lex_of_pieces
  simpa [pieces] using pieces_quote s []

theorem lex_identifier {s : String} (identifier : Text.isIdentifier s = true) :
    lex s = [⟨.ident, s, 0⟩] := by
  apply lex_of_pieces
  cases e : s.toList with
  | nil => simp [Text.isIdentifier, e, Text.isIdentifierList] at identifier
  | cons c us =>
    rw [Text.isIdentifier, e, Text.isIdentifierList, Bool.and_eq_true, List.all_eq_true] at identifier
    have cut : front (c :: (us ++ [])) = (.ident, us.length) :=
      front_steady (advance_of_isIdentifierStart identifier.1) rfl
        (fun d mem => by rw [advance_name, if_pos (identifier.2 d mem)]) (by simp [Ended])
    simpa [pieces] using pieces_of_front cut

end Lexer

/-! ### Literals and keys -/

namespace Text

open Quoted (quote encode decode encodeChar)

namespace Quoted

/-- An encoded character breaks no line. -/
theorem unbroken_encodeChar (c : Char) : '\n' ∉ encodeChar c ∧ '\r' ∉ encodeChar c := by
  unfold encodeChar
  split
  · decide
  split
  · decide
  split
  · decide
  split
  · decide
  · next feed back => simp [Ne.symm feed, Ne.symm back]

theorem quote_injective : Function.Injective quote := by
  intro s t same
  have whole : '\'' :: (encode s.toList ++ ['\'']) = '\'' :: (encode t.toList ++ ['\'']) := by
    rw [← toList_quote, ← toList_quote, same]
  exact String.toList_inj.1 (encode_injective (List.append_cancel_right (List.cons.inj whole).2))

end Quoted

/-- A written literal is one token on one line, from which its text can be read back, and a key is
one token: a name where it is one, and else a literal. -/
theorem quote_propertyKey_lexed :
    Function.Injective quote ∧ ∀ s : String,
      lex (quote s) = [⟨.stringLiteral, quote s, 0⟩] ∧
      '\n' ∉ (quote s).toList ∧ '\r' ∉ (quote s).toList ∧
      (∃ inside, (quote s).toList = '\'' :: (inside ++ ['\'']) ∧ decode inside = some s.toList) ∧
      lex (propertyKey s) =
        if isIdentifier s = true then [⟨.ident, s, 0⟩] else [⟨.stringLiteral, quote s, 0⟩] := by
  refine ⟨Quoted.quote_injective, fun s => ⟨Lexer.lex_quote s, ?_, ?_,
    ⟨encode s.toList, Quoted.toList_quote s, Quoted.decode_encode _⟩, ?_⟩⟩
  · simp [Quoted.toList_quote, encode, Quoted.unbroken_encodeChar]
  · simp [Quoted.toList_quote, encode, Quoted.unbroken_encodeChar]
  · rw [propertyKey]
    split
    · next identifier => exact Lexer.lex_identifier identifier
    · exact Lexer.lex_quote s

end Text

end ImplicitGlobals
