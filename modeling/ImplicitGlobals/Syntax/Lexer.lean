import ImplicitGlobals.Syntax.Token
import ImplicitGlobals.Syntax.TokenRules

/-!
# The lexer

At each position the longest text that any rule matches becomes a token. Where
no rule matches, the characters that some rule could still have begun with are
garbage, at least one of them, and garbage next to garbage is one token. The
tokens tile the source.
-/

namespace ImplicitGlobals.Lexer

/-- A rule in the middle of a match: what may still follow. -/
abbrev Live := TokenKind × Regex

/-- The rules that are still possible after `c`. -/
def advance (live : List Live) (c : Char) : List Live :=
  (live.map fun l => (l.1, l.2.deriv c)).filter fun l => !l.2.isNone

/-- The first rule that may end here. -/
def accepting (live : List Live) : Option TokenKind :=
  (live.find? (·.2.nullable)).map (·.1)

/-- How far the rules get on a text. -/
structure Reach where
  /-- The longest match: its kind and its length. -/
  best : Option (TokenKind × Nat)
  /-- How many characters some rule could begin with. -/
  viable : Nat
deriving DecidableEq, Repr

/-- Runs the rules over `cs`, of which `n` characters lie behind. -/
def reach (live : List Live) (best : Option (TokenKind × Nat)) (n : Nat) : List Char → Reach
  | [] => ⟨best, n⟩
  | c :: rest =>
    match advance live c with
    | [] => ⟨best, n⟩
    | live' => reach live' (((accepting live').map (·, n + 1)).or best) (n + 1) rest

/-- A token before it has a position. -/
abbrev Piece := TokenKind × List Char

/-- The kind of the piece at the front of `cs`, and its length less one. -/
def front (cs : List Char) : TokenKind × Nat :=
  let r := reach TokenRules.rules none 0 cs
  match r.best with
  | some (kind, n) => (kind, n - 1)
  | none => (.garbage, r.viable - 1)

/-- Cuts a text into pieces. -/
def pieces : List Char → List Piece
  | [] => []
  | c :: rest =>
    let f := front (c :: rest)
    (f.1, c :: rest.take f.2) :: pieces (rest.drop f.2)
termination_by cs => cs.length
decreasing_by simp only [List.length_drop, List.length_cons]; omega

/-- Joins garbage to the garbage before it. -/
def joinGarbage : List Piece → List Piece
  | [] => []
  | (k, t) :: rest =>
    match k, joinGarbage rest with
    | .garbage, (.garbage, u) :: more => (.garbage, t ++ u) :: more
    | _, joined => (k, t) :: joined

/-- Gives the pieces their positions, the first at `start`. -/
def place (start : Nat) : List Piece → List Token
  | [] => []
  | (k, t) :: rest =>
    let token : Token := ⟨k, String.ofList t, start⟩
    token :: place token.stop rest

end Lexer

/-- The tokens of a source, spacing and comments included. -/
def lex (source : String) : List Token :=
  Lexer.place 0 (Lexer.joinGarbage (Lexer.pieces source.toList))

namespace Lexer

theorem flatMap_pieces (cs : List Char) : (pieces cs).flatMap (·.2) = cs := by
  fun_induction pieces cs with
  | case1 => rfl
  | case2 c rest f ih => simp [ih, List.take_append_drop]

theorem flatMap_joinGarbage (ps : List Piece) :
    (joinGarbage ps).flatMap (·.2) = ps.flatMap (·.2) := by
  fun_induction joinGarbage ps with
  | case1 => rfl
  | case2 t rest u more e ih => rw [e] at ih; simp_all
  | case3 k t rest _ ih => simp [ih]

/-- Placing keeps the texts. -/
theorem flatMap_place (start : Nat) (ps : List Piece) :
    (place start ps).flatMap (·.text.toList) = ps.flatMap (·.2) := by
  induction ps generalizing start with
  | nil => rfl
  | cons p rest ih => simp [place, ih]

/-- The tokens of a source, read one after the other, are the source. -/
theorem flatMap_lex (source : String) : (lex source).flatMap (·.text.toList) = source.toList := by
  rw [lex, flatMap_place, flatMap_joinGarbage, flatMap_pieces]

end Lexer

end ImplicitGlobals
