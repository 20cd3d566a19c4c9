import ImplicitGlobals.Syntax.Kind
import ImplicitGlobals.Syntax.Span

/-!
# Tokens

A token is a kind and a piece of the source at a position.
-/

namespace ImplicitGlobals

/-- A piece of the source. -/
structure Token where
  kind : TokenKind
  text : String
  start : Nat
deriving DecidableEq, Repr, Inhabited

namespace Token

/-- Where the token ends. -/
def stop (t : Token) : Nat := t.start + t.text.utf8ByteSize

def span (t : Token) : Span := ⟨t.start, t.stop⟩

/-- Whether the token is trivia that breaks the line. -/
def breaksLine (t : Token) : Bool :=
  match t.kind with
  | .newline => true
  | .blockComment => t.text.toList.contains '\n'
  | _ => false

end Token

end ImplicitGlobals
