import ImplicitGlobals.Syntax.Tree

/-!
# Words

The grammar reads words: the tokens that are not trivia, each with the answer
to one question about the trivia before it, whether it breaks the line. All
else about spacing is put back afterwards. A source with `n` words has `n + 1`
gaps, one before each word and one at the end; a `Slot` names a word or a gap,
and a `Layout` holds the tokens that belong there.
-/

namespace ImplicitGlobals

/-- A token as the grammar sees it. -/
structure Word where
  kind : TokenKind
  text : String
  /-- Whether a line break separates the word from the one before. -/
  freshLine : Bool
deriving DecidableEq, Repr, Inhabited

namespace Word

def isWord (w : Word) (text : String) : Bool := w.kind == .ident && w.text == text

/-- The words of the tokens, when the trivia just before them has `broken` a line. -/
def after (broken : Bool) : List Token → List Word
  | [] => []
  | t :: rest =>
    if t.kind.isTrivia then after (broken || t.breaksLine) rest
    else ⟨t.kind, t.text, broken⟩ :: after false rest

/-- The words of a token list. -/
def ofTokens (tokens : List Token) : List Word := after false tokens

end Word

/-- A place for tokens in a tree: the gap before word `i`, or word `i` itself. -/
inductive Slot where
  | gap (i : Nat)
  | word (i : Nat) (kind : LeafKind)
deriving DecidableEq, Repr, Inhabited

/-- The tokens of a source by slot. -/
structure Layout where
  words : Array Token
  gaps : Array (List Token)
  /-- The length of the source in bytes. -/
  size : Nat
deriving Repr

namespace Layout

/-- The runs of trivia between words; `held` is the run being read, last token first. -/
def gapsAfter (held : List Token) : List Token → List (List Token)
  | [] => [held.reverse]
  | t :: rest =>
    if t.kind.isTrivia then gapsAfter (t :: held) rest
    else held.reverse :: gapsAfter [] rest

/-- Where the last token ends. -/
def endOf (tokens : List Token) : Nat := (tokens.getLast?.map Token.stop).getD 0

def ofTokens (tokens : List Token) : Layout where
  words := (tokens.filter (!·.kind.isTrivia)).toArray
  gaps := (gapsAfter [] tokens).toArray
  size := endOf tokens

/-- The leaves that belong in a slot. -/
def fill (l : Layout) : Slot → List Leaf
  | .gap i => (l.gaps[i]?.getD []).map fun t => ⟨.token t.kind, t⟩
  | .word i kind => (l.words[i]?.map fun t => ⟨kind, t⟩).toList

/-- The span of word `i`; past the last word, the empty span at the end. -/
def span (l : Layout) (i : Nat) : Span :=
  match l.words[i]? with
  | some t => t.span
  | none => .point l.size

/-- The end of the word before word `i`, or the start of the source. -/
def endBefore (l : Layout) (i : Nat) : Nat :=
  if i = 0 then 0 else (l.words[i - 1]?.map Token.stop).getD l.size

end Layout

/-- Puts gaps and words in turn: a gap, a word, …, a gap. -/
def interleave : List (List Token) → List Token → List Token
  | [], ws => ws
  | g :: _, [] => g
  | g :: gs, w :: ws => g ++ w :: interleave gs ws

theorem interleave_gapsAfter (held tokens : List Token) :
    interleave (Layout.gapsAfter held tokens) (tokens.filter (!·.kind.isTrivia)) =
      held.reverse ++ tokens := by
  induction tokens generalizing held with
  | nil => simp [Layout.gapsAfter, interleave]
  | cons t rest ih =>
    by_cases h : t.kind.isTrivia = true
    · simp [Layout.gapsAfter, h, ih]
    · simp [Layout.gapsAfter, interleave, h, ih]

end ImplicitGlobals
