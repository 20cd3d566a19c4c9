import ImplicitGlobals.Grammar.Statement
import ImplicitGlobals.Syntax.Lexer

/-!
# Parsing

From a source to its tree and its diagnostics. Syntax errors are part of the
result; only a spent budget refuses it. The tree holds every token of the
source.
-/

namespace ImplicitGlobals

/-- What the grammar makes of the words of a source. -/
structure Outline where
  tree : Tree Slot
  /-- The complaints in the order they were made. -/
  complaints : List Complaint
deriving Repr, Inhabited

/-- Why there is no tree. -/
inductive Refusal where
  | limit (l : Limit)
  | breach (b : Breach)
deriving DecidableEq, Repr, Inhabited

/-- The result for a source. -/
structure Parsed where
  tree : SyntaxTree
  diagnostics : Diagnostics
deriving Repr, Inhabited

namespace Outline

/-- The outline that a cursor at the end holds. A spent budget refuses it. -/
def ofCursor (c : Grammar.Cursor) : Except Refusal Outline :=
  match c.refused, Grammar.wholeTree.run c with
  | some l, _ => .error (.limit l)
  | none, .error b => .error (.breach b)
  | none, .ok (tree, _) => .ok ⟨tree, c.complaints.reverse⟩

/-- Reads the words of a source. -/
def ofWords (budget : Budget) (words : List Word) : Except Refusal Outline :=
  match Grammar.source.run (.start budget words) with
  | .error b => .error (.breach b)
  | .ok (_, c) => ofCursor c

/-- Puts the tokens and positions of a layout into an outline. -/
def dress (o : Outline) (l : Layout) : Parsed where
  tree :=
    match o.tree.expand l.fill with
    | tree :: _ => tree
    | [] => .node .sourceFile []
  diagnostics := o.complaints.map (Complaint.locate l)

end Outline

/-- The tree and the diagnostics of a source, within a budget. -/
def parseWithin (budget : Budget) (source : String) : Except Refusal Parsed := do
  let tokens := lex source
  let outline ← Outline.ofWords budget (Word.ofTokens tokens)
  return outline.dress (.ofTokens tokens)

/-- Parsing without bounds. -/
def parse (source : String) : Except Refusal Parsed := parseWithin {} source

end ImplicitGlobals
