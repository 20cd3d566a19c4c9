import ImplicitGlobals.Grammar.Complaint
import ImplicitGlobals.Syntax.KindSet

/-!
# The cursor

A rule of the grammar is a computation on a cursor. The cursor stands before a
word, holds the parts of the node being read, the openers around it, the
complaints so far and what is left of the budgets.

A gap is skipped when a rule looks at the word behind it and goes into the tree
with the next part that is begun or read, so a comment ends up in front of what
it precedes.

The tree is built from the bottom: parts pile up, and closing a node takes those
from its beginning on as its children. A node begins before the next part or, at
a checkpoint, before parts that are there already.

A `Breach` says that the grammar broke one of its own promises: it looked too
often without reading a word, read past the end, entered a rule at the wrong
word, went round a loop too often, or began and closed nodes that do not fit
together. A spent budget is not a breach: it is noted once, every later question
whether the end is reached is answered with yes, and the result is refused.
-/

namespace ImplicitGlobals

/-- A budget that ran out. -/
inductive Limit where
  | words
  | nesting
deriving DecidableEq, Repr, Inhabited

/-- How much a source may cost; nothing for no bound. -/
structure Budget where
  words : Option Nat := none
  nesting : Option Nat := none
deriving DecidableEq, Repr, Inhabited

/-- A broken promise of the grammar. -/
inductive Breach where
  | stalled
  | pastEnd
  | wrongStart
  | endless
  /-- A node is closed that was not begun. -/
  | notBegun
  /-- A node begins at a place that a closed node has taken up or an open one begins behind. -/
  | staleCheckpoint
  /-- What is left is not the one tree of a source. -/
  | notOneTree
deriving DecidableEq, Repr, Inhabited

namespace Breach

def message : Breach → String
  | stalled => "parser stalled: no token consumed after repeated lookahead"
  | pastEnd => "bump past end of input"
  | wrongStart => "grammar rule entered at the wrong token"
  | endless => "grammar loop without end"
  | notBegun => "node closed that was not begun"
  | staleCheckpoint => "checkpoint no longer valid"
  | notOneTree => "grammar always wraps the input in a SourceFile node"

end Breach

namespace Grammar

/-- Where the gap before the current word is: not looked at yet, skipped, or in
the tree. -/
inductive Gap where
  | ahead
  | held
  | placed
deriving DecidableEq, Repr, Inhabited

namespace Gap

/-- The gap once it has been looked over. -/
def skipped : Gap → Gap
  | ahead => held
  | g => g

/-- The gap once all that is skipped is in the tree. -/
def settled : Gap → Gap
  | held => placed
  | g => g

/-- What is to be put into the tree for the gap before word `i`. -/
def due (g : Gap) (i : Nat) : Array (Tree Slot) :=
  if g = held then #[.leaf (.gap i)] else #[]

end Gap

/-- An open delimiter: its kind and its word. -/
structure Opener where
  kind : TokenKind
  word : Nat
deriving DecidableEq, Repr, Inhabited

/-- A node that is not closed yet: its kind and the number of parts before it. -/
structure Opened where
  kind : NodeKind
  first : Nat
deriving DecidableEq, Repr, Inhabited

/-- How often a rule may look before a word is read. -/
def lookLimit : Nat := 256

structure Cursor where
  /-- The words from the current one on. -/
  rest : List Word
  /-- A bound on the words that are left. -/
  total : Nat := rest.length
  /-- The number of words read. -/
  passed : Nat := 0
  gap : Gap := .ahead
  looks : Nat := lookLimit
  /-- The open delimiters, innermost first. -/
  openers : List Opener := []
  budget : Budget := {}
  depth : Nat := 0
  refused : Option Limit := none
  /-- The word of the last complaint. -/
  lastPlace : Option Nat := none
  /-- The complaints, latest first. -/
  complaints : List Complaint := []
  /-- The parts that no closed node holds yet, in order. -/
  parts : Array (Tree Slot) := #[]
  /-- The nodes that are not closed yet, innermost first. -/
  opened : List Opened := []
deriving Inhabited

namespace Cursor

/-- The cursor before the first of the words. -/
def start (budget : Budget) (words : List Word) : Cursor := { rest := words, budget }

/-- The gap before the current word, skipped. -/
def skipGap (c : Cursor) : Cursor := { c with gap := c.gap.skipped }

/-- A skipped gap, put into the tree. -/
def placeGap (c : Cursor) : Cursor :=
  { c with gap := c.gap.settled, parts := c.parts ++ c.gap.due c.passed }

/-- The current word, read under the kind `label` behind its gap. -/
def read (c : Cursor) (label : LeafKind) : Cursor :=
  let c := c.placeGap
  { c with
    looks := lookLimit
    rest := c.rest.tail
    passed := c.passed + 1
    gap := .ahead
    parts := c.parts.push (.leaf (.word c.passed label)) }

/-- A node of the kind, begun before the last parts, of which `first` come before it. -/
def openNode (c : Cursor) (kind : NodeKind) (first : Nat) : Cursor :=
  { c with opened := ⟨kind, first⟩ :: c.opened }

/-- The parts from `first` on, closed into a node of the kind. -/
def closeNode (c : Cursor) (kind : NodeKind) (first : Nat) : Cursor :=
  { c with
    parts := (c.parts.take first).push (.node kind (c.parts.toList.drop first))
    opened := c.opened.tail }

/-- The complaint noted, of the current word. -/
def note (c : Cursor) (k : Complaint) : Cursor :=
  { c with lastPlace := some c.passed, complaints := k :: c.complaints }

end Cursor

/-- A rule of the grammar. -/
abbrev Rule := StateT Cursor (Except Breach)

/-! ### Looking -/

/-- Skips the gap before the current word. -/
def skipGap : Rule Unit := modify Cursor.skipGap

/-- Skips the gap and counts a look. -/
def look : Rule Unit := do
  skipGap
  let c ← get
  match c.looks with
  | 0 => throw .stalled
  | n + 1 => set { c with looks := n }

/-- The word `n` places ahead. -/
def peek (n : Nat) : Rule (Option Word) := do
  look
  return (← get).rest[n]?

/-- The kind of the word `n` places ahead; nothing at the end. -/
def kindAt (n : Nat) : Rule (Option TokenKind) := do
  return (← peek n).map (·.kind)

def current : Rule (Option TokenKind) := kindAt 0

def currentIs (kind : TokenKind) : Rule Bool := do
  return (← current) == some kind

def currentIn (set : KindSet) : Rule Bool := do
  return (← current).any set.holds

/-- The text of the current word; empty at the end. -/
def currentText : Rule String := do
  return ((← peek 0).map (·.text)).getD ""

/-- The number of the current word. -/
def mark : Rule Nat := do
  look
  return (← get).passed

/-- Whether the word `n` places ahead is of the kind. -/
def nthIs (n : Nat) (kind : TokenKind) : Rule Bool := do
  return (← kindAt n) == some kind

def nextIs (kind : TokenKind) : Rule Bool := nthIs 1 kind

/-- Whether the word `n` places ahead is the identifier `text`. -/
def nthIsWord (n : Nat) (text : String) : Rule Bool := do
  return (← peek n).any (·.isWord text)

def atWord (text : String) : Rule Bool := nthIsWord 0 text

def nthIsKeyword (n : Nat) (k : Keyword) : Rule Bool := nthIsWord n k.word

def atKeyword (k : Keyword) : Rule Bool := nthIsKeyword 0 k

/-- Whether there is nothing more to read: no word, or no budget. -/
def atEnd : Rule Bool := do
  skipGap
  let c ← get
  return c.rest.isEmpty || c.refused.isSome

/-- Whether a line break stands before the current word. -/
def onFreshLine : Rule Bool := do
  skipGap
  return (← get).rest.head?.any (·.freshLine)

def isRefused : Rule Bool := do return (← get).refused.isSome

/-! ### Building -/

/-- Puts a skipped gap into the tree. -/
def placeGap : Rule Unit := modify Cursor.placeGap

def skipAndPlaceGap : Rule Unit := do
  skipGap
  placeGap

/-- A place before which a node can be begun later: the number of parts there. -/
abbrev Checkpoint := Nat

/-- The place behind all that is skipped and read. -/
def checkpoint : Rule Checkpoint := do
  skipAndPlaceGap
  return (← get).parts.size

/-- Begins a node; a skipped gap stays outside. -/
def startNode (kind : NodeKind) : Rule Unit := do
  placeGap
  modify fun c => c.openNode kind c.parts.size

/-- Begins a node before the parts that came since `point`. They must still be there,
and the node must lie in the innermost one that is open. -/
def startNodeAt (point : Checkpoint) (kind : NodeKind) : Rule Unit := do
  let c ← get
  if c.parts.size < point || c.opened.head?.any (point < ·.first) then throw .staleCheckpoint
  set (c.openNode kind point)

/-- Closes the innermost open node. -/
def finishNode : Rule Unit := do
  let c ← get
  match c.opened with
  | [] => throw .notBegun
  | o :: _ => set (c.closeNode o.kind o.first)

/-- Reads a node: all that `body` reads goes in. -/
def node (kind : NodeKind) (body : Rule Unit) : Rule Unit := do
  startNode kind
  body
  finishNode

/-- Reads a node that began at `point`. -/
def nodeAt (point : Checkpoint) (kind : NodeKind) (body : Rule Unit) : Rule Unit := do
  startNodeAt point kind
  body
  finishNode

/-- The tree of a source, when that is all there is. -/
def wholeTree : Rule (Tree Slot) := do
  match (← get).parts.toList with
  | [.node .sourceFile children] => return .node .sourceFile children
  | _ => throw .notOneTree

/-! ### Reading words -/

/-- Notes a spent budget; the first one counts. -/
def refuse (l : Limit) : Rule Unit :=
  modify fun c => { c with refused := c.refused.or (some l) }

/-- Pays for a word. -/
def payWord : Rule Unit := do
  let c ← get
  match c.budget.words with
  | none => return
  | some 0 => refuse .words
  | some (n + 1) => set { c with budget.words := some n }

/-- Reads the current word under the kind `label`. -/
def takeAs (label : LeafKind) : Rule Unit := do
  if (← peek 0).isNone then throw .pastEnd
  payWord
  modify (·.read label)

/-- Reads the current word as it is. -/
def bump : Rule Unit := do
  let kind ← current
  takeAs (.token (kind.getD .garbage))

/-- Reads the current word as the keyword. -/
def takeKeyword (k : Keyword) : Rule Unit := takeAs (.keyword k)

/-- Looks the current word up among the keywords and reads it. -/
def bumpKeyword : Rule Unit := do
  let text ← currentText
  takeAs ((Keyword.ofWord? text).elim (.token .ident) .keyword)

/-- Reads the current word if it is of the kind. -/
def eat (kind : TokenKind) : Rule Bool := do
  if ← currentIs kind then
    bump
    return true
  return false

/-- Reads the current word as the keyword it spells, if that is `k`. -/
def eatKeyword (k : Keyword) : Rule Bool := do
  if ← atKeyword k then
    takeKeyword k
    return true
  return false

/-- Reads the current word, if any, into an error node. -/
def bumpAsError : Rule Unit := do
  if (← peek 0).isSome then node .error bump

/-! ### Choices -/

/-- Goes on with `body` only if the test says so. -/
def whenever (test : Rule Bool) (body : Rule Unit) : Rule Unit := do
  if ← test then body

/-- A part that its first word announces. -/
def optional (kind : TokenKind) (body : Rule Unit) : Rule Unit := whenever (currentIs kind) body

/-! ### Nesting -/

/-- Goes one level deeper if the budget allows it. -/
def descend : Rule Bool := do
  let c ← get
  if c.budget.nesting.any (· ≤ c.depth) then
    refuse .nesting
    return false
  set { c with depth := c.depth + 1, looks := lookLimit }
  return true

def ascend : Rule Unit :=
  modify fun c => { c with depth := c.depth - 1, looks := lookLimit }

def pushOpener (kind : TokenKind) : Rule Unit := do
  let i ← mark
  modify fun c => { c with openers := ⟨kind, i⟩ :: c.openers }

def popOpener : Rule Unit :=
  modify fun c => { c with openers := c.openers.tail }

/-- Whether the innermost open delimiter is a brace. -/
def inBlock : Rule Bool := do
  return (← get).openers.head?.any (·.kind == .braceOpen)

/-! ### Complaining -/

/-- Makes a complaint at the current word, unless the last one was made there. -/
def complain (k : (word : Nat) → (enclosing : Option Nat) → Complaint) : Rule Unit := do
  let i ← mark
  modify fun c =>
    if c.lastPlace = some i then c else c.note (k i (c.openers.head?.map Opener.word))

def error (kind : DiagnosticKind) : Rule Unit := complain (.here kind none)

def errorWith (kind : DiagnosticKind) (detail : String) : Rule Unit :=
  complain (.here kind (some detail))

/-- Complains of the current word and reads it into an error node. -/
def errorAndBump (kind : DiagnosticKind) (detail : String) : Rule Unit := do
  errorWith kind detail
  bumpAsError

def errorNoSemicolon : Rule Unit := complain .noSemicolon

def errorUnclosed (kind : DiagnosticKind) (note : String) (opener : Nat) : Rule Unit :=
  complain fun i _ => .unclosed kind note opener i

/-- Reads a word of the kind or complains that `what` was expected. -/
def expect (kind : TokenKind) (what : String) : Rule Bool := do
  if ← eat kind then return true
  errorWith .unexpectedToken ("expected " ++ what)
  return false

/-- A rule that its callers enter at a word of the kind. -/
def assertAt (kind : TokenKind) : Rule Unit := do
  if (← current) ≠ some kind then throw .wrongStart

/-- A rule that its callers enter at the keyword. -/
def assertAtKeyword (k : Keyword) : Rule Unit := do
  if !(← atKeyword k) then throw .wrongStart

/-! ### Loops -/

/-- What a round of a loop decides. -/
inductive Turn (σ : Type) where
  | again (s : σ)
  | done (s : σ)

/-- Goes round at most `n` times. -/
def rounds {σ : Type} (step : σ → Rule (Turn σ)) : Nat → σ → Rule σ
  | 0, _ => throw .endless
  | n + 1, s => do
    match ← step s with
    | .again s' => rounds step n s'
    | .done s' => return s'

/-- Repeats `step` until it is done. Every round but the last reads a word, so one
round more than there are words is enough. -/
def loop {σ : Type} (init : σ) (step : σ → Rule (Turn σ)) : Rule σ := do
  rounds step ((← get).total + 1) init

/-- Repeats `step` until it answers `false`. -/
def repeatWhile (step : Rule Bool) : Rule Unit :=
  loop () fun _ => do
    if ← step then return .again ()
    return .done ()

/-! ### Delimiters -/

/-- What stands between two delimiters, and how a missing closer is reported. -/
structure Delimiters where
  /-- The opener, at which the rule is entered. -/
  opener : TokenKind
  closer : TokenKind
  /-- The error for a missing closer, and the note at the opener. -/
  unclosed : DiagnosticKind
  note : String
  /-- Whether a spent budget excuses a missing closer. -/
  excused : Bool := false
deriving DecidableEq, Repr, Inhabited

/-- The opener of the kind, and `body` inside it. -/
def inside (kind : TokenKind) (body : Rule Unit) : Rule Unit := do
  pushOpener kind
  bump
  body
  popOpener

/-- Delimiters around what `turn` reads round by round, delimiters included. -/
def delimited (d : Delimiters) (turn : Rule Bool) : Rule Unit := do
  let opener ← mark
  inside d.opener (repeatWhile turn)
  if !(← eat d.closer) && !(d.excused && (← isRefused)) then
    errorUnclosed d.unclosed d.note opener

/-- One item between delimiters and the comma behind it, or the end. What does not
start an item is complained of and skipped. -/
def itemTurn (closer : TokenKind) (starts : Rule Bool) (what : String) (item : Rule Unit) :
    Rule Bool := do
  if ← atEnd <||> currentIs closer then return false
  if !(← starts) then
    errorAndBump .expectedName what
    return true
  item
  eat .comma

end Grammar

end ImplicitGlobals
