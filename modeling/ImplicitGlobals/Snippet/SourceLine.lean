import ImplicitGlobals.Text.Lines
import ImplicitGlobals.Text.Width

/-!
# Places in a source

The lines of a source with their byte ranges, and for a byte of the source its
line, its character, and its column on a terminal.
-/

namespace ImplicitGlobals.Snippet

/-- A line without its ending, which is a line feed, perhaps after a carriage
return, or nothing at the end of the source. -/
structure SourceLine where
  number : Nat
  text : List Char
  /-- The first byte of the line. -/
  start : Nat
  /-- The bytes of the ending. -/
  ending : Nat
deriving DecidableEq, Repr, Inhabited

/-- Where a mark starts or stops. `char` and `column` count from the start of the line. -/
structure Place where
  line : Nat
  char : Nat
  column : Nat
  byte : Nat
deriving DecidableEq, Ord, Repr, Inhabited

/-- The bytes of a text. -/
def bytes (cs : List Char) : Nat := (cs.map Char.utf8Size).foldr (· + ·) 0

namespace SourceLine

/-- The byte after the text of the line. -/
def textStop (l : SourceLine) : Nat := l.start + bytes l.text

/-- The byte after the line and its ending. -/
def stop (l : SourceLine) : Nat := l.textStop + l.ending

/-- The text of a line that a line feed ends, and the bytes of its ending. -/
def splitEnding (piece : List Char) : List Char × Nat :=
  match piece.reverse with
  | '\r' :: rest => (rest.reverse, 2)
  | _ => (piece, 1)

/-- The lines of the pieces between line feeds. An empty last piece is a line only
when it is the first. -/
def ofPieces (number start : Nat) : List (List Char) → List SourceLine
  | [] => []
  | [last] => if last.isEmpty && number ≠ 1 then [] else [⟨number, last, start, 0⟩]
  | piece :: rest =>
    let (text, ending) := splitEnding piece
    let line : SourceLine := ⟨number, text, start, ending⟩
    line :: ofPieces (number + 1) line.stop rest

def ofSource (source : String) : List SourceLine :=
  ofPieces 1 0 (Text.cutAt '\n' source.toList)

/-- The longest prefix of whole characters within a number of bytes. -/
def prefixWithin (limit : Nat) : List Char → List Char
  | [] => []
  | c :: rest => if c.utf8Size ≤ limit then c :: prefixWithin (limit - c.utf8Size) rest else []

/-- The place of a byte on the line. -/
def placeOf (l : SourceLine) (byte : Nat) : Place :=
  let before := prefixWithin (byte - l.start) l.text
  ⟨l.number, before.length, Text.columns before, byte⟩

end SourceLine

/-- The lines of a source, of which there is at least one. -/
structure SourceLines where
  all : List SourceLine
deriving DecidableEq, Repr, Inhabited

namespace SourceLines

def ofSource (source : String) : SourceLines := ⟨SourceLine.ofSource source⟩

def numbered? (s : SourceLines) (number : Nat) : Option SourceLine :=
  s.all.find? (·.number = number)

/-- The line of a byte. A byte behind the last line belongs to it. -/
def lineOf (s : SourceLines) (byte : Nat) : SourceLine :=
  ((s.all.find? fun l => l.start ≤ byte && byte < l.stop).or s.all.getLast?).getD ⟨1, [], 0, 0⟩

/-- Where a mark from `byte` on starts. Past the text of the line, that is inside
its ending, it stands one character further than the column shows. -/
def opening (s : SourceLines) (byte : Nat) : Place :=
  let l := s.lineOf byte
  let p := l.placeOf byte
  if l.textStop < byte then { p with char := p.char + 1 } else p

/-- Where a mark up to `byte` stops. A mark of several lines that takes part of the
ending of its last one stops behind the line. -/
def closing (s : SourceLines) (start : Place) (byte : Nat) : Place :=
  let l := s.lineOf byte
  let p := l.placeOf byte
  if start.line ≠ l.number && l.textStop < byte then
    { p with char := p.char + 1, column := p.column + 1 }
  else p

/-- Both ends of a mark. An empty one has one place. -/
def ends (s : SourceLines) (start stop : Nat) : Place × Place :=
  let first := s.opening start
  if start = stop then (first, first) else (first, s.closing first stop)

end SourceLines

theorem length_prefixWithin_le (limit : Nat) (cs : List Char) :
    (SourceLine.prefixWithin limit cs).length ≤ cs.length := by
  fun_induction SourceLine.prefixWithin limit cs <;> simp_all

end ImplicitGlobals.Snippet
