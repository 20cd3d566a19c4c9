import ImplicitGlobals.Snippet.SourceLine
import ImplicitGlobals.Text.Blank

/-!
# Marks on lines

An annotation marks a range of the source, which may run over several lines. On
each line that is shown it leaves marks: one when the range stands on the line,
or an opening, lines run through and a closing, joined at the left by a vertical
bar whose depth keeps overlapping ranges apart.
-/

namespace ImplicitGlobals.Snippet

structure Annotation where
  opening : Place
  closing : Place
  primary : Bool
  label : String
deriving DecidableEq, Repr, Inhabited

/-- The part of an annotation on a line, with the depth of its bar. -/
inductive Part where
  | whole
  | opening (depth : Nat)
  | through (depth : Nat)
  | closing (depth : Nat)
deriving DecidableEq, Repr, Inhabited

structure Mark where
  part : Part
  start : Place
  stop : Place
  primary : Bool
  label : String := ""
deriving DecidableEq, Repr, Inhabited

namespace Mark

def hasLabel (m : Mark) : Bool := !m.label.isEmpty

/-- Whether a horizontal line runs from the mark to the bar. -/
def takesSpace (m : Mark) : Bool :=
  match m.part with
  | .opening _ | .closing _ => true
  | _ => false

def isThrough (m : Mark) : Bool :=
  match m.part with
  | .through _ => true
  | _ => false

def isOpening (m : Mark) : Bool :=
  match m.part with
  | .opening _ => true
  | _ => false

/-- The depth of the bar that starts or ends at the mark. -/
def turn? (m : Mark) : Option Nat :=
  match m.part with
  | .opening d | .closing d => some d
  | _ => none

def width (m : Mark) : Nat :=
  max m.start.column m.stop.column - min m.start.column m.stop.column

/-- Whether the columns of two marks meet when `a` is wider by `padding`. -/
def overlaps (a b : Mark) (padding : Nat) : Bool :=
  (b.start.column ≤ a.start.column && a.start.column < b.stop.column) ||
    (a.start.column ≤ b.start.column && b.start.column < a.stop.column + padding)

/-- Whether two marks stand on the same columns and characters. -/
def covers (a b : Mark) : Bool :=
  a.start.column == b.start.column && a.start.char == b.start.char &&
    a.stop.column == b.stop.column && a.stop.char == b.stop.char

end Mark

/-- An annotation of several lines, with the depth of its bar. -/
structure Range where
  annotation : Annotation
  depth : Nat := 1
  /-- Another annotation has the same range and draws the bar. -/
  hidden : Bool := false
deriving DecidableEq, Repr, Inhabited

namespace Range

def firstLine (r : Range) : Nat := r.annotation.opening.line

def lastLine (r : Range) : Nat := r.annotation.closing.line

def sameEnds (a b : Range) : Bool :=
  a.annotation.opening == b.annotation.opening && a.annotation.closing == b.annotation.closing

/-- Whether the lines of two ranges meet. -/
def overlaps (a b : Range) : Bool :=
  (b.firstLine ≤ a.firstLine && a.firstLine ≤ b.lastLine) ||
    (a.firstLine ≤ b.firstLine && b.firstLine ≤ a.lastLine)

/-- Makes way for the range `r`, which is number `i`, among the ranges from number
`j` on: those before it that overlap it go one deeper, and another range with its
ends hides. The first range for which neither holds ends this; it becomes primary
when a primary range has its ends. -/
def makeWay (primaries : List Range) (i : Nat) (r : Range) : Nat → List Range → List Range
  | _, [] => []
  | j, a :: rest =>
    if !r.sameEnds a && r.overlaps a then
      { a with depth := a.depth + 1 } :: makeWay primaries i r (j + 1) rest
    else if r.sameEnds a && i ≠ j then
      { a with hidden := true } :: makeWay primaries i r (j + 1) rest
    else
      let primary := a.annotation.primary || primaries.any (·.sameEnds a)
      { a with annotation := { a.annotation with primary } } :: rest

/-- `makeWay` for each of the ranges from number `i` on. -/
def spread (primaries : List Range) : Nat → List Range → List Range → List Range
  | _, [], result => result
  | i, r :: rest, result =>
    let primaries := if r.annotation.primary then r :: primaries else primaries
    spread primaries (i + 1) rest (makeWay primaries i r 0 result)

/-- The ranges by first line, longer ones first. -/
def sorted (rs : List Range) : List Range :=
  rs.mergeSort fun a b =>
    a.firstLine < b.firstLine || (a.firstLine = b.firstLine && b.lastLine ≤ a.lastLine)

/-- The greatest depth. -/
def maxDepth (rs : List Range) : Nat := rs.foldl (fun d r => max d r.depth) 0

/-- The ranges with the depths of their bars: those that start later stand further right. -/
def arranged (rs : List Range) : List Range :=
  let spreadOut := spread [] 0 (sorted rs) (sorted rs)
  let deepest := maxDepth spreadOut
  spreadOut.map fun r => { r with depth := deepest - r.depth + 1 }

def openingMark (r : Range) : Mark :=
  let p := r.annotation.opening
  { part := .opening r.depth
    start := p
    stop := { p with char := p.char + 1, column := p.column + 1, byte := p.byte + 1 }
    primary := r.annotation.primary }

/-- The mark of a line that the range runs through, which has no columns. -/
def throughMark (r : Range) : Mark :=
  { part := .through r.depth, start := ⟨0, 0, 0, 0⟩, stop := ⟨0, 0, 0, 0⟩
    primary := r.annotation.primary }

/-- The mark on the last character of the range. -/
def closingMark (r : Range) : Mark :=
  let p := r.annotation.closing
  { part := if r.hidden then .whole else .closing r.depth
    start := { p with char := p.char - 1, column := p.column - 1, byte := p.byte - 1 }
    stop := p
    primary := r.annotation.primary
    label := r.annotation.label }

/-- Whether a line says nothing by itself: blank, a lone bracket, or a comment that
is no documentation. -/
def isFiller (line : List Char) : Bool :=
  let text := Text.trimBoth (String.ofList line)
  (text.startsWith "//" && !(text.startsWith "///" || text.startsWith "//!")) ||
    text.isEmpty || ["\x7b", "\x7d", "(", ")", "[", "]"].contains text

def isFillerAt (s : SourceLines) (line : Nat) : Bool :=
  (s.numbered? line).all fun l => isFiller l.text

/-- The lines a range runs through that are shown: at most three after its first,
without the fillers at their end, and the one before its last. -/
def throughLines (s : SourceLines) (r : Range) : List Nat :=
  let middle := min (r.firstLine + 4) r.lastLine
  let lines := (List.range' r.firstLine (middle - r.firstLine)).reverse
  let last := ((lines.find? fun n => !isFillerAt s n).getD r.firstLine)
  let head := List.range' (r.firstLine + 1) (last - r.firstLine)
  let tail := r.lastLine - 1
  if middle < tail && !isFillerAt s tail then head ++ [tail] else head

/-- The marks of a range, each with its line. -/
def marks (s : SourceLines) (r : Range) : List (Nat × Mark) :=
  let closing := (r.lastLine, r.closingMark)
  if r.hidden then [closing]
  else
    (r.firstLine, r.openingMark) :: (r.throughLines s).map (fun n => (n, r.throughMark)) ++ [closing]

end Range

namespace Annotation

/-- The annotation of a byte range. An empty one marks one column. -/
def ofBytes (s : SourceLines) (start stop : Nat) (primary : Bool) (label : String) : Annotation :=
  let (opening, closing) := s.ends start stop
  if opening.line = closing.line && opening.column = closing.column then
    ⟨opening, { closing with column := closing.column + 1 }, primary, label⟩
  else ⟨opening, closing, primary, label⟩

def isOnOneLine (a : Annotation) : Bool := a.opening.line == a.closing.line

def wholeMark (a : Annotation) : Nat × Mark :=
  (a.opening.line, ⟨.whole, a.opening, a.closing, a.primary, a.label⟩)

end Annotation

/-- A line that is shown for the marks on it. -/
structure MarkedLine where
  line : SourceLine
  marks : List Mark
deriving DecidableEq, Repr, Inhabited

/-- The marks of the annotations with their lines: those on one line first. -/
def marksOf (s : SourceLines) (as : List Annotation) : List (Nat × Mark) :=
  let ranges := Range.arranged ((as.filter (!·.isOnOneLine)).map fun a => { annotation := a })
  (as.filter (·.isOnOneLine)).map Annotation.wholeMark ++ ranges.flatMap (·.marks s)

/-- The depth of the deepest bar. -/
def depthOf (as : List Annotation) : Nat :=
  Range.maxDepth
    (Range.arranged ((as.filter (!·.isOnOneLine)).map fun a => { annotation := a }))

/-- The lines with marks, in order. The marks of a line stand in the order of their starts. -/
def markedLines (s : SourceLines) (as : List Annotation) : List MarkedLine :=
  let marks := marksOf s as
  s.all.filterMap fun line =>
    match marks.filterMap fun (n, m) => if n = line.number then some m else none with
    | [] => none
    | ms => some ⟨line, ms.mergeSort fun a b => (compare a.start b.start).isLE⟩

end ImplicitGlobals.Snippet
