import ImplicitGlobals.Snippet.Drawing
import ImplicitGlobals.Snippet.Window

/-!
# A line with its marks

Below a line of the source stand its marks: underlines on the first row, labels
beside them or hanging below on a stroke of bars, and for a range of several lines
a horizontal line to the bar at the left.
-/

namespace ImplicitGlobals.Snippet

/-- The columns of a snippet: line numbers, the frame, the bars, the code. -/
structure Layout where
  /-- The digits of the greatest line number. -/
  digits : Nat
  /-- The depth of the deepest bar. -/
  depth : Nat
  window : Window
deriving DecidableEq, Repr, Inhabited

namespace Layout

def frame (l : Layout) : Nat := l.digits + 1

def bars (l : Layout) : Nat := l.digits + 3

def code (l : Layout) : Nat := if l.depth = 0 then l.bars else l.bars + l.depth + 1

def bar (l : Layout) (depth : Nat) : Nat := l.bars + depth - 1

end Layout

/-- The bar of the frame on a row. -/
def frameAt (digits row : Nat) : Stroke := .write row (digits + 1) "|" .frame

def Mark.ink (m : Mark) : Ink := if m.primary then .error else .frame

def Mark.underline (m : Mark) : Char := if m.primary then '^' else '-'

/-- A line number, flush right. -/
def numberAt (digits row number : Nat) : Stroke :=
  let text := toString number
  .write row 0 (String.ofList (List.replicate (digits - text.length) ' ') ++ text) .frame

/-- The row of the source itself. -/
def codeRow (l : Layout) (number : Nat) (v : View) : Drawing :=
  (if v.leading then [.write 0 l.code dots .frame] else []) ++
  [.write 0 (l.code + v.shift) (String.ofList v.text) .plain] ++
  (v.trailing?.map fun column => (.write 0 (l.code + column) dots .frame : Stroke)).toList ++
  [numberAt l.digits 0 number, frameAt l.digits 0]

/-- Marks from right to left. -/
def rightToLeft (ms : List Mark) : List Mark :=
  ms.mergeSort fun a b =>
    b.start.column < a.start.column ||
      (b.start.column = a.start.column && b.start.char ≤ a.start.char)

/-- Whether the label of `m` cannot stand beside it because of `next`, further left.
An unlabelled mark of the same columns is no obstacle. -/
def mustHang (m next : Mark) : Bool :=
  next.overlaps m 0 && m.hasLabel && !(next.covers m && !next.hasLabel)

/-- Whether `next` has to go one row below `m`, which is on row `row`. -/
def mustSink (row : Nat) (m next : Mark) : Bool :=
  let padding := if next.hasLabel then next.label.utf8ByteSize + 2 else 0
  let within := next.stop.column < m.stop.column ||
    (next.stop.column = m.stop.column && next.stop.char ≤ m.stop.char)
  (next.overlaps m padding && m.hasLabel && next.hasLabel) ||
    (m.takesSpace && next.hasLabel) || (m.hasLabel && next.takesSpace) ||
    (m.takesSpace && next.takesSpace) ||
    (next.overlaps m padding && within && next.hasLabel && row = 0)

/-- The rows of marks, given from right to left. -/
def rowsFrom (row : Nat) : List Mark → List (Nat × Mark)
  | [] => []
  | m :: rest =>
    let row := if row = 0 && rest.any (mustHang m) then 1 else row
    (row, m) :: rowsFrom (if rest.any (mustSink row m) then row + 1 else row) rest

/-- The marks with their rows, and the rows below the underlines. Where all marks
are openings they nest the other way round, and the last row is spared. -/
def placed (ms : List Mark) : List (Nat × Mark) × Nat :=
  let rows := rowsFrom 0 (rightToLeft ms)
  let deepest := Extent.greatest (rows.map (·.1))
  let height := if deepest = 0 then 0 else deepest + 1
  if ms.all (·.isOpening) then (rows.map fun (row, m) => (deepest - row, m), height - 1)
  else (rows, height)

/-- A bar down the rows. -/
def barDown (rows : List Nat) (column : Nat) (ink : Ink) : Drawing :=
  rows.map fun row => .write row column "|" ink

/-- The text `unit` written `count` times. -/
def repeated (unit : Char) (count : Nat) : String := String.ofList (List.replicate count unit)

/-- What the marks of a line are drawn with: the layout, the column of the line at
the left edge of the window, and the rows below the underlines. -/
structure Pen where
  layout : Layout
  left : Nat
  height : Nat

namespace Pen

/-- The column of the snippet for a column of the line. -/
def columnOf (p : Pen) (column : Nat) : Nat := p.layout.code + column - p.left

/-- The line from a bar to its mark. -/
def horizontal (p : Pen) (row : Nat) (m : Mark) : Drawing :=
  match m.turn? with
  | some depth =>
    let first := p.layout.bars + depth
    [.write (row + 1) first (repeated '_' (p.columnOf m.start.column - first)) m.ink]
  | none => []

/-- The stroke of bars down to a label or a horizontal line. -/
def hanging (p : Pen) (row : Nat) (m : Mark) : Drawing :=
  if row > 0 && (m.hasLabel || m.takesSpace) then
    barDown (List.range' 1 (row + 1)) (p.columnOf m.start.column) m.ink
  else []

/-- The bar at the left: below the opening, above the closing. -/
def bar (p : Pen) (row : Nat) (m : Mark) : Drawing :=
  match m.part with
  | .opening depth =>
    let column := p.layout.bar depth
    .write (row + 1) column " " m.ink ::
      barDown (List.range' (row + 2) (p.height - row)) column m.ink
  | .closing depth => barDown (List.range (row + 2)) (p.layout.bar depth) m.ink
  | _ => []

def label (p : Pen) (row : Nat) (m : Mark) : Drawing :=
  if row = 0 then
    let gap := if m.stop.column = 0 then 2 else 1
    [.write 1 (p.layout.code + (m.stop.column + gap - p.left)) m.label m.ink]
  else [.write (row + 2) (p.layout.code + (m.start.column - p.left)) m.label m.ink]

/-- The underline, with the start marked again where something hangs from it. -/
def underline (p : Pen) (row : Nat) (m : Mark) : Drawing :=
  let first := p.columnOf m.start.column
  let stroke (count : Nat) : Stroke := .write 1 first (repeated m.underline count) m.ink
  (if m.start.column < m.stop.column then
      [stroke (p.columnOf (m.stop.column - 1) + 1 - first)]
    else []) ++
    (if m.takesSpace || (row > 0 && m.hasLabel) then [stroke 1] else [])

/-- A mark of more than two windows keeps a third of a window at each end, on the
line and below it. -/
def shortened (p : Pen) (m : Mark) : Drawing :=
  let available := p.layout.window.available
  if m.part = .whole && m.width > available * 2 && m.width > 10 then
    let kept := max (available / 3) 5
    let first := p.columnOf (m.start.column + kept)
    let last := p.columnOf m.stop.column - kept
    [.elide 0 first last, .elide 1 first last]
  else []

end Pen

/-- Whether only openings stand on a line, each with nothing but blanks before it. -/
def opensAtStart (shown : List Char) (ms : List Mark) : Bool :=
  ms.all fun m =>
    m.isThrough || (m.isOpening && (shown.take m.start.column).all Text.isBlank)

/-- Longer marks first, of marks of one length the primary last. -/
def longestFirst (rows : List (Nat × Mark)) : List (Nat × Mark) :=
  rows.mergeSort fun (_, a) (_, b) =>
    b.width < a.width || (b.width = a.width && (!a.primary || b.primary))

/-- The line, the marks below it, and the bars that start or end on it. -/
def drawLine (l : Layout) (m : MarkedLine) : Drawing × List (Nat × Ink) :=
  let shown := m.line.text.flatMap Text.shownChar
  let view := l.window.view shown
  let code := codeRow l m.line.number view
  if opensAtStart shown m.marks then
    let openings := m.marks.filter (·.isOpening)
    let turns := openings.filterMap fun o => o.turn?.map fun depth => (depth, o.ink)
    (code ++ turns.map fun (depth, ink) => .write 0 (l.bar depth) "/" ink, turns)
  else
    let (rows, height) := placed m.marks
    let pen : Pen := ⟨l, view.left, height⟩
    let each (f : Nat → Mark → Drawing) (rows : List (Nat × Mark)) : Drawing :=
      rows.flatMap fun (row, mark) => f row mark
    let bySize := longestFirst rows
    (code ++ (List.range' 1 (height + 1)).map (frameAt l.digits) ++ each pen.horizontal rows ++
        each (fun row mark => pen.hanging row mark ++ pen.bar row mark) rows ++
        each pen.label rows ++ each pen.underline bySize ++ bySize.flatMap (pen.shortened ·.2),
      bySize.filterMap fun (_, mark) => mark.turn?.map fun depth => (depth, mark.ink))

end ImplicitGlobals.Snippet
