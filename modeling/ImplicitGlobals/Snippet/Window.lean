import ImplicitGlobals.Snippet.Drawing
import ImplicitGlobals.Snippet.Mark

/-!
# The window on long lines

All lines of a snippet are shown through one window of columns. It is the whole
line as long as the terminal is wide enough; else it is moved to the marks, and
dots stand where something is left out.
-/

namespace ImplicitGlobals.Snippet

/-- The columns of the terminal. -/
def terminalColumns : Nat := 140

/-- What decides the window: the columns that common blanks before all marks, marks
and labels reach to, each with room for the dots, and the columns there are. -/
structure Extent where
  blank : Nat
  left : Nat
  right : Nat
  label : Nat
  longest : Nat
  available : Nat
deriving DecidableEq, Repr, Inhabited

structure Window where
  left : Nat
  right : Nat
  available : Nat
deriving DecidableEq, Repr, Inhabited

namespace Extent

/-- The blanks a line starts with, or nothing for a blank line. -/
def leadingBlank? (line : List Char) : Option Nat :=
  if line.all Text.isBlank then none
  else some (((line.takeWhile Text.isBlank).map fun c => if c = '\t' then 4 else 1).foldr (· + ·) 0)

def least (ns : List Nat) : Nat := ns.min?.getD 0

def greatest (ns : List Nat) : Nat := ns.max?.getD 0

def ofLines (ls : List MarkedLine) (available : Nat) : Extent :=
  let marks := (ls.flatMap (·.marks)).filter (!·.isThrough)
  let reach (m : Mark) :=
    m.stop.column + (if m.label.isEmpty then 0 else Text.columns m.label.toList + 1)
  let first := least (marks.map fun m => min m.start.column m.stop.column)
  let blank := least (ls.filterMap fun l => leadingBlank? l.line.text)
  { blank := min blank first - 6
    left := first - 6
    right := greatest (marks.map fun m => max m.start.column m.stop.column) + 6
    label := greatest (marks.map reach) + 6
    longest := greatest (ls.map fun l => Text.columns l.line.text)
    available }

end Extent

namespace Window

/-- The window for an extent. More than twenty common blanks are cut. When the
longest line still does not fit, the window starts at the blanks, or is centred on
marks and labels, or on the marks alone, or spans the marks. -/
def ofExtent (e : Extent) : Window :=
  let left := if e.blank > 20 then e.blank - 16 else 0
  let right := max e.longest left
  let starting (left : Nat) : Window := ⟨left, left + e.available, e.available⟩
  if right - left ≤ e.available then ⟨left, right, e.available⟩
  else if e.label - e.blank ≤ e.available then starting e.blank
  else if e.label - e.left ≤ e.available then
    starting (e.left - (e.available - (e.label - e.left)) / 2)
  else if e.right - e.left ≤ e.available then
    starting (e.left - (e.available - (e.right - e.left)) / 5 * 2)
  else ⟨e.left, e.right, e.available⟩

def ofLines (ls : List MarkedLine) (available : Nat) : Window :=
  ofExtent (.ofLines ls available)

def leftOf (w : Window) (columns : Nat) : Nat := min w.left columns

def rightOf (w : Window) (columns : Nat) : Nat :=
  if columns - w.left ≤ w.available then columns else min columns w.right

end Window

/-- Skips characters until `columns` columns are skipped. Also gives the columns skipped. -/
def skipColumns (columns skipped : Nat) : List Char → Nat × List Char
  | [] => (skipped, [])
  | c :: rest =>
    if skipped < columns then skipColumns columns (skipped + Text.width c) rest
    else (skipped, c :: rest)

/-- The characters that fit into a number of columns. -/
def takeColumns (columns : Nat) : List Char → List Char
  | [] => []
  | c :: rest =>
    if Text.width c ≤ columns then c :: takeColumns (columns - Text.width c) rest else []

/-- The first characters that take at least `columns` columns, counted. Also gives
their columns. -/
def coverColumns (columns taken count : Nat) : List Char → Nat × Nat
  | [] => (taken, count)
  | c :: rest =>
    let taken := taken + Text.width c
    if columns ≤ taken then (taken, count + 1) else coverColumns columns taken (count + 1) rest

/-- A line seen through a window. `left` is the column at its left edge. -/
structure View where
  left : Nat
  /-- The dots at the left edge, or nothing, and the columns they stand for. -/
  leading : Bool
  shift : Nat
  text : List Char
  /-- Where dots stand at the right edge, if they do. -/
  trailing? : Option Nat
deriving DecidableEq, Repr, Inhabited

/-- The view of a line that has no tabs or controls. -/
def Window.view (w : Window) (line : List Char) : View :=
  let columns := Text.columns line
  let edge := w.leftOf columns
  let (skipped, rest) := skipColumns edge 0 line
  let code := takeColumns (w.rightOf columns - edge) rest
  let (shift, cut) := if w.left = 0 then (0, 0) else coverColumns dots.length 0 0 code
  let text := code.drop cut
  let trailing? :=
    if w.rightOf columns < columns then
      some (shift + text.length - (coverColumns dots.length 0 0 code.reverse).2)
    else none
  { left := max edge skipped
    leading := w.left ≠ 0
    shift, text, trailing? }

theorem view_of_short {w : Window} {line : List Char} (h : w.left = 0) :
    (w.view line).leading = false := by
  simp [Window.view, h]

end ImplicitGlobals.Snippet
