/-!
# Drawings

A drawing is a list of strokes on a grid of character cells, made one after the
other. A stroke writes a text over what is there, changes the ink of cells, or
puts dots in the place of cells. Where nothing was written, a row is blank up to
its last cell.
-/

namespace ImplicitGlobals.Snippet

/-- How a cell is shown on a terminal with colours. -/
inductive Ink where
  | plain
  | error
  | help
  | headline
  /-- Line numbers, the frame, and what belongs to a related place. -/
  | frame
  | inserted
  | removed
deriving DecidableEq, Repr, Inhabited

/-- The escape sequences that select the ink. -/
def Ink.select : Ink → String
  | plain => ""
  | error => "\x1b[1m\x1b[91m"
  | help => "\x1b[1m\x1b[96m"
  | headline => "\x1b[1m"
  | frame => "\x1b[1m\x1b[94m"
  | inserted => "\x1b[92m"
  | removed => "\x1b[91m"

/-- The escape sequence that ends the ink. -/
def Ink.release : Ink → String
  | plain => ""
  | _ => "\x1b[0m"

structure Cell where
  char : Char := ' '
  ink : Ink := .plain
deriving DecidableEq, Repr, Inhabited

/-- The dots that stand for what is left out. -/
def dots : String := "..."

/-- A change of one row. -/
inductive Stroke where
  /-- The text, from the column on. -/
  | write (row column : Nat) (text : String) (ink : Ink)
  /-- The ink, for the cells from `first` up to `last` that the row has. -/
  | wash (row first last : Nat) (ink : Ink)
  /-- Dots in the place of the cells from `first` up to `last`, when the row has
  all of them. -/
  | elide (row first last : Nat)
deriving DecidableEq, Repr, Inhabited

abbrev Drawing := List Stroke

/-- `cells` written over `row` from a column on, with blanks before it. -/
def overlay : Nat → List Cell → List Cell → List Cell
  | 0, cells, row => cells ++ row.drop cells.length
  | column + 1, cells, [] => {} :: overlay column cells []
  | column + 1, cells, c :: row => c :: overlay column cells row

/-- The cells of a text in one ink. -/
def cellsOf (text : String) (ink : Ink) : List Cell := text.toList.map fun c => ⟨c, ink⟩

namespace Stroke

def row : Stroke → Nat
  | write row .. | wash row .. | elide row .. => row

def down (rows : Nat) : Stroke → Stroke
  | write row column text ink => write (row + rows) column text ink
  | wash row first last ink => wash (row + rows) first last ink
  | elide row first last => elide (row + rows) first last

/-- The number of rows there are at least when the stroke is made. -/
def reach : Stroke → Nat
  | write row _ text _ => if text.isEmpty then 0 else row + 1
  | _ => 0

/-- The cells of the stroke's row after it. -/
def apply : Stroke → List Cell → List Cell
  | write _ column text ink, cells =>
    if text.isEmpty then cells else overlay column (cellsOf text ink) cells
  | wash _ first last ink, cells =>
    cells.take first ++ ((cells.drop first).take (last - first)).map ({ · with ink }) ++
      cells.drop (max first last)
  | elide _ first last, cells =>
    if first < last && last ≤ cells.length then
      cells.take first ++ cellsOf dots .frame ++ cells.drop last
    else cells

end Stroke

namespace Drawing

/-- The cells of a row after all strokes. -/
def rowOf (d : Drawing) (row : Nat) : List Cell :=
  d.foldl (fun cells s => if s.row = row then s.apply cells else cells) []

def height (d : Drawing) : Nat := d.foldl (fun h s => max h s.reach) 0

def down (d : Drawing) (rows : Nat) : Drawing := d.map (·.down rows)

/-- `lower` drawn under `upper`. -/
def above (upper lower : Drawing) : Drawing := upper ++ lower.down upper.height

end Drawing

/-- The text of a row. The ink is switched where it changes and released at the end. -/
def inked (current : Ink) : List Cell → String
  | [] => current.release
  | c :: rest =>
    if c.ink = current then c.char.toString ++ inked current rest
    else current.release ++ c.ink.select ++ c.char.toString ++ inked c.ink rest

def bare (cells : List Cell) : String := String.ofList (cells.map (·.char))

def Drawing.lines (d : Drawing) (colored : Bool) : List String :=
  (List.range d.height).map fun row =>
    let cells := d.rowOf row
    if colored then inked .plain cells else bare cells

theorem length_overlay (column : Nat) (cells row : List Cell) :
    (overlay column cells row).length = max row.length (column + cells.length) := by
  fun_induction overlay column cells row <;> simp_all <;> omega

end ImplicitGlobals.Snippet
