/-!
# Lines

A text is cut at its line feeds: a text that ends in one has a last empty line,
and the empty text has one line.
-/

namespace ImplicitGlobals.Text

/-- The pieces of `cs` between separators. -/
def cutAt (separator : Char) : List Char → List (List Char)
  | [] => [[]]
  | c :: rest =>
    if c = separator then [] :: cutAt separator rest
    else
      match cutAt separator rest with
      | [] => [[c]]
      | piece :: more => (c :: piece) :: more

def lines (s : String) : List String :=
  (cutAt '\n' s.toList).map String.ofList

/-- The lines of a text in which a line feed, perhaps after a carriage return, ends
a line. What follows the last one is a line when it is not empty. -/
def endedLines (cs : List Char) : List (List Char) :=
  let ended (piece : List Char) : List Char :=
    if piece.getLast? = some '\r' then piece.dropLast else piece
  match (cutAt '\n' cs).reverse with
  | [] => []
  | last :: rest => (rest.map ended).reverse ++ (if last.isEmpty then [] else [last])

/-- Each line followed by a line feed. -/
def unlines (ls : List String) : String :=
  String.join (ls.map (· ++ "\n"))

theorem cutAt_ne_nil (separator : Char) (cs : List Char) : cutAt separator cs ≠ [] := by
  fun_cases cutAt separator cs <;> simp

theorem lines_ne_nil (s : String) : lines s ≠ [] := by
  simp [lines, cutAt_ne_nil]

end ImplicitGlobals.Text
