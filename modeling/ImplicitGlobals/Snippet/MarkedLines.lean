import ImplicitGlobals.Snippet.MarkedLine

/-!
# The marked lines of a source

Marked lines are drawn one below the other. A single line between two of them is
shown as well; more are left out, with dots in their place. The bars of ranges
that have started and not yet ended run down the left.
-/

namespace ImplicitGlobals.Snippet

/-- A bar with its depth. -/
abbrev Bar := Nat × Ink

/-- The bars still open after `turns`, at each of which one ends or starts, and the
bars that start. -/
def turnBars (active turns : List Bar) : List Bar × List Bar :=
  turns.foldl (fun (active, started) turn =>
    if active.any (·.1 = turn.1) then (active.filter (·.1 ≠ turn.1), started)
    else (active, started ++ [turn])) (active, [])

/-- `bars` down the rows of a drawing. -/
def withBars (l : Layout) (bars : List Bar) (d : Drawing) : Drawing :=
  d ++ bars.flatMap fun (depth, ink) => barDown (List.range d.height) (l.bar depth) ink

/-- The bars that start on a line. -/
def openingBars (m : MarkedLine) : List Bar :=
  m.marks.filterMap fun mark =>
    if mark.isOpening then mark.turn?.map fun depth => (depth, mark.ink) else none

/-- What stands between a marked line and the next one. -/
def between (l : Layout) (s : SourceLines) (m next : MarkedLine) : Drawing :=
  let distance := next.line.number - m.line.number
  if distance > 2 then [.write 0 0 dots .frame]
  else if distance = 2 then
    let text := ((s.numbered? (m.line.number + 1)).map (·.text)).getD []
    codeRow l (m.line.number + 1) (l.window.view (text.flatMap Text.shownChar))
  else []

/-- The drawings of the lines and of what stands between them, from top to bottom. -/
def drawingsOf (l : Layout) (s : SourceLines) (active : List Bar) : List MarkedLine → List Drawing
  | [] => []
  | m :: rest =>
    let (drawing, turns) := drawLine l m
    let (remaining, started) := turnBars active turns
    let gap := match rest.head? with
      | some next => withBars l (remaining ++ openingBars m) (between l s m next)
      | none => []
    withBars l remaining drawing :: gap :: drawingsOf l s (remaining ++ started) rest

/-- The drawings one below the other. -/
def stack (ds : List Drawing) : Drawing := ds.foldl Drawing.above []

end ImplicitGlobals.Snippet
