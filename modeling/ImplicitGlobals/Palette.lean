import ImplicitGlobals.Classification

/-!
# Terminal colours

One colour for each classification and a few for the structure of a report.
Only the sixteen standard codes occur, so the output reads on light and on dark
backgrounds.
-/

namespace ImplicitGlobals

/-- The escape sequences a report is written with; all empty when colours are off. -/
structure Palette where
  bundle : String
  typeOnly : String
  valueOnly : String
  typeAndValue : String
  dim : String
  reset : String
deriving DecidableEq, Repr, Inhabited

namespace Palette

/-- The sequence that selects the graphic rendition `code`. -/
def rendition (code : String) : String := "\x1b[" ++ code ++ "m"

def on : Palette where
  bundle := rendition "34"
  typeOnly := rendition "35"
  valueOnly := rendition "32"
  typeAndValue := rendition "36"
  dim := rendition "2"
  reset := rendition "0"

def off : Palette := ⟨"", "", "", "", "", ""⟩

def ofChoice (colored : Bool) : Palette := if colored then on else off

def isEnabled (p : Palette) : Bool := p.reset != ""

/-- The colour of a classification's tag. -/
def tag (p : Palette) : Classification → String
  | .typeOnly => p.typeOnly
  | .valueOnly => p.valueOnly
  | .typeAndValue => p.typeAndValue

theorem isEnabled_ofChoice (colored : Bool) : (ofChoice colored).isEnabled = colored := by
  cases colored <;> decide

end Palette

end ImplicitGlobals
