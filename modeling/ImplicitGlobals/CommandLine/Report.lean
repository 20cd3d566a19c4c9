import ImplicitGlobals.Catalog.Text
import ImplicitGlobals.Bundle.Module
import ImplicitGlobals.Generation.Run
import ImplicitGlobals.Palette

/-!
# Reports

What the commands print: the catalog, one bundle, and a line on what was generated. A
column is as wide as the most bytes a name in it has, and a name is filled up to that
many characters.
-/

namespace ImplicitGlobals

/-- `s` with blanks up to `width` characters. -/
def Text.padRight (width : Nat) (s : String) : String :=
  s ++ String.ofList (List.replicate (width - s.length) ' ')

/-- The most bytes that a name has. -/
def Text.columnWidth (names : List String) : Nat :=
  (names.map (·.utf8ByteSize)).foldl max 0

namespace Palette

def dimmed (p : Palette) (s : String) : String := p.dim ++ s ++ p.reset

def emphasized (p : Palette) (s : String) : String := p.bundle ++ s ++ p.reset

def tagged (p : Palette) (c : Classification) : String := p.tag c ++ c.tag ++ p.reset

end Palette

namespace Catalog

/-- One line for each bundle. -/
def report (p : Palette) (c : Catalog) : String :=
  let width := Text.columnWidth c.names
  Text.unlines <|
    ("Bundles (" ++ toString c.bundles.length ++ "):") ::
      c.bundles.map fun b =>
        "  " ++ p.emphasized (Text.padRight width b.name) ++ "  " ++ p.dimmed b.file

end Catalog

/-- What is shown of a bundle. -/
structure BundleReport where
  bundle : Bundle
  resolved : Bool
  references : References
  globals : List (String × Classification)
deriving DecidableEq, Repr, Inhabited

namespace BundleReport

def referenceLine (p : Palette) (r : BundleReport) : String :=
  "references: " ++
    if r.references.isEmpty then p.dimmed "none" else ", ".intercalate r.references

def heading (p : Palette) (r : BundleReport) : String :=
  (if r.resolved then "resolved globals" else "globals") ++ " " ++
    p.dimmed ("(" ++ toString r.globals.length ++ ")")

def text (p : Palette) (r : BundleReport) : String :=
  let width := Text.columnWidth (r.globals.map (·.1))
  Text.unlines <|
    [p.emphasized r.bundle.name ++ " " ++ p.dimmed r.bundle.file, r.referenceLine p, r.heading p] ++
    r.globals.map fun (name, c) => "  " ++ Text.padRight width name ++ "  " ++ p.tagged c

def toJson (r : BundleReport) : Json :=
  .record
    [("name", .text r.bundle.name), ("file", .text r.bundle.file), ("resolved", .boolean r.resolved),
      ("references", .list (r.references.map .text)),
      ("globals", .list (r.globals.map fun (name, c) =>
        .record [("name", .text name), ("classification", .text c.tag)]))]

end BundleReport

namespace GenerationReport

/-- What a run wrote, on one line without its end. -/
def text (p : Palette) (directory : String) (r : GenerationReport) : String :=
  "wrote " ++ toString r.files.length ++ " files for " ++ toString r.bundles ++ " bundles (" ++
    toString r.identifiers ++ " identifiers) " ++ p.dimmed ("to " ++ directory)

end GenerationReport

end ImplicitGlobals
