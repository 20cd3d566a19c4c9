import ImplicitGlobals.Bundle.Module
import ImplicitGlobals.Generated.Style
import ImplicitGlobals.Text.Quoted

/-!
# The file of a bundle

A generated module exports one table. It spreads the tables of the referenced bundles
and adds the bundle's own names, each with the constant of its classification.
-/

namespace ImplicitGlobals

/-- A key of a table: bare if it is an identifier name, quoted otherwise. -/
def Text.propertyKey (name : String) : String :=
  if isIdentifier name then name else Quoted.quote name

/-- `'./module'`. -/
def Text.sibling (file : String) : String := Quoted.quote ("./" ++ file)

/-- The line that takes `names` from a module next to this one. -/
def Text.importLine (names file : String) : String :=
  "import \x7b " ++ names ++ " \x7d from " ++ sibling file ++ ";"

namespace BundleModule

/-- The name of the generated file. -/
def fileName (m : BundleModule) : String := m.name ++ ".ts"

def tagImport (s : Style) (tags : List Classification) : List String :=
  if tags.isEmpty then []
  else [Text.importLine (", ".intercalate (tags.map (·.tag))) s.baseModule]

def importLines (s : Style) (m : BundleModule) : List String :=
  ("import type \x7b " ++ s.recordType ++ " \x7d from " ++ Text.sibling s.baseModule ++ ";") ::
    tagImport s m.usedTags ++
    m.references.map fun r => Text.importLine (Text.exportIdentifier r) r

/-- The rows of the table: references first, then entries. -/
def rows (m : BundleModule) : List String :=
  (m.references.map fun r => "  ..." ++ Text.exportIdentifier r ++ ",") ++
    m.entries.map fun (name, c) => "  " ++ Text.propertyKey name ++ ": " ++ c.tag ++ ","

/-- What closes the table and gives its type. -/
def closing (s : Style) : String := "\x7d as Record<string, " ++ s.recordType ++ ">;"

def exportLines (s : Style) (m : BundleModule) : List String :=
  let opening := "export const " ++ m.exportName ++ " = \x7b"
  if m.rows.isEmpty then [opening ++ closing s] else opening :: m.rows ++ [closing s]

/-- The text of the generated file. -/
def fileText (s : Style) (m : BundleModule) : String :=
  s.file (m.importLines s ++ "" :: m.exportLines s)

end BundleModule

end ImplicitGlobals
