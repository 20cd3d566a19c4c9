import ImplicitGlobals.Bundle.Aggregate
import ImplicitGlobals.Generated.BundleFile

/-!
# The files of a run

Besides the files of the bundles there are three: the shared constants, the index of
all bundles and the union of their names.
-/

namespace ImplicitGlobals

namespace Style

def boolText (b : Bool) : String := if b then "true" else "false"

/-- The constant of a classification. -/
def constantLines (s : Style) (c : Classification) : List String :=
  ["", "export const " ++ c.tag ++ ": " ++ s.recordType ++ " = Object.freeze(\x7b",
    "  implicitGlobalScopeVisibility: 'readonly',",
    "  isTypeVariable: " ++ boolText c.isType ++ ",",
    "  isValueVariable: " ++ boolText c.isValue ++ ",",
    "\x7d);"]

/-- The text of the file with the shared constants. -/
def baseText (s : Style) : String :=
  s.file <|
    ["export interface " ++ s.recordType ++ " \x7b",
      "  readonly implicitGlobalScopeVisibility: 'readonly';",
      "  readonly isTypeVariable: boolean;",
      "  readonly isValueVariable: boolean;",
      "\x7d"] ++
    Classification.all.flatMap s.constantLines

end Style

namespace AggregateEntry

def importLine (e : AggregateEntry) : String :=
  Text.importLine (if e.isAliased then e.exportName ++ " as " ++ e.binding else e.binding) e.bundle

/-- The row of a bundle; a binding that equals the bundle's name stands alone. -/
def row (e : AggregateEntry) : String :=
  if e.bundle = e.binding then "  " ++ e.binding ++ ","
  else "  " ++ Text.propertyKey e.bundle ++ ": " ++ e.binding ++ ","

end AggregateEntry

namespace Aggregate

def indexFile : String := "index.ts"

/-- Where the union of names goes unless it is put elsewhere. -/
def defaultTypesFile : String := "lib.types.ts"

/-- The text of the index. -/
def indexText (s : Style) (a : Aggregate) : String :=
  s.file <|
    a.entries.map (·.importLine) ++ ["", "const lib = \x7b"] ++ a.entries.map (·.row) ++
    ["\x7d as const;", "", "export \x7b lib \x7d;"]

/-- The widest line that a union may take, in bytes. -/
def unionWidth : Nat := 80

/-- One member a line, the last with a semicolon. -/
def memberLines : List String → List String
  | [] => []
  | [last] => ["  | " ++ last ++ ";"]
  | m :: rest => ("  | " ++ m) :: memberLines rest

/-- The union of some members: on one line if it fits, else one member a line. -/
def unionLines (members : List String) : List String :=
  if members.isEmpty then ["type Lib = never;"]
  else
    let line := "type Lib = " ++ " | ".intercalate members ++ ";"
    if line.utf8ByteSize ≤ unionWidth then [line] else "type Lib =" :: memberLines members

/-- The text of the file with the union of bundle names. -/
def typesText (s : Style) (a : Aggregate) : String :=
  s.file (unionLines (a.names.map Text.Quoted.quote) ++ ["", "export \x7b Lib \x7d;"])

end Aggregate

end ImplicitGlobals
