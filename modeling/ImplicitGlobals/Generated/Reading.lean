import ImplicitGlobals.Generated.BundleFile
import ImplicitGlobals.Text.Lines

/-!
# Reading generated files

The file of a bundle, read back from its text: the names it takes from other files, the name
it exports and the rows of its table. A spread row stands for all pairs of the table that
another file exports, an entry for a key and one of the shared constants. `Exports` says
which table a file exports when those it takes from are read in the same way.
-/

namespace ImplicitGlobals

/-- What comes after `start`, where the text begins with it. -/
def Text.after? (start : String) (cs : List Char) : Option (List Char) :=
  if start.toList.isPrefixOf cs then some (cs.drop start.toList.length) else none

/-- Reads the inside of a literal up to the quote that closes it: what it stands for, and what
is behind it. -/
def Text.Quoted.scan : List Char → Option (List Char × List Char)
  | [] => none
  | '\'' :: rest => some ([], rest)
  | '\\' :: c :: rest => (scan rest).map fun r => (unescape c :: r.1, r.2)
  | c :: rest => if c = '\\' then none else (scan rest).map fun r => (c :: r.1, r.2)

/-- Reads a literal. -/
def Text.Quoted.read? : List Char → Option (List Char × List Char)
  | '\'' :: rest => scan rest
  | _ => none

/-- `import \x7b names \x7d from './file';` -/
structure Import where
  names : List String
  file : String
deriving DecidableEq, Repr, Inhabited

/-- A row of a table. -/
inductive Row where
  /-- All pairs of the table that is bound to the name. -/
  | spread (name : String)
  /-- The key, with the constant that is bound to the tag. -/
  | entry (key tag : String)
deriving DecidableEq, Repr, Inhabited

/-- A generated file, read. -/
structure GeneratedFile where
  imports : List Import
  exportName : String
  rows : List Row
deriving DecidableEq, Repr, Inhabited

open Text

/-- Lines that say nothing of names: empty ones, comments, and imports of types. -/
def isSilentLine (line : List Char) : Bool :=
  line.isEmpty || (after? "//" line).isSome || (after? "import type " line).isSome

namespace Import

/-- The names between the braces of an import. -/
def namesOf (cs : List Char) : List String :=
  (cutAt ',' cs).map fun name => String.ofList (name.filter (· != ' '))

/-- The file that the end of an import names. -/
def fileOf? (cs : List Char) : Option String := do
  let (path, rest) ← Quoted.read? cs
  if rest = [';'] then (after? "./" path).map String.ofList else none

def ofLine? (line : List Char) : Option Import := do
  let rest ← after? "import \x7b " line
  let source ← after? "\x7d from " (rest.dropWhile (· != '\x7d'))
  return ⟨namesOf (rest.takeWhile (· != '\x7d')), ← fileOf? source⟩

end Import

namespace Row

/-- What stands before the comma at the end of a row. -/
def last? (cs : List Char) : Option String :=
  if cs.dropWhile (· != ',') = [','] then some (String.ofList (cs.takeWhile (· != ','))) else none

/-- A key and what is behind it: a literal, or an identifier. -/
def key? (cs : List Char) : Option (List Char × List Char) :=
  if cs.head? = some '\'' then Quoted.read? cs
  else some (cs.takeWhile isIdentifierPart, cs.dropWhile isIdentifierPart)

def ofLine? (line : List Char) : Option Row := do
  let row ← after? "  " line
  match after? "..." row with
  | some name => return .spread (← last? name)
  | none =>
    let (key, rest) ← key? row
    return .entry (String.ofList key) (← last? (← after? ": " rest))

end Row

namespace GeneratedFile

/-- The table that begins on the line of the export and goes on over the other lines. -/
def ofTable? (declaration : List Char) (more : List (List Char)) : Option GeneratedFile := do
  let name := String.ofList (declaration.takeWhile (· != ' '))
  let opened ← after? " = \x7b" (declaration.dropWhile (· != ' '))
  if opened.isEmpty then
    let inside (line : List Char) : Bool := (after? "  " line).isSome
    let rows ← (more.takeWhile inside).mapM Row.ofLine?
    let closing ← (more.dropWhile inside).head?
    let _ ← after? "\x7d as " closing
    return ⟨[], name, rows⟩
  else
    let _ ← after? "\x7d as " opened
    return ⟨[], name, []⟩

def ofLines? : List (List Char) → Option GeneratedFile
  | [] => none
  | line :: more =>
    if isSilentLine line then ofLines? more
    else
      match after? "export const " line with
      | some declaration => ofTable? declaration more
      | none => do
        let first ← Import.ofLine? line
        let file ← ofLines? more
        return { file with imports := first :: file.imports }

def ofText? (text : String) : Option GeneratedFile := ofLines? (cutAt '\n' text.toList)

/-- The file that a name is taken from. -/
def source? (f : GeneratedFile) (name : String) : Option String :=
  (f.imports.find? (·.names.contains name)).map (·.file)

/-- The names that are taken from the module of the shared constants. -/
def constants (f : GeneratedFile) (base : String) : List String :=
  (f.imports.filter (·.file == base)).flatMap (·.names)

/-- Writes a row into a table. `tables` are the tables that the other files export. -/
def write (f : GeneratedFile) (base : String) (tables : String → BundleTable) (table : BundleTable) :
    Row → Option BundleTable
  | .spread name => do
    let source ← f.source? name
    if source = base then none else some (table.merge (tables source))
  | .entry key tag => do
    let source ← f.source? tag
    if source = base then (Classification.ofTag? tag).map (table.insert key) else none

/-- What the rows make, one after the other. -/
def evaluate (f : GeneratedFile) (base : String) (tables : String → BundleTable) : Option BundleTable :=
  f.rows.foldlM (f.write base tables) []

/-- The table that a file exports under a name, read from the text of this file and of those
that it takes from. The constants come from `base`. -/
inductive Exports (base : String) (files : String → Option String) :
    String → String → BundleTable → Prop where
  | file {name text : String} {f : GeneratedFile} {table : BundleTable}
      (tables : String → BundleTable) (found : files name = some text) (read : ofText? text = some f)
      (imports : ∀ i ∈ f.imports, i.file ≠ base → ∀ x ∈ i.names, Exports base files i.file x (tables i.file))
      (value : f.evaluate base tables = some table) : Exports base files name f.exportName table

end GeneratedFile

end ImplicitGlobals
