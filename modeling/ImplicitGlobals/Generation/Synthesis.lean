import ImplicitGlobals.Bundle.Aggregate
import ImplicitGlobals.Source.Unit

/-!
# Synthesis

From sources to modules. Every bundle of the catalog is read, parsed and classified in
catalog order; the first that fails ends the run. The aggregate comes last.
-/

namespace ImplicitGlobals

/-- The text of a bundle file, or why there is none. -/
abbrev Sources := String → Except Failure String

/-- What a bundle's source says. -/
structure Analysis where
  references : References
  /-- The names at the top level. -/
  globals : Table Classification
deriving DecidableEq, Repr, Inhabited

/-- The modules of all bundles and the aggregate over them. -/
structure Synthesis where
  table : ModuleTable
  aggregate : Aggregate
deriving Repr, Inhabited

namespace Sources

/-- Sources held in memory, by file. -/
def ofFiles (files : Table String) : Sources := fun file =>
  match files.get? file with
  | some text => .ok text
  | none => .error (.unreadable file "entity not found")

/-- A syntax error names the file it is in. -/
def nameFile (file : String) : Failure → Failure
  | .malformed f => .malformed (f.inFile file)
  | other => other

/-- Reads and parses a bundle. -/
def unitOf (s : Sources) (options : SourceOptions) (b : Bundle) : Except Failure SourceUnit := do
  let text ← s b.file
  (SourceUnit.read options text).mapError (nameFile b.file)

def analyze (s : Sources) (options : SourceOptions) (b : Bundle) : Except Failure Analysis := do
  let u ← s.unitOf options b
  return ⟨u.references, ← u.globals⟩

/-- The module of a bundle. -/
def moduleOf (s : Sources) (options : SourceOptions) (catalog : Catalog) (b : Bundle) :
    Except Failure BundleModule := do
  let a ← s.analyze options b
  BundleModule.ofAnalysis catalog b a.references a.globals

/-- The modules of some bundles, added to those of a table. -/
def addModules (s : Sources) (options : SourceOptions) (catalog : Catalog) :
    ModuleTable → List Bundle → Except Failure ModuleTable
  | t, [] => .ok t
  | t, b :: rest => do
    let m ← s.moduleOf options catalog b
    addModules s options catalog (t.insert m) rest

def synthesize (s : Sources) (options : SourceOptions) (catalog : Catalog) :
    Except Failure Synthesis := do
  let table ← s.addModules options catalog .empty catalog.bundles
  return ⟨table, ← Aggregate.ofTable catalog table⟩

end Sources

namespace Catalog

/-- The bundle of a name that has to be in the catalog. -/
def require (c : Catalog) (name : String) : Except Failure Bundle :=
  match c.get? name with
  | some b => .ok b
  | none => .error (.unknownBundle name)

end Catalog

end ImplicitGlobals
