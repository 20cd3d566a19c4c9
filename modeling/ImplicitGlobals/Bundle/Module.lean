import ImplicitGlobals.Catalog.Basic
import ImplicitGlobals.Failure
import ImplicitGlobals.Classification
import ImplicitGlobals.Source.Reference
import ImplicitGlobals.Text.Identifier

/-!
# Bundle modules

What is known of a bundle once its source is read: the bundles it builds on and the
names it adds. References stay symbolic, so bundles may come in any order.
-/

namespace ImplicitGlobals

/-- Identifiers with their classification, in the order they were first added. -/
abbrev BundleTable := Table Classification

structure BundleModule where
  bundle : Bundle
  references : References
  /-- The bundle's own names, without those of its references. -/
  entries : BundleTable
deriving DecidableEq, Repr, Inhabited

namespace BundleModule

def name (m : BundleModule) : String := m.bundle.name

/-- The identifier that the generated module exports. -/
def exportName (m : BundleModule) : String := Text.exportIdentifier m.name

/-- The classifications among the entries, sorted by tag. -/
def usedTags (m : BundleModule) : List Classification :=
  Classification.all.filter fun c => m.entries.values.contains c

/-- The module of a bundle with the given references and names; every reference has
to be in the catalog. A name that comes twice keeps its place and its last
classification. -/
def ofAnalysis (catalog : Catalog) (bundle : Bundle) (references : References)
    (globals : List (String × Classification)) : Except Failure BundleModule :=
  match references.find? fun r => !catalog.contains r with
  | some unknown => .error (.unknownReference bundle.name unknown)
  | none => .ok ⟨bundle, references, Table.ofPairs globals⟩

end BundleModule

end ImplicitGlobals
