import ImplicitGlobals.Bundle.Table

/-!
# Aggregates

All bundles of a catalog side by side, each under the name that one module binds it
to. The root bundle is bound to another name than it exports, for that name is taken
by the aggregate itself.
-/

namespace ImplicitGlobals

structure AggregateEntry where
  bundle : String
  /-- What the bundle's module exports. -/
  exportName : String
  /-- What the aggregate binds it to. -/
  binding : String
deriving DecidableEq, Repr, Inhabited

/-- The bundles of a catalog in its order. -/
structure Aggregate where
  entries : List AggregateEntry
deriving DecidableEq, Repr, Inhabited

namespace AggregateEntry

/-- What the root bundle is bound to. -/
def rootBinding : String := "libBase"

def isAliased (e : AggregateEntry) : Bool := e.binding != e.exportName

def ofModule (m : BundleModule) : AggregateEntry where
  bundle := m.name
  exportName := m.exportName
  binding := if m.bundle.isRoot then rootBinding else m.exportName

end AggregateEntry

namespace Aggregate

def names (a : Aggregate) : List String := a.entries.map (·.bundle)

/-- How the table departs from the catalog. A bundle without a module is named before
a module without a bundle. -/
def mismatch? (catalog : Catalog) (table : ModuleTable) : Option Mismatch :=
  match catalog.names.find? fun name => !table.contains name with
  | some missing => some (.missing missing)
  | none => (table.names.find? fun name => !catalog.contains name).map .extra

/-- The aggregate of a table that holds exactly the bundles of the catalog. -/
def ofTable (catalog : Catalog) (table : ModuleTable) : Except Failure Aggregate :=
  match mismatch? catalog table with
  | some m => .error (.mismatch m)
  | none => .ok ⟨(catalog.names.filterMap table.get?).map .ofModule⟩

end Aggregate

end ImplicitGlobals
