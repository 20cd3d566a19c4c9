import ImplicitGlobals.Catalog.Basic
import ImplicitGlobals.Json.Pairs
import ImplicitGlobals.Json.Value

/-!
# Catalogs as text

A catalog is read from a JSON list of pairs and written as a list of records.
-/

namespace ImplicitGlobals.Catalog

/-- The catalog derived from the table that `source` holds. -/
def ofJson (source : String) : Except Json.Fault Catalog :=
  (Json.pairs source).map ofPairs

/-- One record for each bundle. -/
def toJson (c : Catalog) : Json :=
  .list (c.bundles.map fun b => .record [("file", .text b.file), ("name", .text b.name)])

end ImplicitGlobals.Catalog
