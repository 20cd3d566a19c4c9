import ImplicitGlobals.Table

/-!
# Catalogs

A catalog lists the declaration bundles: a name for each and the file it is read
from. It is derived from a table in three steps. Names are made distinct, a repeated
one keeping its first place and its last file; behind each yearly base comes its full
variant; the root bundle is put last.
-/

namespace ImplicitGlobals

/-- A bundle's name and the file it is read from. -/
structure Bundle where
  name : String
  file : String
deriving DecidableEq, Repr, Inhabited

/-- Bundles with distinct names, in order. -/
structure Catalog where
  /-- The file of each bundle. -/
  files : Table String
  distinct : files.keys.Nodup
deriving DecidableEq, Repr

namespace Bundle

/-- The bundle that stands for all the others when no library is chosen. -/
def root : Bundle := ⟨"lib", "lib.d.ts"⟩

def isRoot (b : Bundle) : Bool := b.name == root.name

end Bundle

namespace Catalog

/-- The yearly base without a full variant: its full library has a name of its own. -/
def baseWithoutFull : String := "es2015"

/-- Four ASCII digits. -/
def isYear (cs : List Char) : Bool :=
  cs.length == 4 && cs.all fun c => '0' ≤ c && c ≤ '9'

/-- Whether a bundle is a yearly base: `es` and a year, or `esnext`. -/
def hasFullVariant (name : String) : Bool :=
  name != baseWithoutFull &&
    (name == "esnext" ||
      match name.toList with
      | 'e' :: 's' :: year => isYear year
      | _ => false)

/-- The name and the file of the full variant of a base. -/
def fullVariant (base : String) : String × String :=
  (base ++ ".full", "lib." ++ base ++ ".full.d.ts")

/-- An entry with its full variant, if there is one. -/
def withVariant (entry : String × String) : List (String × String) :=
  entry :: if hasFullVariant entry.1 then [fullVariant entry.1] else []

/-- The entries of the catalog that `pairs` make. -/
def derive (pairs : List (String × String)) : Table String :=
  let expanded := Table.ofPairs ((Table.ofPairs pairs).flatMap withVariant)
  (expanded.erase Bundle.root.name).insert Bundle.root.name Bundle.root.file

theorem nodup_derive (pairs : List (String × String)) : (derive pairs).keys.Nodup :=
  Table.nodup_insert (Table.nodup_erase (Table.nodup_ofPairs _) _) _ _

/-- The catalog derived from a table of names and files. -/
def ofPairs (pairs : List (String × String)) : Catalog :=
  ⟨derive pairs, nodup_derive pairs⟩

def names (c : Catalog) : List String := c.files.keys

def bundles (c : Catalog) : List Bundle := c.files.map fun (name, file) => ⟨name, file⟩

def get? (c : Catalog) (name : String) : Option Bundle :=
  (c.files.get? name).map fun file => ⟨name, file⟩

def contains (c : Catalog) (name : String) : Bool := c.files.contains name

/-- The place of a bundle in the order. -/
def position? (c : Catalog) (name : String) : Option Nat := c.files.position? name

end Catalog

end ImplicitGlobals
