import ImplicitGlobals.Proofs.Generated.ReadBack
import Mathlib.Data.List.Nodup

/-!
# What generated files export

Reading the files of a table so that a spread row inserts what another file exports gives each
bundle the table that resolving it gives: the rows merge what the references export, and then
the entries. The constants that a file takes are those of its entries.
-/

namespace ImplicitGlobals

open Text

/-- What the bundles of a table have to meet so that their files can take names from one
another. -/
structure ModuleTable.Emittable (t : ModuleTable) : Prop where
  plain : ∀ m ∈ t.modules, IsPlain m.name
  distinctExports : (t.modules.map (·.exportName)).Nodup
  untagged : ∀ m ∈ t.modules, ∀ c : Classification, m.exportName ≠ c.tag
  known : ∀ m ∈ t.modules, ∀ r ∈ m.references, t.contains r = true
  acyclic : ∀ b, ¬ Relation.TransGen t.Refers b b

/-- The files of a table, by bundle. -/
def ModuleTable.files (t : ModuleTable) (s : Style) (name : String) : Option String :=
  (t.get? name).map (·.fileText s)

namespace GeneratedFile

variable {f : GeneratedFile}

/-- A name comes from the file of its import, where every import of the name agrees on it. -/
theorem source?_eq {x : String} {i : Import} (mem : i ∈ f.imports) (named : x ∈ i.names)
    (only : ∀ j ∈ f.imports, x ∈ j.names → j.file = i.file) : f.source? x = some i.file := by
  obtain ⟨j, found⟩ : ∃ j, f.imports.find? (·.names.contains x) = some j := by
    rw [← Option.isSome_iff_exists, List.find?_isSome]
    exact ⟨i, mem, by simpa using named⟩
  have named' : x ∈ j.names := by simpa using List.find?_some found
  rw [source?, found, Option.map_some, only j (List.mem_of_find?_eq_some found) named']

theorem mem_constants {base x : String} :
    x ∈ f.constants base ↔ ∃ i ∈ f.imports, i.file = base ∧ x ∈ i.names := by
  simp [constants, and_assoc]

/-- Rows that can be written one by one are written one after the other. -/
theorem foldlM_write {α : Type} {base : String} {tables : String → BundleTable} {l : List α}
    {row : α → Row}
    {next : BundleTable → α → BundleTable}
    (written : ∀ a ∈ l, ∀ table, f.write base tables table (row a) = some (next table a))
    (table : BundleTable) :
    (l.map row).foldlM (f.write base tables) table = some (l.foldl next table) := by
  induction l generalizing table with
  | nil => rfl
  | cons a rest ih =>
    rw [List.map_cons, List.foldlM_cons, written a List.mem_cons_self, Option.bind_eq_bind,
      Option.bind_some, ih fun b mem => written b (List.mem_cons_of_mem _ mem)]
    rfl

end GeneratedFile

namespace BundleModule

variable {m : BundleModule} {base : String}

/-- The references of a bundle are bound to different names, none of which is that of a constant
or is taken from the module of the constants. -/
structure Linked (base : String) (m : BundleModule) : Prop where
  injective : ∀ r ∈ m.references, ∀ r' ∈ m.references,
      exportIdentifier r = exportIdentifier r' → r = r'
  untagged : ∀ r ∈ m.references, ∀ c : Classification, exportIdentifier r ≠ c.tag
  siblings : ∀ r ∈ m.references, r ≠ base

theorem mem_usedTags {c : Classification} : c ∈ m.usedTags ↔ ∃ e ∈ m.entries, e.2 = c := by
  simp [usedTags, Classification.mem_all, Table.values]

/-- What a generated module imports: the tags from the base, and each reference. -/
theorem mem_imports {i : Import} :
    i ∈ (m.generated base).imports ↔
      (m.usedTags ≠ [] ∧ i = ⟨m.usedTags.map (·.tag), base⟩) ∨
        ∃ r ∈ m.references, i = ⟨[exportIdentifier r], r⟩ := by
  unfold generated
  cases used : m.usedTags <;> simp [eq_comm]

namespace Linked

/-- A reference is imported from its own module. -/
theorem source?_reference (h : m.Linked base) {r : String} (mem : r ∈ m.references) :
    (m.generated base).source? (exportIdentifier r) = some r := by
  refine GeneratedFile.source?_eq (mem_imports.2 (.inr ⟨r, mem, rfl⟩)) (List.mem_singleton.2 rfl) ?_
  intro j inside named
  rcases mem_imports.1 inside with ⟨-, rfl⟩ | ⟨r', mem', rfl⟩
  · obtain ⟨c, -, same⟩ := List.mem_map.1 named
    exact absurd same.symm (h.untagged r mem c)
  · exact (h.injective r mem r' mem' (List.mem_singleton.1 named)).symm

/-- A tag is imported from the base. -/
theorem source?_tag (h : m.Linked base) {c : Classification} (mem : c ∈ m.usedTags) :
    (m.generated base).source? c.tag = some base := by
  have used : m.usedTags ≠ [] := List.ne_nil_of_mem mem
  refine GeneratedFile.source?_eq (mem_imports.2 (.inl ⟨used, rfl⟩)) (List.mem_map_of_mem mem) ?_
  intro j inside named
  rcases mem_imports.1 inside with ⟨-, rfl⟩ | ⟨r, mem, rfl⟩
  · rfl
  · exact absurd (List.mem_singleton.1 named).symm (h.untagged r mem c)

/-- The constants that a file takes are those of its entries. -/
theorem mem_constants (h : m.Linked base) (x : String) :
    x ∈ (m.generated base).constants base ↔ ∃ e ∈ m.entries, e.2.tag = x := by
  rw [GeneratedFile.mem_constants]
  constructor
  · rintro ⟨i, inside, file, named⟩
    rcases mem_imports.1 inside with ⟨-, rfl⟩ | ⟨r, mem, rfl⟩
    · obtain ⟨c, used, rfl⟩ := List.mem_map.1 named
      obtain ⟨e, mem, rfl⟩ := mem_usedTags.1 used
      exact ⟨e, mem, rfl⟩
    · exact absurd file (h.siblings r mem)
  · rintro ⟨e, mem, rfl⟩
    have used : e.2 ∈ m.usedTags := mem_usedTags.2 ⟨e, mem, rfl⟩
    exact ⟨_, mem_imports.2 (.inl ⟨List.ne_nil_of_mem used, rfl⟩), rfl, List.mem_map_of_mem used⟩

/-- The rows of a file merge the tables of the references and then the entries. -/
theorem evaluate (h : m.Linked base) (tables : String → BundleTable) :
    (m.generated base).evaluate base tables =
      some (Table.merge ((m.references.map tables).foldl Table.merge []) m.entries) := by
  have spreads (table : BundleTable) :
      (m.references.map fun r => Row.spread (exportIdentifier r)).foldlM
          ((m.generated base).write base tables) table =
        some (m.references.foldl (fun table r => Table.merge table (tables r)) table) :=
    GeneratedFile.foldlM_write
      (fun r mem table => by simp [GeneratedFile.write, h.source?_reference mem, h.siblings r mem])
          table
  have entries (table : BundleTable) :
      (m.entries.map fun e => Row.entry e.1 e.2.tag).foldlM
          ((m.generated base).write base tables) table =
        some (Table.merge table m.entries) := by
    refine GeneratedFile.foldlM_write (fun e mem table => ?_) table
    have source := h.source?_tag (mem_usedTags.2 ⟨e, mem, rfl⟩)
    simp [GeneratedFile.write, source, Classification.ofTag?_tag]
  have rows : (m.generated base).rows =
      (m.references.map fun r => Row.spread (exportIdentifier r)) ++ m.entries.map fun e =>
          Row.entry e.1 e.2.tag := rfl
  rw [GeneratedFile.evaluate, rows, List.foldlM_append, spreads, Option.bind_eq_bind,
    Option.bind_some, entries, List.foldl_map]

end Linked

end BundleModule

namespace ModuleTable

variable {t : ModuleTable} {m : BundleModule} {name : String}

theorem mem_of_get? (found : t.get? name = some m) : m ∈ t.modules :=
  List.mem_of_find?_eq_some found

theorem get?_of_mem (mem : m ∈ t.modules) : t.get? m.name = some m := by
  obtain ⟨m', found⟩ := (contains_iff t m.name).1 (List.any_eq_true.2 ⟨m, mem, beq_self_eq_true _⟩)
  rw [found, List.inj_on_of_nodup_map t.distinct (mem_of_get? found) mem (name_of_get? found)]

namespace Emittable

/-- The module of a reference. -/
theorem get?_reference (h : t.Emittable) (mem : m ∈ t.modules) {r : String}
    (references : r ∈ m.references) :
    ∃ m', t.get? r = some m' ∧ m'.name = r :=
  have ⟨m', found⟩ := (contains_iff t r).1 (h.known m mem r references)
  ⟨m', found, name_of_get? found⟩

theorem plain_reference (h : t.Emittable) (mem : m ∈ t.modules) :
    ∀ r ∈ m.references, IsPlain r := by
  intro r references
  obtain ⟨m', found, rfl⟩ := h.get?_reference mem references
  exact h.plain m' (mem_of_get? found)

/-- Modules of a table that can be emitted are linked. -/
theorem linked (h : t.Emittable) (mem : m ∈ t.modules) : m.Linked "base-config" where
  injective r inside r' inside' same := by
    obtain ⟨x, found, rfl⟩ := h.get?_reference mem inside
    obtain ⟨y, found', rfl⟩ := h.get?_reference mem inside'
    rw [List.inj_on_of_nodup_map h.distinctExports (mem_of_get? found) (mem_of_get? found') same]
  untagged r inside := by
    obtain ⟨x, found, rfl⟩ := h.get?_reference mem inside
    exact h.untagged x (mem_of_get? found)
  siblings r inside := by
    rintro rfl
    exact absurd (h.plain_reference mem _ inside '-' (by decide)) (by decide)

/-- Every bundle resolves. -/
theorem exists_resolves (h : t.Emittable) (mem : m ∈ t.modules) :
    ∃ table, t.Resolves m.name table := by
  refine ModuleTable.exists_resolves (fun b reaches => ?_) fun b _ => h.acyclic b
  induction reaches with
  | refl => exact (contains_iff t _).2 ⟨m, get?_of_mem mem⟩
  | tail _ refers =>
    obtain ⟨m', found, inside⟩ := refers
    exact h.known m' (mem_of_get? found) _ inside

/-- Every file of such a table is read back. -/
theorem ofText?_files (h : t.Emittable) (mem : m ∈ t.modules) (banner : Bool) :
    GeneratedFile.ofText? (m.fileText { banner := banner }) = some (m.generated "base-config") :=
  m.ofText?_fileText banner (h.plain m mem) (h.plain_reference mem)

/-- What a file exports is what its bundle resolves to. -/
theorem resolves_of_exports (h : t.Emittable) (banner : Bool) {x : String} {table : BundleTable}
    (exported : GeneratedFile.Exports "base-config" (t.files { banner := banner }) name x table) :
    t.Resolves name table := by
  induction exported with
  | @file name text f table tables found read _ value ih =>
    obtain ⟨m, get, rfl⟩ := Option.map_eq_some_iff.1 found
    have mem := mem_of_get? get
    obtain rfl : m.generated "base-config" = f :=
      Option.some.inj ((h.ofText?_files mem banner).symm.trans read)
    have linked := h.linked mem
    obtain rfl := Option.some.inj ((linked.evaluate tables).symm.trans value)
    refine .module tables get fun r inside => ?_
    exact ih _ (BundleModule.mem_imports.2 (.inr ⟨r, inside, rfl⟩)) (linked.siblings r inside) _
      (List.mem_singleton.2 rfl)

/-- What the files export follows from what the table resolves to. -/
theorem exports_of_resolves (h : t.Emittable) (banner : Bool) {table : BundleTable}
    (resolves : t.Resolves name table) :
    ∀ m, t.get? name = some m →
      GeneratedFile.Exports "base-config" (t.files { banner := banner }) name
          m.exportName table := by
  induction resolves with
  | @module name m tables found _ ih =>
    intro m' found'
    obtain rfl : m = m' := Option.some.inj (found.symm.trans found')
    have mem := mem_of_get? found
    have file : t.files { banner := banner } name = some (m.fileText { banner := banner }) := by
      rw [files, found, Option.map_some]
    refine .file tables file (h.ofText?_files mem banner) ?_ ((h.linked mem).evaluate tables)
    intro i inside other x named
    rcases BundleModule.mem_imports.1 inside with ⟨-, rfl⟩ | ⟨r, references, rfl⟩
    · exact absurd rfl other
    · obtain ⟨m', found', same⟩ := h.get?_reference mem references
      obtain rfl : x = m'.exportName := by
        rw [List.mem_singleton.1 named, BundleModule.exportName, same]
      exact ih r references m' found'

end Emittable

/-- Generated files mean what resolving computes. Where names are plain, exports are distinct
and no constants, and references are known and make no ring, every bundle resolves; its file
exports exactly the table that it resolves to, and takes exactly the constants of its entries. -/
theorem exports_iff_resolve (t : ModuleTable) (h : t.Emittable) (banner : Bool) :
    ∀ m ∈ t.modules, ∃ table f,
      t.resolve m.name = .ok table ∧
      (∀ value, GeneratedFile.Exports "base-config" (t.files { banner := banner }) m.name
          m.exportName value ↔
        value = table) ∧
      GeneratedFile.ofText? (m.fileText { banner := banner }) = some f ∧
      ∀ x, x ∈ f.constants "base-config" ↔ ∃ e ∈ m.entries, e.2.tag = x := by
  intro m mem
  obtain ⟨table, resolves⟩ := h.exists_resolves mem
  refine ⟨table, m.generated "base-config", resolve_eq_ok_iff.2 resolves, fun value => ?_,
    h.ofText?_files mem banner, (h.linked mem).mem_constants⟩
  constructor
  · exact fun exported => (h.resolves_of_exports banner exported).unique resolves
  · rintro rfl
    exact h.exports_of_resolves banner resolves m (get?_of_mem mem)

/-- A ring would keep the bundles on it from resolving. -/
theorem acyclic_of_resolve (all : ∀ name ∈ t.names, (t.resolve name).isOk = true) (b : String) :
    ¬ Relation.TransGen t.Refers b b := by
  intro cycle
  obtain ⟨r, refers, -⟩ := Relation.TransGen.head'_iff.1 cycle
  have ok := all b (mem_names_of_refers refers)
  cases run : t.resolve b with
  | error e => simp [run, Except.isOk, Except.toBool] at ok
  | ok table => exact (resolve_eq_ok_iff.1 run).not_cyclic cycle

/-- Two bundles of which one overrides a name of the other, and adds one that has to be quoted. -/
def overriding : ModuleTable where
  modules := [
    ⟨⟨"es5", "lib.es5.d.ts"⟩, [], [("Array", .typeAndValue), ("eval", .valueOnly)]⟩,
    ⟨⟨"es2015.core", "lib.es2015.core.d.ts"⟩, ["es5"],
        [("it's", .valueOnly), ("Array", .typeOnly)]⟩]
  distinct := by decide

theorem emittable_overriding : overriding.Emittable where
  plain := by decide
  distinctExports := by decide
  untagged m mem c := by cases c <;> (revert m; decide)
  known := by decide
  acyclic := acyclic_of_resolve (by decide +kernel)

theorem exports_overriding : overriding.Emittable ∧ ∃ m ∈ overriding.modules, ∃ f,
    (∀ value, GeneratedFile.Exports "base-config" (overriding.files { banner := true }) m.name
        m.exportName value ↔
      value = [("Array", .typeOnly), ("eval", .valueOnly), ("it's", .valueOnly)]) ∧
    GeneratedFile.ofText? (m.fileText { banner := true }) = some f ∧
    ∀ x, x ∈ f.constants "base-config" ↔ ∃ e ∈ m.entries, e.2.tag = x := by
  refine ⟨emittable_overriding, overriding.modules[1], List.getElem_mem _, ?_⟩
  obtain ⟨table, f, run, exported, read, constants⟩ :=
    exports_iff_resolve overriding emittable_overriding true overriding.modules[1]
        (List.getElem_mem _)
  have known : overriding.resolve overriding.modules[1].name =
      .ok [("Array", .typeOnly), ("eval", .valueOnly), ("it's", .valueOnly)] := by decide +kernel
  obtain rfl := Except.ok.inj (known.symm.trans run)
  exact ⟨f, exported, read, constants⟩

end ModuleTable

end ImplicitGlobals
