import ImplicitGlobals.Proofs.Bundle.Synthesis
import Mathlib.Data.List.Nodup

/-!
# The bindings of an aggregate

The bundles of a catalog have distinct names, but the identifiers they are bound to are made from
the names: dots become underscores, and the root has an identifier of its own. Two bundles are
bound to one identifier exactly if their names differ in dots and underscores alone, or one is
the root and the other is called like its binding.
-/

namespace ImplicitGlobals

namespace Text

/-- Only what is free of dots becomes a text that is free of underscores. -/
theorem exportIdentifier_eq_iff {name word : String} (plain : '_' ∉ word.toList)
    (undotted : '.' ∉ word.toList) : exportIdentifier name = word ↔ name = word := by
  constructor
  · intro same
    have toList : name.toList.map (fun c => if c = '.' then '_' else c) = word.toList := by
      rw [← toList_exportIdentifier, same]
    have kept : name.toList.map (fun c => if c = '.' then '_' else c) = name.toList := by
      refine List.map_congr_left (g := id) (fun c mem => if_neg fun dot => plain ?_) |>.trans
        (List.map_id _)
      rw [← toList]
      exact List.mem_map.2 ⟨c, mem, by rw [if_pos dot]⟩
    exact String.toList_inj.1 (kept.symm.trans toList)
  · rintro rfl
    refine String.toList_inj.1 ?_
    rw [toList_exportIdentifier]
    refine (List.map_congr_left (g := id) fun c mem => if_neg fun dot => ?_).trans (List.map_id _)
    exact undotted (dot ▸ mem)

end Text

open Text

namespace AggregateEntry

/-- The entry of a bundle, which depends on its name alone. -/
def named (name : String) : AggregateEntry where
  bundle := name
  exportName := exportIdentifier name
  binding := if name = Bundle.root.name then rootBinding else exportIdentifier name

theorem ofModule_eq (m : BundleModule) : ofModule m = named m.name := by
  by_cases root : m.bundle.name = Bundle.root.name <;>
    simp [ofModule, named, BundleModule.exportName, BundleModule.name, Bundle.isRoot, root]

end AggregateEntry

namespace Aggregate

variable {catalog : Catalog} {table : ModuleTable} {a : Aggregate}

/-- The identifiers that the bundles are bound to, in order. -/
def bindings (a : Aggregate) : List String := a.entries.map (·.binding)

/-- An aggregate has an entry for every name of the catalog, in its order. -/
theorem entries_of_ofTable (h : ofTable catalog table = .ok a) :
    a.entries = catalog.names.map .named := by
  unfold ofTable at h
  split at h
  · cases h
  next fits =>
  cases h
  have listed : ∀ name ∈ catalog.names, (table.get? name).map AggregateEntry.ofModule =
      some (.named name) := by
    intro name mem
    have contained : table.contains name = true := by
      unfold mismatch? at fits
      split at fits
      · cases fits
      · next none => simpa using List.find?_eq_none.1 none name mem
    obtain ⟨m, found, rfl⟩ :=
      ModuleTable.exists_get? (ModuleTable.contains_iff_mem_names.1 contained)
    rw [found, Option.map_some, AggregateEntry.ofModule_eq]
  calc
    (catalog.names.filterMap table.get?).map AggregateEntry.ofModule
      = catalog.names.filterMap fun name => (table.get? name).map .ofModule :=
        List.map_filterMap ..
    _ = catalog.names.filterMap fun name => some (.named name) := List.filterMap_congr listed
    _ = catalog.names.map .named := congrFun List.filterMap_eq_map _

theorem bindings_of_ofTable (h : ofTable catalog table = .ok a) :
    a.bindings = catalog.names.map fun name => (AggregateEntry.named name).binding := by
  rw [bindings, entries_of_ofTable h, List.map_map]
  rfl

theorem exportIdentifier_eq_lib {name : String} : exportIdentifier name = "lib" ↔ name = "lib" :=
  exportIdentifier_eq_iff (by decide) (by decide)

theorem exportIdentifier_eq_libBase {name : String} :
    exportIdentifier name = "libBase" ↔ name = "libBase" :=
  exportIdentifier_eq_iff (by decide) (by decide)

/-- Two names are bound alike if they export alike, or one is the root and the other is called
like its binding. -/
theorem binding_eq_iff {name other : String} :
    (AggregateEntry.named name).binding = (AggregateEntry.named other).binding ↔
      exportIdentifier name = exportIdentifier other ∨
      name = "lib" ∧ other = "libBase" ∨ name = "libBase" ∧ other = "lib" := by
  show (if name = "lib" then "libBase" else exportIdentifier name) =
    (if other = "lib" then "libBase" else exportIdentifier other) ↔ _
  by_cases first : name = "lib" <;> by_cases second : other = "lib"
  · simp [first, second]
  · have self : exportIdentifier "lib" = "lib" := exportIdentifier_eq_lib.2 rfl
    rw [if_pos first, if_neg second, first, self, eq_comm, exportIdentifier_eq_libBase,
      eq_comm (a := "lib"), exportIdentifier_eq_lib]
    simp [second]
  · have self : exportIdentifier "lib" = "lib" := exportIdentifier_eq_lib.2 rfl
    rw [if_neg first, if_pos second, second, self, exportIdentifier_eq_libBase,
      exportIdentifier_eq_lib]
    simp [first]
  · simp [first, second]

theorem binding_ne_lib (name : String) : (AggregateEntry.named name).binding ≠ "lib" := by
  show (if name = "lib" then "libBase" else exportIdentifier name) ≠ "lib"
  split
  · decide
  · exact fun same => absurd (exportIdentifier_eq_lib.1 same) ‹_›

/-- Among distinct names the bindings are distinct exactly if the exports are, and the root does not
meet a bundle that is called like its binding. -/
theorem nodup_binding_iff {names : List String} (distinct : names.Nodup) :
    (names.map fun name => (AggregateEntry.named name).binding).Nodup ↔
      (names.map exportIdentifier).Nodup ∧ ¬("lib" ∈ names ∧ "libBase" ∈ names) := by
  rw [List.nodup_map_iff_inj_on distinct, List.nodup_map_iff_inj_on distinct]
  simp only [binding_eq_iff]
  constructor
  · refine fun apart => ⟨fun x memX y memY same => apart x memX y memY (.inl same), ?_⟩
    rintro ⟨root, base⟩
    exact absurd (apart _ root _ base (.inr (.inl ⟨rfl, rfl⟩))) (by decide)
  · rintro ⟨apart, unmet⟩ x memX y memY (same | ⟨rfl, rfl⟩ | ⟨rfl, rfl⟩)
    · exact apart x memX y memY same
    · exact absurd ⟨memX, memY⟩ unmet
    · exact absurd ⟨memY, memX⟩ unmet

/-- Nothing is bound to the name that the aggregate exports. The bindings are distinct exactly if
the bundles export distinct identifiers and the root does not meet a bundle that is called like
its binding. -/
theorem bindings_nodup_iff (h : ofTable catalog table = .ok a) :
    "lib" ∉ a.bindings ∧
    (a.bindings.Nodup ↔ (catalog.names.map exportIdentifier).Nodup ∧
      ¬("lib" ∈ catalog.names ∧ "libBase" ∈ catalog.names)) := by
  rw [bindings_of_ofTable h]
  refine ⟨fun mem => ?_, nodup_binding_iff catalog.distinct⟩
  obtain ⟨name, -, bound⟩ := List.mem_map.1 mem
  exact binding_ne_lib name bound

/-- The table of a catalog of which no bundle says anything. -/
def bareTable (catalog : Catalog) : ModuleTable where
  modules := catalog.bundles.map fun b => ⟨b, [], []⟩
  distinct := by
    rw [List.map_map]
    exact catalog.names_bundles ▸ catalog.distinct

/-- The built-in way to write full variants keeps the bindings apart. -/
theorem bindings_nodup_es2016 : ∃ a,
    ofTable (.ofPairs [("es2016", "lib.es2016.d.ts")])
      (bareTable (.ofPairs [("es2016", "lib.es2016.d.ts")])) = .ok a ∧
    "lib" ∉ a.bindings ∧ a.bindings.Nodup := by
  have run : ofTable (.ofPairs [("es2016", "lib.es2016.d.ts")])
      (bareTable (.ofPairs [("es2016", "lib.es2016.d.ts")])) =
      .ok ⟨["es2016", "es2016.full", "lib"].map .named⟩ := by decide +kernel
  obtain ⟨free, distinct⟩ := bindings_nodup_iff run
  exact ⟨_, run, free, distinct.2 (by decide +kernel)⟩

/-- Names that differ in a dot and an underscore are bound alike, and so is the root with a bundle
that is called like its binding. -/
theorem bindings_meet :
    (∃ a, ofTable (.ofPairs [("a.b", "a.d.ts"), ("a_b", "b.d.ts")])
      (bareTable (.ofPairs [("a.b", "a.d.ts"), ("a_b", "b.d.ts")])) = .ok a ∧
      a.bindings = ["a_b", "a_b", "libBase"] ∧ ¬a.bindings.Nodup) ∧
    ∃ a, ofTable (.ofPairs [("libBase", "base.d.ts")])
      (bareTable (.ofPairs [("libBase", "base.d.ts")])) = .ok a ∧
      a.bindings = ["libBase", "libBase"] ∧ ¬a.bindings.Nodup :=
  ⟨⟨⟨["a.b", "a_b", "lib"].map .named⟩, by decide +kernel, by decide +kernel, by decide +kernel⟩,
    ⟨["libBase", "lib"].map .named⟩, by decide +kernel, by decide +kernel, by decide +kernel⟩

end Aggregate

end ImplicitGlobals
