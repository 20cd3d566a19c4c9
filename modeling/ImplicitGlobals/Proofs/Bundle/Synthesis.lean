import ImplicitGlobals.Generation.Synthesis
import ImplicitGlobals.Proofs.Bundle.Resolution
import ImplicitGlobals.Proofs.Scope.Globals

/-!
# What a run makes of a catalog

A run comes to its end if every bundle of the catalog can be used, and else it ends with
what is wrong with the first bundle that cannot. The table and the aggregate that it makes
list the catalog, so no reference of any module leads out of the table.
-/

namespace ImplicitGlobals

namespace Catalog

/-- The bundles of a catalog bear its names, in order. -/
theorem names_bundles (c : Catalog) : c.bundles.map (·.name) = c.names := by
  simp [bundles, names, Table.keys]

theorem contains_iff_mem_names {c : Catalog} {name : String} :
    c.contains name = true ↔ name ∈ c.names :=
  Table.contains_iff_mem_keys c.files name

end Catalog

namespace ModuleTable

theorem contains_iff_mem_names {t : ModuleTable} {name : String} :
    t.contains name = true ↔ name ∈ t.names := by
  simp [contains, names]

/-- A module of a new bundle is put at the end. -/
theorem modules_insert {t : ModuleTable} {m : BundleModule} (fresh : m.name ∉ t.names) :
    (t.insert m).modules = t.modules ++ [m] := by
  obtain ⟨ms, distinct⟩ := t
  simp only [insert, names] at fresh ⊢
  clear distinct
  induction ms with
  | nil => rfl
  | cons x rest ih =>
    obtain ⟨other, fresh⟩ : m.name ≠ x.name ∧ m.name ∉ rest.map (·.name) := by
      simpa using fresh
    rw [replaceModule, if_neg (Ne.symm other), ih fresh, List.cons_append]

theorem exists_get? {t : ModuleTable} {name : String} (mem : name ∈ t.names) :
    ∃ m, t.get? name = some m ∧ m.name = name := by
  obtain ⟨m, found⟩ := (contains_iff t name).1 (contains_iff_mem_names.2 mem)
  exact ⟨m, found, name_of_get? found⟩

/-- Where every module refers to bundles of the table alone, nothing leads out of it. -/
theorem closed_of_references {t : ModuleTable}
    (inside : ∀ m ∈ t.modules, ∀ r ∈ m.references, r ∈ t.names) {name : String}
    (mem : name ∈ t.names) : t.Closed name := by
  intro b reaches
  rw [contains_iff_mem_names]
  induction reaches with
  | refl => exact mem
  | tail _ refers _ =>
    obtain ⟨m, found, mem⟩ := refers
    exact inside m (List.mem_of_find?_eq_some found) _ mem

/-- A bundle from which nothing leads out of the table resolves, or there is a ring. -/
theorem resolve_of_closed {t : ModuleTable} {name : String} (closed : t.Closed name) :
    (∃ table, t.resolve name = .ok table) ∨
      ∃ chain, t.resolve name = .error (.cyclicReference chain) := by
  rcases resolve_outcome t name with ⟨table, run, -⟩ | ⟨e, run, fault⟩
  · exact .inl ⟨table, run⟩
  cases fault with
  | @cyclic chain => exact .inr ⟨chain, run⟩
  | unknown absent reached =>
    obtain ⟨m, found⟩ := (contains_iff t _).1 (closed _ reached)
    simp [absent] at found

end ModuleTable

namespace Aggregate

/-- A table that lists the catalog has an aggregate, which lists it as well. -/
theorem ofTable_of_names {catalog : Catalog} {table : ModuleTable}
    (same : table.names = catalog.names) :
    ∃ a, ofTable catalog table = .ok a ∧ a.names = catalog.names := by
  have fits : mismatch? catalog table = none := by
    have missing : (catalog.names.find? fun name => !table.contains name) = none := by
      simp [List.find?_eq_none, ModuleTable.contains_iff_mem_names, same]
    have extra : (table.names.find? fun name => !catalog.contains name) = none := by
      simp [List.find?_eq_none, Catalog.contains_iff_mem_names, same]
    rw [mismatch?, missing, extra]
    rfl
  refine ⟨_, by rw [ofTable, fits], ?_⟩
  have each : ∀ name ∈ table.names, (table.get? name).map (·.name) = some name := by
    intro name mem
    obtain ⟨m, found, eq⟩ := ModuleTable.exists_get? mem
    rw [found, Option.map_some, eq]
  rw [same] at each
  calc
    names ⟨(catalog.names.filterMap table.get?).map .ofModule⟩
      = catalog.names.filterMap fun name => (table.get? name).map (·.name) := by
        simp [names, AggregateEntry.ofModule, List.map_filterMap, Function.comp_def]
    _ = catalog.names.filterMap some := List.filterMap_congr each
    _ = catalog.names := List.filterMap_some

end Aggregate

namespace Sources

variable {s : Sources} {options : SourceOptions} {catalog : Catalog}

/-- The bundle can be read, parsed and classified, and refers to bundles of the catalog alone. -/
def Usable (s : Sources) (options : SourceOptions) (catalog : Catalog) (b : Bundle) : Prop :=
  ∃ text u table, s b.file = .ok text ∧ SourceUnit.read options text = .ok u ∧
    u.globals = .ok table ∧ ∀ r ∈ u.references, r ∈ catalog.names

/-- What is wrong with a bundle that cannot be used. -/
inductive Fails (s : Sources) (options : SourceOptions) (catalog : Catalog) (b : Bundle) :
    Failure → Prop where
  | unreadable {e : Failure} : s b.file = .error e → Fails s options catalog b e
  | malformed {text : String} {e : Failure} : s b.file = .ok text →
    SourceUnit.read options text = .error e → Fails s options catalog b (nameFile b.file e)
  | unclassified {text : String} {u : SourceUnit} {e : Failure} : s b.file = .ok text →
    SourceUnit.read options text = .ok u → u.globals = .error e → Fails s options catalog b e
  | dangling {text : String} {u : SourceUnit} {table : Table Classification} {r : String}
    {before after : List String} : s b.file = .ok text → SourceUnit.read options text = .ok u →
    u.globals = .ok table → u.references = before ++ r :: after →
    (∀ x ∈ before, x ∈ catalog.names) → r ∉ catalog.names →
    Fails s options catalog b (.unknownReference b.name r)

/-! ### One bundle -/

/-- The module of a bundle, step by step. -/
theorem moduleOf_eq (s : Sources) (options : SourceOptions) (catalog : Catalog) (b : Bundle) :
    s.moduleOf options catalog b =
      match s b.file with
      | .error e => .error e
      | .ok text =>
        match SourceUnit.read options text with
        | .error e => .error (nameFile b.file e)
        | .ok u =>
          match u.globals with
          | .error e => .error e
          | .ok table => BundleModule.ofAnalysis catalog b u.references table := by
  unfold moduleOf analyze unitOf
  cases s b.file with
  | error e => rfl
  | ok text =>
    cases read : SourceUnit.read options text with
    | error e => simp [read, bind, Except.bind, Except.mapError]
    | ok u => cases globals : u.globals <;>
        simp [read, globals, bind, Except.bind, Except.mapError, pure, Except.pure]

/-- A module is made of an analysis exactly if every reference is in the catalog. -/
theorem ofAnalysis_eq_ok_iff {b : Bundle} {references : References}
    {globals : Table Classification} {m : BundleModule} :
    BundleModule.ofAnalysis catalog b references globals = .ok m ↔
      (∀ r ∈ references, r ∈ catalog.names) ∧ m = ⟨b, references, Table.ofPairs globals⟩ := by
  unfold BundleModule.ofAnalysis
  cases unknown : references.find? fun r => !catalog.contains r with
  | some r =>
    have absent : r ∉ catalog.names := by
      simpa [← Catalog.contains_iff_mem_names] using List.find?_some unknown
    simpa using fun inside => absurd (inside r (List.mem_of_find?_eq_some unknown)) absent
  | none =>
    have inside : ∀ r ∈ references, r ∈ catalog.names := by
      simpa [← Catalog.contains_iff_mem_names] using unknown
    rw [Except.ok.injEq, eq_comm, iff_and_self]
    exact fun _ => inside

/-- It fails at the first reference that is not. -/
theorem ofAnalysis_eq_error_iff {b : Bundle} {references : References}
    {globals : Table Classification} {e : Failure} :
    BundleModule.ofAnalysis catalog b references globals = .error e ↔
      ∃ before r after, references = before ++ r :: after ∧ (∀ x ∈ before, x ∈ catalog.names) ∧
        r ∉ catalog.names ∧ e = .unknownReference b.name r := by
  unfold BundleModule.ofAnalysis
  constructor
  · intro h
    split at h
    next r unknown =>
      obtain ⟨absent, before, after, split, known⟩ := List.find?_eq_some_iff_append.1 unknown
      refine ⟨before, r, after, split, ?_, ?_, by simpa using h.symm⟩
      · simpa [Catalog.contains_iff_mem_names] using known
      · simpa [← Catalog.contains_iff_mem_names] using absent
    next => cases h
  · rintro ⟨before, r, after, rfl, known, absent, rfl⟩
    have first : ((before ++ r :: after).find? fun x => !catalog.contains x) = some r := by
      refine List.find?_eq_some_iff_append.2 ⟨?_, before, after, rfl, ?_⟩
      · simpa [← Catalog.contains_iff_mem_names] using absent
      · simpa [Catalog.contains_iff_mem_names] using known
    rw [first]

/-- A bundle has a module exactly if it is usable. -/
theorem exists_moduleOf_iff {b : Bundle} :
    (∃ m, s.moduleOf options catalog b = .ok m) ↔ s.Usable options catalog b := by
  rw [moduleOf_eq]
  constructor
  · rintro ⟨m, run⟩
    cases text : s b.file with
    | error e => simp [text] at run
    | ok t =>
      cases read : SourceUnit.read options t with
      | error e => simp [text, read] at run
      | ok u =>
        cases globals : u.globals with
        | error e => simp [text, read, globals] at run
        | ok table =>
          simp only [text, read, globals] at run
          exact ⟨t, u, table, text, read, globals, (ofAnalysis_eq_ok_iff.1 run).1⟩
  · rintro ⟨t, u, table, text, read, globals, inside⟩
    simp only [text, read, globals]
    exact ⟨_, ofAnalysis_eq_ok_iff.2 ⟨inside, rfl⟩⟩

/-- Its module fails exactly as the bundle does. -/
theorem moduleOf_eq_error_iff {b : Bundle} {e : Failure} :
    s.moduleOf options catalog b = .error e ↔ s.Fails options catalog b e := by
  rw [moduleOf_eq]
  constructor
  · intro run
    cases text : s b.file with
    | error e' =>
      simp only [text, Except.error.injEq] at run
      exact run ▸ .unreadable text
    | ok t =>
      cases read : SourceUnit.read options t with
      | error e' =>
        simp only [text, read, Except.error.injEq] at run
        exact run ▸ .malformed text read
      | ok u =>
        cases globals : u.globals with
        | error e' =>
          simp only [text, read, globals, Except.error.injEq] at run
          exact run ▸ .unclassified text read globals
        | ok table =>
          simp only [text, read, globals] at run
          obtain ⟨before, r, after, split, known, absent, rfl⟩ := ofAnalysis_eq_error_iff.1 run
          exact .dangling text read globals split known absent
  · rintro (text | ⟨text, read⟩ | ⟨text, read, globals⟩ |
      ⟨text, read, globals, split, known, absent⟩)
    · simp only [text]
    · simp only [text, read]
    · simp only [text, read, globals]
    · simp only [text, read, globals]
      exact ofAnalysis_eq_error_iff.2 ⟨_, _, _, split, known, absent, rfl⟩

/-- A module is that of its bundle, and refers to bundles of the catalog. -/
theorem bundle_of_moduleOf {b : Bundle} {m : BundleModule}
    (run : s.moduleOf options catalog b = .ok m) :
    m.bundle = b ∧ ∀ r ∈ m.references, r ∈ catalog.names := by
  rw [moduleOf_eq] at run
  split at run
  · cases run
  split at run
  · cases run
  split at run
  · cases run
  obtain ⟨inside, rfl⟩ := ofAnalysis_eq_ok_iff.1 run
  exact ⟨rfl, inside⟩

/-- No source is at fault for a table that differs from the catalog. -/
theorem ne_mismatch_of_read {text : String} {u : SourceUnit} {m : Mismatch}
    (accepted : SourceUnit.read options text = .ok u) : u.globals ≠ .error (.mismatch m) := by
  have types : options.type = .module ∨ options.type = .script := by cases options.type <;> simp
  rcases types with type | type
  · obtain ⟨table, run, -⟩ := SourceUnit.lists_bound u.tree
    rw [SourceUnit.globals_module accepted type, run]
    nofun
  · rw [SourceUnit.globals_script accepted type]
    nofun

theorem Fails.of_mismatch {b : Bundle} {m : Mismatch}
    (h : s.Fails options catalog b (.mismatch m)) : s b.file = .error (.mismatch m) := by
  generalize eq : Failure.mismatch m = e at h
  cases h with
  | unreadable text => exact text
  | @malformed text e' opened read =>
    simp only [SourceUnit.read] at read
    split at read
    · cases read
      cases eq
    · split at read
      · cases read
      · cases read
        cases eq
  | unclassified _ read globals => exact absurd (eq ▸ globals) (ne_mismatch_of_read read)
  | dangling => cases eq

/-! ### All bundles -/

/-- One bundle more: its module is added, or its failure is the result. -/
theorem addModules_cons {t : ModuleTable} {b : Bundle} {rest : List Bundle} :
    s.addModules options catalog t (b :: rest) =
      match s.moduleOf options catalog b with
      | .error e => .error e
      | .ok m => s.addModules options catalog (t.insert m) rest := by
  rw [addModules]
  cases s.moduleOf options catalog b <;> rfl

/-- Modules are added until a bundle has none. -/
theorem addModules_eq_error_iff {t : ModuleTable} {bs : List Bundle} {e : Failure} :
    s.addModules options catalog t bs = .error e ↔ ∃ before b after, bs = before ++ b :: after ∧
      (∀ x ∈ before, s.Usable options catalog x) ∧ s.Fails options catalog b e := by
  induction bs generalizing t with
  | nil => simp [addModules]
  | cons b rest ih =>
    rw [addModules_cons]
    -- The first bundle either is the one that fails or is usable and drops out.
    cases first : s.moduleOf options catalog b with
    | error e' =>
      have fails {x : Failure} : s.Fails options catalog b x ↔ e' = x := by
        rw [← moduleOf_eq_error_iff, first, Except.error.injEq]
      have useless : ¬s.Usable options catalog b := by simp [← exists_moduleOf_iff, first]
      constructor
      · intro same
        exact ⟨[], b, rest, rfl, nofun, fails.2 (by simpa using same)⟩
      · rintro ⟨before, x, after, split, usable, fault⟩
        cases before with
        | nil =>
          obtain ⟨rfl, -⟩ : b = x ∧ rest = after := by simpa using split
          rw [fails.1 fault]
        | cons y before =>
          obtain ⟨rfl, -⟩ : b = y ∧ rest = before ++ x :: after := by simpa using split
          exact absurd (usable b List.mem_cons_self) useless
    | ok m =>
      have usable : s.Usable options catalog b := exists_moduleOf_iff.1 ⟨m, first⟩
      have sound {x : Failure} : ¬s.Fails options catalog b x := by
        simp [← moduleOf_eq_error_iff, first]
      simp only [ih]
      constructor
      · rintro ⟨before, x, after, rfl, others, fault⟩
        exact ⟨b :: before, x, after, rfl, List.forall_mem_cons.2 ⟨usable, others⟩, fault⟩
      · rintro ⟨before, x, after, split, others, fault⟩
        cases before with
        | nil =>
          obtain ⟨rfl, -⟩ : b = x ∧ rest = after := by simpa using split
          exact absurd fault sound
        | cons y before =>
          obtain ⟨rfl, rfl⟩ : b = y ∧ rest = before ++ x :: after := by simpa using split
          exact ⟨before, x, after, rfl, (List.forall_mem_cons.1 others).2, fault⟩

/-- Modules of new bundles go behind those of the table, in order. -/
theorem modules_of_addModules {t t' : ModuleTable} {bs : List Bundle}
    (fresh : (t.names ++ bs.map (·.name)).Nodup) (run : s.addModules options catalog t bs = .ok t') :
    t'.names = t.names ++ bs.map (·.name) ∧
      ∀ m ∈ t'.modules, m ∈ t.modules ∨ ∀ r ∈ m.references, r ∈ catalog.names := by
  induction bs generalizing t with
  | nil =>
    cases run
    simpa using fun _ mem => .inl mem
  | cons b rest ih =>
    rw [addModules_cons] at run
    split at run
    next => cases run
    next m first =>
    obtain ⟨own, inside⟩ := bundle_of_moduleOf first
    have name : m.name = b.name := congrArg Bundle.name own
    have new : m.name ∉ t.names := by
      intro mem
      exact (List.nodup_append.1 fresh).2.2 _ mem b.name (by simp) name
    have modules := ModuleTable.modules_insert new
    have names : (t.insert m).names = t.names ++ [b.name] := by
      simp [ModuleTable.names, modules, name]
    obtain ⟨all, each⟩ := ih (by simpa [names] using fresh) run
    refine ⟨by simpa [names] using all, fun x mem => ?_⟩
    rcases each x mem with mem | outer
    · rw [modules] at mem
      rcases List.mem_append.1 mem with mem | mem
      · exact .inl mem
      · exact .inr (List.mem_singleton.1 mem ▸ inside)
    · exact .inr outer

/-- Where all modules were added every bundle is usable. -/
theorem usable_of_addModules {t t' : ModuleTable} {bs : List Bundle}
    (run : s.addModules options catalog t bs = .ok t') : ∀ b ∈ bs, s.Usable options catalog b := by
  induction bs generalizing t with
  | nil => nofun
  | cons b rest ih =>
    rw [addModules_cons] at run
    split at run
    next => cases run
    next m first => exact List.forall_mem_cons.2 ⟨exists_moduleOf_iff.1 ⟨m, first⟩, ih run⟩

theorem Fails.not_usable {b : Bundle} {e : Failure} (h : s.Fails options catalog b e) :
    ¬s.Usable options catalog b := by
  simp [← exists_moduleOf_iff, moduleOf_eq_error_iff.2 h]

/-- A run fails where adding the modules does, and the aggregate fits. -/
theorem synthesize_cases (s : Sources) (options : SourceOptions) (catalog : Catalog) :
    (∃ e, s.synthesize options catalog = .error e ∧
      s.addModules options catalog .empty catalog.bundles = .error e) ∨
    ∃ r, s.synthesize options catalog = .ok r ∧
      s.addModules options catalog .empty catalog.bundles = .ok r.table ∧
      r.table.names = catalog.names ∧ r.aggregate.names = catalog.names ∧
      ∀ m ∈ r.table.modules, ∀ x ∈ m.references, x ∈ catalog.names := by
  have fresh : (ModuleTable.empty.names ++ catalog.bundles.map (·.name)).Nodup := by
    rw [Catalog.names_bundles]
    exact catalog.distinct
  unfold synthesize
  cases run : s.addModules options catalog .empty catalog.bundles with
  | error e => exact .inl ⟨e, rfl, rfl⟩
  | ok table =>
    obtain ⟨names, inside⟩ := modules_of_addModules fresh run
    rw [Catalog.names_bundles] at names
    obtain ⟨aggregate, fits, listed⟩ := @Aggregate.ofTable_of_names catalog table names
    refine .inr ⟨⟨table, aggregate⟩, ?_, rfl, names, listed, fun m mem => ?_⟩
    · simp [fits, bind, Except.bind, pure, Except.pure]
    · exact (inside m mem).resolve_left (List.not_mem_nil)

/-- Synthesis fails at the first bundle that does. -/
theorem synthesize_eq_error_iff {e : Failure} : s.synthesize options catalog = .error e ↔
    ∃ before b after, catalog.bundles = before ++ b :: after ∧
      (∀ x ∈ before, s.Usable options catalog x) ∧ s.Fails options catalog b e := by
  rw [← addModules_eq_error_iff (t := .empty)]
  rcases synthesize_cases s options catalog with ⟨e', run, added⟩ | ⟨r, run, added, -⟩
  · rw [run, added, Except.error.injEq, Except.error.injEq]
  · rw [run, added]
    simp

/-- A run comes to its end exactly if every bundle of the catalog can be read, parsed and
classified and refers to bundles of the catalog alone. Else it ends with what is wrong with the
first bundle for which this fails. The table and the aggregate of a run list the catalog in its
order, so they never differ: a mismatch can only be the answer of the sources themselves. Every
name of the catalog resolves in the table or is on the way to a ring of references. -/
theorem synthesize_spec (s : Sources) (options : SourceOptions) (catalog : Catalog) :
    ((∃ r, s.synthesize options catalog = .ok r) ↔
      ∀ b ∈ catalog.bundles, s.Usable options catalog b) ∧
    (∀ e, s.synthesize options catalog = .error e ↔
      ∃ before b after, catalog.bundles = before ++ b :: after ∧
        (∀ x ∈ before, s.Usable options catalog x) ∧ s.Fails options catalog b e) ∧
    (∀ r, s.synthesize options catalog = .ok r →
      r.table.names = catalog.names ∧ r.aggregate.names = catalog.names ∧
      ∀ name ∈ catalog.names, (∃ table, r.table.resolve name = .ok table) ∨
        ∃ chain, r.table.resolve name = .error (.cyclicReference chain)) ∧
    ∀ m, s.synthesize options catalog = .error (.mismatch m) →
      ∃ b ∈ catalog.bundles, s b.file = .error (.mismatch m) := by
  refine ⟨⟨?_, fun usable => ?_⟩, fun e => synthesize_eq_error_iff, fun r run => ?_, fun m run => ?_⟩
  · rintro ⟨r, run⟩
    rcases synthesize_cases s options catalog with ⟨e, failed, -⟩ | ⟨r', -, added, -⟩
    · simp [run] at failed
    · exact usable_of_addModules added
  · cases run : s.synthesize options catalog with
    | ok r => exact ⟨r, rfl⟩
    | error e =>
      obtain ⟨before, b, after, split, -, fault⟩ := synthesize_eq_error_iff.1 run
      exact absurd (usable b (by simp [split])) fault.not_usable
  · rcases synthesize_cases s options catalog with ⟨e, failed, -⟩ | ⟨r', run', -, names, listed, inside⟩
    · simp [run] at failed
    obtain rfl : r = r' := Except.ok.inj (run.symm.trans run')
    refine ⟨names, listed, fun name mem => ?_⟩
    rw [← names] at inside mem
    exact ModuleTable.resolve_of_closed (ModuleTable.closed_of_references inside mem)
  · obtain ⟨before, b, after, split, -, fault⟩ := synthesize_eq_error_iff.1 run
    exact ⟨b, by simp [split], fault.of_mismatch⟩

end Sources

end ImplicitGlobals
