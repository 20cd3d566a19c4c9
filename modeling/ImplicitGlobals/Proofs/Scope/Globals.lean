import ImplicitGlobals.Proofs.Diagnostic.Filter
import ImplicitGlobals.Proofs.Scope.Binding
import Mathlib.Data.List.Induction

/-!
# The globals of a module

The module scope of an accepted source holds the names that the statements at its top
bind, each once and with all that they make of it. Neither what is declared further
inside nor what the global scope holds from before counts.
-/

namespace ImplicitGlobals

/-! ### The bindings of a scope -/

namespace Table

variable {bs : Table Definitions} {all : List Bound} {name : String}

/-- The names that are bound, in order. -/
def textsOf (all : List Bound) : List String := (all.map (·.2.text)).filter (· != "")

/-- The definitions of one name, in order. -/
def definitionsOf (all : List Bound) (name : String) : Definitions :=
  (all.filter (·.2.text == name)).map fun b => ⟨b.1, b.2.span⟩

theorem eraseDups_concat (texts : List String) (text : String) : (texts ++ [text]).eraseDups =
    if text ∈ texts then texts.eraseDups else texts.eraseDups ++ [text] := by
  by_cases known : text ∈ texts <;> simp [List.eraseDups_append, List.removeAll, known, List.eraseDups_cons]

theorem textsOf_concat (all : List Bound) (b : Bound) :
    textsOf (all ++ [b]) = if b.2.text = "" then textsOf all else textsOf all ++ [b.2.text] := by
  by_cases empty : b.2.text = "" <;> simp [textsOf, empty]

theorem recordAll_concat (bs : Table Definitions) (all : List Bound) (b : Bound) :
    bs.recordAll (all ++ [b]) = (bs.recordAll all).record b := by
  simp [recordAll]

/-- The names recorded are those of the list, each once. -/
theorem keys_recordAll (all : List Bound) : (recordAll [] all).keys = (textsOf all).eraseDups := by
  induction all using List.reverseRecOn with
  | nil => rfl
  | append_singleton front b ih =>
    rw [recordAll_concat, textsOf_concat, record]
    split
    next => exact ih
    next => simp only [keys_alter, ih, eraseDups_concat, List.mem_eraseDups]

/-- They stay distinct. -/
theorem nodup_recordAll (h : bs.keys.Nodup) (all : List Bound) : (bs.recordAll all).keys.Nodup := by
  induction all generalizing bs with
  | nil => exact h
  | cons b rest ih =>
    refine ih ?_
    unfold record
    split
    · exact h
    · exact nodup_alter h ..

theorem get?_record {b : Bound} (filled : name ≠ "") :
    ((bs.record b).get? name).getD [] = (bs.get? name).getD [] ++ definitionsOf [b] name := by
  unfold record
  split
  next empty => simp [definitionsOf, empty, Ne.symm filled]
  next =>
    rw [get?_alter]
    by_cases same : b.2.text = name
    · cases known : bs.get? b.2.text <;> simp_all [definitionsOf]
    · simp [definitionsOf, same]

/-- The definitions of a name are those of the list, behind those there were. -/
theorem get?_recordAll (bs : Table Definitions) (all : List Bound) (filled : name ≠ "") :
    ((bs.recordAll all).get? name).getD [] = (bs.get? name).getD [] ++ definitionsOf all name := by
  induction all generalizing bs with
  | nil => simp [recordAll, definitionsOf]
  | cons b rest ih =>
    have split : definitionsOf (b :: rest) name = definitionsOf [b] name ++ definitionsOf rest name := by
      simp [definitionsOf, List.filter_cons]
      split <;> rfl
    rw [split, ← List.append_assoc, ← get?_record filled]
    exact ih _

/-- With distinct names an entry is found by its name. -/
theorem get?_of_mem {α : Type} {t : Table α} (distinct : t.keys.Nodup) {value : α}
    (mem : (name, value) ∈ t) : t.get? name = some value := by
  induction t with
  | nil => cases mem
  | cons p rest ih =>
    obtain ⟨fresh, distinct⟩ := List.nodup_cons.1 distinct
    rcases List.mem_cons.1 mem with rfl | mem
    · simp [get?]
    · have other : p.1 ≠ name := by
        rintro rfl
        exact fresh (List.mem_map.2 ⟨_, mem, rfl⟩)
      rw [get?, if_neg other]
      exact ih distinct mem

/-- What a scope says of a name are its definitions, and there are some. -/
theorem eq_of_mem_recordAll {ds : Definitions} (mem : (name, ds) ∈ recordAll [] all) :
    ds = definitionsOf all name ∧ ds ≠ [] := by
  have distinct : (recordAll [] all).keys.Nodup := nodup_recordAll (by simp [keys]) all
  have key : name ∈ (recordAll [] all).keys := List.mem_map_of_mem mem
  rw [keys_recordAll, List.mem_eraseDups, textsOf, List.mem_filter] at key
  have filled : name ≠ "" := by simpa using key.2
  have found := get?_recordAll [] all filled
  rw [get?_of_mem distinct mem] at found
  have eq : ds = definitionsOf all name := by simpa [get?] using found
  refine ⟨eq, ?_⟩
  obtain ⟨b, mb, text⟩ := List.mem_map.1 key.1
  rw [eq]
  exact List.ne_nil_of_mem (List.mem_map_of_mem (List.mem_filter.2 ⟨mb, by simp [text]⟩))

end Table

/-! ### Classifying bindings -/

theorem Definitions.classification?_of_ne_nil {ds : Definitions} (some : ds ≠ []) :
    ∃ c, ds.classification? = .some c ∧ c.isType = ds.isType ∧ c.isValue = ds.isValue := by
  have facts := isType_or_isValue some
  unfold classification?
  cases isType : ds.isType <;> cases isValue : ds.isValue
  · simp [isType, isValue] at facts
  · exact ⟨.valueOnly, rfl, rfl, rfl⟩
  · exact ⟨.typeOnly, rfl, rfl, rfl⟩
  · exact ⟨.typeAndValue, rfl, rfl, rfl⟩

namespace SourceUnit

/-- Names that have definitions are classified one by one. -/
theorem mapM_classify (bs : Table Definitions) (some : ∀ e ∈ bs, e.2 ≠ []) :
    ∃ table, bs.mapM classify = .ok table ∧ Table.keys table = bs.keys ∧
      ∀ e ∈ table, ∃ ds, (e.1, ds) ∈ bs ∧ e.2.isType = ds.isType ∧ e.2.isValue = ds.isValue := by
  induction bs with
  | nil => exact ⟨[], rfl, rfl, nofun⟩
  | cons b rest ih =>
    obtain ⟨table, run, keys, flags⟩ := ih fun e mem => some e (List.mem_cons_of_mem _ mem)
    obtain ⟨c, known, types, values⟩ := Definitions.classification?_of_ne_nil (some b List.mem_cons_self)
    have first : classify b = .ok (b.1, c) := by rw [classify, known]
    refine ⟨(b.1, c) :: table, ?_, congrArg (b.1 :: ·) keys, fun e mem => ?_⟩
    · rw [List.mapM_cons, first, run]
      rfl
    · rcases List.mem_cons.1 mem with rfl | mem
      · exact ⟨b.2, List.mem_cons_self, types, values⟩
      · obtain ⟨ds, inRest, same⟩ := flags e mem
        exact ⟨ds, List.mem_cons_of_mem _ inRest, same⟩

end SourceUnit

/-! ### The module scope -/

namespace ScopeTree

/-- Seeding leaves the global scope alone in its tree. -/
theorem get?_seed {t : ScopeTree} {s : Scope} (alone : t.size = 1) (root : t.get? globalId = some s)
    (globals : List (String × Classification)) : (t.seed globals).size = 1 ∧
      ∃ s', (t.seed globals).get? globalId = some s' ∧ s'.kind = s.kind ∧ s'.children = s.children := by
  induction globals generalizing t s with
  | nil => exact ⟨alone, s, root, rfl, rfl⟩
  | cons g rest ih =>
    refine ih (s := s.define g.1 ⟨.implicitGlobal g.2, .point 0⟩) ?_ ?_
    · rw [size_define, alone]
    · rw [get?_define, if_pos rfl, root]
      rfl

/-- The tree before anything is bound: the global scope, without children. -/
theorem get?_start (globals : List (String × Classification)) (span : Span) :
    ((ofSpan span).seed globals).size = 1 ∧ ∃ s, ((ofSpan span).seed globals).get? globalId = some s ∧
      s.kind = .global ∧ s.children = [] :=
  get?_seed (t := ofSpan span) rfl rfl globals

/-- The module scope of a module holds what its statements define. -/
theorem moduleScope?_module (globals : List (String × Classification)) (span : Span)
    {ss : List Statement} (named : ∀ s ∈ ss, s.Named) :
    ∃ s, SourceUnit.moduleScope? (ofStatements .module globals span ss) = some s ∧
      s.bindings = Table.recordAll [] (ss.flatMap Statement.defines) := by
  obtain ⟨size, root, found, -, children⟩ := get?_start globals span
  have grows := growsAll_of_named (((ofSpan span).seed globals).push globalId .moduleBody span)
    ((ofSpan span).seed globals).size named
  have atRoot : (((ofSpan span).seed globals).push globalId .moduleBody span).get? globalId =
      some { root with children := [1] } := by
    rw [get?_push, size, if_neg (by decide), found]
    simp [children]
  have atModule : (((ofSpan span).seed globals).push globalId .moduleBody span).get? 1 =
      some (.fresh .moduleBody (some globalId) span) := by
    rw [get?_push, size, if_pos rfl]
    rfl
  obtain ⟨root', found', -, children', -⟩ := grows.kept _ _ atRoot
  obtain ⟨s, here, kind, -, bindings⟩ := grows.kept _ _ atModule
  rw [size, if_pos rfl] at bindings
  have first : root'.children.head? = some 1 := by
    obtain ⟨more, eq⟩ := children'
    rw [← eq]
    rfl
  refine ⟨s, ?_, bindings⟩
  have moduleBody : s.kind = .moduleBody := kind
  have tree : ofStatements .module globals span ss = bindStatements
      (((ofSpan span).seed globals).push globalId .moduleBody span) ((ofSpan span).seed globals).size ss :=
    rfl
  simp only [SourceUnit.moduleScope?, tree, found', first, here, moduleBody, Option.bind_eq_bind,
    Option.bind_some, if_true]

/-- A script has no module scope. -/
theorem moduleScope?_script (globals : List (String × Classification)) (span : Span)
    (ss : List Statement) : SourceUnit.moduleScope? (ofStatements .script globals span ss) = none := by
  obtain ⟨size, root, found, kind, -⟩ := get?_start globals span
  obtain ⟨_, grows⟩ := exists_growsAll ((ofSpan span).seed globals) globalId ss
  have other (id : ScopeId) (s : Scope) (mem : (ofStatements .script globals span ss).get? id = some s) :
      s.kind ≠ .moduleBody := by
    rcases Nat.lt_or_ge id ((ofSpan span).seed globals).size with old | out
    · obtain ⟨s', before, same⟩ := grows.kind_kept old mem
      have atRoot : id = globalId := Nat.lt_one_iff.1 (size ▸ old)
      rw [atRoot, found, Option.some.injEq] at before
      rw [same, ← before, kind]
      decide
    · exact grows.fresh id s out mem
  refine Option.eq_none_iff_forall_ne_some.2 fun s is => ?_
  simp only [SourceUnit.moduleScope?, Option.bind_eq_bind, Option.bind_eq_some_iff] at is
  obtain ⟨_, -, id, -, s', mem, is⟩ := is
  rw [if_neg (other id s' mem)] at is
  cases is

end ScopeTree

/-! ### The names at the top -/

/-- What an imported name is. -/
def Classification.ofImport (onlyType : Bool) : Classification :=
  if onlyType then typeOnly else typeAndValue

/-- What an import clause binds. -/
def ImportClause.binds (c : ImportClause) : List (Name × Classification) :=
  (c.default?.toList ++ c.asNamespace?.toList).map (·, .ofImport c.typeOnly) ++
    c.specifiers.flatMap fun s => s.name?.toList.map (·, .ofImport (c.typeOnly || s.typeOnly))

/-- The names that a declaration binds where it stands, and what it makes of them. -/
def Declaration.binds : Declaration → List (Name × Classification)
  | variableList _ ds => (ds.flatMap (·.bound)).map (·, .valueOnly)
  | function name _ _ => name.toList.map (·, .valueOnly)
  | classType name _ _ | enumType name _ _ => name.toList.map (·, .typeAndValue)
  | interfaceType name _ | typeAlias name _ => name.toList.map (·, .typeOnly)
  | importFrom _ clause => clause.elim [] ImportClause.binds
  | importEquals typeOnly name => name.toList.map (·, .ofImport typeOnly)
  | exportNames | exportAssignment | namespaceExport _ | empty => []

/-- The names that a statement binds where it stands. Of a namespace that is the first part
of its name; `global` and modules whose name is a string bind none. -/
def Statement.binds : Statement → List (Name × Classification)
  | plain _ d => d.binds
  | module _ names isGlobal _ _ =>
    if isGlobal || names.head?.any (·.quoted) then []
    else names.head?.toList.map (·, .typeAndValue)

/-- The names that the statements at the top of a source bind, one for each time, and what
they are there. A name without text is none. -/
def SyntaxTree.bound (t : SyntaxTree) : List (String × Classification) :=
  (((statements t).flatMap Statement.binds).map fun b => (b.1.text, b.2)).filter (·.1 != "")

/-- The table lists the names that are bound: each once, in the order in which they come
first, as a type if it is bound as one at all, and likewise as a value. -/
structure Table.Lists (table : Table Classification) (bound : List (String × Classification)) : Prop where
  names : table.keys = (bound.map (·.1)).eraseDups
  distinct : table.keys.Nodup
  types : ∀ e ∈ table, e.2.isType = true ↔ ∃ b ∈ bound, b.1 = e.1 ∧ b.2.isType = true
  values : ∀ e ∈ table, e.2.isValue = true ↔ ∃ b ∈ bound, b.1 = e.1 ∧ b.2.isValue = true

/-- What a definition makes of its name. -/
def DefinitionKind.classification (k : DefinitionKind) : Classification :=
  (Classification.ofFlags? k.isType k.isValue).getD .typeOnly

namespace DefinitionKind

/-- The flag for types is the kind's own. -/
theorem isType_classification (k : DefinitionKind) : k.classification.isType = k.isType := by
  cases k with
  | implicitGlobal c => cases c <;> rfl
  | _ => rfl

/-- The flag for values is the kind's own. -/
theorem isValue_classification (k : DefinitionKind) : k.classification.isValue = k.isValue := by
  cases k with
  | implicitGlobal c => cases c <;> rfl
  | _ => rfl

theorem classification_ofImport (typeOnly : Bool) :
    (ofImport typeOnly).classification = .ofImport typeOnly := by
  cases typeOnly <;> rfl

end DefinitionKind

/-- What definitions bind. -/
def boundBy (all : List Bound) : List (Name × Classification) :=
  all.map fun b => (b.2, b.1.classification)

theorem boundBy_map {kind : DefinitionKind} {c : Classification} (is : kind.classification = c)
    (ns : List Name) : boundBy (ns.map (kind, ·)) = ns.map (·, c) := by
  simp [boundBy, is]

theorem ImportClause.boundBy_defines (c : ImportClause) : boundBy c.defines = c.binds := by
  have imported (typeOnly : Bool) := boundBy_map (DefinitionKind.classification_ofImport typeOnly)
  simp only [boundBy] at imported
  simp only [boundBy, defines, binds, List.map_append, List.map_flatMap, imported]

/-- What a statement defines is what it binds. -/
theorem Statement.boundBy_defines (s : Statement) : boundBy s.defines = s.binds := by
  cases s with
  | plain _ d =>
    cases d with
    | importFrom _ clause =>
      cases clause with
      | none => rfl
      | some c => exact c.boundBy_defines
    | importEquals typeOnly => exact boundBy_map (DefinitionKind.classification_ofImport typeOnly) _
    | exportNames | exportAssignment | namespaceExport | empty => rfl
    | _ => exact boundBy_map rfl _
  | module _ names isGlobal =>
    rw [defines, binds, isAmbientModule]
    split
    · rfl
    · exact boundBy_map rfl _

/-- What statements define, put as names with classifications. -/
theorem boundBy_flatMap_defines (ss : List Statement) :
    boundBy (ss.flatMap Statement.defines) = ss.flatMap Statement.binds := by
  rw [boundBy, List.map_flatMap]
  exact List.flatMap_congr fun s _ => s.boundBy_defines

/-- The names at the top are those that the module scope records. -/
theorem SyntaxTree.map_bound (t : SyntaxTree) :
    t.bound.map (·.1) = Table.textsOf ((statements t).flatMap Statement.defines) := by
  simp [bound, ← boundBy_flatMap_defines, Table.textsOf, boundBy, List.filter_map, Function.comp_def]

/-- Definitions of a name are types if one of those that bind it is, and so for values. -/
theorem any_definitionsOf {t : SyntaxTree} {name : String} (filled : name ≠ "")
    (ofKind : DefinitionKind → Bool) (flag : Classification → Bool)
    (same : ∀ k, flag k.classification = ofKind k) :
    ((Table.definitionsOf ((SyntaxTree.statements t).flatMap Statement.defines) name).any
      fun d => ofKind d.kind) = true ↔ ∃ b ∈ t.bound, b.1 = name ∧ flag b.2 = true := by
  simp only [SyntaxTree.bound, ← boundBy_flatMap_defines, boundBy, Table.definitionsOf]
  constructor
  · intro found
    obtain ⟨d, md, is⟩ := List.any_eq_true.1 found
    obtain ⟨b, mb, rfl⟩ := List.mem_map.1 md
    obtain ⟨mem, text⟩ := List.mem_filter.1 mb
    replace text : b.2.text = name := eq_of_beq text
    refine ⟨(b.2.text, b.1.classification), List.mem_filter.2 ⟨?_, ?_⟩, text, (same _).trans is⟩
    · exact List.mem_map.2 ⟨_, List.mem_map.2 ⟨b, mem, rfl⟩, rfl⟩
    · simpa [text] using filled
  · rintro ⟨e, me, rfl, is⟩
    obtain ⟨_, mn, rfl⟩ := List.mem_map.1 (List.mem_filter.1 me).1
    obtain ⟨b, mem, rfl⟩ := List.mem_map.1 mn
    refine List.any_eq_true.2 ⟨⟨b.1, b.2.span⟩, List.mem_map.2 ⟨b, ?_, rfl⟩, (same _).symm.trans is⟩
    exact List.mem_filter.2 ⟨mem, beq_self_eq_true _⟩

namespace SourceUnit

/-- The globals of a module come from the names that its statements define. -/
theorem globals_module {options : SourceOptions} {text : String} {u : SourceUnit}
    (accepted : read options text = .ok u) (type : options.type = .module) :
    u.globals = (Table.recordAll []
      ((SyntaxTree.statements u.tree).flatMap Statement.defines)).mapM classify := by
  obtain ⟨p, parsed, clean, rfl⟩ := parsed_of_read accepted
  obtain ⟨s, found, bindings⟩ := ScopeTree.moduleScope?_module options.implicitGlobals
    (SyntaxTree.span p.tree) (named_of_parseWithin parsed clean)
  simp only [globals, scopesOf, type, found, bindings]

/-- A script has no module scope. -/
theorem globals_script {options : SourceOptions} {text : String} {u : SourceUnit}
    (accepted : read options text = .ok u) (type : options.type = .script) :
    u.globals = .error .noModuleScope := by
  obtain ⟨p, -, -, rfl⟩ := parsed_of_read accepted
  simp only [globals, scopesOf, type, ScopeTree.moduleScope?_script]

/-- The names that were there before change nothing in what a source reads as. -/
theorem globals_congr {options : SourceOptions} {text : String} {u : SourceUnit}
    (accepted : read options text = .ok u) (present : List (String × Classification)) :
    ∃ v, read { options with implicitGlobals := present } text = .ok v ∧ v.globals = u.globals := by
  obtain ⟨p, parsed, clean, rfl⟩ := parsed_of_read accepted
  have others : read { options with implicitGlobals := present } text =
      .ok ⟨p.tree, scopesOf { options with implicitGlobals := present } p.tree, options.comments⟩ := by
    simp [read, parsed, clean, Diagnostics.filtered]
  refine ⟨_, others, ?_⟩
  have types : options.type = .module ∨ options.type = .script := by cases options.type <;> simp
  rcases types with type | type
  · exact (globals_module others type).trans (globals_module accepted type).symm
  · exact (globals_script others type).trans (globals_script accepted type).symm

/-- What the scope of the statements of a tree records is listed as what they bind. -/
theorem lists_bound (t : SyntaxTree) : ∃ table,
    (Table.recordAll [] ((SyntaxTree.statements t).flatMap Statement.defines)).mapM classify =
      .ok table ∧ Table.Lists table t.bound := by
  obtain ⟨table, run, keys, flags⟩ :=
    mapM_classify (Table.recordAll [] ((SyntaxTree.statements t).flatMap Statement.defines))
      fun _ mem => (Table.eq_of_mem_recordAll mem).2
  have names : Table.keys table = (t.bound.map (·.1)).eraseDups := by
    rw [keys, Table.keys_recordAll, SyntaxTree.map_bound]
  have filled {e : String × Classification} (mem : e ∈ table) : e.1 ≠ "" := by
    have key : e.1 ∈ Table.keys table := List.mem_map_of_mem mem
    rw [names, List.mem_eraseDups] at key
    obtain ⟨b, mb, same⟩ := List.mem_map.1 key
    simpa [same] using (List.mem_filter.1 mb).2
  refine ⟨table, run, names, ?_, fun e mem => ?_, fun e mem => ?_⟩
  · rw [keys]
    exact Table.nodup_recordAll (by simp [Table.keys]) _
  · obtain ⟨ds, recorded, types, -⟩ := flags e mem
    rw [types, (Table.eq_of_mem_recordAll recorded).1]
    exact any_definitionsOf (filled mem) DefinitionKind.isType _ DefinitionKind.isType_classification
  · obtain ⟨ds, recorded, -, values⟩ := flags e mem
    rw [values, (Table.eq_of_mem_recordAll recorded).1]
    exact any_definitionsOf (filled mem) DefinitionKind.isValue _ DefinitionKind.isValue_classification

/-- The globals of a module are the names that the statements at its top bind, each once and
with all that they make of it. What stands further inside and what was there before is
not seen, no name is left without classification, and a script has no globals. -/
theorem globals_of_read {options : SourceOptions} {text : String} {u : SourceUnit}
    (accepted : read options text = .ok u) :
    (options.type = .module → ∃ table, u.globals = .ok table ∧ Table.Lists table u.tree.bound) ∧
    (options.type = .script → u.globals = .error .noModuleScope) ∧
    (∀ name, u.globals ≠ .error (.unclassifiable name)) ∧
    ∀ present, ∃ v, read { options with implicitGlobals := present } text = .ok v ∧
      v.globals = u.globals := by
  have ofModule (type : options.type = .module) :
      ∃ table, u.globals = .ok table ∧ Table.Lists table u.tree.bound := by
    rw [globals_module accepted type]
    exact lists_bound u.tree
  refine ⟨ofModule, globals_script accepted, fun name => ?_, globals_congr accepted⟩
  cases type : options.type with
  | module =>
    obtain ⟨table, run, -⟩ := ofModule type
    rw [run]
    nofun
  | script =>
    rw [globals_script accepted type]
    nofun

/-- An interface and a variable of one name, and a namespace with a variable inside. -/
theorem globals_of_read_merged :
    ∃ u, read {} "interface A \x7b \x7d var A: B; namespace N.M \x7b var y: A; \x7d" = .ok u ∧
      u.globals = .ok [("A", .typeAndValue), ("N", .typeAndValue)] ∧
      Table.Lists [("A", .typeAndValue), ("N", .typeAndValue)] u.tree.bound := by
  have result : (read {} "interface A \x7b \x7d var A: B; namespace N.M \x7b var y: A; \x7d").toOption.bind
      (·.globals.toOption) = some [("A", .typeAndValue), ("N", .typeAndValue)] := by
    decide +kernel
  cases accepted : read {} "interface A \x7b \x7d var A: B; namespace N.M \x7b var y: A; \x7d" with
  | error e => simp [accepted, Except.toOption] at result
  | ok u =>
    obtain ⟨table, run, lists⟩ := (globals_of_read accepted).1 rfl
    simp only [accepted, Except.toOption, Option.bind_some, run, Option.some.injEq] at result
    exact ⟨u, rfl, result ▸ run, result ▸ lists⟩

end SourceUnit

end ImplicitGlobals
