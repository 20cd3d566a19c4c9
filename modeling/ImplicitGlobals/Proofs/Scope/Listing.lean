import ImplicitGlobals.Proofs.Syntax.Places
import ImplicitGlobals.Proofs.Scope.Globals

/-!
# Tables that list names

What is bound determines the table that lists it, and does not depend on places. Where more is
bound, the table of all is that of the first with the table of the others united into it.
-/

namespace ImplicitGlobals

/-! ### Names without places -/

/-- A bound name put at the start. -/
def unplacedBound (b : Name × Classification) : Name × Classification := (b.1.unplaced, b.2)

/-- What an import clause binds, up to places. -/
theorem ImportClause.binds_unplaced (c : ImportClause) :
    c.unplaced.binds = c.binds.map unplacedBound := by
  obtain ⟨typeOnly, default?, asNamespace?, specifiers⟩ := c
  have further : (specifiers.map ImportSpecifier.unplaced).flatMap
      (fun s => s.name?.toList.map (·, Classification.ofImport (typeOnly || s.typeOnly))) =
      (specifiers.flatMap fun s =>
        s.name?.toList.map (·, Classification.ofImport (typeOnly || s.typeOnly))).map
        unplacedBound := by
    rw [List.flatMap_map, List.map_flatMap]
    refine List.flatMap_congr fun s _ => ?_
    cases name : s.name? <;> simp [ImportSpecifier.unplaced, name, unplacedBound]
  rw [unplaced, binds, binds, further, List.map_append]
  cases default? <;> cases asNamespace? <;> rfl

/-- What a declaration binds, up to places. -/
theorem Declaration.binds_unplaced (d : Declaration) :
    d.unplaced.binds = d.binds.map unplacedBound := by
  cases d with
  | variableList keyword declarators =>
    simp [unplaced, binds, Declarator.unplaced, unplacedBound, List.flatMap_map, List.map_flatMap,
      Function.comp_def]
  | importFrom specifier clause =>
    cases clause with
    | none => rfl
    | some c => exact c.binds_unplaced
  | function name | classType name | interfaceType name | typeAlias name | enumType name
  | importEquals _ name | namespaceExport name =>
    cases name <;> rfl
  | exportNames | exportAssignment | empty => rfl

/-- What a statement binds, up to places. -/
theorem Statement.binds_unplaced (s : Statement) :
    s.unplaced.binds = s.binds.map unplacedBound := by
  cases s with
  | plain head d => exact d.binds_unplaced
  | module head names isGlobal block body =>
    cases names with
    | nil => cases isGlobal <;> rfl
    | cons n more =>
      by_cases ambient : (isGlobal || n.quoted) = true <;>
        simp [unplaced, binds, Name.unplaced, unplacedBound, ambient]

theorem Statement.unplacedAll_eq_map (ss : List Statement) : unplacedAll ss = ss.map unplaced := by
  induction ss with
  | nil => rfl
  | cons s rest ih => rw [unplacedAll, ih, List.map_cons]

/-- What statements bind, as texts. -/
def boundIn (ss : List Statement) : List (String × Classification) :=
  ((ss.flatMap Statement.binds).map fun b => (b.1.text, b.2)).filter (·.1 != "")

/-- What two lists of statements bind is bound in turn. -/
theorem boundIn_append (ss more : List Statement) :
    boundIn (ss ++ more) = boundIn ss ++ boundIn more := by
  simp [boundIn]

theorem boundIn_unplacedAll (ss : List Statement) :
    boundIn (Statement.unplacedAll ss) = boundIn ss := by
  have texts (s : Statement) : (s.unplaced.binds.map fun b => (b.1.text, b.2)) =
      s.binds.map fun b => (b.1.text, b.2) := by
    rw [s.binds_unplaced, List.map_map]
    rfl
  simp only [boundIn, Statement.unplacedAll_eq_map, List.flatMap_map, List.map_flatMap, texts]

namespace SyntaxTree

/-- What a tree binds is bound in its statements. -/
theorem bound_eq (t : SyntaxTree) : t.bound = boundIn t.statements := rfl

/-- Without trivia the statements of a tree are the same, but for places. -/
theorem unplaced_statements_bare (t : SyntaxTree) :
    Statement.unplacedAll t.bare.statements = Statement.unplacedAll t.statements := by
  cases t with
  | leaf a => rfl
  | node kind children => exact Statement.unplaced_ofTrees_bare children

/-- The names at the top are those of the statements without trivia. -/
theorem bound_bare (t : SyntaxTree) : t.bare.bound = t.bound := by
  rw [bound_eq, bound_eq, ← boundIn_unplacedAll, unplaced_statements_bare, boundIn_unplacedAll]

end SyntaxTree

/-! ### What a table lists -/

/-- Two flags make a classification. -/
theorem Classification.eq_of_flags {c d : Classification}
    (types : c.isType = true ↔ d.isType = true)
    (values : c.isValue = true ↔ d.isValue = true) : c = d := by
  cases c <;> cases d <;> simp [isType, isValue] at types values ⊢

namespace Table

variable {a b : Table Classification} {xs ys : List (String × Classification)}

/-- There is one table that lists what is bound. -/
theorem Lists.unique (ha : Lists a xs) (hb : Lists b xs) : a = b := by
  have keys : a.map (·.1) = b.map (·.1) := ha.names.trans hb.names.symm
  have length : a.length = b.length := by simpa using congrArg List.length keys
  refine List.ext_getElem length fun i inA inB => ?_
  have name : a[i].1 = b[i].1 := by
    have same := congrArg (·[i]?) keys
    simpa [inA, inB] using same
  have types := ha.types _ (List.getElem_mem inA)
  have values := ha.values _ (List.getElem_mem inA)
  rw [name] at types values
  exact Prod.ext name (Classification.eq_of_flags
    (types.trans (hb.types _ (List.getElem_mem inB)).symm)
    (values.trans (hb.values _ (List.getElem_mem inB)).symm))

/-! ### Uniting tables -/

end Table

/-- All that either one is. -/
def Classification.unite (c d : Classification) : Classification :=
  (ofFlags? (c.isType || d.isType) (c.isValue || d.isValue)).getD c

theorem Classification.isType_unite (c d : Classification) :
    (c.unite d).isType = (c.isType || d.isType) := by
  cases c <;> cases d <;> rfl

theorem Classification.isValue_unite (c d : Classification) :
    (c.unite d).isValue = (c.isValue || d.isValue) := by
  cases c <;> cases d <;> rfl

namespace Table

variable {a b : Table Classification} {xs ys : List (String × Classification)}

/-- The names of the first table with all that they are in either, then those that only the
second one has. -/
def unite (a b : Table Classification) : Table Classification :=
  a.map (fun e => (e.1, ((b.get? e.1).map e.2.unite).getD e.2)) ++ b.filter (!a.contains ·.1)

/-- The keys of a union are those of both, each once. -/
theorem keys_unite (a b : Table Classification) :
    (unite a b).keys = a.keys ++ b.keys.filter (· ∉ a.keys) := by
  have others : (b.filter (!a.contains ·.1)).map (·.1) = (b.map (·.1)).filter (· ∉ a.keys) := by
    rw [List.filter_map]
    congr 2
    funext e
    simp [← contains_iff_mem_keys]
  rw [keys, unite, List.map_append, others]
  simp [keys, Function.comp_def]

/-- Of two lists with duplicates removed the first one comes first. -/
theorem eraseDups_append (xs ys : List String) :
    (xs ++ ys).eraseDups = xs.eraseDups ++ ys.eraseDups.filter (· ∉ xs.eraseDups) := by
  induction ys using List.reverseRecOn with
  | nil => simp
  | append_singleton front y ih =>
    rw [← List.append_assoc, eraseDups_concat, eraseDups_concat, ih]
    by_cases first : y ∈ xs <;> by_cases second : y ∈ front <;>
      simp [first, second, List.filter_append]

theorem eraseDups_eraseDups (xs : List String) : xs.eraseDups.eraseDups = xs.eraseDups := by
  induction xs using List.reverseRecOn with
  | nil => rfl
  | append_singleton front x ih =>
    by_cases known : x ∈ front <;> simp [eraseDups_concat, known, ih]

theorem mem_of_get? {α : Type} {t : Table α} {name : String} {value : α}
    (found : t.get? name = some value) :
    (name, value) ∈ t := by
  induction t with
  | nil => cases found
  | cons p rest ih =>
    rw [get?] at found
    split at found
    next same =>
      subst same
      cases found
      exact List.mem_cons_self
    next => exact List.mem_cons_of_mem _ (ih found)

theorem not_mem_of_get? {α : Type} {t : Table α} {name : String} (none : t.get? name = none) :
    name ∉ t.keys := by
  induction t with
  | nil => exact List.not_mem_nil
  | cons p rest ih =>
    rw [get?] at none
    split at none
    next => cases none
    next other => simpa [keys, Ne.symm other] using ih none

/-- A name that is not listed is not bound. -/
theorem Lists.fresh (h : Lists a xs) {name : String} (fresh : name ∉ a.keys) :
    ∀ x ∈ xs, x.1 ≠ name := by
  rintro x mem rfl
  rw [h.names, List.mem_eraseDups] at fresh
  exact fresh (List.mem_map_of_mem mem)

/-- What either table says of a name, the united one does. -/
theorem flag_unite {flag : Classification → Bool}
    (both : ∀ c d, flag (Classification.unite c d) = (flag c || flag d))
    (ha : Lists a xs) (hb : Lists b ys)
    (inA : ∀ e ∈ a, flag e.2 = true ↔ ∃ x ∈ xs, x.1 = e.1 ∧ flag x.2 = true)
    (inB : ∀ e ∈ b, flag e.2 = true ↔ ∃ y ∈ ys, y.1 = e.1 ∧ flag y.2 = true) :
    ∀ e ∈ unite a b, flag e.2 = true ↔ ∃ x ∈ xs ++ ys, x.1 = e.1 ∧ flag x.2 = true := by
  intro e mem
  simp only [List.mem_append, or_and_right, exists_or]
  rcases List.mem_append.1 mem with mem | mem
  · obtain ⟨e, here, rfl⟩ := List.mem_map.1 mem
    cases found : b.get? e.1 with
    | none =>
      have fresh := hb.fresh (not_mem_of_get? found)
      have none : ¬∃ y ∈ ys, y.1 = e.1 ∧ flag y.2 = true := fun ⟨y, my, same, _⟩ => fresh y my same
      simpa [none] using inA e here
    | some d =>
      have there := inB _ (mem_of_get? found)
      simpa [both] using or_congr (inA e here) there
  · obtain ⟨mem, new⟩ := List.mem_filter.1 mem
    have fresh : ∀ x ∈ xs, x.1 ≠ e.1 :=
      ha.fresh (by simpa [← contains_iff_mem_keys] using new)
    have none : ¬∃ x ∈ xs, x.1 = e.1 ∧ flag x.2 = true := fun ⟨x, mx, same, _⟩ => fresh x mx same
    simpa [none] using inB e mem

/-- Where more is bound, more is united into the table. -/
theorem Lists.unite (ha : Lists a xs) (hb : Lists b ys) : Lists (unite a b) (xs ++ ys) where
  names := by
    rw [keys_unite, List.map_append, eraseDups_append, ← ha.names, ← hb.names]
  distinct := by
    rw [keys_unite]
    refine List.nodup_append.2 ⟨ha.distinct, hb.distinct.sublist List.filter_sublist, ?_⟩
    rintro name inA _ inB rfl
    simpa [inA] using List.of_mem_filter inB
  types := flag_unite Classification.isType_unite ha hb ha.types hb.types
  values := flag_unite Classification.isValue_unite ha hb ha.values hb.values

end Table

end ImplicitGlobals
