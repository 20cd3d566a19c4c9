import ImplicitGlobals.Bundle.Table
import Mathlib.Logic.Relation
import Mathlib.Data.List.Chain
import Mathlib.Data.List.Perm.Subperm
import Mathlib.Data.List.TakeWhile

/-!
# What a bundle resolves to

The references of a table make a graph. A bundle resolves when its references do, and then
to what they resolve to, merged in order, and its own entries. Resolving by way of a path
and a memo finds this table wherever there is one; where there is none it finds a bundle
that is missing or a ring of references that can be reached.
-/

namespace ImplicitGlobals

namespace ModuleTable

variable {t : ModuleTable} {a b name root : String} {path : List String} {memo : Memo}

/-- The module of `a` is in the table and references `b`. -/
def Refers (t : ModuleTable) (a b : String) : Prop := ∃ m, t.get? a = some m ∧ b ∈ m.references

/-- References lead from one bundle to the other, in any number of steps. -/
def Reaches (t : ModuleTable) : String → String → Prop := Relation.ReflTransGen t.Refers

/-- Every bundle that can be reached has its module in the table. -/
def Closed (t : ModuleTable) (name : String) : Prop := ∀ b, t.Reaches name b → t.contains b = true

/-- No bundle that can be reached is reached again from its own references. -/
def Acyclic (t : ModuleTable) (name : String) : Prop :=
  ∀ b, t.Reaches name b → ¬ Relation.TransGen t.Refers b b

/-- The names of a bundle without any memo: what its references resolve to, merged in their
order, and then its own entries. -/
inductive Resolves (t : ModuleTable) : String → BundleTable → Prop where
  | module {name : String} {m : BundleModule} (tables : String → BundleTable)
    (found : t.get? name = some m) (references : ∀ r ∈ m.references, Resolves t r (tables r)) :
    Resolves t name (Table.merge ((m.references.map tables).foldl Table.merge []) m.entries)

/-- A ring of references: each bundle refers to the next, and the last is the first. -/
structure Ring (t : ModuleTable) (chain : List String) : Prop where
  refers : chain.IsChain t.Refers
  long : 2 ≤ chain.length
  closed : chain.head? = chain.getLast?

theorem contains_iff (t : ModuleTable) (name : String) :
    t.contains name = true ↔ ∃ m, t.get? name = some m := by
  simp [contains, get?, ← Option.isSome_iff_exists]

theorem name_of_get? {m : BundleModule} (h : t.get? name = some m) : m.name = name :=
  eq_of_beq (List.find?_some (p := fun m : BundleModule => m.name == name) h)

theorem mem_names_of_refers (h : t.Refers a b) : a ∈ t.names := by
  obtain ⟨m, found, -⟩ := h
  exact List.mem_map.2 ⟨m, List.mem_of_find?_eq_some found, name_of_get? found⟩

/-! ### Resolving without a memo -/

namespace Resolves

theorem unique {x y : BundleTable} (h : t.Resolves name x) (g : t.Resolves name y) : x = y := by
  induction h generalizing y with
  | @module name m tables found _ ih =>
    cases g with
    | @module _ m' tables' found' references' =>
      obtain rfl : m = m' := Option.some.inj (found.symm.trans found')
      rw [List.map_congr_left fun r mem => ih r mem (references' r mem)]

/-- Whatever is reached from a bundle that resolves, resolves. -/
theorem of_reaches {x : BundleTable} (h : t.Resolves name x) (reaches : t.Reaches name b) :
    ∃ y, t.Resolves b y := by
  induction reaches with
  | refl => exact ⟨x, h⟩
  | tail _ refers ih =>
    obtain ⟨y, resolves⟩ := ih
    obtain ⟨m, found, mem⟩ := refers
    cases resolves with
    | @module _ m' tables found' references =>
      obtain rfl : m = m' := Option.some.inj (found.symm.trans found')
      exact ⟨_, references _ mem⟩

theorem contains {x : BundleTable} (h : t.Resolves name x) : t.contains name = true := by
  cases h with
  | module _ found => exact (contains_iff t name).2 ⟨_, found⟩

/-- A bundle on a ring would resolve after itself. -/
theorem not_cyclic {x : BundleTable} (h : t.Resolves name x) :
    ¬ Relation.TransGen t.Refers name name := by
  induction h with
  | @module name m tables found _ ih =>
    intro cycle
    obtain ⟨r, refers, back⟩ := Relation.TransGen.head'_iff.1 cycle
    obtain ⟨m', found', mem⟩ := id refers
    obtain rfl : m = m' := Option.some.inj (found.symm.trans found')
    exact ih r mem (Relation.TransGen.tail' back refers)

theorem closed {x : BundleTable} (h : t.Resolves name x) : t.Closed name := fun _ reaches =>
  have ⟨_, resolves⟩ := h.of_reaches reaches
  resolves.contains

theorem acyclic {x : BundleTable} (h : t.Resolves name x) : t.Acyclic name := fun _ reaches =>
  have ⟨_, resolves⟩ := h.of_reaches reaches
  resolves.not_cyclic

end Resolves

theorem Ring.cyclic {chain : List String} (ring : t.Ring chain) (h : chain.head? = some a) :
    Relation.TransGen t.Refers a a := by
  obtain ⟨refers, long, closed⟩ := ring
  cases chain with
  | nil => cases h
  | cons first rest =>
    cases Option.some.inj h
    cases rest with
    | nil => simp at long
    | cons second more =>
      have last : (second :: more).getLast (List.cons_ne_nil _ _) = a := by
        simpa [List.getLast?_eq_some_getLast] using closed.symm
      obtain ⟨refers, rest⟩ := List.isChain_cons_cons.1 refers
      exact .head' refers (List.relationReflTransGen_of_exists_isChain_cons more rest last)

/-! ### Resolving along a path -/

/-- The path that leads from the root to a bundle: no bundle comes twice before the end. -/
structure Trail (t : ModuleTable) (root : String) (path : List String) (name : String) : Prop where
  refers : (path ++ [name]).IsChain t.Refers
  distinct : path.Nodup
  reached : ∀ b ∈ path ++ [name], t.Reaches root b

/-- The tables of the memo are what their bundles resolve to. -/
def Memo.Valid (t : ModuleTable) (memo : Memo) : Prop :=
  ∀ name table, memo.get? name = some table → t.Resolves name table

/-- The reasons for which a bundle does not resolve. -/
inductive Faulty (t : ModuleTable) (root : String) : Failure → Prop where
  | cyclic {chain : List String} (ring : t.Ring chain) (reached : ∀ b ∈ chain, t.Reaches root b) :
    Faulty t root (.cyclicReference chain)
  | unknown {name : String} (absent : t.get? name = none) (reached : t.Reaches root name) :
    Faulty t root (.unknownBundle name)

/-- A result of which `good` holds, with a valid memo, or a fault. -/
def Outcome {α : Type} (t : ModuleTable) (root : String) (good : α → Prop) :
    Except Failure (α × Memo) → Prop
  | .ok (x, memo) => good x ∧ Memo.Valid t memo
  | .error e => t.Faulty root e

theorem Memo.Valid.insert (h : Memo.Valid t memo) {table : BundleTable}
    (resolves : t.Resolves name table) :
    Memo.Valid t (Table.insert memo name table) := by
  intro other found get
  rw [Table.get?_insert] at get
  split at get
  · next same => exact same ▸ Option.some.inj get ▸ resolves
  · exact h other found get

namespace Trail

/-- A bundle that comes again closes a ring. -/
theorem ring (h : Trail t root path name) (mem : name ∈ path) : t.Ring (ring path name) := by
  obtain ⟨rest, dropped⟩ : ∃ rest, path.dropWhile (· != name) = name :: rest := by
    have first := List.head?_dropWhile_not (· != name) path
    cases dropped : path.dropWhile (· != name) with
    | nil => simpa using List.dropWhile_eq_nil_iff.1 dropped name mem
    | cons x rest => exact ⟨rest, by simpa [dropped] using first⟩
  have suffix : ModuleTable.ring path name <:+ path ++ [name] := by
    obtain ⟨before, split⟩ := List.dropWhile_suffix (l := path) (· != name)
    exact ⟨before, by rw [ModuleTable.ring, ← List.append_assoc, split]⟩
  refine ⟨h.refers.suffix suffix, ?_, ?_⟩ <;> simp [ModuleTable.ring, dropped, List.getLast?_cons]

theorem reached_ring (h : Trail t root path name) :
    ∀ b ∈ ModuleTable.ring path name, t.Reaches root b := by
  intro b mem
  refine h.reached b ?_
  rcases List.mem_append.1 mem with mem | mem
  · exact List.mem_append_left _ ((List.dropWhile_sublist _).subset mem)
  · exact List.mem_append_right _ mem

theorem nodup (h : Trail t root path name) (fresh : name ∉ path) : (path ++ [name]).Nodup := by
  simpa [List.nodup_append, h.distinct] using fun (x : String) mem (same : x = name) =>
      fresh (same ▸ mem)

/-- One step on, to a reference of a bundle that is not on the path yet. -/
theorem step (h : Trail t root path name) (fresh : name ∉ path) (refers : t.Refers name b) :
    Trail t root (path ++ [name]) b where
  refers := List.isChain_append.2 ⟨h.refers, .singleton b, by simpa using refers⟩
  distinct := h.nodup fresh
  reached x mem := by
    rcases List.mem_append.1 mem with mem | mem
    · exact h.reached x mem
    · rw [List.mem_singleton.1 mem]
      exact (h.reached name (by simp)).tail refers

/-- Every bundle on a path refers to the next one. -/
theorem mem_names (h : Trail t root path name) {x : String} (mem : x ∈ path) : x ∈ t.names := by
  obtain ⟨before, after, rfl⟩ := List.append_of_mem mem
  have chain := h.refers
  rw [List.append_assoc] at chain
  have behind := (List.isChain_append.1 chain).2.1
  cases after with
  | nil => exact mem_names_of_refers (List.isChain_cons_cons.1 behind).1
  | cons y more => exact mem_names_of_refers (List.isChain_cons_cons.1 behind).1

/-- A path off which there is a module is shorter than the table. -/
theorem length_lt (h : Trail t root path name) (fresh : name ∉ path) {m : BundleModule}
    (found : t.get? name = some m) : path.length < t.size := by
  have inside : path ++ [name] ⊆ t.names := by
    intro x mem
    rcases List.mem_append.1 mem with mem | mem
    · exact h.mem_names mem
    · rw [List.mem_singleton.1 mem]
      exact List.mem_map.2 ⟨m, List.mem_of_find?_eq_some found, name_of_get? found⟩
  have le := (List.subperm_of_subset (h.nodup fresh) inside).length_le
  rw [List.length_append, names, List.length_map] at le
  exact le

end Trail

/-! ### The outcome of a resolution -/

section

variable {α β : Type} {good : α → Prop}

theorem Outcome.imp {more : α → Prop} {r : Except Failure (α × Memo)} (h : Outcome t root good r)
    (imp : ∀ x, good x → more x) : Outcome t root more r := by
  cases r with
  | error e => exact h
  | ok out => exact ⟨imp _ h.1, h.2⟩

theorem Outcome.bind {more : β → Prop} {r : Except Failure (α × Memo)}
    {f : α × Memo → Except Failure (β × Memo)} (h : Outcome t root good r)
    (next : ∀ x memo, good x → Memo.Valid t memo → Outcome t root more (f (x, memo))) :
    Outcome t root more (r >>= f) := by
  cases r with
  | error e => exact h
  | ok out => exact next _ _ h.1 h.2

end

/-- Merging what the references resolve to, one after the other. -/
theorem outcome_foldlM {refs : List String}
    {resolve : Memo → String → Except Failure (BundleTable × Memo)}
    (each : ∀ r ∈ refs, ∀ memo, Memo.Valid t memo → Outcome t root (t.Resolves r) (resolve memo r))
    (table : BundleTable) (valid : Memo.Valid t memo) :
    Outcome t root
      (fun out => ∃ tables, (∀ r ∈ refs, t.Resolves r (tables r)) ∧
        out = (refs.map tables).foldl Table.merge table)
      (refs.foldlM (fun (table, memo) r => do
        let (referenced, memo) ← resolve memo r
        return (Table.merge table referenced, memo)) (table, memo)) := by
  induction refs generalizing table memo with
  | nil => exact ⟨⟨fun _ => [], nofun, rfl⟩, valid⟩
  | cons r rest ih =>
    rw [List.foldlM_cons, bind_assoc]
    refine (each r List.mem_cons_self memo valid).bind fun first memo resolves valid => ?_
    refine (ih (fun r mem => each r (List.mem_cons_of_mem _ mem)) (table.merge first) valid).imp ?_
    rintro out ⟨tables, resolve, rfl⟩
    -- a bundle that is referenced again resolves to the same table
    refine ⟨fun b => if b = r then first else tables b, fun b mem => ?_, ?_⟩
    · by_cases same : b = r
      · simpa [same] using resolves
      · simpa [same] using resolve b ((List.mem_cons.1 mem).resolve_left same)
    · have others : rest.map (fun b => if b = r then first else tables b) = rest.map tables := by
        refine List.map_congr_left fun b mem => ?_
        split
        · next same => exact resolves.unique (same ▸ resolve b mem)
        · rfl
      simp [others]

/-- Resolving along a path ends in the table of the bundle, or in a fault that is reached from
where the path begins. -/
theorem outcome_resolveFrom {fuel : Nat} (trail : Trail t root path name)
    (valid : Memo.Valid t memo)
    (enough : t.size ≤ fuel + path.length) :
    Outcome t root (t.Resolves name) (t.resolveFrom fuel path memo name) := by
  induction fuel generalizing path memo name with
  | zero =>
    unfold resolveFrom
    split
    · next table known => exact ⟨valid _ _ known, valid⟩
    split
    · next mem => exact .cyclic (trail.ring mem) trail.reached_ring
    · next fresh =>
      cases found : t.get? name with
      | none => exact .unknown found (trail.reached name (by simp))
      -- A path of fresh names is never longer than the table, so the fuel lasts.
      | some m => exact absurd (trail.length_lt fresh found) (by omega)
  | succ fuel ih =>
    unfold resolveFrom
    split
    · next table known => exact ⟨valid _ _ known, valid⟩
    split
    · next mem => exact .cyclic (trail.ring mem) trail.reached_ring
    next fresh =>
    cases found : t.get? name with
    | none => exact .unknown found (trail.reached name (by simp))
    | some m =>
      have inner (r : String) (mem : r ∈ m.references) (memo : Memo) (valid : Memo.Valid t memo) :
          Outcome t root (t.Resolves r) (t.resolveFrom fuel (path ++ [name]) memo r) :=
        ih (trail.step fresh ⟨m, found, mem⟩) valid (by simp; omega)
      refine (outcome_foldlM inner [] valid).bind ?_
      rintro _ memo ⟨tables, resolve, rfl⟩ valid
      have resolves := Resolves.module tables found resolve
      exact ⟨resolves, valid.insert resolves⟩

/-- A resolution from the root on gives the table of the bundle or a fault. -/
theorem resolve_outcome (t : ModuleTable) (name : String) :
    (∃ table, t.resolve name = .ok table ∧ t.Resolves name table) ∨
      ∃ e, t.resolve name = .error e ∧ t.Faulty name e := by
  have trail : Trail t name [] name :=
    ⟨.singleton name, .nil, by simp [Reaches, Relation.ReflTransGen.refl]⟩
  have outcome : Outcome t name (t.Resolves name) (t.resolveFrom t.size [] [] name) :=
    outcome_resolveFrom trail nofun (by simp)
  unfold resolve
  cases run : t.resolveFrom t.size [] [] name with
  | error e => exact .inr ⟨e, rfl, (run ▸ outcome :)⟩
  | ok out => exact .inl ⟨out.1, rfl, (run ▸ outcome).1⟩

/-- A fault keeps a bundle from resolving. -/
theorem Faulty.not_resolves {e : Failure} {table : BundleTable} (fault : t.Faulty name e) :
    ¬ t.Resolves name table := by
  intro resolves
  cases fault with
  | @cyclic chain ring reached =>
    cases all : chain with
    | nil => simpa [all] using ring.long
    | cons first rest =>
      have head : chain.head? = some first := by simp [all]
      exact resolves.acyclic first (reached first (List.mem_of_head? head)) (ring.cyclic head)
  | unknown absent reached =>
    obtain ⟨m, found⟩ := (contains_iff t _).1 (resolves.closed _ reached)
    simp [absent] at found

theorem resolve_eq_ok_iff {table : BundleTable} :
    t.resolve name = .ok table ↔ t.Resolves name table := by
  rcases resolve_outcome t name with ⟨found, run, resolves⟩ | ⟨e, run, fault⟩
  · rw [run]
    exact ⟨fun h => Except.ok.inj h ▸ resolves, fun h => congrArg _ (resolves.unique h)⟩
  · rw [run]
    exact ⟨nofun, fun h => absurd h fault.not_resolves⟩

/-- Where all that is reached is in the table and on no ring, there is no fault. -/
theorem exists_resolves (closed : t.Closed name) (acyclic : t.Acyclic name) :
    ∃ table, t.Resolves name table := by
  rcases resolve_outcome t name with ⟨table, -, resolves⟩ | ⟨e, -, fault⟩
  · exact ⟨table, resolves⟩
  · cases fault with
    | unknown absent reached =>
      obtain ⟨m, found⟩ := (contains_iff t _).1 (closed _ reached)
      simp [absent] at found
    | @cyclic chain ring reached =>
      cases all : chain with
      | nil => simpa [all] using ring.long
      | cons first rest =>
        have head : chain.head? = some first := by simp [all]
        exact absurd (ring.cyclic head) (acyclic first (reached first (List.mem_of_head? head)))

/-- Resolving a bundle succeeds exactly when every bundle that its references reach is in the
table and none of them is on a ring, and then it gives what the bundle resolves to without a
memo. Else it names a ring that is reached, or a bundle that is reached and absent. -/
theorem resolve_spec (t : ModuleTable) (name : String) :
    ((∃ table, t.resolve name = .ok table) ↔ t.Closed name ∧ t.Acyclic name) ∧
    (∀ table, t.resolve name = .ok table ↔ t.Resolves name table) ∧
    (∀ x y, t.Resolves name x → t.Resolves name y → x = y) ∧
    ∀ e, t.resolve name = .error e →
      (∃ chain, e = .cyclicReference chain ∧ t.Ring chain ∧ ∀ b ∈ chain, t.Reaches name b) ∨
      ∃ absent, e = .unknownBundle absent ∧ t.contains absent = false ∧ t.Reaches name absent := by
  simp only [resolve_eq_ok_iff]
  refine ⟨⟨?_, fun h => exists_resolves h.1 h.2⟩, fun _ => trivial, fun _ _ => Resolves.unique, ?_⟩
  · rintro ⟨table, resolves⟩
    exact ⟨resolves.closed, resolves.acyclic⟩
  · intro e run
    rcases resolve_outcome t name with ⟨table, run', -⟩ | ⟨e', run', fault⟩
    · simp [run'] at run
    obtain rfl : e' = e := by simpa [run'] using run
    cases fault with
    | cyclic ring reached => exact .inl ⟨_, rfl, ring, reached⟩
    | unknown absent reached =>
      refine .inr ⟨_, rfl, ?_, reached⟩
      simpa [contains, get?] using absent

end ModuleTable

end ImplicitGlobals
