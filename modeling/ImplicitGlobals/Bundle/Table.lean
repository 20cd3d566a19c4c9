import ImplicitGlobals.Bundle.Module

/-!
# Module tables

The modules of a run, one for each bundle, in the order they were first inserted. A
table resolves a bundle to the names it has with everything it references.
-/

namespace ImplicitGlobals

/-- Puts a module in the place of the one of the same bundle, or at the end. -/
def replaceModule (m : BundleModule) : List BundleModule → List BundleModule
  | [] => [m]
  | x :: rest => if x.name = m.name then m :: rest else x :: replaceModule m rest

theorem names_replaceModule (m : BundleModule) (ms : List BundleModule) :
    (replaceModule m ms).map (·.name) =
      if m.name ∈ ms.map (·.name) then ms.map (·.name) else ms.map (·.name) ++ [m.name] := by
  induction ms with
  | nil => rfl
  | cons x rest ih =>
    by_cases h : x.name = m.name
    · simp [replaceModule, h]
    · have h' : ¬ m.name = x.name := fun e => h e.symm
      by_cases hm : m.name ∈ rest.map (·.name) <;> simp_all [replaceModule]

/-- Modules of distinct bundles. -/
structure ModuleTable where
  modules : List BundleModule
  distinct : (modules.map (·.name)).Nodup
deriving Repr

namespace ModuleTable

def empty : ModuleTable := ⟨[], by simp⟩

instance : Inhabited ModuleTable := ⟨empty⟩

def size (t : ModuleTable) : Nat := t.modules.length

/-- The bundles of the table. -/
def names (t : ModuleTable) : List String := t.modules.map (·.name)

def get? (t : ModuleTable) (name : String) : Option BundleModule :=
  t.modules.find? (·.name == name)

def contains (t : ModuleTable) (name : String) : Bool := t.modules.any (·.name == name)

/-- Adds a module; one of the same bundle is replaced and keeps its place. -/
def insert (t : ModuleTable) (m : BundleModule) : ModuleTable where
  modules := replaceModule m t.modules
  distinct := by
    rw [names_replaceModule]
    split
    · exact t.distinct
    · next absent =>
      refine List.nodup_append.2 ⟨t.distinct, by simp, fun a ha b hb e => absent ?_⟩
      rw [List.mem_singleton] at hb
      exact hb ▸ e ▸ ha

/-- The tables that are resolved already, by bundle. -/
abbrev Memo := Table BundleTable

/-- The part of a path from `name` on, closed to a ring. -/
def ring (path : List String) (name : String) : List String :=
  path.dropWhile (· != name) ++ [name]

/-- Resolves a bundle at the end of a path of references. No bundle comes twice on a
path, so `fuel` need not exceed the number of modules off it. -/
def resolveFrom (t : ModuleTable) (fuel : Nat) (path : List String) (memo : Memo)
    (name : String) : Except Failure (BundleTable × Memo) :=
  match memo.get? name with
  | some table => .ok (table, memo)
  | none =>
    if name ∈ path then .error (.cyclicReference (ring path name))
    else
      match t.get? name, fuel with
      | none, _ | _, 0 => .error (.unknownBundle name)
      | some m, fuel + 1 => do
        let (table, memo) ← m.references.foldlM
          (fun (table, memo) reference => do
            let (referenced, memo) ← resolveFrom t fuel (path ++ [name]) memo reference
            return (Table.merge table referenced, memo))
          (([] : BundleTable), memo)
        let table := Table.merge table m.entries
        return (table, Table.insert memo name table)

/-- The names of a bundle: those of its references in order, then its own. A later
one replaces the classification of an earlier one, which keeps its place. -/
def resolve (t : ModuleTable) (name : String) : Except Failure BundleTable :=
  (t.resolveFrom t.size [] [] name).map (·.1)

end ModuleTable

end ImplicitGlobals
