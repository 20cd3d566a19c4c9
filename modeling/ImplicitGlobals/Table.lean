/-!
# Insertion-ordered tables

A table maps names to values and remembers the order in which the names first
came. Writing a name again replaces its value and leaves its place alone.
-/

namespace ImplicitGlobals

/-- Pairs of a name and its value, in the order of first insertion. -/
abbrev Table (α : Type) := List (String × α)

namespace Table

variable {α : Type}

/-- The value stored under `name`. -/
def get? (t : Table α) (name : String) : Option α :=
  match t with
  | [] => none
  | (n, v) :: rest => if n = name then some v else get? rest name

def contains (t : Table α) (name : String) : Bool :=
  t.any (·.1 == name)

def keys (t : Table α) : List String := t.map (·.1)

def values (t : Table α) : List α := t.map (·.2)

/-- Changes the value under `name` by `f`, or adds `fresh` at the end. -/
def alter (t : Table α) (name : String) (f : α → α) (fresh : α) : Table α :=
  match t with
  | [] => [(name, fresh)]
  | (n, v) :: rest => if n = name then (n, f v) :: rest else (n, v) :: alter rest name f fresh

/-- Stores `value` under `name`: in the place of an older value, or at the end. -/
def insert (t : Table α) (name : String) (value : α) : Table α :=
  t.alter name (fun _ => value) value

/-- Drops `name`; the others keep their order. -/
def erase (t : Table α) (name : String) : Table α :=
  t.filter (·.1 != name)

/-- Writes all of `more` into `t`, in order. -/
def merge (t more : Table α) : Table α :=
  more.foldl (fun acc p => acc.insert p.1 p.2) t

/-- The table that writing `pairs` in order leaves. -/
def ofPairs (pairs : List (String × α)) : Table α := merge [] pairs

/-- The place of `name` in the order. -/
def position? (t : Table α) (name : String) : Option Nat :=
  t.findIdx? (·.1 == name)

theorem keys_alter (t : Table α) (name : String) (f : α → α) (fresh : α) :
    (t.alter name f fresh).keys = if name ∈ t.keys then t.keys else t.keys ++ [name] := by
  induction t with
  | nil => simp [alter, keys]
  | cons p rest ih =>
    by_cases h : p.1 = name
    · simp [alter, keys, h]
    · have h' : ¬ name = p.1 := fun e => h e.symm
      simp only [keys] at ih
      by_cases m : name ∈ rest.map (·.1) <;> simp_all [alter, keys]

theorem keys_insert (t : Table α) (name : String) (value : α) :
    (t.insert name value).keys = if name ∈ t.keys then t.keys else t.keys ++ [name] :=
  keys_alter t name _ value

theorem get?_alter (t : Table α) (name other : String) (f : α → α) (fresh : α) :
    (t.alter name f fresh).get? other =
      if name = other then some ((t.get? name).elim fresh f) else t.get? other := by
  induction t with
  | nil => simp [alter, get?]
  | cons p rest ih =>
    by_cases h : p.1 = name
    · subst h; by_cases e : p.1 = other <;> simp [alter, get?, e]
    · by_cases e : name = other
      · subst e; simp_all [alter, get?]
      · simp_all [alter, get?]

theorem get?_insert (t : Table α) (name other : String) (value : α) :
    (t.insert name value).get? other = if name = other then some value else t.get? other := by
  cases h : t.get? name <;> simp [insert, get?_alter, h]

theorem nodup_alter {t : Table α} (h : t.keys.Nodup) (name : String) (f : α → α) (fresh : α) :
    (t.alter name f fresh).keys.Nodup := by
  rw [keys_alter]
  split
  · exact h
  · next absent =>
    refine List.nodup_append.2 ⟨h, by simp, fun a ha b hb e => absent ?_⟩
    rw [List.mem_singleton] at hb
    exact hb ▸ e ▸ ha

theorem nodup_insert {t : Table α} (h : t.keys.Nodup) (name : String) (value : α) :
    (t.insert name value).keys.Nodup := nodup_alter h name _ value

theorem nodup_merge {t : Table α} (h : t.keys.Nodup) (more : Table α) :
    (t.merge more).keys.Nodup := by
  induction more generalizing t with
  | nil => exact h
  | cons p rest ih => exact ih (nodup_insert h p.1 p.2)

theorem nodup_ofPairs (pairs : List (String × α)) : (ofPairs pairs).keys.Nodup :=
  nodup_merge (by simp [keys]) pairs

theorem nodup_erase {t : Table α} (h : t.keys.Nodup) (name : String) :
    (t.erase name).keys.Nodup :=
  List.Nodup.sublist (List.filter_sublist.map _) h

theorem contains_iff_mem_keys (t : Table α) (name : String) :
    t.contains name = true ↔ name ∈ t.keys := by
  simp [contains, keys]

end Table

end ImplicitGlobals
