import ImplicitGlobals.Catalog.Basic
import ImplicitGlobals.Proofs.Generation.Paths
import ImplicitGlobals.Proofs.Scope.Listing
import Mathlib.Data.List.Infix

/-!
# What a catalog is made of

A catalog has the names of its table, each where it comes first, and behind each base its full
variant. A variant that the table lists ahead of its base stays where it is: writing it again gives
it the derived file, and no new place. Deriving a catalog from a catalog changes nothing.
-/

namespace ImplicitGlobals

/-! ### Tables -/

namespace Table

variable {α : Type} {t u : Table α} {name : String}

/-- One more pair is inserted behind the others. -/
theorem ofPairs_concat (pairs : List (String × α)) (p : String × α) :
    ofPairs (pairs ++ [p]) = (ofPairs pairs).insert p.1 p.2 := by
  simp [ofPairs, merge]

/-- The names of a table are those of the pairs, each once. -/
theorem keys_ofPairs (pairs : List (String × α)) : (ofPairs pairs).keys = (keys pairs).eraseDups := by
  induction pairs using List.reverseRecOn with
  | nil => rfl
  | append_singleton front p ih =>
    have names : keys (front ++ [p]) = keys front ++ [p.1] := List.map_append ..
    rw [ofPairs_concat, keys_insert, ih, names, eraseDups_concat]
    simp only [List.mem_eraseDups]

/-- Of all that is written under a name the last stays. -/
theorem get?_ofPairs (pairs : List (String × α)) (name : String) :
    (ofPairs pairs).get? name = get? pairs.reverse name := by
  induction pairs using List.reverseRecOn with
  | nil => rfl
  | append_singleton front p ih =>
    rw [ofPairs_concat, get?_insert, ih, List.reverse_concat, get?]

/-- A new name goes to the end. -/
theorem insert_of_notMem (absent : name ∉ t.keys) (value : α) :
    t.insert name value = t ++ [(name, value)] := by
  induction t with
  | nil => rfl
  | cons p rest ih =>
    rw [keys, List.map_cons, List.mem_cons, not_or] at absent
    have behind := ih absent.2
    rw [insert] at behind
    rw [insert, alter, if_neg (Ne.symm absent.1), behind, List.cons_append]

/-- Pairs with distinct names are a table already. -/
theorem ofPairs_of_nodup (distinct : t.keys.Nodup) : ofPairs t = t := by
  induction t using List.reverseRecOn with
  | nil => rfl
  | append_singleton front p ih =>
    rw [keys, List.map_append, List.nodup_append] at distinct
    have absent : p.1 ∉ keys front := fun mem => distinct.2.2 _ mem _ List.mem_cons_self rfl
    rw [ofPairs_concat, ih distinct.1, insert_of_notMem absent]

/-- With distinct names the last pair of a name is the first one. -/
theorem get?_reverse_of_nodup (distinct : t.keys.Nodup) (name : String) :
    get? t.reverse name = t.get? name := by
  rw [← get?_ofPairs, ofPairs_of_nodup distinct]

/-- A table is cut where its names are. -/
theorem exists_of_keys_eq {front behind : List String} (names : t.keys = front ++ name :: behind) :
    ∃ (a : Table α) (value : α) (b : Table α), t = a ++ (name, value) :: b ∧ a.keys = front ∧ b.keys = behind := by
  obtain ⟨a, rest, rfl, first, second⟩ := List.map_eq_append_iff.1 names
  obtain ⟨⟨name', value⟩, b, rfl, same, last⟩ := List.map_eq_cons_iff.1 second
  exact ⟨a, value, b, by rw [← same], first, last⟩

theorem get?_append (t u : Table α) (name : String) :
    get? (t ++ u) name = (t.get? name).or (u.get? name) := by
  induction t with
  | nil => rfl
  | cons p rest ih =>
    rw [List.cons_append, get?, get?, ih]
    split <;> rfl

theorem get?_of_notMem (absent : name ∉ t.keys) : t.get? name = none := by
  cases found : t.get? name with
  | none => rfl
  | some value => exact absurd (List.mem_map_of_mem (mem_of_get? found)) absent

theorem get?_erase_of_ne {other : String} (different : other ≠ name) (t : Table α) :
    (t.erase other).get? name = t.get? name := by
  induction t with
  | nil => rfl
  | cons p rest ih =>
    rw [erase] at ih
    by_cases same : p.1 = other
    · rw [erase, List.filter_cons_of_neg (by simp [same]), ih, get?, if_neg (same ▸ different)]
    · rw [erase, List.filter_cons_of_pos (by simp [same]), get?, get?, ih]

theorem keys_erase (t : Table α) (name : String) : (t.erase name).keys = t.keys.filter (· != name) := by
  rw [keys, keys, erase, List.filter_map]
  rfl

/-- A table is what it holds under its names, in their order. -/
theorem eq_of_get? (distinct : t.keys.Nodup) (names : t.keys = u.keys)
    (values : ∀ name, t.get? name = u.get? name) : t = u := by
  induction t generalizing u with
  | nil => exact (List.map_eq_nil_iff.1 names.symm).symm
  | cons p t ih =>
    cases u with
    | nil => cases names
    | cons q u =>
      obtain ⟨first, rest⟩ : p.1 = q.1 ∧ keys t = keys u := List.cons.inj names
      obtain ⟨absent, distinct⟩ : p.1 ∉ keys t ∧ (keys t).Nodup := List.nodup_cons.1 distinct
      have value : p.2 = q.2 := by simpa [get?, first] using values p.1
      rw [Prod.ext first value, ih distinct rest fun name => ?_]
      by_cases same : p.1 = name
      · subst same
        rw [get?_of_notMem absent, get?_of_notMem (rest ▸ absent)]
      · have other : q.1 ≠ name := fun is => same (first.trans is)
        simpa [get?, same, other] using values name

/-- What comes first behind other names still does when names are made distinct. -/
theorem exists_eraseDups_append {front : List String} (absent : name ∉ front) (behind : List String) :
    ∃ more, (front ++ name :: behind).eraseDups = front.eraseDups ++ name :: more ∧
      ∀ next rest, behind = next :: rest → next ≠ name → next ∉ front → ∃ more', more = next :: more' := by
  rw [eraseDups_append, List.eraseDups_cons, List.filter_cons_of_pos (by simpa using absent)]
  refine ⟨_, rfl, ?_⟩
  rintro next rest rfl other absent'
  rw [List.filter_cons_of_pos (by simpa using other), List.eraseDups_cons,
    List.filter_cons_of_pos (by simpa using absent')]
  exact ⟨_, rfl⟩

theorem filter_eraseDups (keep : String → Bool) (names : List String) :
    names.eraseDups.filter keep = (names.filter keep).eraseDups := by
  induction names using List.reverseRecOn with
  | nil => rfl
  | append_singleton front name ih =>
    rw [eraseDups_concat, List.filter_append]
    cases kept : keep name <;> by_cases known : name ∈ front <;>
      simp [kept, known, ih, eraseDups_concat, List.filter_append]

end Table

namespace Catalog

variable {pairs : List (String × String)} {name base : String}

/-! ### Bases and their variants -/

/-- The name of a variant ends as the name of no base and not as that of the root. -/
theorem getLast?_fullVariant (base : String) : (fullVariant base).1.toList.getLast? = some 'l' := by
  rw [fullVariant, String.toList_append, List.getLast?_append]
  rfl

/-- A name with a variant does not end as the variants do. -/
theorem getLast?_of_hasFullVariant (has : hasFullVariant name = true) :
    name.toList.getLast? ≠ some 'l' := by
  simp only [hasFullVariant, Bool.and_eq_true, Bool.or_eq_true, beq_iff_eq] at has
  rcases has.2 with rfl | year
  · decide
  · split at year
    · next rest digits =>
      simp only [isYear, Bool.and_eq_true, beq_iff_eq, List.all_eq_true] at year
      intro last
      rw [digits, List.getLast?_cons, List.getLast?_cons] at last
      cases final : rest.getLast? with
      | none => simp [List.getLast?_eq_none_iff.1 final] at year
      | some c =>
        obtain rfl : c = 'l' := by simpa [final] using last
        exact absurd (year.2 _ (List.mem_of_getLast? final)) (by decide)
    · cases year

/-- A variant has no variant of its own. -/
theorem hasFullVariant_fullVariant (base : String) : hasFullVariant (fullVariant base).1 = false := by
  cases has : hasFullVariant (fullVariant base).1 with
  | false => rfl
  | true => exact absurd (getLast?_fullVariant base) (getLast?_of_hasFullVariant has)

theorem fullVariant_ne_root (base : String) : (fullVariant base).1 ≠ Bundle.root.name := by
  intro same
  have last := getLast?_fullVariant base
  rw [same] at last
  exact absurd last (by decide)

/-- A variant is none of the names that have one. -/
theorem fullVariant_ne_of_hasFullVariant (has : hasFullVariant name = true) (base : String) :
    (fullVariant base).1 ≠ name := by
  rintro rfl
  rw [hasFullVariant_fullVariant] at has
  cases has

/-- Different bases have different variants. -/
theorem fullVariant_injective {a b : String} (same : (fullVariant a).1 = (fullVariant b).1) : a = b := by
  have lists := congrArg String.toList same
  simp only [fullVariant, String.toList_append, List.append_cancel_right_eq] at lists
  exact String.toList_inj.1 lists

theorem ne_root_of_hasFullVariant (has : hasFullVariant name = true) : name ≠ Bundle.root.name := by
  rintro rfl
  exact absurd has (by decide)

/-! ### Names with their variants -/

/-- The name and that of its full variant, if there is one. -/
def variantNames (name : String) : List String :=
  name :: if hasFullVariant name then [(fullVariant name).1] else []

/-- Each name with that of its variant behind it. -/
def spread (names : List String) : List String := names.flatMap variantNames

theorem keys_flatMap_withVariant (t : Table String) :
    Table.keys (t.flatMap withVariant) = spread t.keys := by
  have one (entry : String × String) : (withVariant entry).map (·.1) = variantNames entry.1 := by
    rw [withVariant, variantNames]
    split <;> rfl
  simp only [Table.keys, spread, List.map_flatMap, List.flatMap_map, one]

/-- The spread names are the names and the variants of those that have one. -/
theorem mem_spread {names : List String} :
    name ∈ spread names ↔ name ∈ names ∨ ∃ b ∈ names, hasFullVariant b = true ∧ name = (fullVariant b).1 := by
  simp only [spread, variantNames, List.mem_flatMap, List.mem_cons]
  constructor
  · rintro ⟨b, mem, rfl | variant⟩
    · exact .inl mem
    · split at variant
      · next has => exact .inr ⟨b, mem, has, List.mem_singleton.1 variant⟩
      · cases variant
  · rintro (mem | ⟨b, mem, has, rfl⟩)
    · exact ⟨name, mem, .inl rfl⟩
    · exact ⟨b, mem, .inr (by simp [has])⟩

/-- A base is spread only where it is listed. -/
theorem mem_spread_of_hasFullVariant {names : List String} (has : hasFullVariant name = true) :
    name ∈ spread names ↔ name ∈ names := by
  rw [mem_spread, or_iff_left]
  rintro ⟨b, -, -, rfl⟩
  exact fullVariant_ne_of_hasFullVariant has b rfl

/-- A variant is spread only where it or its base is listed. -/
theorem fullVariant_mem_spread {names : List String} (absent : base ∉ names) :
    (fullVariant base).1 ∈ spread names ↔ (fullVariant base).1 ∈ names := by
  rw [mem_spread, or_iff_left]
  rintro ⟨b, mem, -, same⟩
  exact absent (fullVariant_injective same ▸ mem)

/-- Dropping variants from the spread names leaves the names. -/
theorem filter_spread (keep : String → Bool) (names : List String)
    (variants : ∀ b ∈ names, hasFullVariant b = true → keep (fullVariant b).1 = false) :
    (spread names).filter keep = names.filter keep := by
  induction names with
  | nil => rfl
  | cons name rest ih =>
    rw [List.forall_mem_cons] at variants
    have first : (variantNames name).filter keep = [name].filter keep := by
      rw [variantNames]
      cases has : hasFullVariant name with
      | false => rfl
      | true => cases kept : keep name <;> simp [kept, variants.1 has]
    have rest := ih variants.2
    rw [spread] at rest
    rw [spread, List.flatMap_cons, List.filter_append, first, rest, ← List.filter_append,
      List.singleton_append]

/-- Dropping the root and spreading can be done in any order. -/
theorem spread_filter_ne_root (names : List String) :
    spread (names.filter (· != Bundle.root.name)) = (spread names).filter (· != Bundle.root.name) := by
  induction names with
  | nil => rfl
  | cons name rest ih =>
    have others : (variantNames name).filter (· != Bundle.root.name) =
        if name = Bundle.root.name then [] else variantNames name := by
      by_cases root : name = Bundle.root.name
      · subst root
        decide
      · cases has : hasFullVariant name <;>
          simp [variantNames, root, has, fullVariant_ne_root]
    unfold spread at ih ⊢
    rw [List.flatMap_cons, List.filter_append, ← ih, others]
    by_cases root : name = Bundle.root.name <;> simp [root]

/-- To spread names that were spread adds none. -/
theorem eraseDups_spread_spread (names : List String) :
    (spread (spread names).eraseDups).eraseDups = (spread names).eraseDups := by
  induction names using List.reverseRecOn with
  | nil => rfl
  | append_singleton front name ih =>
    have split : spread (front ++ [name]) = spread front ++ variantNames name := by simp [spread]
    have cut (xs ys : List String) : spread (xs ++ ys) = spread xs ++ spread ys := List.flatMap_append ..
    -- of the last name and its variant, what is new is spread into itself
    have again (known : List String) :
        (spread ((variantNames name).eraseDups.filter (· ∉ known))).eraseDups.filter (· ∉ known) =
          (variantNames name).eraseDups.filter (· ∉ known) := by
      have other (has : hasFullVariant name = true) := fullVariant_ne_of_hasFullVariant has name
      have variant := hasFullVariant_fullVariant name
      by_cases has : hasFullVariant name = true <;> by_cases old : name ∈ known <;>
        by_cases old' : (fullVariant name).1 ∈ known <;>
        simp_all [variantNames, spread, List.eraseDups_cons, Ne.symm]
    rw [split, Table.eraseDups_append, cut, Table.eraseDups_append, ih, again]

/-! ### The derived catalog -/

/-- What a catalog is derived from: its own names and files, with the variants behind their bases. -/
def expanded (pairs : List (String × String)) : List (String × String) :=
  (Table.ofPairs pairs).flatMap withVariant

/-- Without the root, the names of the catalog are those of the table with their variants. -/
theorem keys_derive (pairs : List (String × String)) : (derive pairs).keys =
    (spread (Table.keys pairs).eraseDups).eraseDups.filter (· != Bundle.root.name) ++
      [Bundle.root.name] := by
  have absent : Bundle.root.name ∉ ((Table.ofPairs (expanded pairs)).erase Bundle.root.name).keys := by
    simp [Table.keys_erase]
  rw [derive, ← expanded, Table.keys_insert, if_neg absent, Table.keys_erase, Table.keys_ofPairs, expanded,
    keys_flatMap_withVariant, Table.keys_ofPairs]

/-- The root comes last. -/
theorem getLast?_derive (pairs : List (String × String)) :
    (derive pairs).getLast? = some (Bundle.root.name, Bundle.root.file) := by
  rw [derive, Table.insert_of_notMem (by simp [Table.keys_erase]), List.getLast?_concat]

/-- Any other file is looked up among the pairs with their variants. -/
theorem get?_derive_of_ne (other : name ≠ Bundle.root.name) (pairs : List (String × String)) :
    (derive pairs).get? name = Table.get? (expanded pairs).reverse name := by
  rw [derive, Table.get?_insert, if_neg (Ne.symm other), Table.get?_erase_of_ne (Ne.symm other),
    Table.get?_ofPairs, expanded]

theorem get?_derive_root (pairs : List (String × String)) :
    (derive pairs).get? Bundle.root.name = some Bundle.root.file := by
  rw [derive, Table.get?_insert, if_pos rfl]

/-- What a derived table names. -/
theorem mem_keys_derive : name ∈ (derive pairs).keys ↔ name = Bundle.root.name ∨
    name ∈ Table.keys pairs ∨ ∃ b ∈ Table.keys pairs, hasFullVariant b = true ∧ name = (fullVariant b).1 := by
  rw [keys_derive]
  by_cases root : name = Bundle.root.name <;> simp [root, mem_spread]

/-- A base is named exactly if it was listed. -/
theorem mem_keys_of_hasFullVariant (has : hasFullVariant base = true) :
    base ∈ (derive pairs).keys ↔ base ∈ Table.keys pairs := by
  rw [mem_keys_derive, or_iff_right (ne_root_of_hasFullVariant has), or_iff_left]
  rintro ⟨b, -, -, rfl⟩
  exact fullVariant_ne_of_hasFullVariant has b rfl

/-! ### The place of a variant -/

/-- The names that are listed ahead of a name. -/
def ahead (name : String) (names : List String) : List String := names.takeWhile (· != name)

theorem notMem_ahead (name : String) (names : List String) : name ∉ ahead name names := fun mem => by
  simpa using List.mem_takeWhile_imp mem

theorem ahead_append {front : List String} (absent : name ∉ front) (behind : List String) :
    ahead name (front ++ name :: behind) = front := by
  have before : ∀ other ∈ front, (other != name) = true := fun other mem => by
    simpa using fun is : other = name => absent (is ▸ mem)
  rw [ahead, List.takeWhile_append_of_pos before, List.takeWhile_cons_of_neg (by simp), List.append_nil]

/-- A name that is listed divides the list. -/
theorem exists_eq_ahead {names : List String} (mem : name ∈ names) :
    ∃ behind, names = ahead name names ++ name :: behind := by
  have split : names.takeWhile (· != name) ++ names.dropWhile (· != name) = names :=
    List.takeWhile_append_dropWhile
  cases rest : names.dropWhile (· != name) with
  | nil =>
    have all := List.dropWhile_eq_nil_iff.1 rest name mem
    simp at all
  | cons first behind =>
    have stops := List.head?_dropWhile_not (· != name) names
    rw [rest] at split stops
    obtain rfl : first = name := by simpa using stops
    exact ⟨behind, split.symm⟩

/-- In the catalog a base stands behind what is listed ahead of it, and its variant comes next if it
is not among that. -/
theorem exists_keys_derive (has : hasFullVariant base = true) (mem : base ∈ Table.keys pairs) :
    ∃ front behind, (derive pairs).keys = front ++ base :: behind ∧ base ∉ front ∧
      ((fullVariant base).1 ∈ front ↔ (fullVariant base).1 ∈ ahead base (Table.keys pairs)) ∧
      ((fullVariant base).1 ∉ ahead base (Table.keys pairs) → ∃ more, behind = (fullVariant base).1 :: more) := by
  obtain ⟨behind, split⟩ := exists_eq_ahead mem
  have absent := notMem_ahead base (Table.keys pairs)
  generalize ahead base (Table.keys pairs) = front at split absent
  obtain ⟨more, names, -⟩ := Table.exists_eraseDups_append absent behind
  have absent' : base ∉ front.eraseDups := by simpa using absent
  have spreads : spread (front.eraseDups ++ base :: more) =
      spread front.eraseDups ++ base :: (fullVariant base).1 :: spread more := by
    simp [spread, variantNames, has]
  have base' : base ∉ spread front.eraseDups := by rwa [mem_spread_of_hasFullVariant has]
  have variant : (fullVariant base).1 ∈ spread front.eraseDups ↔ (fullVariant base).1 ∈ front := by
    rw [fullVariant_mem_spread absent', List.mem_eraseDups]
  obtain ⟨more', whole, next⟩ := Table.exists_eraseDups_append base' ((fullVariant base).1 :: spread more)
  have keep : base ≠ Bundle.root.name := ne_root_of_hasFullVariant has
  have keep' : (fullVariant base).1 ≠ Bundle.root.name := fullVariant_ne_root base
  refine ⟨(spread front.eraseDups).eraseDups.filter (· != Bundle.root.name),
    more'.filter (· != Bundle.root.name) ++ [Bundle.root.name], ?_, ?_, ?_, fun late => ?_⟩
  · rw [keys_derive, split, names, spreads, whole, List.filter_append,
      List.filter_cons_of_pos (by simpa using keep), List.append_assoc, List.cons_append]
  · exact fun mem => base' (List.mem_eraseDups.1 (List.mem_of_mem_filter mem))
  · rw [List.mem_filter, List.mem_eraseDups, variant, and_iff_left (by simpa using keep')]
  · obtain ⟨rest, rfl⟩ := next _ _ rfl (fullVariant_ne_of_hasFullVariant has base) (mt variant.1 late)
    rw [List.filter_cons_of_pos (by simpa using keep'), List.cons_append]
    exact ⟨_, rfl⟩

/-! ### Files -/

/-- What a base adds for its variant is found under no other name. -/
theorem get?_reverse_flatMap {t : Table String}
    (plain : ∀ b ∈ t.keys, hasFullVariant b = true → name ≠ (fullVariant b).1) :
    Table.get? (t.flatMap withVariant).reverse name = Table.get? t.reverse name := by
  induction t using List.reverseRecOn with
  | nil => rfl
  | append_singleton front e ih =>
    have parts : ∀ b ∈ Table.keys front ++ [e.1], hasFullVariant b = true → name ≠ (fullVariant b).1 := by
      simpa [Table.keys] using plain
    have own : Table.get? (withVariant e).reverse name = Table.get? [e] name := by
      rw [withVariant]
      cases has : hasFullVariant e.1 with
      | false => rfl
      | true =>
        have other := parts e.1 (by simp) has
        simp [Table.get?, Ne.symm other]
    rw [List.flatMap_append, List.reverse_append, List.reverse_append, Table.get?_append, Table.get?_append,
      ih fun b mem => parts b (List.mem_append_left _ mem), List.flatMap_singleton, own]
    rfl

/-- What is no variant of a listed base has the file of its last entry. -/
theorem get?_derive_plain (other : name ≠ Bundle.root.name)
    (plain : ∀ b ∈ Table.keys pairs, hasFullVariant b = true → name ≠ (fullVariant b).1) :
    (derive pairs).get? name = Table.get? pairs.reverse name := by
  have listed : ∀ b ∈ (Table.ofPairs pairs).keys, hasFullVariant b = true → name ≠ (fullVariant b).1 := by
    simpa [Table.keys_ofPairs] using plain
  rw [get?_derive_of_ne other, expanded, get?_reverse_flatMap listed,
    Table.get?_reverse_of_nodup (Table.nodup_ofPairs pairs), Table.get?_ofPairs]

/-- The variant of a listed base has the derived file if it is listed ahead of the base. Else its last
entry counts, if there is one. -/
theorem get?_derive_variant (has : hasFullVariant base = true) (mem : base ∈ Table.keys pairs) :
    (derive pairs).get? (fullVariant base).1 =
      some (if (fullVariant base).1 ∈ ahead base (Table.keys pairs) then (fullVariant base).2
        else (Table.get? pairs.reverse (fullVariant base).1).getD (fullVariant base).2) := by
  obtain ⟨behind, split⟩ := exists_eq_ahead mem
  have absent := notMem_ahead base (Table.keys pairs)
  generalize ahead base (Table.keys pairs) = front at split absent
  obtain ⟨more, names, -⟩ := Table.exists_eraseDups_append absent behind
  have distinct := Table.nodup_ofPairs pairs
  obtain ⟨t, file, u, table, frontKeys, moreKeys⟩ :=
    Table.exists_of_keys_eq (((Table.keys_ofPairs pairs).trans (congrArg _ split)).trans names)
  rw [Table.keys_ofPairs, split, names, ← moreKeys, List.nodup_append] at distinct
  obtain ⟨-, behindDistinct, apart⟩ := distinct
  obtain ⟨once, distinct⟩ := List.nodup_cons.1 behindDistinct
  have plain : ∀ b ∈ Table.keys u, hasFullVariant b = true → (fullVariant base).1 ≠ (fullVariant b).1 :=
    fun b mem _ same => once (fullVariant_injective same ▸ mem)
  have other := fullVariant_ne_of_hasFullVariant has base
  -- The last of the expanded pairs decides, and that is the base's own unless one is listed later.
  have last : Table.get? (expanded pairs).reverse (fullVariant base).1 =
      (Table.get? u (fullVariant base).1).or (some (fullVariant base).2) := by
    have own : withVariant (base, file) = [(base, file), fullVariant base] := by simp [withVariant, has]
    rw [expanded, table, List.flatMap_append, List.flatMap_cons, own]
    simp only [List.reverse_append, Table.get?_append, get?_reverse_flatMap plain,
      Table.get?_reverse_of_nodup distinct]
    cases Table.get? u (fullVariant base).1 <;> simp [Table.get?]
  rw [get?_derive_of_ne (fullVariant_ne_root base), last]
  -- Listed ahead of its base, the variant keeps its place and takes the derived file.
  by_cases early : (fullVariant base).1 ∈ front
  · have absent : (fullVariant base).1 ∉ Table.keys u := fun mem =>
      apart _ (List.mem_eraseDups.2 early) _ (List.mem_cons_of_mem _ mem) rfl
    rw [if_pos early, Table.get?_of_notMem absent, Option.none_or]
  · have absent : (fullVariant base).1 ∉ Table.keys t := by rwa [frontKeys, List.mem_eraseDups]
    rw [if_neg early, ← Table.get?_ofPairs, table, Table.get?_append, Table.get?_of_notMem absent, Option.none_or,
      Table.get?, if_neg (Ne.symm other)]
    cases Table.get? u (fullVariant base).1 <;> rfl

/-! ### Deriving again -/

/-- What a catalog is derived from may be the entries of a catalog. -/
theorem derive_derive (pairs : List (String × String)) : derive (derive pairs) = derive pairs := by
  refine Table.eq_of_get? (nodup_derive _) ?_ fun name => ?_
  · have distinct : (derive pairs).keys.eraseDups = (derive pairs).keys := by
      rw [← Table.keys_ofPairs, Table.ofPairs_of_nodup (nodup_derive pairs)]
    have root : spread [Bundle.root.name] = [Bundle.root.name] := by decide
    have cut (xs ys : List String) : spread (xs ++ ys) = spread xs ++ spread ys := List.flatMap_append ..
    rw [keys_derive, distinct, keys_derive]
    congr 1
    have closed := eraseDups_spread_spread (Table.keys pairs).eraseDups
    generalize (spread (Table.keys pairs).eraseDups).eraseDups = names at closed
    rw [Table.filter_eraseDups, cut, List.filter_append, root, spread_filter_ne_root, List.filter_filter]
    conv_rhs => rw [← closed, Table.filter_eraseDups]
    simp
  · by_cases root : name = Bundle.root.name
    · rw [root, get?_derive_root, get?_derive_root]
    · by_cases variant : ∃ b ∈ (derive pairs).keys, hasFullVariant b = true ∧ name = (fullVariant b).1
      · obtain ⟨b, mem, has, rfl⟩ := variant
        have mem' := (mem_keys_of_hasFullVariant has).1 mem
        obtain ⟨front, behind, split, absent, early, -⟩ := exists_keys_derive has mem'
        rw [get?_derive_variant has mem, Table.get?_reverse_of_nodup (nodup_derive pairs), split,
          ahead_append absent, get?_derive_variant has mem']
        simp only [early]
        split <;> rfl
      · have plain : ∀ b ∈ (derive pairs).keys, hasFullVariant b = true → name ≠ (fullVariant b).1 :=
          fun b mem has is => variant ⟨b, mem, has, is⟩
        rw [get?_derive_plain root plain, Table.get?_reverse_of_nodup (nodup_derive pairs)]

/-- A catalog is its own derivation: made into a catalog again, its names and files give the same
names in the same order with the same files. -/
theorem ofPairs_files (pairs : List (String × String)) : ofPairs (ofPairs pairs).files = ofPairs pairs := by
  simp only [ofPairs, derive_derive]

/-! ### What a catalog promises -/

/-- Whether a listed name is neither the root nor the variant of a listed base. -/
def remains (names : List String) (name : String) : Bool :=
  name != Bundle.root.name && !names.any fun b => hasFullVariant b && (fullVariant b).1 == name

theorem remains_iff {names : List String} : remains names name = true ↔
    name ≠ Bundle.root.name ∧ ∀ b ∈ names, hasFullVariant b = true → name ≠ (fullVariant b).1 := by
  simp only [remains, Bool.and_eq_true, bne_iff_ne, Bool.not_eq_true', List.any_eq_false, beq_iff_eq, not_and]
  exact and_congr_right fun _ => forall₃_congr fun _ _ _ => ne_comm

/-- The names that are neither the root nor a variant stand in the order in which they come first. -/
theorem filter_remains (pairs : List (String × String)) :
    (derive pairs).keys.filter (remains (Table.keys pairs)) =
      (Table.keys pairs).eraseDups.filter (remains (Table.keys pairs)) := by
  have root : remains (Table.keys pairs) Bundle.root.name = false := by simp [remains]
  have others (names : List String) : (names.filter (· != Bundle.root.name)).filter
      (remains (Table.keys pairs)) = names.filter (remains (Table.keys pairs)) := by
    rw [List.filter_filter]
    refine List.filter_congr fun name _ => ?_
    by_cases is : name = Bundle.root.name <;> simp [is, root]
  have variants : ∀ b ∈ (Table.keys pairs).eraseDups, hasFullVariant b = true →
      remains (Table.keys pairs) (fullVariant b).1 = false := fun b mem has => by
    rw [Bool.eq_false_iff, ne_eq, remains_iff]
    exact fun keeps => keeps.2 b (List.mem_eraseDups.1 mem) has rfl
  rw [keys_derive, List.filter_append, List.filter_cons_of_neg (by simp [root]), List.filter_nil, List.append_nil,
    others, Table.filter_eraseDups, filter_spread _ _ variants, ← Table.filter_eraseDups, Table.eraseDups_eraseDups]

/-- A base and its variant are neighbours exactly if the variant is not listed ahead. -/
theorem infix_names_iff (has : hasFullVariant base = true) (mem : base ∈ Table.keys pairs) :
    [base, (fullVariant base).1] <:+: (derive pairs).keys ↔
      (fullVariant base).1 ∉ ahead base (Table.keys pairs) := by
  obtain ⟨front, behind, split, absent, early, next⟩ := exists_keys_derive has mem
  rw [split]
  refine ⟨fun ⟨before, after, is⟩ listed => ?_, fun late => ?_⟩
  · have distinct := nodup_derive pairs
    rw [split] at distinct
    have distinct' := distinct
    rw [← is, List.append_assoc, List.nodup_append] at distinct'
    have once : base ∉ before := fun mem => distinct'.2.2 _ mem _ List.mem_cons_self rfl
    have whole : before ++ base :: (fullVariant base).1 :: after = front ++ base :: behind := by
      simpa using is
    have ahead : before = front := by
      rw [← ahead_append once ((fullVariant base).1 :: after), whole, ahead_append absent]
    rw [ahead, List.append_right_inj, List.cons_inj_right] at whole
    subst whole
    exact (List.nodup_append.1 distinct).2.2 _ (early.2 listed) _ (by simp) rfl
  · obtain ⟨more, rfl⟩ := next late
    exact ⟨front, more, by simp⟩

/-- What a catalog holds, whatever it is made of. Its names are distinct, the root comes last with the
root's file, and every listed name occurs. A base is followed by its full variant unless the
table lists the variant ahead of the base. All other listed names stand in the order in which
they come first and have the file that they are listed with last. -/
theorem ofPairs_spec (pairs : List (String × String)) :
    (ofPairs pairs).names.Nodup ∧
    (ofPairs pairs).bundles.getLast? = some Bundle.root ∧
    (∀ name ∈ Table.keys pairs, name ∈ (ofPairs pairs).names) ∧
    (∀ base ∈ (ofPairs pairs).names, hasFullVariant base = true →
      ([base, (fullVariant base).1] <:+: (ofPairs pairs).names ↔
        (fullVariant base).1 ∉ ahead base (Table.keys pairs))) ∧
    (ofPairs pairs).names.filter (remains (Table.keys pairs)) =
      (Table.keys pairs).eraseDups.filter (remains (Table.keys pairs)) ∧
    ∀ name ∈ Table.keys pairs, remains (Table.keys pairs) name = true →
      (ofPairs pairs).get? name = (Table.get? pairs.reverse name).map (⟨name, ·⟩) := by
  refine ⟨nodup_derive pairs, ?_, fun name mem => mem_keys_derive.2 (.inr (.inl mem)), fun base mem has => ?_,
    filter_remains pairs, fun name mem keeps => ?_⟩
  · rw [bundles, List.getLast?_map, ofPairs, getLast?_derive]
    rfl
  · exact infix_names_iff has ((mem_keys_of_hasFullVariant has).1 mem)
  · obtain ⟨other, plain⟩ := remains_iff.1 keeps
    rw [get?, ofPairs, get?_derive_plain other plain]

/-- A variant that is listed ahead of its base stays there. -/
theorem variant_ahead : (ofPairs [("es2016.full", "a.d.ts"), ("es2016", "b.d.ts")]).bundles =
      [⟨"es2016.full", "lib.es2016.full.d.ts"⟩, ⟨"es2016", "b.d.ts"⟩, Bundle.root] ∧
    hasFullVariant "es2016" = true ∧
    ¬["es2016", "es2016.full"] <:+: (ofPairs [("es2016.full", "a.d.ts"), ("es2016", "b.d.ts")]).names := by
  decide +kernel

end Catalog

end ImplicitGlobals
