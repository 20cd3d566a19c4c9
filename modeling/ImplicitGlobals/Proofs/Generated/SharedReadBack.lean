import ImplicitGlobals.Generated.SharedReading
import ImplicitGlobals.Proofs.Bundle.Bindings
import ImplicitGlobals.Proofs.Generated.ReadBack

/-!
# Shared files read back

The index is read as it was written: an import and a row for each bundle. What a row says rests on
the bindings, for a name that two imports bind stands for nothing. The union is read as the list of
its members from either layout, since both put the same literals between the same bars.
-/

namespace ImplicitGlobals

open Text

/-! ### Dotted names -/

namespace Text

/-- Identifier names with dots between them. -/
def IsDotted (name : String) : Prop :=
  ∀ piece ∈ cutAt '.' name.toList, isIdentifierList piece = true

instance (name : String) : Decidable (IsDotted name) := List.decidableBAll _ _

/-- A character of a text is the separator or in one of the pieces. -/
theorem mem_cutAt {separator c : Char} {cs : List Char} (mem : c ∈ cs) :
    c = separator ∨ ∃ piece ∈ cutAt separator cs, c ∈ piece := by
  induction cs with
  | nil => cases mem
  | cons d rest ih =>
    rcases List.mem_cons.1 mem with rfl | later
    · by_cases same : c = separator
      · exact .inl same
      · obtain ⟨piece, more, cut⟩ := List.exists_cons_of_ne_nil (cutAt_ne_nil separator rest)
        exact .inr ⟨c :: piece, by simp [cutAt, same, cut], List.mem_cons_self⟩
    · refine (ih later).imp_right ?_
      rintro ⟨piece, inside, mem⟩
      rw [cutAt]
      split
      · exact ⟨piece, List.mem_cons_of_mem _ inside, mem⟩
      split
      · next cut => exact absurd cut (cutAt_ne_nil separator rest)
      · next first more cut =>
        rw [cut] at inside
        rcases List.mem_cons.1 inside with rfl | inside
        · exact ⟨d :: piece, List.mem_cons_self, List.mem_cons_of_mem _ mem⟩
        · exact ⟨piece, List.mem_cons_of_mem _ inside, mem⟩

/-- A dotted name is exported as a word. -/
theorem IsDotted.isWord {name : String} (dotted : IsDotted name) :
    IsWord (exportIdentifier name) := by
  refine isWord_exportIdentifier_of_parts fun c mem other => ?_
  obtain ⟨piece, cut, inside⟩ := (mem_cutAt mem).resolve_left other
  have identifier := dotted piece cut
  rw [← String.toList_ofList (l := piece)] at identifier inside
  exact isWord_of_isIdentifier identifier c inside

end Text

namespace AggregateEntry

/-- And bound to one. -/
theorem isWord_binding {name : String} (word : IsWord (exportIdentifier name)) :
    IsWord (named name).binding := by
  have either : (named name).binding = rootBinding ∨
      (named name).binding = exportIdentifier name := ite_eq_or_eq ..
  rcases either with same | same
  · rw [same]
    decide
  · rw [same]
    exact word

theorem newline_notMem_importLine {name : String} (word : IsWord (exportIdentifier name)) :
    '\n' ∉ (named name).importLine.toList := by
  have exported : '\n' ∉ (named name).exportName.toList := IsWord.notMem word rfl
  have bound : '\n' ∉ (named name).binding.toList := (isWord_binding word).notMem rfl
  unfold importLine
  split <;> simp [Text.importLine, sibling, Quoted.newline_notMem_quote, exported, bound]

theorem newline_notMem_row {name : String} (word : IsWord (exportIdentifier name)) :
    '\n' ∉ (named name).row.toList := by
  have bound : '\n' ∉ (named name).binding.toList := (isWord_binding word).notMem rfl
  unfold row
  split <;> simp [newline_notMem_propertyKey, bound]

end AggregateEntry

namespace Style

variable {s : Style}

/-- Nothing is read from the banner, as long as the command in it is one line. -/
theorem bannerLine (unbroken : s.banner = true → '\n' ∉ s.regenerate.toList) :
    ∀ l ∈ s.bannerLines, isSilentLine l.toList = true ∧ '\n' ∉ l.toList := by
  unfold bannerLines
  intro l mem
  split at mem
  · next banner =>
    simp only [List.mem_cons, List.not_mem_nil, or_false] at mem
    rcases mem with rfl | rfl | rfl | rfl | rfl
    · decide
    · decide
    · decide
    · have command := unbroken banner
      simp only [String.toList_append]
      refine ⟨rfl, fun mem => command ((List.mem_append.1 mem).resolve_left (by decide))⟩
    · decide
  · cases mem

/-- The lines of a file are those of the banner and its own. -/
theorem cutAt_file (unbroken : s.banner = true → '\n' ∉ s.regenerate.toList) {body : List String}
    (lines : ∀ l ∈ body, '\n' ∉ l.toList) : cutAt '\n' (s.file body).toList =
      s.bannerLines.map String.toList ++ (body.map String.toList ++ [[]]) := by
  have all : ∀ l ∈ s.bannerLines ++ body, '\n' ∉ l.toList :=
    List.forall_mem_append.2 ⟨fun l mem => (bannerLine unbroken l mem).2, lines⟩
  rw [file, cutAt_unlines all, List.map_append, List.append_assoc]

end Style

/-! ### The lines of the index -/

namespace IndexImport

/-- The import of a bundle. -/
def named (name : String) : IndexImport :=
  ⟨exportIdentifier name, (AggregateEntry.named name).binding, name⟩

/-- One name imports and binds the same. -/
theorem names?_word {x : String} (word : IsWord x) :
    names? (x.toList ++ [' ']) = some (x, x) := by
  simp [names?, cutAt_append (word.notMem (d := ' ') rfl), cutAt]

/-- A renamed one imports the first and binds the second. -/
theorem names?_as {x y : String} (first : IsWord x) (second : IsWord y) :
    names? ((x ++ " as " ++ y).toList ++ [' ']) = some (x, y) := by
  have line : (x ++ " as " ++ y).toList ++ [' '] =
      x.toList ++ ' ' :: (['a', 's'] ++ ' ' :: (y.toList ++ ' ' :: [])) := by
    simp
  rw [names?, line, cutAt_append (first.notMem rfl), cutAt_append (by decide),
    cutAt_append (second.notMem rfl)]
  simp [cutAt]

/-- The line of an import is read back if its names are. -/
theorem ofLine?_importLine {names : String} (unclosed : '\x7d' ∉ names.toList) (file : String) :
    ofLine? (importLine names file).toList =
      (names? (names.toList ++ [' '])).map fun n => ⟨n.1, n.2, file⟩ := by
  obtain ⟨rest, source, opened, taken, closed, found⟩ := Import.braces_importLine unclosed file
  rw [ofLine?, opened, Option.bind_eq_bind, Option.bind_some, taken, closed]
  cases names? (names.toList ++ [' ']) <;> simp [found]

/-- The line of a named bundle is read back. -/
theorem ofLine?_named {name : String} (word : IsWord (exportIdentifier name)) :
    ofLine? (AggregateEntry.named name).importLine.toList = some (named name) := by
  have exported : IsWord (AggregateEntry.named name).exportName := word
  have bound := AggregateEntry.isWord_binding word
  unfold AggregateEntry.importLine
  split
  · have unclosed : '\x7d' ∉ ((AggregateEntry.named name).exportName ++ " as " ++
        (AggregateEntry.named name).binding).toList := by
      simpa using ⟨exported.notMem rfl, bound.notMem rfl⟩
    rw [ofLine?_importLine unclosed, names?_as exported bound]
    rfl
  · next unaliased =>
    have same : (AggregateEntry.named name).binding = (AggregateEntry.named name).exportName := by
      simpa [AggregateEntry.isAliased] using unaliased
    rw [ofLine?_importLine (bound.notMem rfl), names?_word bound, Option.map_some, same, named,
      same]
    rfl

end IndexImport

namespace IndexRow

/-- The row of a bundle. -/
def named (name : String) : IndexRow := ⟨name, (AggregateEntry.named name).binding⟩

/-- A row with its own key is read back. -/
theorem ofLine?_short {x : String} (word : IsWord x) :
    ofLine? ("  " ++ x ++ ",").toList = some ⟨x, x⟩ := by
  have line : ("  " ++ x ++ ",").toList = "  ".toList ++ (x.toList ++ ',' :: []) := by simp
  have unquoted : (x.toList ++ [',']).head? ≠ some '\'' := by
    cases all : x.toList with
    | nil => simp
    | cons c more => simpa using word.ne (c := c) (d := '\'') (by simp [all]) rfl
  rw [ofLine?, line, after?_append, Option.bind_eq_bind, Option.bind_some,
    key?_word word rfl (by decide), Option.bind_eq_bind, Option.bind_some]
  simp only [if_true, if_neg unquoted, String.ofList_toList]

/-- A row with a quoted key is read back. -/
theorem ofLine?_long {x : String} (word : IsWord x) (key : String) :
    ofLine? ("  " ++ propertyKey key ++ ": " ++ x ++ ",").toList = some ⟨key, x⟩ := by
  have line : ("  " ++ propertyKey key ++ ": " ++ x ++ ",").toList =
      "  ".toList ++ ((propertyKey key).toList ++ ':' :: ' ' :: (x.toList ++ [','])) := by
    simp
  have behind : after? ": " (':' :: ' ' :: (x.toList ++ [','])) = some (x.toList ++ [',']) := by
    simp [after?]
  rw [ofLine?, line, after?_append, Option.bind_eq_bind, Option.bind_some]
  simp [key?_propertyKey, behind, Row.last?_word word]

/-- The short form is for bundles that are called like their bindings. -/
theorem ofLine?_named {name : String} (word : IsWord (exportIdentifier name)) :
    ofLine? (AggregateEntry.named name).row.toList = some (named name) := by
  have bound := AggregateEntry.isWord_binding word
  unfold AggregateEntry.row
  split
  · next same =>
    have same : name = (AggregateEntry.named name).binding := same
    rw [ofLine?_short bound, named, ← same]
  · exact ofLine?_long bound name

end IndexRow

namespace IndexFile

/-- Silent lines say nothing. -/
theorem ofLines?_silent {ls : List String} (silent : ∀ l ∈ ls, isSilentLine l.toList = true)
    (more : List (List Char)) : ofLines? (ls.map String.toList ++ more) = ofLines? more := by
  induction ls with
  | nil => rfl
  | cons l rest ih =>
    rw [List.map_cons, List.cons_append, ofLines?, if_pos (silent l List.mem_cons_self),
      ih fun x mem => silent x (List.mem_cons_of_mem _ mem)]

variable {names : List String} (words : ∀ name ∈ names, IsWord (exportIdentifier name))
include words

/-- The lines of the imports are read back. -/
theorem ofLines?_imports {more : List (List Char)} {f : IndexFile}
    (read : ofLines? more = some f) :
    ofLines? ((names.map fun name => (AggregateEntry.named name).importLine.toList) ++ more) =
      some { f with imports := names.map .named ++ f.imports } := by
  induction names with
  | nil => exact read
  | cons name rest ih =>
    have line := IndexImport.ofLine?_named (words name List.mem_cons_self)
    have silent : isSilentLine (AggregateEntry.named name).importLine.toList = false :=
      isSilentLine_importLine _ _
    have other : (AggregateEntry.named name).importLine.toList ≠ "const lib = \x7b".toList := by
      have none : IndexImport.ofLine? "const lib = \x7b".toList = none := by decide
      intro same
      rw [same, none] at line
      cases line
    rw [List.map_cons, List.cons_append, ofLines?, silent, if_neg Bool.false_ne_true, if_neg other,
      line, ih fun x mem => words x (List.mem_cons_of_mem _ mem)]
    rfl

/-- The rows of the table are read back. -/
theorem ofTable?_rows :
    ofTable? ((names.map fun name => (AggregateEntry.named name).row.toList) ++
      closing.map String.toList) = some ⟨[], names.map .named⟩ := by
  have inside : ∀ l ∈ names.map fun name => (AggregateEntry.named name).row.toList,
      (after? "  " l).isSome = true := by
    intro l mem
    obtain ⟨name, -, rfl⟩ := List.mem_map.1 mem
    unfold AggregateEntry.row
    split <;> simp [after?]
  have read : (names.map fun name => (AggregateEntry.named name).row.toList).mapM
      IndexRow.ofLine? = some (names.map .named) := by
    rw [List.mapM_map]
    exact mapM_eq_some fun name mem => IndexRow.ofLine?_named (words name mem)
  have outside : (closing.map String.toList).takeWhile (fun l => (after? "  " l).isSome) = [] ∧
      (closing.map String.toList).dropWhile (fun l => (after? "  " l).isSome) =
        closing.map String.toList := by
    decide
  rw [ofTable?, List.takeWhile_append_of_pos inside, List.dropWhile_append_of_pos inside,
    outside.1, outside.2, List.append_nil, read]
  rfl

end IndexFile

/-! ### What the rows say -/

namespace IndexFile

variable {f : IndexFile}

/-- With distinct bindings each one has its own source. -/
theorem source?_eq_some (distinct : (f.imports.map (·.binding)).Nodup) {source : IndexImport}
    (mem : source ∈ f.imports) : f.source? source.binding = some source := by
  obtain ⟨before, behind, all⟩ := List.append_of_mem mem
  rw [all, List.map_append, List.map_cons] at distinct
  obtain ⟨-, later, apart⟩ := List.nodup_append.1 distinct
  have first : before.filter (·.binding = source.binding) = [] := by
    refine List.filter_eq_nil_iff.2 fun i inside same => ?_
    exact apart _ (List.mem_map_of_mem inside) _ List.mem_cons_self (of_decide_eq_true same)
  have last : behind.filter (·.binding = source.binding) = [] := by
    refine List.filter_eq_nil_iff.2 fun i inside same => ?_
    rw [← of_decide_eq_true same] at later
    exact (List.nodup_cons.1 later).1 (List.mem_map_of_mem inside)
  have only : f.imports.filter (·.binding = source.binding) = [source] := by
    rw [all, List.filter_append, first, List.filter_cons_of_pos (by simp), last, List.nil_append]
  rw [source?, only]

/-- A name that two imports bind stands for nothing. -/
theorem source?_eq_none {first second : IndexImport} (other : first ≠ second)
    (memFirst : first ∈ f.imports) (memSecond : second ∈ f.imports)
    (same : first.binding = second.binding) : f.source? first.binding = none := by
  have inFirst : first ∈ f.imports.filter (·.binding = first.binding) :=
    List.mem_filter.2 ⟨memFirst, by simp⟩
  have inSecond : second ∈ f.imports.filter (·.binding = first.binding) :=
    List.mem_filter.2 ⟨memSecond, by simp [same]⟩
  unfold source?
  split
  · next source only =>
    rw [only] at inFirst inSecond
    exact absurd ((List.mem_singleton.1 inFirst).trans (List.mem_singleton.1 inSecond).symm) other
  · rfl

/-- The imports and rows of bundles, read together: each name stands for the export of its own
file, unless the root meets a bundle that is called like its binding. -/
theorem mapM_pair?_named {names : List String} (distinct : names.Nodup)
    (apart : (names.map exportIdentifier).Nodup) :
    (names.map IndexRow.named).mapM
        (pair? ⟨names.map IndexImport.named, names.map IndexRow.named⟩) =
      if "lib" ∈ names ∧ "libBase" ∈ names then none
      else some (names.map fun name => ⟨name, name, exportIdentifier name⟩) := by
  rw [List.mapM_map]
  split
  · next met =>
    obtain ⟨root, base⟩ := met
    refine mapM_eq_none root ?_
    have other : IndexImport.named "lib" ≠ IndexImport.named "libBase" := by decide
    have unbound : source? ⟨names.map .named, names.map .named⟩ _ = none :=
      source?_eq_none other (List.mem_map_of_mem root) (List.mem_map_of_mem base) (by decide)
    exact Option.map_eq_none_iff.2 unbound
  · next unmet =>
    have bindings : ((names.map IndexImport.named).map (·.binding)).Nodup := by
      rw [List.map_map]
      exact (Aggregate.nodup_binding_iff distinct).2 ⟨apart, unmet⟩
    refine mapM_eq_some fun name mem => ?_
    have bound := source?_eq_some (f := ⟨names.map .named, names.map .named⟩) bindings
      (List.mem_map_of_mem mem)
    exact Option.map_eq_some_iff.2 ⟨_, bound, rfl⟩

end IndexFile

/-! ### The members of the union -/

namespace Text

/-- Lines that were cut apart are put together again. -/
theorem intercalate_lines (ls : List String) :
    ['\n'].intercalate (ls.map String.toList ++ [[]]) = (unlines ls).toList := by
  induction ls with
  | nil => rfl
  | cons l rest ih =>
    rw [List.map_cons, List.cons_append, List.intercalate_cons_of_ne_nil (by simp), ih]
    simp [unlines]

end Text

namespace Union

/-- The members behind the first bar, with `gap` before every other bar, and the semicolon. -/
def listed (gap : List Char) : List String → List Char
  | [] => [';']
  | [name] => (Quoted.quote name).toList ++ [';']
  | name :: rest => (Quoted.quote name).toList ++ (gap ++ '|' :: ' ' :: listed gap rest)

theorem member?_quote (name : String) {gap : List Char} (blank : ∀ c ∈ gap, isGap c = true)
    {c : Char} (other : isGap c = false) (rest : List Char) :
    member? ((Quoted.quote name).toList ++ (gap ++ c :: rest)) = some (name, c :: rest) := by
  have start : ((Quoted.quote name).toList ++ (gap ++ c :: rest)).dropWhile isGap =
      (Quoted.quote name).toList ++ (gap ++ c :: rest) := by
    rw [Quoted.toList_quote, List.cons_append, List.dropWhile_cons_of_neg (by decide)]
  rw [member?, start, Quoted.read?_quote, Option.map_some, List.dropWhile_append_of_pos blank,
    List.dropWhile_cons_of_neg (by simp [other]), String.ofList_toList]

/-- The last member of a union is read back. -/
theorem members?_last (name : String) (rest : List Char) :
    members? ((Quoted.quote name).toList ++ ';' :: rest) = some ([name], rest) := by
  have read : member? ((Quoted.quote name).toList ++ ';' :: rest) = some (name, ';' :: rest) :=
    member?_quote name (List.forall_mem_nil _) (by decide) rest
  unfold members?
  split <;> simp_all

/-- A member in front of others is read back. -/
theorem members?_cons (name : String) {gap : List Char} (blank : ∀ c ∈ gap, isGap c = true)
    (rest : List Char) :
    members? ((Quoted.quote name).toList ++ (gap ++ '|' :: rest)) =
      (members? rest).map fun r => (name :: r.1, r.2) := by
  have read := member?_quote name blank (c := '|') (by decide) rest
  rw [members?]
  split <;> simp_all

theorem members?_blank (rest : List Char) : members? (' ' :: rest) = members? rest := by
  have skipped : member? (' ' :: rest) = member? rest := rfl
  rw [members?, members?, skipped]

/-- Members are read as they were written, whatever the gap between them. -/
theorem members?_listed {gap : List Char} (blank : ∀ c ∈ gap, isGap c = true) {names : List String}
    (some : names ≠ []) (rest : List Char) :
    members? (listed gap names ++ rest) = .some (names, rest) := by
  induction names with
  | nil => exact absurd rfl some
  | cons name more ih =>
    cases more with
    | nil => simpa [listed] using members?_last name rest
    | cons second more =>
      have others := ih (List.cons_ne_nil _ _)
      rw [listed, List.append_assoc, List.append_assoc, List.cons_append, List.cons_append,
        members?_cons name blank, members?_blank, others]
      · rfl
      · simp

/-- One line of members. -/
theorem toList_intercalate_bars {names : List String} (some : names ≠ []) :
    (" | ".intercalate (names.map Quoted.quote) ++ ";").toList = listed [' '] names := by
  induction names with
  | nil => exact absurd rfl some
  | cons name more ih =>
    cases more with
    | nil => simp [listed]
    | cons second more =>
      rw [listed, ← ih (List.cons_ne_nil _ _)]
      · simp [String.intercalate_cons_cons]
      · simp

/-- One member a line. -/
theorem toList_memberLines {names : List String} (some : names ≠ []) :
    (unlines (Aggregate.memberLines (names.map Quoted.quote))).toList =
      "  | ".toList ++ (listed ['\n', ' ', ' '] names ++ ['\n']) := by
  induction names with
  | nil => exact absurd rfl some
  | cons name more ih =>
    cases more with
    | nil => simp [listed, Aggregate.memberLines, unlines]
    | cons second more =>
      have others := ih (List.cons_ne_nil _ _)
      rw [List.map_cons] at others ⊢
      simp_all [listed, Aggregate.memberLines, unlines]

/-- The text of a union: the literals with bars between, from one layout or the other. -/
theorem toList_unionLines {names : List String} (some : names ≠ []) : ∃ start gap,
    (start = [' '] ∨ start = "\n  | ".toList) ∧ (∀ c ∈ gap, isGap c = true) ∧
    (unlines (Aggregate.unionLines (names.map Quoted.quote))).toList =
      "type Lib =".toList ++ (start ++ (listed gap names ++ ['\n'])) := by
  unfold Aggregate.unionLines
  rw [if_neg (by simpa using some)]
  dsimp only
  split
  · refine ⟨_, [' '], .inl rfl, by simp [isGap], ?_⟩
    rw [← toList_intercalate_bars some]
    simp [unlines]
  · refine ⟨_, ['\n', ' ', ' '], .inr rfl, by simp [isGap], ?_⟩
    have members := toList_memberLines some
    simp_all [unlines]

/-- Members begin with a literal. -/
theorem exists_listed_eq (gap : List Char) {names : List String} (some : names ≠ []) :
    ∃ cs, listed gap names = '\'' :: cs := by
  match names with
  | [name] => exact ⟨_, by rw [listed, Quoted.toList_quote, List.cons_append]⟩
  | name :: second :: more =>
    refine ⟨Quoted.encode name.toList ++ ['\''] ++
      (gap ++ '|' :: ' ' :: listed gap (second :: more)), ?_⟩
    rw [listed, Quoted.toList_quote, List.cons_append]
    simp

/-- The type is read from either layout. -/
theorem type?_unionLines (names : List String) (rest : List Char) : ∃ type,
    after? "type Lib =" ((unlines (Aggregate.unionLines (names.map Quoted.quote))).toList ++ rest) =
      some type ∧ type? type = some (names, '\n' :: rest) := by
  by_cases empty : names = []
  · subst empty
    exact ⟨" never;\n".toList ++ rest, by simp [Aggregate.unionLines, unlines, after?], by
      simp [type?, after?, isGap]⟩
  obtain ⟨start, gap, layout, blank, text⟩ := toList_unionLines empty
  obtain ⟨cs, first⟩ := exists_listed_eq gap empty
  have read := members?_listed blank empty ('\n' :: rest)
  rw [first, List.cons_append] at read
  refine ⟨start ++ ('\'' :: (cs ++ '\n' :: rest)), ?_, ?_⟩
  · rw [text, first, List.append_assoc, after?_append]
    simp
  rcases layout with rfl | rfl
  · have skipped : ([' '] ++ ('\'' :: (cs ++ '\n' :: rest))).dropWhile isGap =
        '\'' :: (cs ++ '\n' :: rest) := rfl
    rw [type?, skipped]
    simpa [after?] using read
  · have skipped : ("\n  | ".toList ++ ('\'' :: (cs ++ '\n' :: rest))).dropWhile isGap =
        '|' :: ' ' :: '\'' :: (cs ++ '\n' :: rest) := rfl
    rw [type?, skipped]
    simpa [after?, members?_blank] using read

theorem newline_notMem_listed {gap : List Char} (names : List String) (unbroken : '\n' ∉ gap) :
    '\n' ∉ listed gap names := by
  fun_induction listed gap names with
  | case1 => decide
  | case2 => simp [Quoted.newline_notMem_quote]
  | case3 name rest _ ih => simp [Quoted.newline_notMem_quote, unbroken, ih]

end Union

/-! ### The texts -/

namespace Aggregate

variable {a : Aggregate} {s : Style}

theorem newline_notMem_memberLines (names : List String) :
    ∀ l ∈ memberLines (names.map Quoted.quote), '\n' ∉ l.toList := by
  induction names with
  | nil => simp [memberLines]
  | cons name more ih =>
    cases more with
    | nil => simp [memberLines, Quoted.newline_notMem_quote]
    | cons second more =>
      rw [List.map_cons] at ih ⊢
      simpa [memberLines, Quoted.newline_notMem_quote] using ih

theorem newline_notMem_unionLines (names : List String) :
    ∀ l ∈ unionLines (names.map Quoted.quote), '\n' ∉ l.toList := by
  unfold unionLines
  split
  · simp
  next some =>
  dsimp only
  split
  · have line : '\n' ∉ Union.listed [' '] names := Union.newline_notMem_listed names (by decide)
    rw [← Union.toList_intercalate_bars (by simpa using some)] at line
    simpa using line
  · simpa using newline_notMem_memberLines names

/-- The first line of a union says something. -/
theorem exists_unionLines_eq (members : List String) : ∃ first more,
    unionLines members = first :: more ∧ isSilentLine first.toList = false := by
  unfold unionLines
  split
  · exact ⟨_, _, rfl, by decide⟩
  dsimp only
  split
  · exact ⟨_, _, rfl, by simp [isSilentLine, after?]⟩
  · exact ⟨_, _, rfl, by decide⟩

/-- The union of an aggregate is read as its names. -/
theorem ofText?_typesText (unbroken : s.banner = true → '\n' ∉ s.regenerate.toList) :
    Union.ofText? (a.typesText s) = some a.names := by
  have silent : ∀ cs ∈ s.bannerLines.map String.toList, isSilentLine cs = true :=
    List.forall_mem_map.2 fun l mem => (Style.bannerLine unbroken l mem).1
  have lines := List.forall_mem_append.2 ⟨newline_notMem_unionLines a.names,
    (by decide : ∀ l ∈ ["", "export \x7b Lib \x7d;"], '\n' ∉ l.toList)⟩
  obtain ⟨first, more, all, unsilent⟩ := exists_unionLines_eq (a.names.map Quoted.quote)
  have kept (behind : List String) :
      ((unionLines (a.names.map Quoted.quote) ++ behind).map String.toList ++
        [[]]).dropWhile isSilentLine =
      (unionLines (a.names.map Quoted.quote) ++ behind).map String.toList ++ [[]] := by
    rw [all, List.cons_append, List.map_cons, List.cons_append,
      List.dropWhile_cons_of_neg (by simp [unsilent])]
  have text : (unlines (unionLines (a.names.map Quoted.quote) ++
      ["", "export \x7b Lib \x7d;"])).toList =
      (unlines (unionLines (a.names.map Quoted.quote))).toList ++
        "\nexport \x7b Lib \x7d;\n".toList := by
    simp [unlines]
  obtain ⟨type, opened, read⟩ := Union.type?_unionLines a.names "\nexport \x7b Lib \x7d;\n".toList
  rw [Union.ofText?, typesText, Style.cutAt_file unbroken lines,
    List.dropWhile_append_of_pos silent, kept, intercalate_lines, text, opened,
    Option.bind_eq_bind, Option.bind_some, read]
  rfl

/-- The index of some bundles is read as their imports and rows. -/
theorem ofText?_indexText {names : List String} (named : a.entries = names.map .named)
    (words : ∀ name ∈ names, IsWord (exportIdentifier name))
    (unbroken : s.banner = true → '\n' ∉ s.regenerate.toList) :
    IndexFile.ofText? (a.indexText s) = some ⟨names.map .named, names.map .named⟩ := by
  have lines : ∀ l ∈ a.entries.map (·.importLine) ++ ["", "const lib = \x7b"] ++
      a.entries.map (·.row) ++ ["\x7d as const;", "", "export \x7b lib \x7d;"],
        '\n' ∉ l.toList := by
    rw [named]
    simp only [List.forall_mem_append, List.forall_mem_map]
    refine ⟨⟨⟨fun name mem => ?_, by decide⟩, fun name mem => ?_⟩, by decide⟩
    · exact AggregateEntry.newline_notMem_importLine (words name mem)
    · exact AggregateEntry.newline_notMem_row (words name mem)
  have table := IndexFile.ofTable?_rows words
  have opened : IndexFile.ofLines? ("".toList :: "const lib = \x7b".toList ::
      ((names.map fun name => (AggregateEntry.named name).row.toList) ++
        IndexFile.closing.map String.toList)) = some ⟨[], names.map .named⟩ := by
    rw [IndexFile.ofLines?, if_pos (by decide), IndexFile.ofLines?, if_neg (by decide), if_pos rfl,
      table]
  have read := IndexFile.ofLines?_imports words opened
  rw [IndexFile.ofText?, indexText, Style.cutAt_file unbroken lines,
    IndexFile.ofLines?_silent fun l mem => (Style.bannerLine unbroken l mem).1, named]
  simpa [IndexFile.closing, Function.comp_def] using read

variable {catalog : Catalog} {table : ModuleTable}

/-- The shared files of an aggregate, read back. The union holds the names of the bundles. In the
index each bundle stands for what its own file exports, unless the root meets a bundle that is
called like its binding. -/
theorem read_shared (h : ofTable catalog table = .ok a)
    (dotted : ∀ name ∈ a.names, IsDotted name)
    (apart : (a.entries.map (·.exportName)).Nodup)
    (unbroken : s.banner = true → '\n' ∉ s.regenerate.toList) :
    Union.ofText? (a.typesText s) = some a.names ∧
    IndexFile.pairs? (a.indexText s) =
      if "lib" ∈ a.names ∧ "libBase" ∈ a.names then none
      else some (a.entries.map fun e => ⟨e.bundle, e.bundle, e.exportName⟩) := by
  have named : a.entries = catalog.names.map .named := entries_of_ofTable h
  have names : a.names = catalog.names := by
    rw [Aggregate.names, named, List.map_map]
    exact List.map_id _
  refine ⟨ofText?_typesText unbroken, ?_⟩
  rw [names] at dotted ⊢
  rw [named, List.map_map] at apart
  have words : ∀ name ∈ catalog.names, IsWord (exportIdentifier name) :=
    fun name mem => (dotted name mem).isWord
  have distinct : catalog.names.Nodup := catalog.distinct
  rw [IndexFile.pairs?, ofText?_indexText named words unbroken, Option.bind_eq_bind,
    Option.bind_some, named, List.map_map]
  exact IndexFile.mapM_pair?_named distinct apart

/-- The shared files of a catalog with a full variant. -/
theorem read_shared_es2016 : ∃ a,
    ofTable (.ofPairs [("es2016", "lib.es2016.d.ts")])
      (bareTable (.ofPairs [("es2016", "lib.es2016.d.ts")])) = .ok a ∧
    Union.ofText? (a.typesText {}) = some ["es2016", "es2016.full", "lib"] ∧
    IndexFile.pairs? (a.indexText {}) = some [⟨"es2016", "es2016", "es2016"⟩,
      ⟨"es2016.full", "es2016.full", "es2016_full"⟩, ⟨"lib", "lib", "lib"⟩] := by
  have run : ofTable (.ofPairs [("es2016", "lib.es2016.d.ts")])
      (bareTable (.ofPairs [("es2016", "lib.es2016.d.ts")])) =
      .ok ⟨["es2016", "es2016.full", "lib"].map .named⟩ := by decide +kernel
  obtain ⟨union, index⟩ := read_shared (s := {}) run (by decide +kernel) (by decide +kernel)
    (fun _ => by decide)
  refine ⟨_, run, union, index.trans ?_⟩
  decide +kernel

/-- A bundle that is called like the binding of the root: its name is dotted and no other bundle
exports alike, but two imports of the index bind one name. -/
theorem unread_libBase : ∃ a,
    ofTable (.ofPairs [("libBase", "base.d.ts")])
      (bareTable (.ofPairs [("libBase", "base.d.ts")])) = .ok a ∧
    (∀ name ∈ a.names, IsDotted name) ∧ (a.entries.map (·.exportName)).Nodup ∧
    IndexFile.ofText? (a.indexText {}) =
      some ⟨[⟨"libBase", "libBase", "libBase"⟩, ⟨"lib", "libBase", "lib"⟩],
        [⟨"libBase", "libBase"⟩, ⟨"lib", "libBase"⟩]⟩ ∧
    IndexFile.pairs? (a.indexText {}) = none := by
  have read : IndexFile.ofText? (indexText {} ⟨["libBase", "lib"].map .named⟩) =
      some ⟨["libBase", "lib"].map .named, ["libBase", "lib"].map .named⟩ :=
    ofText?_indexText rfl (by decide +kernel) (fun _ => by decide)
  refine ⟨⟨["libBase", "lib"].map .named⟩, by decide +kernel, by decide +kernel, by decide +kernel,
    read.trans (by decide +kernel), ?_⟩
  rw [IndexFile.pairs?, read]
  decide +kernel

end Aggregate

end ImplicitGlobals
