import ImplicitGlobals.Generated.Reading
import ImplicitGlobals.Proofs.Bundle.Resolution

/-!
# Generated files read back

The text of a bundle's file is read line by line as it was written: its imports, its name and
its rows. Evaluating the rows merges what the references export and then the entries, so a
file exports what its bundle resolves to.
-/

namespace ImplicitGlobals

open Text

/-- What succeeds everywhere makes a list of its results. -/
theorem mapM_eq_some {α β : Type} {l : List α} {f : α → Option β} {g : α → β}
    (all : ∀ a ∈ l, f a = some (g a)) : l.mapM f = some (l.map g) := by
  induction l with
  | nil => rfl
  | cons a rest ih =>
    rw [List.mapM_cons, all a List.mem_cons_self,
      ih fun b mem => all b (List.mem_cons_of_mem _ mem)]
    rfl

theorem mapM_eq_none {α β : Type} {l : List α} {f : α → Option β} {a : α} (mem : a ∈ l)
    (fails : f a = none) : l.mapM f = none := by
  induction l with
  | nil => cases mem
  | cons b rest ih =>
    rw [List.mapM_cons]
    rcases List.mem_cons.1 mem with rfl | later
    · rw [fails]
      rfl
    · rw [ih later]
      cases f b <;> rfl

/-! ### Pieces of lines -/

namespace Text

/-- Behind its start the rest is found. -/
theorem after?_append (start : String) (cs : List Char) :
    after? start (start.toList ++ cs) = some cs := by
  simp [after?, List.isPrefixOf_iff_prefix]

/-- A text in which the separator does not occur is one piece. -/
theorem cutAt_of_notMem {separator : Char} {cs : List Char} (absent : separator ∉ cs) :
    cutAt separator cs = [cs] := by
  induction cs with
  | nil => rfl
  | cons c rest ih =>
    rw [List.mem_cons, not_or] at absent
    obtain ⟨other, absent⟩ := absent
    rw [cutAt, if_neg (Ne.symm other), ih absent]

theorem cutAt_append {separator : Char} {cs : List Char} (absent : separator ∉ cs)
    (rest : List Char) :
    cutAt separator (cs ++ separator :: rest) = cs :: cutAt separator rest := by
  induction cs with
  | nil => simp [cutAt]
  | cons c more ih =>
    rw [List.mem_cons, not_or] at absent
    obtain ⟨other, absent⟩ := absent
    rw [List.cons_append, cutAt, if_neg (Ne.symm other), ih absent]

/-- A text is cut into its lines, and the empty one behind them. -/
theorem cutAt_unlines {ls : List String} (unbroken : ∀ l ∈ ls, '\n' ∉ l.toList) :
    cutAt '\n' (unlines ls).toList = ls.map String.toList ++ [[]] := by
  induction ls with
  | nil => simp [unlines, cutAt]
  | cons l rest ih =>
    have first : (unlines (l :: rest)).toList = l.toList ++ '\n' :: (unlines rest).toList := by
      simp [unlines]
    rw [first, cutAt_append (unbroken l List.mem_cons_self),
      ih fun l mem => unbroken l (List.mem_cons_of_mem _ mem)]
    rfl

namespace Quoted

/-- Scanning undoes the encoding of a character. -/
theorem scan_encodeChar_append (c : Char) (rest : List Char) :
    scan (encodeChar c ++ rest) = (scan rest).map fun r => (c :: r.1, r.2) := by
  unfold encodeChar
  split
  · next h => simp [scan, unescape, h]
  split
  · next h => simp [scan, unescape, h]
  split
  · next h => simp [scan, unescape, h]
  split
  · next h => simp [scan, unescape, h]
  · next _ backslash _ _ => simp [scan, backslash]

/-- Scanning undoes the encoding of a text, up to the closing quote. -/
theorem scan_encode (cs rest : List Char) : scan (encode cs ++ '\'' :: rest) = some (cs, rest) := by
  induction cs with
  | nil => simp [scan]
  | cons c cs ih => simp [scan_encodeChar_append, ih]

/-- A literal is read as what it was written for. -/
theorem read?_quote (s : String) (rest : List Char) :
    read? ((quote s).toList ++ rest) = some (s.toList, rest) := by
  simp [toList_quote, read?, scan_encode]

theorem newline_notMem_encodeChar (c : Char) : '\n' ∉ encodeChar c := by
  unfold encodeChar
  split_ifs <;> simp_all [eq_comm]

/-- A literal does not break its line. -/
theorem newline_notMem_quote (s : String) : '\n' ∉ (quote s).toList := by
  simp [toList_quote, encode, newline_notMem_encodeChar]

end Quoted

end Text

/-! ### Names and keys -/

/-- Up to its first separator a text is read whole. -/
theorem Text.takeWhile_ne {d : Char} {cs : List Char} (absent : d ∉ cs) (rest : List Char) :
    (cs ++ d :: rest).takeWhile (· != d) = cs ∧
    (cs ++ d :: rest).dropWhile (· != d) = d :: rest := by
  have before : ∀ c ∈ cs, (c != d) = true := fun c mem => bne_iff_ne.2 fun same =>
      absent (same ▸ mem)
  rw [List.takeWhile_append_of_pos before, List.dropWhile_append_of_pos before]
  simp

namespace Text

/-- Names of bundles that need no escape: ASCII letters, digits, `_` and `.`. -/
def IsPlain (name : String) : Prop :=
  ∀ c ∈ name.toList, isAsciiLetter c || isAsciiDigit c || c == '_' || c == '.'

instance (name : String) : Decidable (IsPlain name) := List.decidableBAll _ _

/-- A name of identifier characters alone, which may also be empty. -/
def IsWord (s : String) : Prop := ∀ c ∈ s.toList, isIdentifierPart c = true

instance (s : String) : Decidable (IsWord s) := List.decidableBAll _ _

/-- Dots are all that has to be replaced in a name whose other characters are identifier parts. -/
theorem isWord_exportIdentifier_of_parts {name : String}
    (parts : ∀ c ∈ name.toList, c ≠ '.' → isIdentifierPart c = true) :
    IsWord (exportIdentifier name) := by
  intro c mem
  rw [toList_exportIdentifier] at mem
  obtain ⟨d, inName, rfl⟩ := List.mem_map.1 mem
  split
  · rfl
  · next other => exact parts d inName other

/-- The name a plain bundle is exported by is a word. -/
theorem isWord_exportIdentifier {name : String} (plain : IsPlain name) :
    IsWord (exportIdentifier name) := by
  refine isWord_exportIdentifier_of_parts fun c mem other => ?_
  have known := plain c mem
  simp only [Bool.or_eq_true, beq_iff_eq, other, or_false] at known
  simp only [isIdentifierPart, isIdentifierStart, Bool.or_eq_true, beq_iff_eq]
  rcases known with (letter | digit) | underscore
  · exact .inl (.inl (.inl letter))
  · exact .inr digit
  · exact .inl (.inl (.inr underscore))

/-- Every tag is a word. -/
theorem isWord_tag (c : Classification) : IsWord c.tag := by
  cases c <;> decide

/-- Identifiers are words. -/
theorem isWord_of_isIdentifier {s : String} (h : isIdentifier s = true) : IsWord s := by
  unfold isIdentifier isIdentifierList at h
  intro c mem
  cases all : s.toList with
  | nil => simp [all] at mem
  | cons first rest =>
    rw [all] at h mem
    obtain ⟨start, parts⟩ := Bool.and_eq_true_iff.1 h
    rcases List.mem_cons.1 mem with rfl | mem
    · exact isIdentifierPart_of_start start
    · exact List.all_eq_true.1 parts c mem

/-- A character that is no part of an identifier does not occur in a word. -/
theorem IsWord.ne {s : String} (h : IsWord s) {c d : Char} (mem : c ∈ s.toList)
    (other : isIdentifierPart d = false) : c ≠ d := by
  rintro rfl
  simp [h c mem] at other

theorem IsWord.notMem {s : String} (h : IsWord s) {d : Char} (other : isIdentifierPart d = false) :
    d ∉ s.toList := fun mem => h.ne mem other rfl

/-- A key does not break its line. -/
theorem newline_notMem_propertyKey (name : String) : '\n' ∉ (propertyKey name).toList := by
  unfold propertyKey
  split
  · next identifier => exact (isWord_of_isIdentifier identifier).notMem rfl
  · exact Quoted.newline_notMem_quote name

/-- A key does not begin like a spread row. -/
theorem after?_propertyKey (name : String) (rest : List Char) :
    after? "..." ((propertyKey name).toList ++ rest) = none := by
  have first : ∃ c more, (propertyKey name).toList = c :: more ∧ c ≠ '.' := by
    unfold propertyKey
    split
    · next identifier =>
      have word := isWord_of_isIdentifier identifier
      cases all : name.toList with
      | nil => simp [isIdentifier, all, isIdentifierList] at identifier
      | cons c more => exact ⟨c, more, rfl, word.ne (by simp [all]) rfl⟩
    · exact ⟨_, _, Quoted.toList_quote name, by decide⟩
  obtain ⟨c, more, all, other⟩ := first
  simp [after?, all, Ne.symm other]

/-- A word is read as a key up to what is no part of it. -/
theorem key?_word {s : String} (word : IsWord s) {d : Char} (other : isIdentifierPart d = false)
    (unquoted : d ≠ '\'') (rest : List Char) :
    Row.key? (s.toList ++ d :: rest) = some (s.toList, d :: rest) := by
  have bare : (s.toList ++ d :: rest).head? ≠ some '\'' := by
    cases all : s.toList with
    | nil => simpa using unquoted
    | cons c more => simpa using word.ne (c := c) (d := '\'') (by simp [all]) rfl
  rw [Row.key?, if_neg bare, List.takeWhile_append_of_pos word, List.dropWhile_append_of_pos word,
    List.takeWhile_cons_of_neg (by simp [other]), List.dropWhile_cons_of_neg (by simp [other]),
    List.append_nil]

/-- A key and the colon behind it are read as the key. -/
theorem key?_propertyKey (name : String) (rest : List Char) :
    Row.key? ((propertyKey name).toList ++ ':' :: rest) = some (name.toList, ':' :: rest) := by
  unfold propertyKey
  split
  · next identifier => exact key?_word (isWord_of_isIdentifier identifier) rfl (by decide) rest
  · rw [Row.key?, if_pos (by simp [Quoted.toList_quote]), Quoted.read?_quote]

end Text

/-! ### Lines -/

namespace Import

theorem namesOf_blank (cs : List Char) : namesOf (' ' :: cs) = namesOf cs := by
  cases cut : cutAt ',' cs with
  | nil => exact absurd cut (cutAt_ne_nil ',' cs)
  | cons piece more => simp [namesOf, cutAt, cut]

theorem intercalate_cons (x y : String) (more : List String) :
    (", ".intercalate (x :: y :: more)).toList =
      x.toList ++ ',' :: ' ' :: (", ".intercalate (y :: more)).toList := by
  simp [List.intercalate]

/-- Names with commas between them are read back. -/
theorem namesOf_words {names : List String} (some : names ≠ []) (words : ∀ x ∈ names, IsWord x) :
    namesOf ((", ".intercalate names).toList ++ [' ']) = names := by
  induction names with
  | nil => exact absurd rfl some
  | cons x rest ih =>
    have word := words x List.mem_cons_self
    have kept : x.toList.filter (· != ' ') = x.toList :=
      List.filter_eq_self.2 fun c mem => bne_iff_ne.2 (word.ne mem rfl)
    have uncut : ',' ∉ x.toList := word.notMem rfl
    cases rest with
    | nil =>
      have uncut : ',' ∉ x.toList ++ [' '] := by simpa using uncut
      simp [namesOf, cutAt_of_notMem uncut, kept]
    | cons y more =>
      have others := ih (List.cons_ne_nil _ _) fun z mem => words z (List.mem_cons_of_mem _ mem)
      have first (cs : List Char) : namesOf (x.toList ++ ',' :: cs) = x :: namesOf cs := by
        simp [namesOf, cutAt_append uncut, kept]
      rw [intercalate_cons, List.append_assoc, List.cons_append, first, List.cons_append,
        namesOf_blank, others]

/-- What is neither in the names nor between them is not in the list of them. -/
theorem notMem_intercalate {names : List String} (words : ∀ x ∈ names, IsWord x) {d : Char}
    (other : isIdentifierPart d = false) (separator : d ≠ ',' ∧ d ≠ ' ') :
    d ∉ (", ".intercalate names).toList := by
  induction names with
  | nil => simp
  | cons x rest ih =>
    have word := (words x List.mem_cons_self).notMem other
    cases rest with
    | nil => simpa using word
    | cons y more =>
      have others := ih fun z mem => words z (List.mem_cons_of_mem _ mem)
      rw [intercalate_cons]
      simpa [word, separator] using others

/-- The names stand between the braces of an import, and the file behind them. -/
theorem braces_importLine {names : String} (unclosed : '\x7d' ∉ names.toList) (file : String) :
    ∃ rest source, after? "import \x7b " (importLine names file).toList = some rest ∧
      rest.takeWhile (· != '\x7d') = names.toList ++ [' '] ∧
      after? "\x7d from " (rest.dropWhile (· != '\x7d')) = some source ∧
      fileOf? source = some file := by
  have line : (importLine names file).toList =
      "import \x7b ".toList ++ ((names.toList ++ [' ']) ++
        '\x7d' :: (" from ".toList ++ ((sibling file).toList ++ [';']))) := by
    simp [importLine]
  have unclosed : '\x7d' ∉ names.toList ++ [' '] := by simpa using unclosed
  obtain ⟨taken, dropped⟩ := takeWhile_ne unclosed
      (" from ".toList ++ ((sibling file).toList ++ [';']))
  refine ⟨_, (sibling file).toList ++ [';'], by rw [line, after?_append], taken, ?_, ?_⟩
  · rw [dropped]
    simp [after?]
  · simp [fileOf?, sibling, Quoted.read?_quote, after?]

/-- An import is read as it was written. -/
theorem ofLine?_importLine {names : List String} (some : names ≠ []) (words : ∀ x ∈ names, IsWord x)
    (file : String) :
    ofLine? (importLine (", ".intercalate names) file).toList = .some ⟨names, file⟩ := by
  obtain ⟨rest, source, opened, taken, closed, found⟩ :=
    braces_importLine (notMem_intercalate words rfl (by decide)) file
  rw [ofLine?, opened, Option.bind_eq_bind, Option.bind_some, taken, namesOf_words some words,
    closed, Option.bind_some, found]
  rfl

end Import

theorem isSilentLine_importLine (names file : String) :
    isSilentLine (importLine names file).toList = false := by
  simp [importLine, isSilentLine, after?]

namespace Row

/-- A word in front of a comma is read back. -/
theorem last?_word {s : String} (word : IsWord s) : last? (s.toList ++ [',']) = some s := by
  obtain ⟨taken, dropped⟩ := takeWhile_ne (word.notMem (d := ',') rfl) []
  rw [last?, dropped, taken]
  simp

/-- A line that spreads a bundle is read back. -/
theorem ofLine?_spread {name : String} (word : IsWord name) :
    ofLine? ("  ..." ++ name ++ ",").toList = some (.spread name) := by
  simp [ofLine?, after?, last?_word word]

/-- A line with an entry is read back, whatever its key. -/
theorem ofLine?_entry (key : String) (c : Classification) :
    ofLine? ("  " ++ propertyKey key ++ ": " ++ c.tag ++ ",").toList = some (.entry key c.tag) := by
  have line : ("  " ++ propertyKey key ++ ": " ++ c.tag ++ ",").toList =
      "  ".toList ++ ((propertyKey key).toList ++ ':' :: ' ' :: (c.tag.toList ++ [','])) := by
    simp
  have behind : after? ": " (':' :: ' ' :: (c.tag.toList ++ [','])) =
      some (c.tag.toList ++ [',']) := by
    simp [after?]
  rw [ofLine?, line, after?_append, Option.bind_eq_bind, Option.bind_some, after?_propertyKey]
  simp only [key?_propertyKey, Option.bind_eq_bind, Option.bind_some, behind,
    last?_word (isWord_tag c), Option.pure_def, String.ofList_toList]

/-- Lines that are read back one by one are so together. -/
theorem mapM_ofLine? {α : Type} {l : List α} {line : α → String} {row : α → Row}
    (read : ∀ a ∈ l, ofLine? (line a).toList = some (row a)) :
    ((l.map line).map String.toList).mapM ofLine? = some (l.map row) := by
  rw [List.map_map, List.mapM_map]
  exact mapM_eq_some read

end Row

/-! ### Files -/

namespace BundleModule

/-- What the file of a bundle says. -/
def generated (base : String) (m : BundleModule) : GeneratedFile where
  imports := (if m.usedTags.isEmpty then [] else [⟨m.usedTags.map (·.tag), base⟩]) ++
    m.references.map fun r => ⟨[exportIdentifier r], r⟩
  exportName := m.exportName
  rows := (m.references.map fun r => .spread (exportIdentifier r)) ++
    m.entries.map fun (key, c) => .entry key c.tag

end BundleModule

namespace GeneratedFile

/-- Silent lines say nothing. -/
theorem ofLines?_silent {ls : List String} (silent : ∀ l ∈ ls, isSilentLine l.toList = true)
    (more : List (List Char)) : ofLines? (ls.map String.toList ++ more) = ofLines? more := by
  induction ls with
  | nil => rfl
  | cons l rest ih =>
    rw [List.map_cons, List.cons_append, ofLines?, if_pos (silent l List.mem_cons_self),
      ih fun x mem => silent x (List.mem_cons_of_mem _ mem)]

/-- The lines of the imports are read back. -/
theorem ofLines?_imports {imports : List Import}
    (named : ∀ i ∈ imports, i.names ≠ [] ∧ ∀ x ∈ i.names, IsWord x) {more : List (List Char)}
    {f : GeneratedFile} (read : ofLines? more = some f) :
    ofLines?
        ((imports.map fun i => (importLine (", ".intercalate i.names) i.file).toList) ++ more) =
      some { f with imports := imports ++ f.imports } := by
  induction imports with
  | nil => exact read
  | cons i rest ih =>
    obtain ⟨some, words⟩ := named i List.mem_cons_self
    have other : after? "export const "
        (importLine (", ".intercalate i.names) i.file).toList = none := by
      simp [importLine, after?]
    rw [List.map_cons, List.cons_append, ofLines?, isSilentLine_importLine,
      if_neg Bool.false_ne_true, other, Import.ofLine?_importLine some words,
      ih fun x mem => named x (List.mem_cons_of_mem _ mem)]
    rfl

end GeneratedFile

namespace BundleModule

variable {m : BundleModule}

/-- The rows of a module are read back. -/
theorem mapM_rows (references : ∀ r ∈ m.references, IsPlain r) (base : String) :
    (m.rows.map String.toList).mapM Row.ofLine? = some (m.generated base).rows := by
  have spreads := Row.mapM_ofLine? fun r mem =>
      Row.ofLine?_spread (isWord_exportIdentifier (references r mem))
  have entries := Row.mapM_ofLine? (l := m.entries) fun e _ => Row.ofLine?_entry e.1 e.2
  rw [rows, List.map_append, List.mapM_append, spreads, entries]
  rfl

/-- Rows are indented. -/
theorem after?_row : ∀ row ∈ m.rows, (after? "  " row.toList).isSome = true := by
  unfold rows
  simp only [List.mem_append, List.mem_map]
  rintro _ (⟨r, -, rfl⟩ | ⟨e, -, rfl⟩) <;> simp [after?]

theorem closing_eq (s : Style) :
    closing s = "\x7d as Record<string, " ++ s.recordType ++ ">;" := rfl

theorem after?_closing (s : Style) :
    (closing s).toList ≠ [] ∧ after? "  " (closing s).toList = none ∧
      ∃ rest, after? "\x7d as " (closing s).toList = some rest := by
  simp [closing_eq, after?]

end BundleModule

namespace GeneratedFile

section

variable {name : String} (unbroken : ' ' ∉ name.toList) {closing rest : List Char}
  (closed : after? "\x7d as " closing = some rest)
include unbroken

theorem ofTable?_opened (behind : List Char) :
    let declaration := name.toList ++ ' ' :: '=' :: ' ' :: '\x7b' :: behind
    String.ofList (declaration.takeWhile (· != ' ')) = name ∧
      after? " = \x7b" (declaration.dropWhile (· != ' ')) = some behind := by
  intro declaration
  obtain ⟨taken, dropped⟩ : declaration.takeWhile (· != ' ') = name.toList ∧
      declaration.dropWhile (· != ' ') = ' ' :: '=' :: ' ' :: '\x7b' :: behind :=
    takeWhile_ne unbroken _
  rw [taken, dropped, String.ofList_toList]
  exact ⟨rfl, after?_append " = \x7b" behind⟩

include closed

/-- A table without rows is closed on the line that opens it. -/
theorem ofTable?_closed (long : closing ≠ []) (more : List (List Char)) :
    ofTable? (name.toList ++ ' ' :: '=' :: ' ' :: '\x7b' :: closing) more = some ⟨[], name, []⟩ := by
  obtain ⟨named, opened⟩ := ofTable?_opened unbroken closing
  rw [ofTable?, named, opened, Option.bind_eq_bind, Option.bind_some,
    if_neg (by simpa using long), closed]
  rfl

/-- The rows of a table are the indented lines before the one that closes it. -/
theorem ofTable?_rows {ls : List (List Char)} {rows : List Row}
    (inside : ∀ l ∈ ls, (after? "  " l).isSome = true) (outside : after? "  " closing = none)
    (read : ls.mapM Row.ofLine? = some rows) (more : List (List Char)) :
    ofTable? (name.toList ++ ' ' :: '=' :: ' ' :: '\x7b' :: []) (ls ++ closing :: more) =
      some ⟨[], name, rows⟩ := by
  obtain ⟨named, opened⟩ := ofTable?_opened unbroken []
  rw [ofTable?, named, opened]
  simp [List.takeWhile_append_of_pos inside, List.dropWhile_append_of_pos inside, outside, closed,
    read]

end

/-- A line that begins with `export const` is where the table begins. -/
theorem ofLines?_opening (name behind : String) (more : List (List Char)) :
    ofLines? (("export const " ++ name ++ " = \x7b" ++ behind).toList :: more) =
      ofTable? (name.toList ++ ' ' :: '=' :: ' ' :: '\x7b' :: behind.toList) more := by
  have line : ("export const " ++ name ++ " = \x7b" ++ behind).toList =
      "export const ".toList ++
        (name.toList ++ ' ' :: '=' :: ' ' :: '\x7b' :: behind.toList) := by
    simp
  rw [line, ofLines?, after?_append, if_neg (by simp [isSilentLine, after?])]

/-- The table of a bundle is read row by row. -/
theorem ofLines?_exportLines {m : BundleModule} (plain : IsPlain m.name)
    (references : ∀ r ∈ m.references, IsPlain r) (s : Style) :
    ofLines? ((m.exportLines s).map String.toList ++ [[]]) =
      some ⟨[], m.exportName, (m.generated s.baseModule).rows⟩ := by
  have unbroken : ' ' ∉ m.exportName.toList := (isWord_exportIdentifier plain).notMem rfl
  have rows := BundleModule.mapM_rows references s.baseModule
  obtain ⟨long, outside, rest, closed⟩ := BundleModule.after?_closing s
  unfold BundleModule.exportLines
  split
  · next none =>
    rw [List.isEmpty_iff.1 none] at rows
    rw [List.map_singleton, List.singleton_append, ofLines?_opening,
      ofTable?_closed unbroken closed long, ← Option.some.inj rows]
    rfl
  · have inside : ∀ row ∈ m.rows.map String.toList, (after? "  " row).isSome = true := by
      simpa using BundleModule.after?_row
    have opening := ofLines?_opening m.exportName ""
    rw [String.append_empty] at opening
    rw [List.cons_append, List.map_cons, List.cons_append, opening, List.map_append,
      List.append_assoc]
    exact ofTable?_rows unbroken closed inside outside rows _

end GeneratedFile

namespace BundleModule

variable {m : BundleModule} (banner : Bool)

theorem importLines_eq (s : Style) (m : BundleModule) :
    (m.importLines s).map String.toList =
      ("import type \x7b " ++ s.recordType ++ " \x7d from " ++ sibling s.baseModule ++
          ";").toList ::
        (m.generated s.baseModule).imports.map fun i =>
            (importLine (", ".intercalate i.names) i.file).toList := by
  unfold importLines tagImport generated
  split <;> simp

theorem named_imports (references : ∀ r ∈ m.references, IsPlain r) (base : String) :
    ∀ i ∈ (m.generated base).imports, i.names ≠ [] ∧ ∀ x ∈ i.names, IsWord x := by
  unfold generated
  intro i mem
  rcases List.mem_append.1 mem with mem | mem
  · split at mem
    · cases mem
    · next some =>
      obtain rfl := List.mem_singleton.1 mem
      refine ⟨by simpa using some, fun x mem => ?_⟩
      obtain ⟨c, -, rfl⟩ := List.mem_map.1 mem
      exact isWord_tag c
  · obtain ⟨r, mem, rfl⟩ := List.mem_map.1 mem
    exact ⟨List.cons_ne_nil _ _, fun x mem =>
        List.mem_singleton.1 mem ▸ isWord_exportIdentifier (references r ‹_›)⟩

theorem newline_notMem_rows (references : ∀ r ∈ m.references, IsPlain r) :
    ∀ l ∈ m.rows, '\n' ∉ l.toList := by
  unfold rows
  intro l mem
  rcases List.mem_append.1 mem with mem | mem
  · obtain ⟨r, inside, rfl⟩ := List.mem_map.1 mem
    simpa using (isWord_exportIdentifier (references r inside)).notMem (d := '\n') rfl
  · obtain ⟨e, -, rfl⟩ := List.mem_map.1 mem
    simpa [newline_notMem_propertyKey] using (isWord_tag e.2).notMem (d := '\n') rfl

theorem newline_notMem_exportLines (plain : IsPlain m.name)
    (references : ∀ r ∈ m.references, IsPlain r) :
    ∀ l ∈ m.exportLines { banner := banner }, '\n' ∉ l.toList := by
  have opening : '\n' ∉ ("export const " ++ m.exportName ++ " = \x7b").toList := by
    simpa [exportName] using (isWord_exportIdentifier plain).notMem (d := '\n') rfl
  have closing : '\n' ∉ (closing { banner := banner }).toList := by simp [closing_eq]
  unfold exportLines
  split
  · simpa using ⟨by simpa using opening, closing⟩
  · simpa [or_imp, forall_and, closing] using ⟨by simpa using opening,
      newline_notMem_rows references⟩

theorem newline_notMem_importLines (references : ∀ r ∈ m.references, IsPlain r) :
    ∀ l ∈ (m.importLines { banner := banner }).map String.toList, '\n' ∉ l := by
  rw [importLines_eq]
  intro l mem
  rcases List.mem_cons.1 mem with same | mem
  · rw [same]
    simp [sibling, Quoted.newline_notMem_quote]
  · obtain ⟨i, inside, rfl⟩ := List.mem_map.1 mem
    have names := Import.notMem_intercalate (named_imports references _ i inside).2
        (d := '\n') rfl (by decide)
    simpa [importLine, sibling, Quoted.newline_notMem_quote] using names

/-- The file of a bundle is read as what it says. -/
theorem ofText?_fileText (plain : IsPlain m.name) (references : ∀ r ∈ m.references, IsPlain r) :
    GeneratedFile.ofText? (m.fileText { banner := banner }) = some (m.generated "base-config") := by
  have silent : ∀ l ∈ Style.bannerLines { banner := banner }, isSilentLine l.toList = true ∧
      '\n' ∉ l.toList := by
    cases banner <;> decide
  have unbroken : ∀ l ∈ Style.bannerLines { banner := banner } ++
      (m.importLines { banner := banner } ++ "" :: m.exportLines { banner := banner }),
          '\n' ∉ l.toList := by
    simp only [List.mem_append, List.mem_cons]
    rintro l (mem | mem | rfl | mem)
    · exact (silent l mem).2
    · exact newline_notMem_importLines banner references _ (List.mem_map_of_mem mem)
    · decide
    · exact newline_notMem_exportLines banner plain references l mem
  rw [GeneratedFile.ofText?, fileText, Style.file, cutAt_unlines unbroken, List.map_append,
    List.append_assoc, GeneratedFile.ofLines?_silent fun l mem => (silent l mem).1, List.map_append,
    importLines_eq]
  have table := GeneratedFile.ofLines?_exportLines plain references { banner := banner }
  have blank : GeneratedFile.ofLines?
      (("" :: m.exportLines { banner := banner }).map String.toList ++ [[]]) =
      some ⟨[], m.exportName, (m.generated "base-config").rows⟩ := by
    rw [List.map_cons, List.cons_append, GeneratedFile.ofLines?, if_pos (by decide), table]
  rw [List.append_assoc, List.cons_append, GeneratedFile.ofLines?,
    if_pos (by simp [isSilentLine, after?]),
    GeneratedFile.ofLines?_imports (named_imports references _) blank, List.append_nil]
  rfl

end BundleModule

end ImplicitGlobals
