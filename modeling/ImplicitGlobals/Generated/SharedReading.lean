import ImplicitGlobals.Generated.Reading
import ImplicitGlobals.Generated.SharedFiles

/-!
# Reading the shared files

The index of all bundles and the union of their names, read back from their texts. A row of
the index stands for a key and for the export that the value of the row is imported as, which
takes exactly one import of that name. The union is read however its members are laid out.
-/

namespace ImplicitGlobals

open Text

/-- `import \x7b exportName as binding \x7d from './file';`, in short `\x7b binding \x7d` if both
are one name. -/
structure IndexImport where
  exportName : String
  binding : String
  file : String
deriving DecidableEq, Repr, Inhabited

/-- `  key: value,`, in short `  value,` if both are one name. -/
structure IndexRow where
  key : String
  value : String
deriving DecidableEq, Repr, Inhabited

/-- A key of the index, and what it stands for: an export of a file. -/
structure IndexPair where
  key : String
  file : String
  exportName : String
deriving DecidableEq, Repr, Inhabited

/-- The index, read. -/
structure IndexFile where
  imports : List IndexImport
  rows : List IndexRow
deriving DecidableEq, Repr, Inhabited

namespace IndexImport

/-- What stands between the braces: the export and its binding. -/
def names? (cs : List Char) : Option (String × String) :=
  match (cutAt ' ' cs).map String.ofList with
  | [name, ""] => some (name, name)
  | [name, "as", binding, ""] => some (name, binding)
  | _ => none

def ofLine? (line : List Char) : Option IndexImport := do
  let rest ← after? "import \x7b " line
  let (exportName, binding) ← names? (rest.takeWhile (· != '\x7d'))
  let source ← after? "\x7d from " (rest.dropWhile (· != '\x7d'))
  return ⟨exportName, binding, ← Import.fileOf? source⟩

end IndexImport

/-- A literal cannot stand for key and value at once. -/
def IndexRow.ofLine? (line : List Char) : Option IndexRow := do
  let row ← after? "  " line
  let (key, rest) ← Row.key? row
  if rest = [','] then
    if row.head? = some '\'' then none else some ⟨String.ofList key, String.ofList key⟩
  else return ⟨String.ofList key, ← Row.last? (← after? ": " rest)⟩

namespace IndexFile

/-- The lines behind the rows. -/
def closing : List String := ["\x7d as const;", "", "export \x7b lib \x7d;", ""]

/-- The rows are the indented lines. -/
def ofTable? (lines : List (List Char)) : Option IndexFile := do
  let inside (line : List Char) : Bool := (after? "  " line).isSome
  let rows ← (lines.takeWhile inside).mapM IndexRow.ofLine?
  if (lines.dropWhile inside).map String.ofList = closing then return ⟨[], rows⟩ else none

def ofLines? : List (List Char) → Option IndexFile
  | [] => none
  | line :: more =>
    if isSilentLine line then ofLines? more
    else if line = "const lib = \x7b".toList then ofTable? more
    else do
      let first ← IndexImport.ofLine? line
      let file ← ofLines? more
      return { file with imports := first :: file.imports }

def ofText? (text : String) : Option IndexFile := ofLines? (cutAt '\n' text.toList)

/-- The import that binds a name, if there is one and no other. -/
def source? (f : IndexFile) (name : String) : Option IndexImport :=
  match f.imports.filter (·.binding = name) with
  | [source] => some source
  | _ => none

def pair? (f : IndexFile) (row : IndexRow) : Option IndexPair :=
  (f.source? row.value).map fun source => ⟨row.key, source.file, source.exportName⟩

/-- What the text of an index says, row by row. -/
def pairs? (text : String) : Option (List IndexPair) := do
  let file ← ofText? text
  file.rows.mapM file.pair?

end IndexFile

namespace Text

theorem Quoted.length_scan {cs inside rest : List Char} (h : scan cs = some (inside, rest)) :
    rest.length < cs.length := by
  fun_induction scan cs generalizing inside with
  | case1 => cases h
  | case2 rest => cases h; exact Nat.lt_succ_self _
  | case3 c more ih =>
    obtain ⟨r, scanned, same⟩ := Option.map_eq_some_iff.1 h
    cases same
    exact Nat.lt_succ_of_lt (Nat.lt_succ_of_lt (ih scanned))
  | case4 => cases h
  | case5 c more _ _ _ ih =>
    obtain ⟨r, scanned, same⟩ := Option.map_eq_some_iff.1 h
    cases same
    exact Nat.lt_succ_of_lt (ih scanned)

/-- A literal is not empty. -/
theorem Quoted.length_read? {cs inside rest : List Char} (h : read? cs = some (inside, rest)) :
    rest.length < cs.length := by
  unfold read? at h
  split at h
  · exact Nat.lt_succ_of_lt (length_scan h)
  · cases h

end Text

namespace Union

/-- What may stand before a member and behind it. -/
def isGap (c : Char) : Bool := c = ' ' || c = '\n'

/-- A member, and what is behind it and its gaps. -/
def member? (cs : List Char) : Option (String × List Char) :=
  (Quoted.read? (cs.dropWhile isGap)).map fun r => (String.ofList r.1, r.2.dropWhile isGap)

theorem length_member? {cs rest : List Char} {name : String} (h : member? cs = some (name, rest)) :
    rest.length < cs.length := by
  obtain ⟨⟨inside, behind⟩, read, same⟩ := Option.map_eq_some_iff.1 h
  cases same
  calc
    (behind.dropWhile isGap).length ≤ behind.length := (List.dropWhile_suffix isGap).length_le
    _ < (cs.dropWhile isGap).length := Quoted.length_read? read
    _ ≤ cs.length := (List.dropWhile_suffix isGap).length_le

/-- The members up to the semicolon, and what is behind it. -/
def members? (cs : List Char) : Option (List String × List Char) :=
  match _ : member? cs with
  | some (name, ';' :: behind) => some ([name], behind)
  | some (name, '|' :: more) => (members? more).map fun r => (name :: r.1, r.2)
  | _ => none
termination_by cs.length
decreasing_by
  have shorter := length_member? ‹member? cs = some (name, '|' :: more)›
  exact Nat.lt_of_succ_lt shorter

/-- The type behind the equals sign: no member, or members that may have a bar before the first. -/
def type? (cs : List Char) : Option (List String × List Char) :=
  let type := cs.dropWhile isGap
  match after? "never;" type with
  | some behind => some ([], behind)
  | none => members? (if type.head? = some '|' then type.tail else type)

/-- The names of the union that a text exports. -/
def ofText? (text : String) : Option (List String) := do
  let lines := (cutAt '\n' text.toList).dropWhile isSilentLine
  let (names, behind) ← type? (← after? "type Lib =" (['\n'].intercalate lines))
  if behind = "\n\nexport \x7b Lib \x7d;\n".toList then return names else none

end Union

end ImplicitGlobals
