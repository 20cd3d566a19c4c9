import ImplicitGlobals.Disk.Path
import Mathlib.Data.List.DropRight

/-!
# The names of a path

A path is cut at its slashes, and what names nothing is left out. Joining two paths joins their
names, and the parent of a path keeps some of its names, from the first on.
-/

namespace ImplicitGlobals

namespace Text

/-- Cutting at a character is the library's splitting. -/
theorem cutAt_eq_splitOn (separator : Char) (cs : List Char) :
    cutAt separator cs = cs.splitOn separator := by
  induction cs with
  | nil => rfl
  | cons c rest ih =>
    rw [cutAt, List.splitOn_cons_eq_if_modifyHead, ih]
    by_cases same : c = separator
    · simp [same]
    · rw [if_neg same, if_neg (by simpa using same)]
      cases cut : rest.splitOn separator with
      | nil => exact absurd cut (List.splitOn_ne_nil separator rest)
      | cons => rfl

/-- A text with a separator in it is cut there first. -/
theorem cutAt_append_cons (separator : Char) (first rest : List Char) :
    cutAt separator (first ++ separator :: rest) = cutAt separator first ++ cutAt separator rest := by
  simp only [cutAt_eq_splitOn, List.splitOn_append_cons_self]

/-- The pieces with the separators between them are the text again. -/
theorem intercalate_cutAt (separator : Char) (cs : List Char) :
    [separator].intercalate (cutAt separator cs) = cs := by
  rw [cutAt_eq_splitOn, List.intercalate_splitOn]

/-- No piece holds the separator. -/
theorem notMem_of_mem_cutAt {separator : Char} {cs piece : List Char}
    (mem : piece ∈ cutAt separator cs) : separator ∉ piece := by
  induction cs generalizing piece with
  | nil => simp_all [cutAt]
  | cons c rest ih =>
    rw [cutAt] at mem
    split at mem
    · rcases List.mem_cons.1 mem with rfl | mem
      · exact List.not_mem_nil
      · exact ih mem
    · next other =>
      cases cut : cutAt separator rest with
      | nil => exact absurd cut (cutAt_ne_nil separator rest)
      | cons first more =>
        rw [cut] at mem ih
        rcases List.mem_cons.1 mem with rfl | mem
        · have absent := ih List.mem_cons_self
          simp [absent, Ne.symm other]
        · exact ih (List.mem_cons_of_mem _ mem)

/-- Pieces that come first in a text are cut again as they were. -/
theorem cutAt_intercalate {separator : Char} {cs : List Char} {pieces : List (List Char)}
    (first : pieces <+: cutAt separator cs) (some : pieces ≠ []) :
    cutAt separator ([separator].intercalate pieces) = pieces := by
  rw [cutAt_eq_splitOn]
  exact List.splitOn_intercalate separator (fun p mem => notMem_of_mem_cutAt (first.subset mem)) some

/-- Fewer pieces make a beginning of the text. -/
theorem prefix_intercalate (separator : Char) {first all : List (List Char)} (h : first <+: all) :
    [separator].intercalate first <+: [separator].intercalate all := by
  obtain ⟨more, rfl⟩ := h
  induction first with
  | nil => exact List.nil_prefix
  | cons piece rest ih =>
    cases rest with
    | nil =>
      cases more with
      | nil => exact List.prefix_rfl
      | cons next more =>
        rw [List.cons_append, List.nil_append, List.intercalate_cons_cons, List.intercalate_singleton,
          List.append_assoc]
        exact List.prefix_append _ _
    | cons next rest =>
      simp only [List.cons_append, List.intercalate_cons_cons] at ih ⊢
      exact (List.prefix_append_right_inj _).2 ih

end Text

namespace Path

/-- The pieces that name something. -/
def named (pieces : List (List Char)) : List String := (pieces.filter (· ≠ [])).map String.ofList

/-- The names of a path are those among its pieces between slashes. -/
theorem names_eq (path : String) : names path = named (Text.cutAt '/' path.toList) := rfl

/-- The names of two runs of pieces are those of the one and then of the other. -/
@[simp] theorem named_append (first more : List (List Char)) :
    named (first ++ more) = named first ++ named more := by
  simp [named]

/-- Without a slash a path is one name. -/
theorem names_of_plain {name : String} (plain : '/' ∉ name.toList) (some : name ≠ "") : names name = [name] := by
  have whole : name.toList.splitOn '/' = [name.toList] := by
    have apart : ∀ piece ∈ [name.toList], '/' ∉ piece := by simpa using plain
    simpa using List.splitOn_intercalate '/' apart (List.cons_ne_nil _ _)
  rw [names_eq, Text.cutAt_eq_splitOn, whole]
  simp [named, some]

/-- A name without a slash begins no absolute path. -/
theorem isAbsolute_of_plain {name : String} (plain : '/' ∉ name.toList) : isAbsolute name = false := by
  unfold isAbsolute
  cases chars : name.toList with
  | nil => rfl
  | cons c cs =>
    rw [chars, List.mem_cons, not_or] at plain
    simpa using Ne.symm plain.1

/-- Fewer pieces give fewer names, from the front. -/
theorem prefix_named {first all : List (List Char)} (h : first <+: all) : named first <+: named all :=
  (h.filter _).map _

/-! ### Joining -/

/-- Joined to the empty path a path is itself. -/
theorem join_empty (path : String) : join "" path = path := by
  simp [join]

/-- Joining a relative path keeps whether the base is absolute. -/
theorem isAbsolute_join {base path : String} (relative : isAbsolute path = false) :
    isAbsolute (join base path) = isAbsolute base := by
  by_cases empty : base = ""
  · subst empty
    rw [join_empty, relative]
    decide
  · have left : base.toList ≠ [] := by simpa using empty
    unfold join
    rw [relative, if_neg (by simp [empty])]
    obtain ⟨c, cs, chars⟩ := List.exists_cons_of_ne_nil left
    split <;> simp [isAbsolute, chars]

/-- The names of two paths that are joined. -/
theorem names_join {base path : String} (relative : isAbsolute path = false) :
    names (join base path) = names base ++ names path := by
  by_cases empty : base = ""
  · subst empty
    rw [join_empty]
    rfl
  unfold join
  rw [relative, if_neg (by simp [empty])]
  split
  · next slash =>
    obtain ⟨init, chars⟩ := List.getLast?_eq_some_iff.1 (eq_of_beq slash)
    have none : named (Text.cutAt '/' []) = [] := rfl
    rw [names_eq, names_eq base, names_eq path, String.toList_append, chars, List.append_assoc,
      List.singleton_append, Text.cutAt_append_cons, Text.cutAt_append_cons, named_append, named_append,
      none, List.append_nil]
  · rw [names_eq, names_eq base, names_eq path, String.toList_append, String.toList_append,
      List.append_assoc, ← named_append, ← Text.cutAt_append_cons]
    rfl

/-! ### Parents -/

/-- Without the idle pieces at its end a path is a beginning of itself. -/
theorem prefix_dropIdle (pieces : List (List Char)) : dropIdle pieces <+: pieces :=
  List.rdropWhile_prefix _ pieces

/-- The anchor of a path and the rest make the path. -/
theorem anchor_append (cs : List Char) : (anchor cs).1 ++ (anchor cs).2 = cs := by
  fun_cases anchor cs <;> rfl

/-- Some of the pieces behind the anchor of a path, from the first on, name what they name in the
whole path. The dot of a path that starts with one stays before them. -/
theorem named_anchored (cs : List Char) {pieces : List (List Char)}
    (first : pieces <+: Text.cutAt '/' (anchor cs).2) :
    named (Text.cutAt '/' ((anchor cs).1 ++ ['/'].intercalate pieces)) =
      (if (anchor cs).1 = ['.'] then ["."] else []) ++ named pieces := by
  have again : named (Text.cutAt '/' (['/'].intercalate pieces)) = named pieces := by
    cases pieces with
    | nil => rfl
    | cons => rw [Text.cutAt_intercalate first (List.cons_ne_nil _ _)]
  fun_cases anchor cs with
  | case1 rest => exact again
  | case2 =>
    replace first : pieces <+: [[]] := first
    rcases List.prefix_cons_iff.1 first with rfl | ⟨q, rfl, none⟩
    · rfl
    · obtain rfl := List.prefix_nil.1 none
      rfl
  | case3 rest =>
    replace first : pieces <+: [] :: Text.cutAt '/' rest := first
    show named (Text.cutAt '/' ('.' :: ['/'].intercalate pieces)) = ["."] ++ named pieces
    rcases List.prefix_cons_iff.1 first with rfl | ⟨q, rfl, behind⟩
    · rfl
    · cases q with
      | nil => rfl
      | cons p q =>
        have cut := Text.cutAt_append_cons '/' ['.'] (['/'].intercalate (p :: q))
        rw [Text.cutAt_intercalate behind (List.cons_ne_nil _ _)] at cut
        rw [List.intercalate_cons_cons]
        exact congrArg named cut
  | case4 => exact again

/-- Dropping pieces behind the anchor keeps whether a path begins with a slash. -/
theorem head?_anchored (cs : List Char) {pieces : List (List Char)}
    (first : pieces <+: Text.cutAt '/' (anchor cs).2) :
    (((anchor cs).1 ++ ['/'].intercalate pieces).head? == some '/') = (cs.head? == some '/') := by
  have start := Text.prefix_intercalate '/' first
  rw [Text.intercalate_cutAt] at start
  revert start
  fun_cases anchor cs with
  | case1 | case2 | case3 => exact fun _ => rfl
  | case4 =>
    intro start
    rename_i relative _ _
    replace start : ['/'].intercalate pieces <+: cs := start
    have other : (cs.head? == some '/') = false := by
      cases cs with
      | nil => rfl
      | cons c rest => simpa using fun h : c = '/' => relative rest (h ▸ rfl)
    show ((['/'].intercalate pieces).head? == some '/') = _
    rw [other]
    obtain ⟨more, whole⟩ := start
    cases begin : ['/'].intercalate pieces with
    | nil => rfl
    | cons c rest =>
      rw [begin] at whole
      rw [← whole] at other
      exact other

/-- The parent of a path has some of its names, from the first on. -/
theorem names_parent? {path above : String} (h : parent? path = some above) :
    names above <+: names path ∧ isAbsolute above = isAbsolute path := by
  have whole := named_anchored path.toList List.prefix_rfl
  rw [Text.intercalate_cutAt, anchor_append] at whole
  have same := head?_anchored path.toList List.prefix_rfl
  unfold parent? at h
  cases kept : dropIdle (Text.cutAt '/' (anchor path.toList).2) with
  | nil =>
    simp only [kept] at h
    split at h
    · next dot =>
      cases h
      refine ⟨List.nil_prefix, ?_⟩
      rw [dot] at same
      have relative : isAbsolute "" = false := by decide
      exact relative.trans same
    · cases h
  | cons piece more =>
    simp only [kept, Option.some.injEq] at h
    have first : dropIdle (piece :: more).dropLast <+: Text.cutAt '/' (anchor path.toList).2 :=
      (prefix_dropIdle _).trans ((List.dropLast_prefix _).trans (kept ▸ prefix_dropIdle _))
    subst h
    rw [names_eq, names_eq, String.toList_ofList, named_anchored _ first, whole]
    refine ⟨(List.prefix_append_right_inj _).2 (prefix_named first), ?_⟩
    rw [isAbsolute, String.toList_ofList, head?_anchored _ first]
    rfl

end Path

end ImplicitGlobals
