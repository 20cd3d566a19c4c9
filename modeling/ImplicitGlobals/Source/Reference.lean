/-!
# References

A bundle names the bundles it builds on in comments of the form
`/// <reference lib="NAME" />`. The names come in source order, each once.
-/

namespace ImplicitGlobals

/-- Bundle names without repetition, in the order they were first added. -/
abbrev References := List String

namespace References

/-- Adds a name at the end, unless it is there. -/
def insert (r : References) (name : String) : References :=
  if name ∈ r then r else r ++ [name]

def ofList (names : List String) : References := names.foldl insert []

/-- Whether two sets of references name the same bundles. -/
def sameNames (r s : References) : Bool := r.all (s.contains ·) && s.all (r.contains ·)

/-- What stands before the name, after the two slashes that open the comment. -/
def opening : List Char := "/ <reference lib=\"".toList

/-- What stands after the name. -/
def closing : List Char := "\" />".toList

/-- The longest start of `cs` that is not empty, stays on its line and has the
closing behind it. -/
def longestName? : List Char → Option (List Char)
  | [] => none
  | c :: rest =>
    if c = '\n' then none
    else
      match longestName? rest with
      | some name => some (c :: name)
      | none => if closing.isPrefixOf rest then some [c] else none

/-- The name a line comment refers to; `comment` is its text after the two slashes. -/
def ofComment? (comment : String) : Option String :=
  if opening.isPrefixOf comment.toList then
    (longestName? (comment.toList.drop opening.length)).map String.ofList
  else none

/-- The names that line comments refer to. -/
def ofComments (comments : List String) : References :=
  ofList (comments.filterMap ofComment?)

theorem nodup_insert {r : References} (h : r.Nodup) (name : String) : (r.insert name).Nodup := by
  unfold insert
  split
  · exact h
  · next absent =>
    refine List.nodup_append.2 ⟨h, by simp, fun a ha b hb e => absent ?_⟩
    rw [List.mem_singleton] at hb
    exact hb ▸ e ▸ ha

theorem nodup_ofList (names : List String) : (ofList names).Nodup := by
  suffices h : ∀ r : References, r.Nodup → (names.foldl insert r).Nodup from h [] (by simp)
  induction names with
  | nil => exact fun _ h => h
  | cons name rest ih => exact fun r h => ih _ (nodup_insert h name)

end References

end ImplicitGlobals
