/-!
# Log formats

Log events are written as text or as JSON. Any word that is not the name of the
second format chooses the first.
-/

namespace ImplicitGlobals

inductive LogFormat where
  | text
  | json
deriving DecidableEq, Repr, Inhabited

namespace LogFormat

/-- The format that a word chooses; the case of ASCII letters does not count. -/
def ofWord (word : String) : LogFormat :=
  if word.toList.map Char.toLower = "json".toList then json else text

end LogFormat

end ImplicitGlobals
