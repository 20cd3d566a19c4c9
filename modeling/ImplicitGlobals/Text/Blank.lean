/-!
# Blank characters

The characters of the Unicode property White_Space, and what rests on them:
the words of a line and the text without its trailing blanks.
-/

namespace ImplicitGlobals.Text

/-- The ranges of the property White_Space. -/
def blankRanges : List (Nat × Nat) :=
  [(0x09, 0x0D), (0x20, 0x20), (0x85, 0x85), (0xA0, 0xA0), (0x1680, 0x1680), (0x2000, 0x200A),
   (0x2028, 0x2029), (0x202F, 0x202F), (0x205F, 0x205F), (0x3000, 0x3000)]

def isBlank (c : Char) : Bool :=
  blankRanges.any fun r => r.1 ≤ c.toNat && c.toNat ≤ r.2

/-- The maximal runs of characters that are not blank. `run` holds the run
being read, last character first. -/
def wordsFrom (run : List Char) : List Char → List (List Char)
  | [] => if run.isEmpty then [] else [run.reverse]
  | c :: rest =>
    if isBlank c then
      if run.isEmpty then wordsFrom [] rest else run.reverse :: wordsFrom [] rest
    else wordsFrom (c :: run) rest

/-- The words of a text, without the blanks between them. -/
def words (s : String) : List String :=
  (wordsFrom [] s.toList).map String.ofList

/-- The text without the blanks at its end. -/
def trimRight (s : String) : String :=
  String.ofList (s.toList.reverse.dropWhile isBlank).reverse

/-- The text without the blanks at either end. -/
def trimBoth (s : String) : String :=
  String.ofList ((s.toList.dropWhile isBlank).reverse.dropWhile isBlank).reverse

theorem isBlank_of_isWhitespace {c : Char} (h : c.isWhitespace = true) : isBlank c = true := by
  simp only [Char.isWhitespace, Bool.or_eq_true, decide_eq_true_eq] at h
  rcases h with ((h | h) | h) | h <;> subst h <;> decide

theorem wordsFrom_ne_nil {run cs : List Char} :
    ∀ w ∈ wordsFrom run cs, w ≠ [] := by
  fun_induction wordsFrom run cs <;> simp_all

end ImplicitGlobals.Text
