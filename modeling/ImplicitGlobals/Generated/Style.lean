import ImplicitGlobals.Text.Lines

/-!
# The style of generated files

What generated files have in common: the banner they may start with, the module that
the shared constants come from, and the name of their type.
-/

namespace ImplicitGlobals

structure Style where
  banner : Bool := true
  /-- The command that the banner tells to run. -/
  regenerate : String := "ambient generate"
  /-- The module of the shared constants, next to the generated files. -/
  baseModule : String := "base-config"
  /-- The type of the shared constants. -/
  recordType : String := "ImplicitLibVariableOptions"
deriving DecidableEq, Repr, Inhabited

namespace Style

/-- The file of the shared constants. -/
def baseFile (s : Style) : String := s.baseModule ++ ".ts"

/-- The banner and the empty line after it, if there is one. -/
def bannerLines (s : Style) : List String :=
  if s.banner then
    ["// THIS CODE WAS AUTOMATICALLY GENERATED", "// DO NOT EDIT THIS CODE BY HAND",
      "// RUN THE FOLLOWING COMMAND TO REGENERATE:", "// " ++ s.regenerate, ""]
  else []

/-- The text of a file with the given lines. -/
def file (s : Style) (lines : List String) : String := Text.unlines (s.bannerLines ++ lines)

end Style

end ImplicitGlobals
