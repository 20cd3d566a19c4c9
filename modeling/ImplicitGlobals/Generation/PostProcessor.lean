import ImplicitGlobals.Text.Blank

/-!
# Post-processors

A post-processor is a program that is run once over all written files. It is given as
a line of words; there is no quoting.
-/

namespace ImplicitGlobals

structure PostProcessor where
  program : String
  arguments : List String
deriving DecidableEq, Repr, Inhabited

namespace PostProcessor

/-- The post-processor of a line; a blank line is none. -/
def ofLine? (line : String) : Option PostProcessor :=
  match Text.words line with
  | [] => none
  | program :: arguments => some ⟨program, arguments⟩

def withArgument (p : PostProcessor) (argument : String) : PostProcessor :=
  { p with arguments := p.arguments ++ [argument] }

/-- The words with one blank between two. -/
def describe (p : PostProcessor) : String := " ".intercalate (p.program :: p.arguments)

end PostProcessor

end ImplicitGlobals
