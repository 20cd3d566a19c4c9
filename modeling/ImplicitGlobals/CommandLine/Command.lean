/-!
# Commands

What the program can be asked to do, with the arguments of each command.
-/

namespace ImplicitGlobals

/-- When output is coloured; `auto` leaves it to the terminal. -/
inductive ColorChoice where
  | auto
  | always
  | never
deriving DecidableEq, Repr, Inhabited

/-- Write the generated files of all bundles. -/
structure GenerateArguments where
  catalog? : Option String
  sourceDirectory : String
  outputDirectory : String
  typesFile? : Option String
  postProcess : List String
  noBanner : Bool
  color : ColorChoice
deriving DecidableEq, Repr, Inhabited

/-- Synthesize all bundles and write nothing. -/
structure CheckArguments where
  catalog? : Option String
  sourceDirectory : String
  color : ColorChoice
deriving DecidableEq, Repr, Inhabited

/-- Show one bundle. -/
structure InspectArguments where
  catalog? : Option String
  sourceDirectory : String
  bundle : String
  /-- With the names of its references merged in. -/
  resolved : Bool
  json : Bool
  color : ColorChoice
deriving DecidableEq, Repr, Inhabited

/-- Show the catalog. -/
structure ListArguments where
  catalog? : Option String
  json : Bool
  color : ColorChoice
deriving DecidableEq, Repr, Inhabited

inductive Command where
  | generate (a : GenerateArguments)
  | check (a : CheckArguments)
  | inspect (a : InspectArguments)
  | list (a : ListArguments)
deriving DecidableEq, Repr, Inhabited

/-- Why arguments make no command. -/
inductive UsageError where
  /-- No command is given. -/
  | noCommand
  | help
  | unknownCommand
  | unknownArgument
  | invalidValue
  /-- An option that may be given once is given twice. -/
  | repeated
  /-- A flag is given a value. -/
  | unwantedValue
  | missingArgument
deriving DecidableEq, Repr, Inhabited

namespace ColorChoice

/-- The choice that a word stands for. -/
def ofWord? : String → Option ColorChoice
  | "auto" => some auto
  | "always" => some always
  | "never" => some never
  | _ => none

/-- Whether to colour output that goes to a terminal or elsewhere. -/
def isColored (terminal : Bool) : ColorChoice → Bool
  | auto => terminal
  | always => true
  | never => false

end ColorChoice

namespace UsageError

/-- The exit status: asking for help is no error. -/
def status : UsageError → Nat
  | help => 0
  | _ => 2

end UsageError

end ImplicitGlobals
