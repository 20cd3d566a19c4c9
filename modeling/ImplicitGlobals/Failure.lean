import ImplicitGlobals.Syntax.Parse

/-!
# Failures

Everything that ends a run before its result: a source that cannot be read or has
syntax errors, a scope tree or a table that does not fit, a file that cannot be
written. A failure holds its causes; `Failure.message` is the only wording.
-/

namespace ImplicitGlobals

/-- The syntax errors of a source, with the text they point into. -/
structure SyntaxFailure where
  /-- The file the text was read from. -/
  file? : Option String := none
  text : String
  diagnostics : Diagnostics
deriving DecidableEq, Repr, Inhabited

/-- How a table of modules departs from its catalog. -/
inductive Mismatch where
  | missing (bundle : String)
  | extra (bundle : String)
deriving DecidableEq, Repr, Inhabited

inductive Failure where
  | refused (r : Refusal)
  | malformed (f : SyntaxFailure)
  /-- The first child of the global scope is no module. -/
  | noModuleScope
  | unclassifiable (name : String)
  | unknownReference (bundle reference : String)
  | unknownBundle (name : String)
  | cyclicReference (chain : List String)
  | mismatch (m : Mismatch)
  | unreadable (path reason : String)
  | unwritable (path reason : String)
  | postProcess (command reason : String)
deriving DecidableEq, Repr, Inhabited

namespace SyntaxFailure

def inFile (f : SyntaxFailure) (file : String) : SyntaxFailure := { f with file? := some file }

def summary (f : SyntaxFailure) : String :=
  let count := f.diagnostics.length
  (f.file?.elim "" (· ++ ": ")) ++ "declaration parsing failed with " ++ toString count ++
    (if count = 1 then " error" else " errors")

end SyntaxFailure

def Limit.message : Limit → String
  | words => "execution limit exceeded"
  | nesting => "recursion limit exceeded"

def Refusal.message : Refusal → String
  | limit l => l.message
  | breach b => b.message

def Mismatch.message : Mismatch → String
  | missing bundle => "no module synthesized for bundle `" ++ bundle ++ "`"
  | extra bundle => "module `" ++ bundle ++ "` is not in the catalog"

def Failure.message : Failure → String
  | refused r => r.message
  | malformed f => f.summary
  | noModuleScope => "scope tree has no module scope under the global scope"
  | unclassifiable name => "variable `" ++ name ++ "` is neither a type nor a value"
  | unknownReference bundle reference =>
    "bundle `" ++ bundle ++ "` references unknown bundle `" ++ reference ++ "`"
  | unknownBundle name => "unknown bundle `" ++ name ++ "`"
  | cyclicReference chain => "cyclic bundle references: " ++ " -> ".intercalate chain
  | mismatch m => "aggregate does not match the catalog: " ++ m.message
  | unreadable path reason => "failed to read " ++ path ++ ": " ++ reason
  | unwritable path reason => "failed to write " ++ path ++ ": " ++ reason
  | postProcess command reason =>
    "post-process command `" ++ command ++ "` failed: " ++ reason

end ImplicitGlobals
