import ImplicitGlobals.Generated.SharedFiles
import ImplicitGlobals.Generation.Host
import ImplicitGlobals.Generation.Synthesis

/-!
# Generation runs

A run reads the bundle files, synthesizes, and only then touches the output: the
directory is emptied, every file is written, and the post-processors run over the
written files. A run that fails before that leaves the disk alone.
-/

namespace ImplicitGlobals

/-- Where the output of a run goes and how it is written. -/
structure OutputSettings where
  directory : String
  /-- Where the union of bundle names goes, seen from the directory. -/
  typesFile? : Option String := none
  style : Style := {}
  postProcessors : List PostProcessor := []
deriving DecidableEq, Repr, Inhabited

/-- What a run wrote. -/
structure GenerationReport where
  files : List String
  bundles : Nat
  identifiers : Nat
deriving DecidableEq, Repr, Inhabited

namespace OutputSettings

def typesPath (o : OutputSettings) : String := o.typesFile?.getD Aggregate.defaultTypesFile

end OutputSettings

namespace Synthesis

/-- The generated files in the order of writing, by the path from the output
directory. -/
def render (s : Synthesis) (o : OutputSettings) : List (String × String) :=
  (o.style.baseFile, o.style.baseText) ::
    s.table.modules.map (fun m => (m.fileName, m.fileText o.style)) ++
    [(Aggregate.indexFile, s.aggregate.indexText o.style),
      (o.typesPath, s.aggregate.typesText o.style)]

/-- The number of names that the bundles add. -/
def identifiers (s : Synthesis) : Nat := (s.table.modules.map (·.entries.length)).foldr (· + ·) 0

end Synthesis

namespace Host

variable {m : Type → Type} [Monad m]

/-- A directory of bundle files as it is read now. -/
def sourcesIn (h : Host m) (directory : String) (bundles : List Bundle) : m Sources := do
  let texts ← bundles.mapM fun b => do
    let path := Path.join directory b.file
    let text ← h.readText path
    return (b.file, text.mapError fun e => Failure.unreadable path e.message)
  return fun file => (texts.lookup file).getD (.error (.unreadable file DiskFault.notFound.message))

/-- A disk operation whose failure is one of writing `path`. -/
def writing (path : String) (result : Except DiskFault Unit) : Except Failure Unit :=
  result.mapError fun e => .unwritable path e.message

/-- Empties the output directory, or makes it. -/
def resetDirectory (h : Host m) (directory : String) : ExceptT Failure m Unit := do
  match ← h.removeTree directory with
  | .ok () | .error .notFound => pure ()
  | .error e => throw (.unwritable directory e.message)
  ExceptT.mk do return writing directory (← h.makeDirectories directory)

/-- Writes a file under the output directory, and the directories it lies in. -/
def writeFile (h : Host m) (directory path text : String) : ExceptT Failure m String := do
  let whole := Path.join directory path
  match Path.parent? whole with
  | none => pure ()
  | some above => ExceptT.mk do return writing above (← h.makeDirectories above)
  ExceptT.mk do return writing whole (← h.writeText whole text)
  return whole

/-- Writes files in order. -/
def writeFiles (h : Host m) (directory : String) :
    List (String × String) → ExceptT Failure m (List String)
  | [] => pure []
  | (path, text) :: rest => do
    let first ← h.writeFile directory path text
    return first :: (← writeFiles h directory rest)

/-- Runs post-processors in order, each over all files. -/
def postProcess (h : Host m) (files : List String) : List PostProcessor → ExceptT Failure m Unit
  | [] => pure ()
  | p :: rest => do
    match ← h.runProgram p files with
    | .ok () => postProcess h files rest
    | .error reason => throw (.postProcess p.describe reason)

/-- Writes the output of a synthesis. -/
def writeOutput (h : Host m) (o : OutputSettings) (s : Synthesis) :
    ExceptT Failure m GenerationReport := do
  h.resetDirectory o.directory
  let files ← h.writeFiles o.directory (s.render o)
  h.postProcess files o.postProcessors
  return ⟨files, s.table.size, s.identifiers⟩

/-- The whole run. -/
def generate (h : Host m) (catalog : Catalog) (sourceDirectory : String) (o : OutputSettings)
    (options : SourceOptions := {}) : ExceptT Failure m GenerationReport := do
  let sources ← h.sourcesIn sourceDirectory catalog.bundles
  let s ← ExceptT.mk (pure (sources.synthesize options catalog))
  h.writeOutput o s

end Host

end ImplicitGlobals
