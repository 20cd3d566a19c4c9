import ImplicitGlobals.Catalog.BuiltIn
import ImplicitGlobals.CommandLine.Command
import ImplicitGlobals.CommandLine.Report
import ImplicitGlobals.Snippet.Report

/-!
# Running commands

A command reads its catalog first. It ends with a status and the texts it prints; of
a failure it prints the cause, after the syntax errors when these are the cause.
-/

namespace ImplicitGlobals

/-- Why a command fails. -/
inductive CommandFailure where
  | unreadableCatalog (path reason : String)
  | invalidCatalog (path reason : String)
  | emptyPostProcess
  | failed (f : Failure)
deriving DecidableEq, Repr, Inhabited

/-- What a command prints, and its exit status. -/
structure Outcome where
  status : Nat
  out : String
  err : String
deriving DecidableEq, Repr, Inhabited

namespace CommandFailure

def message : CommandFailure → String
  | unreadableCatalog path reason => "failed to read catalog '" ++ path ++ "': " ++ reason
  | invalidCatalog path reason => "invalid catalog '" ++ path ++ "': " ++ reason
  | emptyPostProcess => "--post-process command cannot be empty"
  | failed f => f.message

/-- The syntax errors on their source, with a blank line behind them. -/
def details (colored : Bool) : CommandFailure → String
  | failed (.malformed f) => Text.trimRight (f.snippets colored) ++ "\n\n"
  | _ => ""

def outcome (colored : Bool) (f : CommandFailure) : Outcome :=
  ⟨1, "", f.details colored ++ "error: " ++ f.message ++ "\n"⟩

end CommandFailure

namespace GenerateArguments

/-- The post-processors of the lines given; none may be blank. -/
def postProcessors (a : GenerateArguments) : Except CommandFailure (List PostProcessor) :=
  match a.postProcess.mapM PostProcessor.ofLine? with
  | some ps => .ok ps
  | none => .error .emptyPostProcess

def settings (a : GenerateArguments) : Except CommandFailure OutputSettings :=
  a.postProcessors.map fun postProcessors =>
    { directory := a.outputDirectory, typesFile? := a.typesFile?
      style := { banner := !a.noBanner }, postProcessors }

end GenerateArguments

namespace Host

variable {m : Type → Type} [Monad m]

/-- A step that may fail, in a command. -/
def step {α : Type} (x : Except Failure α) : ExceptT CommandFailure m α :=
  ExceptT.mk (pure (x.mapError .failed))

/-- The catalog that a file holds, or the one built in. -/
def loadCatalog (h : Host m) : Option String → ExceptT CommandFailure m Catalog
  | none => pure .builtIn
  | some path => do
    match ← h.readText path with
    | .error e => throw (.unreadableCatalog path e.message)
    | .ok text =>
      match Catalog.ofJson text with
      | .ok catalog => pure catalog
      | .error fault => throw (.invalidCatalog path (fault.message text))

def synthesizeIn (h : Host m) (directory : String) (catalog : Catalog) :
    ExceptT CommandFailure m Synthesis := do
  let sources ← h.sourcesIn directory catalog.bundles
  step (sources.synthesize {} catalog)

def runGenerate (h : Host m) (p : Palette) (a : GenerateArguments) :
    ExceptT CommandFailure m String := do
  let catalog ← h.loadCatalog a.catalog?
  let settings ← ExceptT.mk (pure a.settings)
  let report ← step (← (h.generate catalog a.sourceDirectory settings).run)
  return report.text p a.outputDirectory ++ "\n"

/-- Prints nothing when all is well. -/
def runCheck (h : Host m) (a : CheckArguments) : ExceptT CommandFailure m String := do
  let catalog ← h.loadCatalog a.catalog?
  let _ ← h.synthesizeIn a.sourceDirectory catalog
  return ""

/-- Resolving takes every bundle; else only the one asked for is read. -/
def inspectBundle (h : Host m) (a : InspectArguments) : ExceptT CommandFailure m BundleReport := do
  let catalog ← h.loadCatalog a.catalog?
  let bundle ← step (catalog.require a.bundle)
  if a.resolved then
    let s ← h.synthesizeIn a.sourceDirectory catalog
    let globals ← step (s.table.resolve bundle.name)
    let references := ((s.table.get? bundle.name).map (·.references)).getD []
    return ⟨bundle, true, references, globals⟩
  else
    let sources ← h.sourcesIn a.sourceDirectory [bundle]
    let made ← step (sources.moduleOf {} catalog bundle)
    return ⟨bundle, false, made.references, made.entries⟩

def runInspect (h : Host m) (p : Palette) (a : InspectArguments) :
    ExceptT CommandFailure m String := do
  let report ← h.inspectBundle a
  return if a.json then report.toJson.pretty 0 ++ "\n" else report.text p

def runList (h : Host m) (p : Palette) (a : ListArguments) : ExceptT CommandFailure m String := do
  let catalog ← h.loadCatalog a.catalog?
  return if a.json then catalog.toJson.pretty 0 ++ "\n" else catalog.report p

end Host

namespace Command

def color : Command → ColorChoice
  | generate a => a.color
  | check a => a.color
  | inspect a => a.color
  | list a => a.color

/-- Runs a command whose output goes to a terminal or elsewhere. -/
def run {m : Type → Type} [Monad m] (h : Host m) (terminal : Bool) (c : Command) : m Outcome := do
  let colored := c.color.isColored terminal
  let p := Palette.ofChoice colored
  let result ← (match c with
    | generate a => h.runGenerate p a
    | check a => h.runCheck a
    | inspect a => h.runInspect p a
    | list a => h.runList p a).run
  match result with
  | .ok out => return ⟨0, out, ""⟩
  | .error f => return f.outcome colored

end Command

end ImplicitGlobals
