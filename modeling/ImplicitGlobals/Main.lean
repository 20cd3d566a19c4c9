import ImplicitGlobals.CommandLine.Arguments
import ImplicitGlobals.CommandLine.Run

/-!
# The program

Reads the arguments, runs the command on the real system, prints, and exits.
-/

namespace ImplicitGlobals

/-- The fault behind an error of the system. -/
def DiskFault.ofError : IO.Error → DiskFault
  | .noFileOrDirectory .. => .notFound
  | .resourceBusy .. => .busy
  | .alreadyExists .. => .alreadyExists
  | .inappropriateType .. => .notDirectory
  | .invalidArgument .. => .invalid
  | .unsatisfiedConstraints .. => .notEmpty
  | e => .other (toString e)

/-- An action on files, with the fault that stops it. -/
def attempt {α : Type} (action : IO α) : IO (Except DiskFault α) := do
  match ← action.toBaseIO with
  | .ok a => return .ok a
  | .error e => return .error (.ofError e)

/-- The real system. It has files and runs no programs. -/
def systemHost : Host IO where
  readText path := attempt (IO.FS.readFile path)
  removeTree path := attempt (IO.FS.removeDirAll path)
  makeDirectories path := attempt (IO.FS.createDirAll path)
  writeText path text := attempt (IO.FS.writeFile path text)
  runProgram _ _ := return .error "programs cannot be run here"

/-- What is printed when the arguments make no command. -/
def UsageError.message : UsageError → String
  | noCommand => "a command is required: generate, check, inspect or list"
  | help => "commands: generate, check, inspect, list"
  | unknownCommand => "unknown command"
  | unknownArgument => "unexpected argument"
  | invalidValue => "an option has no value or an invalid one"
  | repeated => "an option is given twice"
  | unwantedValue => "a flag takes no value"
  | missingArgument => "a required argument is missing"

end ImplicitGlobals

open ImplicitGlobals

def main (arguments : List String) : IO UInt32 := do
  match Arguments.read arguments with
  | .error .help =>
    IO.println UsageError.help.message
    return 0
  | .error e =>
    IO.eprintln ("error: " ++ e.message)
    return UInt32.ofNat e.status
  | .ok command =>
    let terminal ← (← IO.getStdout).isTty
    let outcome ← command.run systemHost terminal
    IO.print outcome.out
    IO.eprint outcome.err
    return UInt32.ofNat outcome.status
