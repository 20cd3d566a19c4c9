import ImplicitGlobals.CommandLine.Command

/-!
# Reading arguments

A command name comes first, then options and at most one plain argument in any order.
A valued option takes its value after an equals sign or from the next argument, unless
that starts with a dash. Two dashes alone end the options. A value is looked at only
when the next argument has been recognised, so of two faults an unknown argument may
win over the invalid value before it.
-/

namespace ImplicitGlobals.Arguments

/-- The options and plain arguments of all commands. -/
inductive Key where
  | catalog
  | sourceDirectory
  | outputDirectory
  | typesFile
  | postProcess
  | noBanner
  | resolved
  | json
  | color
  | bundle
deriving DecidableEq, Repr, Inhabited

/-- What values an option takes. -/
inductive Arity where
  | flag
  /-- A value that is not empty. -/
  | path
  | color
  | anyText
deriving DecidableEq, Repr, Inhabited

/-- The names of the commands. -/
inductive CommandName where
  | generate
  | check
  | inspect
  | list
deriving DecidableEq, Repr, Inhabited

namespace Key

/-- The option behind the two dashes; the plain argument has none. -/
def option? : Key → Option String
  | catalog => some "catalog"
  | sourceDirectory => some "lib-dir"
  | outputDirectory => some "out-dir"
  | typesFile => some "types-file"
  | postProcess => some "post-process"
  | noBanner => some "no-banner"
  | resolved => some "resolved"
  | json => some "json"
  | color => some "color"
  | bundle => none

def arity : Key → Arity
  | catalog | sourceDirectory | outputDirectory | typesFile => .path
  | postProcess | bundle => .anyText
  | noBanner | resolved | json => .flag
  | color => .color

def isRepeatable (k : Key) : Bool := k == postProcess

end Key

namespace CommandName

def ofWord? : String → Option CommandName
  | "generate" => some generate
  | "check" => some check
  | "inspect" => some inspect
  | "list" => some list
  | _ => none

/-- What a command takes. -/
def keys : CommandName → List Key
  | generate =>
    [.sourceDirectory, .outputDirectory, .typesFile, .postProcess, .noBanner, .catalog, .color]
  | check => [.sourceDirectory, .catalog, .color]
  | inspect => [.bundle, .sourceDirectory, .resolved, .json, .catalog, .color]
  | list => [.json, .catalog, .color]

/-- What a command cannot do without. -/
def required : CommandName → List Key
  | generate => [.sourceDirectory, .outputDirectory]
  | check => [.sourceDirectory]
  | inspect => [.bundle, .sourceDirectory]
  | list => []

/-- The key of an option that the command takes. -/
def option? (c : CommandName) (name : String) : Option Key :=
  c.keys.find? fun k => k.option? == some name

end CommandName

/-- What has been read of a command's arguments. -/
structure State where
  /-- The values given so far, in order. -/
  given : List (Key × String) := []
  /-- What was read last, and its value if it has one yet. -/
  pending : Option (Key × Option String) := none
  optionsEnded : Bool := false
deriving DecidableEq, Repr, Inhabited

namespace State

def has (s : State) (k : Key) : Bool := s.given.any (·.1 == k)

/-- Whether a value may be given for a key of the arity. -/
def accepts : Arity → String → Bool
  | .flag, _ | .anyText, _ => true
  | .path, v => v != ""
  | .color, v => (ColorChoice.ofWord? v).isSome

/-- Adds a value. -/
def record (s : State) (k : Key) (v : String) : Except UsageError State :=
  if s.has k && !k.isRepeatable then .error .repeated
  else if accepts k.arity v then .ok { s with given := s.given ++ [(k, v)] }
  else .error .invalidValue

/-- Looks at what is pending. -/
def settle (s : State) : Except UsageError State :=
  match s.pending with
  | none => .ok s
  | some (_, none) => .error .invalidValue
  | some (k, some v) => { s with pending := none }.record k v

/-- Reads `--name` or `--name=value`. -/
def readOption (c : CommandName) (s : State) (name : String) (value? : Option String) :
    Except UsageError State :=
  match c.option? name, value? with
  | none, value? =>
    if name ≠ "help" then .error .unknownArgument
    else if value?.isSome then .error .unwantedValue
    else do
      let _ ← s.settle
      throw .help
  | some k, some v =>
    if k.arity = .flag then .error .unwantedValue
    else do
      let s ← s.settle
      s.record k v
  | some k, none => do
    let s ← s.settle
    if k.arity = .flag then s.record k "" else return { s with pending := some (k, none) }

/-- Reads a dash with letters behind it; `h` is the only one there is. -/
def readLetters (s : State) : List Char → Except UsageError State
  | 'h' :: _ => do
    let _ ← s.settle
    throw .help
  | _ => .error .unknownArgument

/-- Reads a plain argument. -/
def readPlain (c : CommandName) (s : State) (v : String) : Except UsageError State :=
  let taken := s.has .bundle || s.pending.any (·.1 == .bundle)
  if c.keys.contains .bundle && !taken then do
    let s ← s.settle
    return { s with pending := some (.bundle, some v) }
  else .error .unknownArgument

/-- Splits the text behind two dashes at its first equals sign. -/
def splitOption (cs : List Char) : String × Option String :=
  match cs.span (· != '=') with
  | (name, _ :: value) => (String.ofList name, some (String.ofList value))
  | (name, []) => (String.ofList name, none)

/-- Reads one argument. -/
def read (c : CommandName) (s : State) (argument : String) : Except UsageError State :=
  if s.optionsEnded then s.readPlain c argument
  else
    match argument.toList, s.pending with
    | ['-', '-'], _ => .ok { s with optionsEnded := true }
    | '-' :: '-' :: rest, _ => s.readOption c (splitOption rest).1 (splitOption rest).2
    | '-' :: letter :: rest, _ => s.readLetters (letter :: rest)
    | _, some (k, none) => .ok { s with pending := some (k, some argument) }
    | _, _ => s.readPlain c argument

def first? (s : State) (k : Key) : Option String := s.given.lookup k

def all (s : State) (k : Key) : List String :=
  (s.given.filter (·.1 == k)).map (·.2)

def color (s : State) : ColorChoice := ((s.first? .color).bind ColorChoice.ofWord?).getD .auto

/-- The command that the values make. -/
def command (c : CommandName) (s : State) : Command :=
  let text (k : Key) := (s.first? k).getD ""
  match c with
  | .generate =>
    .generate
      { catalog? := s.first? .catalog, sourceDirectory := text .sourceDirectory
        outputDirectory := text .outputDirectory, typesFile? := s.first? .typesFile
        postProcess := s.all .postProcess, noBanner := s.has .noBanner, color := s.color }
  | .check =>
    .check
      { catalog? := s.first? .catalog, sourceDirectory := text .sourceDirectory, color := s.color }
  | .inspect =>
    .inspect
      { catalog? := s.first? .catalog, sourceDirectory := text .sourceDirectory
        bundle := text .bundle, resolved := s.has .resolved, json := s.has .json
        color := s.color }
  | .list => .list { catalog? := s.first? .catalog, json := s.has .json, color := s.color }

/-- Ends the reading: what is required has to be there. -/
def finish (c : CommandName) (s : State) : Except UsageError Command := do
  let s ← s.settle
  if c.required.all s.has then return s.command c else throw .missingArgument

end State

/-- Reads what stands behind `help`: command names that lead to a page. -/
def readHelp : List String → UsageError
  | [] => .help
  | [name] => if name = "help" ∨ (CommandName.ofWord? name).isSome then .help else .unknownCommand
  | _ => .unknownCommand

/-- Reads all arguments. `optionsEnded` tells whether two dashes came before them. -/
def readFrom (optionsEnded : Bool) : List String → Except UsageError Command
  | [] => .error .noCommand
  | word :: rest =>
    let isCommand := word = "help" || (CommandName.ofWord? word).isSome
    if optionsEnded then .error (if isCommand then .unknownArgument else .unknownCommand)
    else if word = "help" then .error (readHelp rest)
    else
      match CommandName.ofWord? word, word.toList with
      | some c, _ => do (← rest.foldlM (State.read c) {}).finish c
      | none, ['-', '-'] => readFrom true rest
      | none, '-' :: '-' :: option =>
        match State.splitOption option with
        | ("help", none) => .error .help
        | ("help", some _) => .error .unwantedValue
        | _ => .error .unknownArgument
      | none, '-' :: 'h' :: _ => .error .help
      | none, '-' :: _ :: _ => .error .unknownArgument
      | none, _ => .error .unknownCommand

/-- The command that the arguments ask for. -/
def read (arguments : List String) : Except UsageError Command := readFrom false arguments

end ImplicitGlobals.Arguments
