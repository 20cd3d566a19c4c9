import ImplicitGlobals.Disk.Fault
import ImplicitGlobals.Disk.Path

/-!
# Disks

Files and directories in memory. A location is the list of names that lead from the
root to an entry; a path is looked up name by name, from the root or from the working
directory. An operation gives its result together with the disk it leaves, for one
that fails may have done part of its work.
-/

namespace ImplicitGlobals

/-- The names from the root to an entry. -/
abbrev Location := List String

inductive Entry where
  | file (text : String)
  | directory
deriving DecidableEq, Repr, Inhabited

structure Disk where
  /-- Every entry but the root. -/
  entries : List (Location × Entry)
  /-- The working directory. -/
  home : Location
deriving DecidableEq, Repr, Inhabited

namespace Disk

/-- What is at a location; the root is always a directory. -/
def entry? (d : Disk) (place : Location) : Option Entry :=
  if place = [] then some .directory else d.entries.lookup place

/-- Puts an entry at a location, in the place of an older one. -/
def put (d : Disk) (place : Location) (e : Entry) : Disk :=
  { d with entries := d.entries.filter (·.1 != place) ++ [(place, e)] }

/-- Drops the entry at a location. -/
def drop (d : Disk) (place : Location) : Disk :=
  { d with entries := d.entries.filter (·.1 != place) }

/-- Drops everything below a location. -/
def clear (d : Disk) (place : Location) : Disk :=
  { d with entries := d.entries.filter fun e => !(place.isPrefixOf e.1 && e.1 != place) }

/-- The longest name, in bytes. -/
def nameLimit : Nat := 255

/-- A path is shorter than this, in bytes. -/
def pathLimit : Nat := 4096

/-- The faults of a path that no disk has an answer to. -/
def checkPath (path : String) : Except DiskFault Unit :=
  if path.toList.contains '\x00' then .error .zeroByte
  else if path = "" then .error .notFound
  else if pathLimit ≤ path.utf8ByteSize then .error .nameTooLong
  else .ok ()

/-- A location that has to be a directory. -/
def requireDirectory (d : Disk) (place : Location) : Except DiskFault Unit :=
  match d.entry? place with
  | none => .error .notFound
  | some (.file _) => .error .notDirectory
  | some .directory => .ok ()

/-- Goes from a directory to the entry of a name in it. -/
def step (d : Disk) (place : Location) (name : String) : Except DiskFault Location := do
  d.requireDirectory place
  if name = "." then return place
  else if name = ".." then return place.dropLast
  else if nameLimit < name.utf8ByteSize then .error .nameTooLong
  else if (d.entry? (place ++ [name])).isSome then return place ++ [name]
  else .error .notFound

/-- Where the names of a path are looked up from. -/
def start (d : Disk) (path : String) : Location := if Path.isAbsolute path then [] else d.home

/-- The location of what a path leads to. -/
def locate (d : Disk) (path : String) : Except DiskFault Location := do
  checkPath path
  let found ← (Path.names path).foldlM d.step (d.start path)
  if Path.endsInSlash path then d.requireDirectory found
  return found

/-- What the last name of a path stands for: an entry in an existing directory, which
need not exist itself, or a dot name. -/
inductive Target where
  | named (directory : Location) (name : String)
  | here
  | above
  | root
deriving DecidableEq, Repr

/-- Resolves a path up to its last name. -/
def target (d : Disk) (path : String) : Except DiskFault Target := do
  checkPath path
  let names := Path.names path
  match names.getLast? with
  | none => return .root
  | some last =>
    let directory ← names.dropLast.foldlM d.step (d.start path)
    d.requireDirectory directory
    if last = "." then return .here
    else if last = ".." then return .above
    else if nameLimit < last.utf8ByteSize then .error .nameTooLong
    else return .named directory last

/-- The text of a file. -/
def readText (d : Disk) (path : String) : Except DiskFault String := do
  match d.entry? (← d.locate path) with
  | some (.file text) => return text
  | some .directory => .error .isDirectory
  | none => .error .notFound

def isDirectory (d : Disk) (path : String) : Bool :=
  match d.locate path with
  | .ok place => d.entry? place == some .directory
  | .error _ => false

/-- Makes one directory. -/
def makeDirectory (d : Disk) (path : String) : Except DiskFault Disk := do
  match ← d.target path with
  | .named directory name =>
    let place := directory ++ [name]
    if (d.entry? place).isSome then .error .alreadyExists else return d.put place .directory
  | _ => .error .alreadyExists

/-- Makes a directory, unless there is one. -/
def ensureDirectory (d : Disk) (path : String) : Except DiskFault Disk :=
  match d.makeDirectory path with
  | .ok d => .ok d
  | .error e => if d.isDirectory path then .ok d else .error e

/-- Makes a directory and those it lies in. Every parent has a shorter path, so `fuel`
need not exceed the length of the path. -/
def makeDirectoriesFrom : Nat → Disk → String → Except DiskFault Unit × Disk
  | 0, d, _ => (.ok (), d)
  | fuel + 1, d, path =>
    if path = "" then (.ok (), d)
    else
      match d.ensureDirectory path, Path.parent? path with
      | .ok d, _ => (.ok (), d)
      | .error .notFound, some above =>
        match makeDirectoriesFrom fuel d above with
        | (.error e, d) => (.error e, d)
        | (.ok (), d) =>
          match d.ensureDirectory path with
          | .ok d => (.ok (), d)
          | .error e => (.error e, d)
      | .error e, _ => (.error e, d)

def makeDirectories (d : Disk) (path : String) : Except DiskFault Unit × Disk :=
  makeDirectoriesFrom (path.length + 1) d path

/-- Writes a file, in the place of an older one. -/
def writeText (d : Disk) (path text : String) : Except DiskFault Disk := do
  match ← d.target path with
  | .named directory name =>
    let place := directory ++ [name]
    if Path.endsInSlash path || d.entry? place == some .directory then .error .isDirectory
    else return d.put place (.file text)
  | _ => .error .isDirectory

/-- Removes a directory that is empty. -/
def removeDirectory (d : Disk) (path : String) : Except DiskFault Disk := do
  match ← d.target path with
  | .here => .error .invalid
  | .above => .error .notEmpty
  | .root => .error .busy
  | .named directory name =>
    let place := directory ++ [name]
    d.requireDirectory place
    return d.drop place

/-- Removes a directory with everything in it. What it holds goes first; that the
directory is gone by then is no fault. -/
def removeTree (d : Disk) (path : String) : Except DiskFault Unit × Disk :=
  match d.locate path with
  | .error e => (.error e, d)
  | .ok place =>
    match d.requireDirectory place with
    | .error e => (.error e, d)
    | .ok () =>
      let d := d.clear place
      match d.removeDirectory path with
      | .ok d => (.ok (), d)
      | .error .notFound => (.ok (), d)
      | .error e => (.error e, d)

/-- The files below a location and what they hold, by the path from there. -/
def filesBelow (d : Disk) (place : Location) : List (String × String) :=
  d.entries.filterMap fun (p, e) =>
    match e with
    | .file text =>
      if place.isPrefixOf p then some ("/".intercalate (p.drop place.length), text) else none
    | .directory => none

end Disk

end ImplicitGlobals
