import ImplicitGlobals.Disk.Basic
import ImplicitGlobals.Generation.PostProcessor

/-!
# Hosts

What a run asks of the system it runs on: files and programs. The same run works on
the real system and on a machine in memory, where it can be reasoned about.
-/

namespace ImplicitGlobals

structure Host (m : Type → Type) where
  readText : (path : String) → m (Except DiskFault String)
  removeTree : (path : String) → m (Except DiskFault Unit)
  makeDirectories : (path : String) → m (Except DiskFault Unit)
  writeText : (path text : String) → m (Except DiskFault Unit)
  /-- Runs a program with further arguments; what it answers is why it failed. -/
  runProgram : PostProcessor → (arguments : List String) → m (Except String Unit)

/-- A machine in memory: its disk and what programs have printed. -/
structure Machine where
  disk : Disk
  printed : String := ""
deriving DecidableEq, Repr, Inhabited

/-- The programs of a machine. -/
abbrev Programs := PostProcessor → List String → Machine → Except String Unit × Machine

namespace Machine

/-- Applies an operation that leaves the disk alone when it fails. -/
def change (f : Disk → Except DiskFault Disk) : StateM Machine (Except DiskFault Unit) :=
  fun machine =>
    match f machine.disk with
    | .ok disk => (.ok (), { machine with disk })
    | .error e => (.error e, machine)

/-- Applies an operation that may leave its work half done. -/
def alter (f : Disk → Except DiskFault Unit × Disk) : StateM Machine (Except DiskFault Unit) :=
  fun machine =>
    match f machine.disk with
    | (result, disk) => (result, { machine with disk })

/-- The host of a machine with some programs. -/
def host (programs : Programs) : Host (StateM Machine) where
  readText path := fun machine => (machine.disk.readText path, machine)
  removeTree path := alter (·.removeTree path)
  makeDirectories path := alter (·.makeDirectories path)
  writeText path text := change (·.writeText path text)
  runProgram p arguments := programs p arguments

end Machine

end ImplicitGlobals
