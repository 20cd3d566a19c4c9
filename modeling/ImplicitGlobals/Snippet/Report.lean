import ImplicitGlobals.Failure
import ImplicitGlobals.Snippet.MarkedLines
import ImplicitGlobals.Snippet.Suggestion

/-!
# Diagnostics with their source

A diagnostic is shown as a title, the place, the lines of the source with the
primary span and the related ones marked, and the suggested edit.
-/

namespace ImplicitGlobals

namespace Snippet

/-- The span that is marked: an empty one is widened by a byte, within the source. -/
def visible (s : Span) (limit : Nat) : Span :=
  if s.isEmpty then ⟨s.start, min (s.start + 1) limit⟩ else s

/-- A level and a message. Later lines of the message stand under its first one. -/
def titleOf (level : String) (levelInk messageInk : Ink) (message : String) : Drawing :=
  let indent := level.length + 2
  let line (text : String) (row : Nat) : Drawing :=
    [.write row 0 (repeated ' ' indent) .plain, .write row indent text messageInk]
  ((Text.lines message).zipIdx.map fun (text, row) => line text row).flatten ++
    [.write 0 0 level levelInk, .write 0 level.length ": " messageInk]

/-- `--> path:line:char` for the first line that the primary span marks. -/
def placeLine (digits : Nat) (path : String) (ls : List MarkedLine) : Drawing :=
  let isPrimary (l : MarkedLine) := l.marks.any (·.primary)
  let place := (ls.find? isPrimary).map fun l =>
    let chars := (l.marks.filter (·.primary)).map (·.start.char)
    ":" ++ toString l.line.number ++ ":" ++ toString (chars.min?.getD 0 + 1)
  [.write 0 digits "--> " .frame, .write 0 (digits + 4) (path ++ place.getD "") .plain]

/-- The greatest line number that is shown, or the one before the last when the
span ends with a line feed. -/
def greatestLine (source : String) (stops : List Nat) : Nat :=
  let stop := min (Extent.greatest stops) source.utf8ByteSize
  let pieces := (Text.cutAt '\n' (slice source 0 stop)).reverse
  match pieces with
  | [] :: rest => max 1 rest.length
  | _ => pieces.length

def annotationsOf (d : Diagnostic) (source : String) : List Annotation :=
  let lines := SourceLines.ofSource source
  let mark (span : Span) (primary : Bool) (label : String) :=
    let s := visible span source.utf8ByteSize
    Annotation.ofBytes lines s.start s.stop primary label
  mark d.span true d.message :: d.related.map fun r => mark r.span false r.message

/-- The bytes that the parts of a diagnostic reach to. -/
def stopsOf (d : Diagnostic) (source : String) : List Nat :=
  (d.span :: d.related.map (·.span)).map (fun s => (visible s source.utf8ByteSize).stop) ++
    (d.fix?.map (·.span.stop)).toList

/-- The diagnostic on the lines of its source. -/
def drawSource (digits : Nat) (path? : Option String) (source : String) (d : Diagnostic) : Drawing :=
  let lines := SourceLines.ofSource source
  let annotations := annotationsOf d source
  let marked := markedLines lines annotations
  let depth := depthOf annotations
  let narrow : Layout := ⟨digits, depth, ⟨0, 0, 0⟩⟩
  let layout := { narrow with window := .ofLines marked (terminalColumns - narrow.code) }
  let place := (path?.map fun path => placeLine digits path marked).getD []
  stack (place :: [frameAt digits 0] :: drawingsOf layout lines [] marked)

end Snippet

open Snippet

/-- The lines of a diagnostic with its source. -/
def Diagnostic.snippet (d : Diagnostic) (path? : Option String) (source : String)
    (colored : Bool) : List String :=
  let digits := (toString (greatestLine source (stopsOf d source))).length
  let body := drawSource digits path? source d
  let error := (titleOf "error" .error .headline (Text.shown d.message)).above body
  match d.fix? with
  | none => error.lines colored
  | some f =>
    let help := drawEdit digits source (titleOf "help" .help .plain f.description) f
    (error.above [frameAt digits 0]).lines colored ++ help.lines colored

/-- All diagnostics with their source, one below the other. -/
def Diagnostics.snippets (ds : Diagnostics) (path? : Option String) (source : String)
    (colored : Bool) : String :=
  "\n".intercalate (ds.flatMap fun d => d.snippet path? source colored)

def SyntaxFailure.snippets (f : SyntaxFailure) (colored : Bool) : String :=
  f.diagnostics.snippets f.file? f.text colored

end ImplicitGlobals
