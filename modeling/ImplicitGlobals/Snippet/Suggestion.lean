import ImplicitGlobals.Snippet.MarkedLine
import ImplicitGlobals.Diagnostic.Basic

/-!
# A suggested edit

The edit is shown on the lines it leaves: an insertion with its text marked below,
a replacement that loses text as old lines against the new one, and an edit over
several lines as lines that are new, changed or kept.
-/

namespace ImplicitGlobals.Snippet

/-- A replacement for the bytes of a span. -/
structure Edit where
  span : Span
  /-- What it replaces, if the source has these bytes. -/
  old? : Option (List Char)
  new : List Char
deriving DecidableEq, Repr, Inhabited

/-- The characters from byte `start` up to byte `stop`. -/
def slice (source : String) (start stop : Nat) : List Char :=
  let upTo := SourceLine.prefixWithin stop source.toList
  upTo.drop (SourceLine.prefixWithin start source.toList).length

/-- The characters of a span that lies within the source and cuts none of them. -/
def slice? (source : String) (s : Span) : Option (List Char) :=
  let ends (byte : Nat) : Bool := bytes (SourceLine.prefixWithin byte source.toList) == byte
  if s.start ≤ s.stop && ends s.start && ends s.stop then some (slice source s.start s.stop)
  else none

/-- The length of the longest common prefix. -/
def commonPrefix : List Char → List Char → Nat
  | a :: as, b :: bs => if a = b then commonPrefix as bs + 1 else 0
  | _, _ => 0

/-- How many characters of `old` begin and end `new`, when together they are all of
`old`. A common beginning goes first, and all of `old` at one end goes before that. -/
def kept? (old new : List Char) : Option (Nat × Nat) :=
  let n := old.length
  if old.isPrefixOf new then some (n, 0)
  else if old.isSuffixOf new then some (0, n)
  else
    let common := commonPrefix old new
    if (old.drop common).isSuffixOf (new.drop common) then some (common, n - common) else none

def trimBlank (cs : List Char) : List Char := (Text.trimBoth (String.ofList cs)).toList

/-- The columns of an inserted text, in which every character but the tab takes one. -/
def spread (cs : List Char) : Nat := (cs.map fun c => if c = '\t' then 4 else 1).foldr (· + ·) 0

namespace Edit

def ofFix (source : String) (f : Fix) : Edit :=
  ⟨f.span, slice? source f.span, f.replacement.toList⟩

/-- The edit without the characters that it keeps. One that keeps all it replaces is
an insertion between them. -/
def trimmed (e : Edit) : Edit :=
  match e.old? with
  | some old =>
    if e.new.isEmpty then e
    else
      match kept? old e.new with
      | some (before, after) =>
        { span := .point (e.span.start + bytes (old.take before))
          old? := some []
          new := (e.new.drop before).take (e.new.length - before - after) }
      | none => e
  | none => e

def isBlank (cs : List Char) : Bool := cs.all Text.isBlank

/-- Whether the replaced text has more than blanks. -/
def replacesText (e : Edit) : Bool :=
  match e.old? with
  | some old => !isBlank old
  | none => !e.span.isEmpty

/-- Whether text is lost that is not blank. -/
def losesText (e : Edit) : Bool :=
  e.replacesText &&
    (isBlank e.new ||
      !(e.old?.any fun old => (kept? (trimBlank old) (trimBlank e.new)).isSome))

def isInsertion (e : Edit) : Bool := !e.new.isEmpty && !e.replacesText

def changesText (e : Edit) : Bool := e.old? != some e.new

end Edit

/-- How an edit is shown. -/
inductive EditStyle where
  /-- Old lines against the new one. -/
  | change
  /-- A line of its own before what is there. -/
  | newLine
  /-- The line with the new text marked below. -/
  | underline
  | plain
deriving DecidableEq, Repr, Inhabited

/-- A line that an edit leaves, with the range of it that is new, if any can be. -/
structure EditedLine where
  text : List Char
  fresh? : Option (Nat × Nat)
deriving DecidableEq, Repr, Inhabited

/-- An edit without what it keeps, and the lines it leaves. -/
structure EditedLines where
  edit : Edit
  opening : Place
  closing : Place
  /-- The first and the last line of the whole edit. -/
  firstLine : Nat
  lastLine : Nat
  /-- The lines it touches. -/
  before : List SourceLine
  /-- The text that stands there afterwards, without line feeds at its end. -/
  result : List Char
  after : List EditedLine
deriving DecidableEq, Repr, Inhabited

namespace EditedLines

/-- The text without line feeds at its end. -/
def withoutLastFeeds (text : List Char) : List Char :=
  (text.reverse.dropWhile (· = '\n')).reverse

/-- The lines that a span touches; one that stops at the start of a line touches it. -/
def touched (s : SourceLines) (span : Span) : List SourceLine :=
  match s.all.filter fun l => span.start < l.stop && l.start ≤ span.stop with
  | [] => s.all.getLast?.toList
  | ls => ls

/-- The ranges of the new text on the lines that hold it. -/
def freshRanges (column : Nat) (new : List Char) : List (Nat × Nat) :=
  match Text.cutAt '\n' new with
  | [] => []
  | first :: rest => (column, column + spread first) :: rest.map fun piece => (0, spread piece)

def ofEdit (s : SourceLines) (whole : Edit) : EditedLines :=
  let edit := whole.trimmed
  let (first, last) := s.ends whole.span.start whole.span.stop
  let (opening, closing) := s.ends edit.span.start edit.span.stop
  let textOf (number : Nat) : List Char := ((s.numbered? number).map (·.text)).getD []
  let earlier := List.range' first.line (opening.line - first.line)
  let edited := earlier.flatMap (textOf · ++ ['\n']) ++
    (textOf opening.line).take opening.char ++ edit.new
  let text :=
    if edited.getLast? = some '\n' then edited
    else edited ++ (textOf closing.line).drop closing.char
  let result := withoutLastFeeds text
  let ranges := earlier.map (fun _ => none) ++ (freshRanges opening.char edit.new).map some
  { edit, opening, closing, result
    firstLine := first.line
    lastLine := last.line
    before := touched s edit.span
    after := (Text.endedLines result).zipWith EditedLine.mk ranges }

def style (l : EditedLines) : EditStyle :=
  let several := (Text.endedLines l.result).length > 1
  let isAll := trimBlank l.edit.new == trimBlank l.result
  if l.edit.losesText && !several then .change
  else if l.edit.new.getLast? = some '\n' && isAll then .newLine
  else if !isAll && !several then .underline
  else .plain

end EditedLines

/-- A drawing in the making, with the row that comes next. -/
structure Draft where
  drawing : Drawing
  next : Nat
deriving DecidableEq, Repr, Inhabited

namespace Draft

def add (d : Draft) (strokes : Drawing) : Draft := { d with drawing := d.drawing ++ strokes }

def skip (d : Draft) (rows : Nat) : Draft := { d with next := d.next + rows }

def back (d : Draft) (rows : Nat) : Draft := { d with next := d.next - rows }

end Draft

/-- What edits are drawn with: the digits of the line numbers, the style, and the
edit with its lines. -/
structure EditPen where
  digits : Nat
  style : EditStyle
  lines : EditedLines

namespace EditPen

def column (p : EditPen) : Nat := p.digits + 3

def shown (cs : List Char) : String := String.ofList (cs.flatMap Text.shownChar)

def sign (p : EditPen) (row : Nat) (text : String) (ink : Ink) : Stroke :=
  .write row (p.digits + 1) text ink

/-- A line that goes. -/
def removed (p : EditPen) (row number : Nat) (text : List Char) (ink : Ink) : Drawing :=
  [numberAt p.digits row number, p.sign row "- " .removed, .write row p.column (shown text) ink]

/-- A line that is there afterwards, behind its sign. -/
def present (p : EditPen) (row number : Nat) (text : List Char) (s : Stroke) : Drawing :=
  [numberAt p.digits row number, s, .write row p.column (shown text) .plain]

/-- The sign of one of several lines: new, kept or changed. -/
def signOf (p : EditPen) (row : Nat) (line : EditedLine) : Stroke :=
  match line.fresh? with
  | none => frameAt p.digits row
  | some (first, last) =>
    if first = 0 && last = bytes line.text then p.sign row "+ " .inserted
    else if first = 0 && last = 0 then frameAt p.digits row
    else p.sign row "~ " .inserted

/-- A line that goes, with the part of it that the edit replaces in the ink of removals. -/
def replaced (p : EditPen) (row : Nat) (line : SourceLine) : Drawing :=
  let columnOf (char : Nat) : Nat := p.column + (shown (line.text.take char)).length
  let first := if line.number = p.lines.opening.line then p.lines.opening.char else 0
  let last :=
    if line.number = p.lines.closing.line then p.lines.closing.char else line.text.length
  p.removed row line.number line.text .plain ++
    [.wash row (columnOf first) (columnOf last) .removed]

/-- The old lines, then the new one unless it is blank. An old last line that stays
is not shown. -/
def drawChange (p : EditPen) (number : Nat) (text : List Char) (d : Draft) : Draft :=
  let old := p.lines.before
  let rows := old.dropLast.zipIdx.flatMap fun (line, i) => p.replaced (d.next - 1 + i) line
  let d := (d.add rows).skip (old.length - 1)
  match old.getLast? with
  | some last =>
    if last.text = text then d.back 2
    else
      let d := d.add (p.replaced (d.next - 1) last)
      if Edit.isBlank text then d.back 1
      else d.add (p.present d.next number text (p.sign d.next "+ " .inserted))
  | none => d

/-- The range of a line in the ink of insertions. It counts one for each character
and is moved by the tabs before its ends. -/
def washFresh (p : EditPen) (row : Nat) (line : EditedLine) : Drawing :=
  match line.fresh? with
  | some (first, last) =>
    let tabs (n : Nat) := ((line.text.take n).filter (· = '\t')).length * 3
    if first = last then []
    else [.wash row (p.column + first + tabs first) (p.column + last + tabs last) .inserted]
  | none => []

/-- One line that the edit leaves. -/
def drawLine (p : EditPen) (d : Draft) (line : EditedLine) (index : Nat) : Draft :=
  let number := p.lines.firstLine + index
  let several := (Text.endedLines p.lines.result).length > 1
  let d := match p.style with
    | .change => p.drawChange number line.text d
    | style =>
      let sign :=
        if several then p.signOf d.next line
        else if style = EditStyle.newLine then p.sign d.next "+ " .inserted
        else p.sign d.next "| " .frame
      d.add (p.present d.next number line.text sign)
  (d.add (p.washFresh d.next line)).skip 1

/-- The lines that the edit leaves. Of more than three kept lines before it the first
and the last are shown. -/
def drawLines (p : EditPen) (d : Draft) : Draft :=
  let lines := p.lines.after.zipIdx
  let kept := lines.takeWhile fun (line, _) => line.fresh?.isNone
  let fresh := lines.drop kept.length
  let all (d : Draft) (ls : List (EditedLine × Nat)) : Draft :=
    ls.foldl (fun d (line, index) => p.drawLine d line index) d
  let d :=
    if fresh.isEmpty then d
    else if kept.length ≤ 3 then all d kept
    else
      let d := all d (kept.take 1)
      let d := (d.add [.write d.next (p.digits - dots.length) dots .frame]).skip 1
      all d (kept.drop (kept.length - 1))
  all d fresh

/-- The old lines of an edit that leaves nothing. They start on the row before. -/
def drawEmptied (p : EditPen) (s : SourceLines) (d : Draft) : Draft :=
  let first := p.lines.firstLine
  let count := p.lines.lastLine - first
  let rows := (List.range (count + 1)).flatMap fun i =>
    p.removed (d.next - 1 + i) (first + i) (((s.numbered? (first + i)).map (·.text)).getD []) .removed
  (d.add rows).skip count

/-- The mark below the new text, without the blanks around it. -/
def drawUnderline (p : EditPen) (d : Draft) : Draft :=
  let new := p.lines.edit.new
  let blank := Edit.isBlank new
  let leading := if blank then 0 else bytes (new.takeWhile Text.isBlank)
  let length := Text.columns (if blank then new else trimBlank new)
  let mark := if p.lines.edit.isInsertion then '+' else '~'
  if p.style = .underline && p.lines.edit.changesText then
    d.add [.write d.next (p.column + p.lines.opening.column + leading) (repeated mark length)
      .inserted]
  else d

end EditPen

/-- The drawing of an edit under its title. -/
def drawEdit (digits : Nat) (source : String) (title : Drawing) (f : Fix) : Drawing :=
  let s := SourceLines.ofSource source
  let lines := EditedLines.ofEdit s (Edit.ofFix source f)
  let p : EditPen := ⟨digits, lines.style, lines⟩
  let top := title.height
  let d : Draft := ⟨title ++ [frameAt digits top], top + 1⟩
  let d := if p.style = .change then d.skip 1 else d
  let d := if lines.after.isEmpty then p.drawEmptied s d else p.drawLines d
  let d := p.drawUnderline d
  d.drawing ++ [frameAt digits d.next]

end ImplicitGlobals.Snippet
