import ImplicitGlobals.Diagnostic.Kind
import ImplicitGlobals.Syntax.Span

/-!
# Diagnostics

A diagnostic is an error at a span of the source. It may point at a second
place, suggest an edit, and name the wider span in which it makes later errors
redundant. `Diagnostics.filtered` keeps those that no other one explains.
-/

namespace ImplicitGlobals

/-- A suggested edit: `replacement` for the text of `span`, an insertion when the
span is empty. -/
structure Fix where
  span : Span
  description : String
  replacement : String
deriving DecidableEq, Repr, Inhabited

/-- A second place that an error refers to. -/
structure Related where
  message : String
  span : Span
deriving DecidableEq, Repr, Inhabited

structure Diagnostic where
  kind : DiagnosticKind
  /-- What is shown underlined. -/
  span : Span
  /-- Where errors of less weight are consequences of this one. -/
  suppression : Span
  message : String
  fix? : Option Fix := none
  related : List Related := []
deriving DecidableEq, Repr, Inhabited

/-- The diagnostics of a source, in the order of report. -/
abbrev Diagnostics := List Diagnostic

namespace Diagnostic

/-- A diagnostic with the kind's own message, which suppresses in its own span. -/
def ofKind (kind : DiagnosticKind) (span : Span) : Diagnostic :=
  { kind, span, suppression := span, message := kind.summary }

def withDetail (d : Diagnostic) (detail : String) : Diagnostic :=
  { d with message := d.kind.detailed detail }

def withRelated (d : Diagnostic) (message : String) (span : Span) : Diagnostic :=
  { d with related := d.related ++ [⟨message, span⟩] }

def withSuppression (d : Diagnostic) (span : Span) : Diagnostic :=
  { d with suppression := span }

def withFix (d : Diagnostic) (fix : Fix) : Diagnostic :=
  { d with fix? := some fix }

/-- Whether the suppression of `d` reaches over the whole of `other`, from before
its start. -/
def encloses (d other : Diagnostic) : Bool :=
  d.suppression.start < other.span.start && other.span.stop ≤ d.suppression.stop

/-- Whether reporting `d` makes `other` redundant. An enclosing suppression decides
by weight. So does a common start, except that there a missing part explains an
unclosed delimiter and not the other way round. -/
def explains (d other : Diagnostic) : Bool :=
  if d.encloses other then d.kind.outranks other.kind
  else if d.span.start ≠ other.span.start then false
  else if d.kind.isMissing && other.kind.isUnclosed then true
  else if d.kind.isUnclosed && other.kind.isMissing then false
  else d.kind.outranks other.kind

/-- `start..stop`. -/
def place (s : Span) : String := toString s.start ++ ".." ++ toString s.stop

/-- The diagnostic on one line. -/
def text (d : Diagnostic) : String :=
  "error at " ++ place d.span ++ ": " ++ d.message ++
    (d.fix?.elim "" fun f => " (fix: " ++ f.description ++ ")") ++
    String.join (d.related.map fun r => " (related: " ++ r.message ++ " at " ++ place r.span ++ ")")

theorem explains_irrefl (d : Diagnostic) : d.explains d = false := by
  have u : (d.kind.isMissing && d.kind.isUnclosed) = false := by cases d.kind <;> rfl
  simp [explains, DiagnosticKind.outranks_irrefl, u]

end Diagnostic

namespace Diagnostics

/-- The diagnostics that no other one explains. No diagnostic explains itself, so
it is compared with all of them. -/
def filtered (ds : Diagnostics) : Diagnostics :=
  ds.filter fun inner => !ds.any fun outer => outer.explains inner

/-- One line for each diagnostic. -/
def text (ds : Diagnostics) : String := "\n".intercalate (ds.map Diagnostic.text)

end Diagnostics

end ImplicitGlobals
