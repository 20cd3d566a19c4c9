import ImplicitGlobals.Diagnostic.Basic
import ImplicitGlobals.Syntax.Word

/-!
# Complaints

The grammar notes what is wrong by word, not by byte: a complaint names the word
it was made at (the number after the last word stands for the end of the
source) and the openers that matter. A layout turns it into a diagnostic.
-/

namespace ImplicitGlobals

/-- What the grammar found wrong, and at which word. -/
inductive Complaint where
  /-- The word is wrong. `enclosing` is the innermost delimiter open then. -/
  | here (kind : DiagnosticKind) (detail : Option String) (word : Nat) (enclosing : Option Nat)
  /-- A `;` is missing between the word at `word` and the one before. -/
  | noSemicolon (word : Nat) (enclosing : Option Nat)
  /-- The delimiter at `opener` is still open at `word`. -/
  | unclosed (kind : DiagnosticKind) (note : String) (opener word : Nat)
deriving DecidableEq, Repr, Inhabited

namespace Complaint

/-- The word at which the grammar stood. -/
def place : Complaint → Nat
  | here _ _ i _ | noSemicolon i _ | unclosed _ _ _ i => i

/-- The span in which an error suppresses others: from the innermost open
delimiter to the end of the source. -/
def reach (l : Layout) (word : Nat) : Option Nat → Span
  | some opener => ⟨(l.span opener).start, l.size⟩
  | none => l.span word

/-- The diagnostic of a complaint. -/
def locate (l : Layout) : Complaint → Diagnostic
  | here kind detail i enclosing =>
    let d := (Diagnostic.ofKind kind (l.span i)).withSuppression (reach l i enclosing)
    match detail with
    | some text => d.withDetail text
    | none => d
  | noSemicolon i enclosing =>
    ((Diagnostic.ofKind .expectedSemicolon (l.span i)).withSuppression
      (reach l i enclosing)).withFix ⟨.point (l.endBefore i), "insert `;`", ";"⟩
  | unclosed kind note opener i =>
    (Diagnostic.ofKind kind ⟨(l.span opener).start, (l.span i).stop⟩).withRelated note
      (l.span opener)

end Complaint

end ImplicitGlobals
