import ImplicitGlobals.Grammar.Cursor

/-!
# Statement boundaries

Where a statement may begin, and how one ends. Types and initializers stop where
the next declaration seems to begin, so a missing `;` costs one statement only.
-/

namespace ImplicitGlobals.Grammar

/-- Whether the current word can begin a statement, judged by the word behind it. -/
def atStatementStart : Rule Bool := do
  if (← current) ≠ some .ident then return false
  match Keyword.ofWord? (← currentText) with
  | some .kwExport => return true
  | some .kwDeclare | some .kwInterface | some .kwEnum | some .kwType | some .kwNamespace
  | some .kwClass => nextIs .ident
  | some .kwVar | some .kwLet | some .kwConst =>
    return (← kindAt 1).any KindSet.bindingStart.holds
  | some .kwFunction =>
    let next ← kindAt 1
    return next == some .ident || next == some .parenOpen
  | some .kwAbstract => nthIsWord 1 "class"
  | some .kwModule =>
    let next ← kindAt 1
    return next == some .ident || next == some .stringLiteral
  | some .kwGlobal => nextIs .braceOpen
  | some .kwImport =>
    let next ← kindAt 1
    return next == some .ident || next == some .stringLiteral || next == some .braceOpen ||
      next == some .star
  | _ => return false

/-- Ends a statement: with `;`, or with nothing at a line break, before a closing
brace and at the end of the source. -/
def expectSemicolon : Rule Unit := do
  if ← eat .semicolon then return
  if ← atEnd <||> currentIs .braceClose <||> onFreshLine then return
  errorNoSemicolon

end ImplicitGlobals.Grammar
