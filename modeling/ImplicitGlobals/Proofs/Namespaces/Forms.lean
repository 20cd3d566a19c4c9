import ImplicitGlobals.Proofs.Namespaces.Transport
import ImplicitGlobals.Proofs.Printing.Rejecting

/-!
# Two forms of nested namespaces

`namespace A.B` with a block is read as one module with two names, and `namespace A` around
`namespace B` with that block as a module in the block of another one. In both forms it is the same
words that have to be read as the innermost block, and the forms are read where these are.
-/

namespace ImplicitGlobals.Grammar

open Lexeme

variable {words : List Word} {l a : List Lexeme} {ts : List SyntaxTree} {t : SyntaxTree} {inner : Rule Unit}

/-! ### A namespace in a block -/

/-- A statement in a block is one turn of it. -/
theorem ReadsIn.blockTurn (first : kindOf l 0 = some .ident) (h : ReadsIn words inner l a () ts) :
    ReadsIn words (Grammar.blockTurn inner) l a true ts := by
  have going := (atEnd_parses l).or (currentIs_parses l .braceClose)
  rw [isEmpty_of_kindOf first, first] at going
  exact .ask going (h.answer true)

/-- One statement between braces. -/
theorem ReadsIn.singleBlock (first : kindOf l 0 = some .ident)
    (h : ReadsIn words inner l (ofSign .braceClose :: a) () ts) :
    ReadsIn words (Grammar.moduleBlock inner) (ofSign .braceOpen :: l) a () [blockTree ts] := by
  have turns := ReadsIn.repeatWhile (.blockTurn first h) (.stop (blockTurn_ends inner a))
  have whole := ReadsIn.moduleBlock (.node (.delimited blockMarks (ofSign .braceOpen) rfl turns))
  simpa [blockTree] using whole

/-- What is rejected inside is rejected in a block of its own. -/
theorem Rejects.singleBlock (first : kindOf l 0 = some .ident) (keeps : Keeps inner) (h : Rejects words inner l ()) :
    Rejects words (Grammar.moduleBlock inner) (ofSign .braceOpen :: l) () := by
  have going := (atEnd_parses l).or (currentIs_parses l .braceClose)
  rw [isEmpty_of_kindOf first, first] at going
  have turn : Rejects words (Grammar.blockTurn inner) l true := going.rejects (h.answer true)
  have kept : Keeps (Grammar.blockTurn inner) := .bind
    (.or (.ofAnswers atEnd_answers) (.ofAnswers (currentIs_answers .braceClose)))
    fun _ => .ite (.pure false) (.bind keeps fun _ => .pure true)
  exact .moduleBlock (.node (.delimited blockMarks rfl (turn.repeatWhile kept)) _)

section

variable {name : String}

/-- A namespace is a statement, however many levels there may be. -/
theorem ReadsIn.namespaceStatement
    (h : ∀ n, ReadsIn words (Grammar.moduleRest (statementWithin n)) (⟨.ident, name⟩ :: l) a () ts) (n : Nat) :
    ReadsIn words (statementWithin n) (ofKeyword .kwNamespace :: ⟨.ident, name⟩ :: l) a ()
      [.node .moduleDeclaration (keywordLeaf .kwNamespace :: ts)] := by
  cases n with
  | zero => exact fun _ _ _ => .throw _
  | succ n =>
    have next := nextIs_parses (ofKeyword .kwNamespace :: ⟨.ident, name⟩ :: l) .ident
    have declared := ReadsInFrom.onlyIf next (.moduleDeclaration (declareTrees false) (h n))
    exact .checkpoint (ReadsInFrom.statementAt rfl declared)

/-- And behind a `namespace` in front. -/
theorem Rejects.namespaceStatement
    (h : ∀ n, Rejects words (Grammar.moduleRest (statementWithin n)) (⟨.ident, name⟩ :: l) ()) (n : Nat) :
    Rejects words (statementWithin n) (ofKeyword .kwNamespace :: ⟨.ident, name⟩ :: l) () := by
  cases n with
  | zero => exact fun _ _ _ => .throw _
  | succ n =>
    have next := nextIs_parses (ofKeyword .kwNamespace :: ⟨.ident, name⟩ :: l) .ident
    have rejected (point : Checkpoint) :
        Rejects words (Grammar.statementAt (statementWithin n) point)
          (declareLexemes false ++ ofKeyword .kwNamespace :: ⟨.ident, name⟩ :: l) () :=
      .statementAt rfl (next.rejects (((h n).moduleDeclaration point).answer true))
    exact .checkpoint rejected

end

/-! ### The forms -/

/-- What stands behind `namespace`, with the names behind one another and then the block. -/
def dottedForm (first : String) (more : List String) (block : List Lexeme) : List Lexeme :=
  ⟨.ident, first⟩ :: (dottedLexemes more ++ block)

/-- The same with each name in a namespace of its own. -/
def nestedForm (first : String) : List String → List Lexeme → List Lexeme
  | [], block => ⟨.ident, first⟩ :: block
  | next :: more, block => ⟨.ident, first⟩ :: ofSign .braceOpen :: ofKeyword .kwNamespace ::
      (nestedForm next more block ++ [ofSign .braceClose])

/-- The parts of a dotted name with its block. -/
def dottedParts (first : String) (more : List String) (block : SyntaxTree) : List SyntaxTree :=
  identifierTree first :: (dottedTrees more ++ [block])

/-- The parts of nested blocks. -/
def nestedParts (first : String) : List String → SyntaxTree → List SyntaxTree
  | [], block => [identifierTree first, block]
  | next :: more, block => [identifierTree first,
      blockTree [.node .moduleDeclaration (keywordLeaf .kwNamespace :: nestedParts next more block)]]

/-- The braces behind the innermost block, as many as there are namespaces around. -/
def closers {α : Type} (more : List α) : List Lexeme := List.replicate more.length (ofSign .braceClose)

/-- One closing brace for each level. -/
theorem closers_cons {α : Type} (next : α) (more : List α) :
    closers (next :: more) ++ a = closers more ++ ofSign .braceClose :: a := by
  simp [closers, List.replicate_succ']

theorem exists_nestedForm (first : String) (more : List String) (block : List Lexeme) :
    ∃ l, nestedForm first more block = ⟨.ident, first⟩ :: l := by
  cases more <;> exact ⟨_, rfl⟩

/-- The dotted form is read if the block is. -/
theorem dottedForm_reads {n : Nat} (first : String) (more : List String)
    (block : ReadsIn words (moduleBlock (statementWithin n)) (ofSign .braceOpen :: l) a () [t]) :
    ReadsIn words (moduleRest (statementWithin n)) (dottedForm first more (ofSign .braceOpen :: l)) a ()
      (dottedParts first more t) :=
  .moduleRest first more block

/-- It is rejected if the block is. -/
theorem dottedForm_rejects {n : Nat} (first : String) (more : List String)
    (block : Rejects words (moduleBlock (statementWithin n)) (ofSign .braceOpen :: l) ()) :
    Rejects words (moduleRest (statementWithin n)) (dottedForm first more (ofSign .braceOpen :: l)) () :=
  .moduleRest first more block

/-- The nested form is read if the block is. -/
theorem nestedForm_reads (first : String) (more : List String)
    (block : ∀ n, ReadsIn words (moduleBlock (statementWithin n)) (ofSign .braceOpen :: l ++ (closers more ++ a))
      (closers more ++ a) () [t]) (n : Nat) :
    ReadsIn words (moduleRest (statementWithin n)) (nestedForm first more (ofSign .braceOpen :: l) ++ a) a ()
      (nestedParts first more t) := by
  induction more generalizing first a n with
  | nil => exact .moduleRest first [] (block n)
  | cons next more ih =>
    have within (n : Nat) := ih (a := ofSign .braceClose :: a) next (by simpa [closers_cons] using block) n
    obtain ⟨rest, form⟩ := exists_nestedForm next more (ofSign .braceOpen :: l)
    have statement : ReadsIn words (statementWithin n)
        (ofKeyword .kwNamespace :: (nestedForm next more (ofSign .braceOpen :: l) ++ ofSign .braceClose :: a))
        (ofSign .braceClose :: a) () [.node .moduleDeclaration (keywordLeaf .kwNamespace :: nestedParts next more t)] := by
      rw [form] at within ⊢
      exact .namespaceStatement within n
    have whole := ReadsIn.moduleRest first [] (.singleBlock rfl statement)
    simpa [nestedForm, nestedParts, dottedLexemes, dottedTrees] using whole

/-- A statement keeps the brackets as they were. -/
theorem statementWithin_keeps (n : Nat) : Keeps (statementWithin n) := fun c =>
  (statementWithin_forms n c fun _ => trivial).imp fun _ _ _ _ _ => trivial

/-- Where the innermost block is complained of, the outer ones are too. -/
theorem nestedForm_rejects (first : String) (more : List String)
    (block : ∀ n, Rejects words (moduleBlock (statementWithin n)) (ofSign .braceOpen :: l ++ (closers more ++ a)) ())
    (n : Nat) :
    Rejects words (moduleRest (statementWithin n)) (nestedForm first more (ofSign .braceOpen :: l) ++ a) () := by
  induction more generalizing first a n with
  | nil => exact .moduleRest first [] (block n)
  | cons next more ih =>
    have within (n : Nat) := ih (a := ofSign .braceClose :: a) next (by simpa [closers_cons] using block) n
    obtain ⟨rest, form⟩ := exists_nestedForm next more (ofSign .braceOpen :: l)
    have statement : Rejects words (statementWithin n)
        (ofKeyword .kwNamespace :: (nestedForm next more (ofSign .braceOpen :: l) ++ ofSign .braceClose :: a)) () := by
      rw [form] at within ⊢
      exact .namespaceStatement within n
    have whole := Rejects.moduleRest first [] (.singleBlock rfl (statementWithin_keeps n) statement)
    simpa [nestedForm, dottedLexemes] using whole

/-! ### Namespaces around -/

/-- The words before what stands in namespaces, the outermost first, each with its names. -/
def openings (outer : List (String × List String)) : List Lexeme :=
  outer.flatMap fun n => ofKeyword .kwNamespace :: ⟨.ident, n.1⟩ :: (dottedLexemes n.2 ++ [ofSign .braceOpen])

/-- The tree in namespaces. -/
def enclosed : List (String × List String) → SyntaxTree → SyntaxTree
  | [], t => t
  | n :: outer, t => .node .moduleDeclaration
      (keywordLeaf .kwNamespace :: dottedParts n.1 n.2 (blockTree [enclosed outer t]))

section

variable {statement : List Lexeme} (first : kindOf statement 0 = some .ident)
include first

theorem kindOf_openings (outer : List (String × List String)) (m : List Lexeme) :
    kindOf (openings outer ++ (statement ++ m)) 0 = some .ident := by
  cases outer with
  | nil =>
    cases statement with
    | nil => cases first
    | cons => exact first
  | cons => rfl

/-- A statement is read in namespaces as it is by itself. -/
theorem enclosed_reads (outer : List (String × List String))
    (h : ∀ n, ReadsIn words (statementWithin n) (statement ++ (closers outer ++ a)) (closers outer ++ a) () [t])
    (n : Nat) : ReadsIn words (statementWithin n) (openings outer ++ (statement ++ (closers outer ++ a))) a ()
      [enclosed outer t] := by
  induction outer generalizing a n with
  | nil => exact h n
  | cons name outer ih =>
    rw [closers_cons] at h ⊢
    have within := ih h
    have whole := ReadsIn.namespaceStatement fun n =>
      ReadsIn.moduleRest name.1 name.2 (.singleBlock (kindOf_openings first outer _) (within n))
    simpa [openings, enclosed, dottedParts] using whole n

/-- What is rejected as a statement is rejected in nested namespaces. -/
theorem enclosed_rejects (outer : List (String × List String))
    (h : ∀ n, Rejects words (statementWithin n) (statement ++ (closers outer ++ a)) ()) (n : Nat) :
    Rejects words (statementWithin n) (openings outer ++ (statement ++ (closers outer ++ a))) () := by
  induction outer generalizing a n with
  | nil => exact h n
  | cons name outer ih =>
    rw [closers_cons] at h ⊢
    have within := ih h
    have whole := Rejects.namespaceStatement fun n => Rejects.moduleRest name.1 name.2
      (.singleBlock (kindOf_openings first outer _) (statementWithin_keeps n) (within n))
    simpa [openings] using whole n

end

/-! ### Words -/

/-- Words at the end of a source are told by what they are written as. -/
theorem Ready.rest_eq {c : Cursor} {front back : List Word} (ready : Ready words c) (split : words = front ++ back)
    (same : c.rest.map Word.lexeme = back.map Word.lexeme) : c.rest = back := by
  have length : c.rest.length = back.length := by simpa using congrArg List.length same
  have ahead : c.rest <:+ words := ready.rest ▸ List.drop_suffix _ _
  have behind : back <:+ words := split ▸ List.suffix_append _ _
  exact (List.suffix_of_suffix_length_le ahead behind length.le).eq_of_length length

section

variable {front inner back : List Word} {brace closer : Word}
  (split : words = front ++ brace :: (inner ++ closer :: back))
include split

/-- A block of words is read wherever it stands. -/
theorem ReadsBlock.readsIn (block : ReadsBlock brace.lexeme inner closer ts) (n : Nat) :
    ReadsIn words (moduleBlock (statementWithin n))
      (brace.lexeme :: (inner.map Word.lexeme ++ closer.lexeme :: back.map Word.lexeme)) (back.map Word.lexeme) ()
      [.node .moduleBlock ts] := fun c ready here => by
  have rest : c.rest = brace :: (inner ++ closer :: back) := ready.rest_eq split (by simpa using here)
  exact (block n ready rest rfl).imp fun _ d ⟨ready', rest', _, adds⟩ => ⟨rfl, ready', by rw [rest'], adds⟩

/-- What cannot be read as a block is complained of. -/
theorem rejects_of_not_readsBlock (none : ∀ ts, ¬ReadsBlock brace.lexeme inner closer ts)
    (closes : closer.kind = .braceClose) (nested : WellNested false (inner.map (·.kind))) (n : Nat) :
    Rejects words (moduleBlock (statementWithin n))
      (brace.lexeme :: (inner.map Word.lexeme ++ closer.lexeme :: back.map Word.lexeme)) () := fun c ready here => by
  have rest : c.rest = brace :: (inner ++ closer :: back) := ready.rest_eq split (by simpa using here)
  exact fun x d run => ⟨rfl, fun tidy =>
    have ⟨ts, block⟩ := readsBlock_of_run ready rest closes nested run tidy
    none ts block⟩

end

theorem moduleBlock_ahead {c : Cursor} (free : c.budget = {}) :
    Yields (moduleBlock inner) c fun _ d => d.Tidy → d.gap = .ahead := by
  refine (moduleBlock_yields (Q := fun _ e => e.Tidy → e.gap = .ahead) free fun o _ _ => ?_).imp fun _ d post => ?_
  · refine (delimited_yields (Q := fun _ => True) fun _ _ _ _ _ _ _ _ _ => trivial).imp fun _ f post tidy => ?_
    obtain ⟨e, -, closed⟩ := post
    cases closed with
    | read _ _ ahead => exact ahead
    | missed _ untidy => exact absurd tidy untidy
  · obtain ⟨o, e, n, os, depth, -, ahead, -, rfl⟩ := post
    exact fun tidy => ahead ⟨tidy.complaints, tidy.lastPlace, tidy.refused⟩

/-- From the name of a module on the words are read as the trees, up to `back`. -/
def ReadsRest (words ahead back : List Word) (ts : List SyntaxTree) : Prop :=
  ∀ n c, Ready words c → c.rest = ahead ++ back → Yields (moduleRest (statementWithin n)) c fun _ d =>
    Ready words d ∧ d.rest = back ∧ d.gap = .ahead ∧ Adds words c d ts

theorem readsRest {front ahead back : List Word} {first : String} {more : List String}
    (split : words = front ++ (ahead ++ back))
    (form : ahead.map Word.lexeme = dottedForm first more (ofSign .braceOpen :: l))
    (reads : ∀ n, ReadsIn words (moduleRest (statementWithin n)) (ahead.map Word.lexeme ++ back.map Word.lexeme)
      (back.map Word.lexeme) () ts) : ReadsRest words ahead back ts := fun n c ready rest => by
  have here : c.rest.map Word.lexeme = ahead.map Word.lexeme ++ back.map Word.lexeme := by rw [rest, List.map_append]
  have block : Yields (moduleRest (statementWithin n)) c fun _ d => d.Tidy → d.gap = .ahead := by
    have named := moduleName_parses first more (a := ofSign .braceOpen :: (l ++ back.map Word.lexeme)) rfl words c
      ready (by rw [here, form]; simp [dottedForm])
    refine named.bind fun _ d post => ?_
    obtain ⟨-, ready', here', -⟩ := post
    refine (currentIs_parses _ .braceOpen words d ready' here').bind fun _ e post => ?_
    obtain ⟨rfl, ready'', -, -⟩ := post
    exact moduleBlock_ahead ready''.budget
  intro x d run
  obtain ⟨-, ready', here', adds⟩ := reads n c ready here x d run
  exact ⟨ready', ready'.rest_eq (split.trans (List.append_assoc ..).symm) here', block x d run ready'.toTidy, adds⟩

end ImplicitGlobals.Grammar
