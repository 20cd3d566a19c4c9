import ImplicitGlobals.Proofs.Namespaces.Exchange
import ImplicitGlobals.Proofs.Namespaces.Scopes

/-!
# Dotted and nested namespaces among words

Words with a namespace that has several names, and words with namespaces in one another in its place.
Both are read where what stands between the innermost braces is read as a block, so that one may be
exchanged for the other.
-/

namespace ImplicitGlobals.Grammar

open Lexeme

/-- What stands between the first name and the innermost block when each namespace has one name. -/
def levelLexemes (more : List String) : List Lexeme :=
  more.flatMap fun next => [ofSign .braceOpen, ofKeyword .kwNamespace, ⟨.ident, next⟩]

theorem nestedForm_eq (first : String) (more : List String) (block : List Lexeme) :
    nestedForm first more block = ⟨.ident, first⟩ :: (levelLexemes more ++ (block ++ closers more)) := by
  induction more generalizing first with
  | nil => simp [nestedForm, levelLexemes, closers]
  | cons next more ih =>
    have last := closers_cons (a := []) next more
    rw [List.append_nil] at last
    simp [nestedForm, ih, levelLexemes, last]

/-- A block with names before it, written in both forms. -/
structure Sugar where
  front : List Word
  keyword : Word
  name : Word
  /-- The dots and names behind the first name. -/
  segments : List Word
  /-- The braces, keywords and names behind the first name. -/
  levels : List Word
  brace : Word
  brace' : Word
  inner : List Word
  closer : Word
  /-- The further closing braces. -/
  outer : List Word
  back : List Word
  first : String
  more : List String
  announces : keyword.isWord Keyword.kwNamespace.word = true
  named : name.lexeme = ⟨.ident, first⟩
  dots : segments.map Word.lexeme = dottedLexemes more
  nests : levels.map Word.lexeme = levelLexemes more
  opens : brace.lexeme = ofSign .braceOpen
  opens' : brace'.lexeme = ofSign .braceOpen
  closes : closer.lexeme = ofSign .braceClose
  shuts : outer.map Word.lexeme = closers more
  wellNested : WellNested false (inner.map (·.kind))

namespace Sugar

variable (s : Sugar) {ts : List SyntaxTree}

/-- What stands behind the first name of the dotted namespace. -/
def dotted : List Word := s.segments ++ s.brace :: (s.inner ++ [s.closer])

/-- The words of the nested form behind its name. -/
def nested : List Word := s.levels ++ s.brace' :: (s.inner ++ s.closer :: s.outer)

/-- The source with the dotted form. -/
def dottedWords : List Word := namespaceWords s.front s.keyword s.name s.dotted s.back

/-- The source with the nested form. -/
def nestedWords : List Word := namespaceWords s.front s.keyword s.name s.nested s.back

/-- What stands behind the opening brace, up to the one that closes it. -/
def block : List Lexeme := s.inner.map Word.lexeme ++ [ofSign .braceClose]

/-- What the dotted form is spelt as. -/
theorem lexemes_dotted : (s.name :: s.dotted).map Word.lexeme =
    dottedForm s.first s.more (ofSign .braceOpen :: s.block) := by
  simp [dotted, dottedForm, block, s.named, s.dots, s.opens, s.closes]

/-- What the nested form is spelt as. -/
theorem lexemes_nested : (s.name :: s.nested).map Word.lexeme =
    nestedForm s.first s.more (ofSign .braceOpen :: s.block) := by
  simp [nested, nestedForm_eq, block, s.named, s.nests, s.opens', s.closes, s.shuts]

theorem dottedWords_split : s.dottedWords =
    (s.front ++ s.keyword :: s.name :: s.segments) ++ s.brace :: (s.inner ++ s.closer :: s.back) := by
  simp [dottedWords, namespaceWords, dotted]

theorem nestedWords_split : s.nestedWords =
    (s.front ++ s.keyword :: s.name :: s.levels) ++ s.brace' :: (s.inner ++ s.closer :: (s.outer ++ s.back)) := by
  simp [nestedWords, namespaceWords, nested]

/-! ### Reading the forms -/

/-- What stands between the innermost braces is read as the block. -/
abbrev Reads (ts : List SyntaxTree) : Prop := ReadsBlock (ofSign .braceOpen) s.inner s.closer ts

/-- The dotted form is read wherever its block is. -/
theorem readsIn_dotted (h : s.Reads ts) (n : Nat) : ReadsIn s.dottedWords (moduleRest (statementWithin n))
    ((s.name :: s.dotted).map Word.lexeme ++ s.back.map Word.lexeme) (s.back.map Word.lexeme) ()
      (dottedParts s.first s.more (.node .moduleBlock ts)) := by
  have own : ReadsBlock s.brace.lexeme s.inner s.closer ts := s.opens ▸ h
  have whole := dottedForm_reads s.first s.more (s.opens ▸ own.readsIn s.dottedWords_split n)
  rw [lexemes_dotted]
  simpa [dottedForm, block, s.closes] using whole

/-- So is the nested form. -/
theorem readsIn_nested (h : s.Reads ts) (n : Nat) : ReadsIn s.nestedWords (moduleRest (statementWithin n))
    ((s.name :: s.nested).map Word.lexeme ++ s.back.map Word.lexeme) (s.back.map Word.lexeme) ()
      (nestedParts s.first s.more (.node .moduleBlock ts)) := by
  have own : ReadsBlock s.brace'.lexeme s.inner s.closer ts := s.opens' ▸ h
  rw [lexemes_nested]
  refine nestedForm_reads s.first s.more (fun n => ?_) n
  have inner := own.readsIn s.nestedWords_split n
  simpa [block, s.opens', s.closes, s.shuts] using inner

/-- The dotted form is rejected wherever its block is. -/
theorem rejects_dotted (none : ∀ ts, ¬s.Reads ts) (n : Nat) : Rejects s.dottedWords (moduleRest (statementWithin n))
    ((s.name :: s.dotted).map Word.lexeme ++ s.back.map Word.lexeme) () := by
  have closer := congrArg Lexeme.kind s.closes
  have inner := rejects_of_not_readsBlock s.dottedWords_split (by rwa [s.opens]) closer s.wellNested n
  have whole := dottedForm_rejects s.first s.more (s.opens ▸ inner)
  rw [lexemes_dotted]
  simpa [dottedForm, block, s.closes] using whole

/-- So is the nested form. -/
theorem rejects_nested (none : ∀ ts, ¬s.Reads ts) (n : Nat) : Rejects s.nestedWords (moduleRest (statementWithin n))
    ((s.name :: s.nested).map Word.lexeme ++ s.back.map Word.lexeme) () := by
  rw [lexemes_nested]
  refine nestedForm_rejects s.first s.more (fun n => ?_) n
  have closer := congrArg Lexeme.kind s.closes
  have inner := rejects_of_not_readsBlock s.nestedWords_split (by rwa [s.opens']) closer s.wellNested n
  simpa [block, s.opens', s.closes, s.shuts] using inner

/-- Behind its first name each form goes on with a block. -/
theorem exists_dottedForm (first : String) (more : List String) (l : List Lexeme) :
    ∃ m, nestedForm first more (ofSign .braceOpen :: l) = dottedForm first [] (ofSign .braceOpen :: m) := by
  cases more <;> exact ⟨_, rfl⟩

/-- Where the block is read, both forms are. -/
theorem readsRests (h : s.Reads ts) :
    ReadsRest s.dottedWords (s.name :: s.dotted) s.back (dottedParts s.first s.more (.node .moduleBlock ts)) ∧
      ReadsRest s.nestedWords (s.name :: s.nested) s.back (nestedParts s.first s.more (.node .moduleBlock ts)) := by
  have split (form : List Word) : namespaceWords s.front s.keyword s.name form s.back =
      (s.front ++ [s.keyword]) ++ (s.name :: form ++ s.back) := by simp [namespaceWords]
  obtain ⟨_, nested⟩ := exists_dottedForm s.first s.more s.block
  exact ⟨readsRest (split _) s.lexemes_dotted (s.readsIn_dotted h),
    readsRest (split _) (s.lexemes_nested.trans nested) (s.readsIn_nested h)⟩

/-- Where one of the forms is read without a complaint, what is between the innermost braces is a block. -/
theorem exists_reads {words form : List Word} {m : Nat} {c d : Cursor} (ready : Ready words c)
    (rest : c.rest = s.name :: (form ++ s.back)) (run : (moduleRest (statementWithin m)).run c = .ok ((), d))
    (tidy : d.Tidy) (rejects : (∀ ts, ¬s.Reads ts) → Rejects words (moduleRest (statementWithin m))
      ((s.name :: form).map Word.lexeme ++ s.back.map Word.lexeme) ()) : ∃ ts, s.Reads ts := by
  by_contra none
  exact (rejects (not_exists.1 none) c ready (by rw [rest]; simp) () d run).2 tidy

/-! ### In namespaces -/

section

variable {outer : List (String × List String)} {words form : List Word}
  (around : s.front.map Word.lexeme = openings outer) (behind : s.back.map Word.lexeme = closers outer)
include around behind

/-- The words of a source in which the namespace stands in other ones. -/
theorem lexemes_enclosed (form : List Word) : (namespaceWords s.front s.keyword s.name form s.back).map Word.lexeme =
    openings outer ++ ((ofKeyword .kwNamespace :: ⟨.ident, s.first⟩ :: form.map Word.lexeme) ++ (closers outer ++ [])) := by
  obtain ⟨kind, text⟩ : s.keyword.kind = .ident ∧ s.keyword.text = Keyword.kwNamespace.word := by
    simpa [Word.isWord] using s.announces
  have keyword : s.keyword.lexeme = ofKeyword .kwNamespace := by rw [Word.lexeme, kind, text, ofKeyword]
  simp [namespaceWords, around, behind, keyword, s.named]

/-- A namespace in other ones is a source. -/
theorem readsIn_source (h : ∀ n, ReadsIn words (moduleRest (statementWithin n))
    ((s.name :: form).map Word.lexeme ++ s.back.map Word.lexeme) (s.back.map Word.lexeme) () ts) :
    ReadsIn words source ((namespaceWords s.front s.keyword s.name form s.back).map Word.lexeme) [] ()
      [.node .sourceFile [enclosed outer (.node .moduleDeclaration (keywordLeaf .kwNamespace :: ts))]] := by
  simp only [List.map_cons, s.named, behind] at h
  rw [s.lexemes_enclosed around behind]
  refine .source (kindOf_openings rfl outer _) (enclosed_reads rfl outer fun n => ?_)
  rw [List.append_nil]
  exact .namespaceStatement h n

/-- A source is rejected with the namespace in it. -/
theorem rejects_source (h : ∀ n, Rejects words (moduleRest (statementWithin n))
    ((s.name :: form).map Word.lexeme ++ s.back.map Word.lexeme) ()) :
    Rejects words source ((namespaceWords s.front s.keyword s.name form s.back).map Word.lexeme) () := by
  simp only [List.map_cons, s.named, behind] at h
  rw [s.lexemes_enclosed around behind]
  refine .source (kindOf_openings rfl outer _) (enclosed_rejects rfl outer fun n => ?_)
  rw [List.append_nil]
  exact .namespaceStatement h n

end

/-! ### Exchanging them -/

theorem silent_dottedParts {a : Leaf} {first : String} {more : List String} {children : List SyntaxTree}
    (mem : .leaf a ∈ dottedParts first more (.node .moduleBlock children)) : a.kind.isIdentifier = false := by
  rw [leaves_dottedParts first more .moduleBlock children a mem]
  rfl

theorem silent_nestedParts {a : Leaf} {first : String} {more : List String} {children : List SyntaxTree}
    (mem : .leaf a ∈ nestedParts first more (.node .moduleBlock children)) : a.kind.isIdentifier = false := by
  cases more with
  | nil => exact @silent_dottedParts a first [] children mem
  | cons => rcases List.mem_pair.1 mem with is | is <;> cases is

/-- The nested namespaces in the place of the dotted one. -/
def toNested : Rewriting where
  front := s.front
  keyword := s.keyword
  name := s.name
  form := s.dotted
  form' := s.nested
  back := s.back
  announces := s.announces
  Forms := SameNamespaces
  silent' forms _ mem := by
    obtain ⟨⟩ := forms
    exact silent_nestedParts mem
  reads ready rest run tidy := by
    obtain ⟨ts, reads⟩ := s.exists_reads ready rest run tidy fun none => s.rejects_dotted none _
    exact ⟨_, _, .intro .., s.readsRests reads⟩

/-- The dotted namespace in the place of the nested ones. -/
def toDotted : Rewriting where
  front := s.front
  keyword := s.keyword
  name := s.name
  form := s.nested
  form' := s.dotted
  back := s.back
  announces := s.announces
  Forms ts us := SameNamespaces us ts
  silent' forms _ mem := by
    obtain ⟨⟩ := forms
    exact silent_dottedParts mem
  reads ready rest run tidy := by
    obtain ⟨ts, reads⟩ := s.exists_reads ready rest run tidy fun none => s.rejects_nested none _
    exact ⟨_, _, .intro .., (s.readsRests reads).symm⟩

end Sugar

end ImplicitGlobals.Grammar
