import ImplicitGlobals.Proofs.Boundary.Statements
import ImplicitGlobals.Proofs.Mending.Shifting

/-!
# A semicolon in front of a word

A run over some words, and one over the same words with a semicolon put in front of one of them. As
long as the first run stands before that word and has not complained of it, what it does next is read
off the words in between. Where it has read the word, or complained of it in another way, it will not say
that a semicolon is missing there.

The first run goes on alone where the second one does not count any more. At the word a rule that reads it
or complains of it settles the question. Where a run has ended early, since a statement begins one word
before, what was still to come finds nothing there. And a rule that does not ask for semicolons never
says that one is missing.
-/

namespace ImplicitGlobals.Grammar

variable {α β : Type}

/-- A word, its number and the words behind it. -/
structure Mending where
  place : Nat
  word : Word
  back : List Word

namespace Mending

/-- The word that is put in. -/
def semicolon : Word := ⟨.semicolon, ";", false⟩

variable (m : Mending) {us vs : List Word} {c c' d d' e : Cursor}

/-- What is ahead of the first run from the word on. -/
def ahead : List Word := m.word :: m.back

/-- What is ahead of the second run from there on. -/
def ahead' : List Word := semicolon :: m.ahead

/-- The run stands `us` before the word, and has complained of nothing from there on. -/
structure Before (us : List Word) (c : Cursor) : Prop where
  rest : c.rest = us ++ m.ahead
  place : c.passed + us.length = m.place
  free : c.budget = {}
  refused : c.refused = none
  last : ∀ p ∈ c.lastPlace, p < m.place
  complaints : ∀ k ∈ c.complaints, k.place < m.place

/-- The second run stands at the same place, and has complained of the same. -/
structure Twin (us : List Word) (c c' : Cursor) : Prop extends m.Before us c where
  rest' : c'.rest = us ++ m.ahead'
  passed : c'.passed = c.passed
  openers : c'.openers = c.openers
  free' : c'.budget = {}
  refused' : c'.refused = none
  lastPlace : c'.lastPlace = c.lastPlace
  complaints' : c'.complaints = c.complaints

variable {m}

/-- Doing nothing to the words keeps the run where it stands. -/
theorem Before.stays (h : m.Before us c) (stays : Stays c d) : m.Before us d := by
  obtain ⟨⟨_, _, _, _, _, rfl⟩, -⟩ := stays
  exact ⟨h.rest, h.place, h.free, h.refused, h.last, h.complaints⟩

/-- Looking keeps the run where it stands. -/
theorem Before.same (h : m.Before us c) (same : Same c d) : m.Before us d := h.stays same.stays

/-- A run before the word has not read it. -/
theorem Before.passed_le (h : m.Before us c) : c.passed ≤ m.place := by
  have place := h.place
  omega

/-- A word that is in between is read. -/
theorem Before.took {u : Word} (h : m.Before (u :: us) c) {label : LeafKind} {w : Word} (took : Took label w c d) :
    m.Before us d where
  rest := (List.cons.inj (took.rest.symm.trans h.rest)).2
  place := by
    have place := h.place
    rw [took.passed]
    simp only [List.length_cons] at place
    omega
  free := (took.unbounded h.free).1
  refused := (took.unbounded h.free).2.trans h.refused
  last := took.lastPlace ▸ h.last
  complaints := took.complaints ▸ h.complaints

/-- The word itself is read. -/
theorem Before.judged_took (h : m.Before [] c) {label : LeafKind} {w : Word} (took : Took label w c d) :
    d.Judged m.place where
  behind := .inl (by rw [took.passed, ← h.place]; exact Nat.lt_succ_self _)
  whole _ mem := Nat.lt_irrefl _ (h.complaints _ (took.complaints ▸ mem))

/-- How the run stands when it has read one word more. -/
def Passes (m : Mending) : List Word → Cursor → Prop
  | [], d => d.Judged m.place
  | _ :: us, d => m.Before us d

/-- A word that is read brings the run one nearer, or passes the word in question. -/
theorem Before.takeAs (h : m.Before us c) (label : LeafKind) : Yields (takeAs label) c fun _ d => m.Passes us d :=
  (takeAs_yields label c).imp fun _ d took => by
    obtain ⟨w, took⟩ := took
    cases us with
    | nil => exact h.judged_took took
    | cons u us => exact h.took took

/-- Of a word in between the run may complain. -/
theorem Before.note (h : m.Before us c) (some : us ≠ []) {k : Complaint} (place : k.place = c.passed) :
    m.Before us (c.note k) := by
  have before : c.passed < m.place := by
    have whole := h.place
    have := List.length_pos_iff.2 some
    omega
  refine { h with last := fun p mem => ?_, complaints := fun j mem => ?_ }
  · exact Option.some.inj mem ▸ before
  · rcases List.mem_cons.1 mem with rfl | mem
    · exact place ▸ before
    · exact h.complaints j mem

/-- A complaint of the word itself settles it. -/
theorem Before.judged_note (h : m.Before [] c) {k : Complaint} (other : ∀ o, k ≠ .noSemicolon m.place o) :
    (c.note k).Judged m.place where
  behind := .inr ⟨h.place, congrArg some h.place⟩
  whole _ mem := (List.mem_cons.1 mem).elim (fun is => other _ is.symm)
    fun mem => Nat.lt_irrefl _ (h.complaints _ mem)

/-- What a complaint does where none was made. -/
theorem complain_steps (f : Nat → Option Nat → Complaint) (c : Cursor) : Yields (complain f) c fun _ d =>
    ∃ e, Same c e ∧ d = if e.lastPlace = some e.passed then e else e.note (f e.passed e.innermost) :=
  (mark_yields c).bind fun _ d post => .modify ⟨d, post.2, by
    obtain ⟨rfl, _, _, _, rfl⟩ := post
    rfl⟩

/-- A complaint at an earlier place leaves the question open. -/
theorem Before.complain (h : m.Before us c) (some : us ≠ []) {f : Nat → Option Nat → Complaint}
    (place : ∀ i o, (f i o).place = i) : Yields (complain f) c fun _ d => m.Before us d :=
  (complain_steps f c).imp fun _ _ post => by
    obtain ⟨e, same, rfl⟩ := post
    split
    · exact h.same same
    · exact (h.same same).note some (place _ _)

/-- A complaint at the word settles the question, unless it is of a missing semicolon. -/
theorem Before.judged_complain (h : m.Before [] c) {f : Nat → Option Nat → Complaint}
    (other : ∀ i o o', f i o ≠ .noSemicolon m.place o') : Yields (Grammar.complain f) c fun _ d => d.Judged m.place :=
  (complain_steps f c).imp fun _ _ post => by
    obtain ⟨e, same, rfl⟩ := post
    split
    · next last =>
      have before := (h.same same).last _ last
      have here : e.passed = m.place := (h.same same).place
      omega
    · exact (h.same same).judged_note fun o => other _ _ o

namespace Twin

/-- Both runs stay where they are. -/
theorem stays (h : m.Twin us c c') (left : Stays c d) (right : Stays c' d') : m.Twin us d d' where
  toBefore := h.toBefore.stays left
  rest' := right.rest.trans h.rest'
  passed := by rw [right.passed, h.passed, left.passed]
  openers := by rw [right.openers, h.openers, left.openers]
  free' := right.budget.trans h.free'
  refused' := right.refused.trans h.refused'
  lastPlace := by rw [right.lastPlace, h.lastPlace, left.lastPlace]
  complaints' := by rw [right.complaints, h.complaints', left.complaints]

/-- Both runs look. -/
theorem same (h : m.Twin us c c') (left : Same c d) (right : Same c' d') : m.Twin us d d' :=
  h.stays left.stays right.stays

/-- Both runs read the same word, under whatever labels. -/
theorem took {u : Word} (h : m.Twin (u :: us) c c') {label label' : LeafKind} {w w' : Word} (left : Took label w c d)
    (right : Took label' w' c' d') : m.Twin us d d' where
  toBefore := h.toBefore.took left
  rest' := (List.cons.inj (right.rest.symm.trans h.rest')).2
  passed := by rw [right.passed, left.passed, h.passed]
  openers := by rw [right.openers, left.openers, h.openers]
  free' := (right.unbounded h.free').1
  refused' := (right.unbounded h.free').2.trans h.refused'
  lastPlace := by rw [right.lastPlace, left.lastPlace, h.lastPlace]
  complaints' := by rw [right.complaints, left.complaints, h.complaints']

/-- Of a word in between both complain alike. -/
theorem complain (h : m.Twin us c c') (some : us ≠ []) {f : Nat → Option Nat → Complaint}
    (place : ∀ i o, (f i o).place = i) : Yields (complain f) c fun _ d => Yields (Grammar.complain f) c' fun _ d' =>
      m.Twin us d d' :=
  (complain_steps f c).imp fun _ _ post => (complain_steps f c').imp fun _ _ post' => by
    obtain ⟨e, same, rfl⟩ := post
    obtain ⟨e', same', rfl⟩ := post'
    have both := h.same same same'
    have around : e'.innermost = e.innermost := congrArg (fun os => Option.map Opener.word (List.head? os)) both.openers
    rw [both.lastPlace, both.passed, around]
    split
    · exact both
    · exact { both with
        toBefore := both.toBefore.note some (place _ _)
        lastPlace := congrArg Option.some both.passed
        complaints' := congrArg (f e.passed e.innermost :: ·) both.complaints' }

end Twin

/-! ### Runs that no longer stand side by side -/

variable (m)

/-- The run stands one word before the word, and a statement begins there. -/
def Off (c : Cursor) : Prop := ∃ u, m.Before [u] c ∧ beginsStatement (u :: m.ahead) = true

/-- The run stands at the word, or where a statement begins one word before it, if it is one that may
have ended early. -/
def Adrift (early : Bool) (c : Cursor) : Prop := m.Before [] c ∨ early = true ∧ m.Off c

variable {m}

/-- A run stays before the statement that begins. -/
theorem Off.stays (h : m.Off c) (stays : Stays c d) : m.Off d := by
  obtain ⟨u, before, begins⟩ := h
  exact ⟨u, before.stays stays, begins⟩

theorem Off.same (h : m.Off c) (same : Same c d) : m.Off d := h.stays same.stays

/-- A run adrift stays adrift while nothing is read. -/
theorem Adrift.stays {early : Bool} (h : m.Adrift early c) (stays : Stays c d) : m.Adrift early d :=
  h.imp (·.stays stays) (.imp id (·.stays stays))

/-! ### The first run alone -/

variable (m) {σ : Type}

/-- Entered at the word, the rule reads it or complains of it, and not of a missing semicolon. -/
def Judges (r : Rule α) : Prop := ∀ c, m.Before [] c → Yields r c fun _ d => d.Judged m.place

/-- Entered where a run has ended early, the rule finds nothing and answers `x`. -/
def Idles (r : Rule α) (x : α) : Prop := ∀ c, m.Off c → Yields r c fun y d => y = x ∧ m.Off d

/-- The question is settled, or the run stands before the word and no further from it. -/
def Nears (us : List Word) (d : Cursor) : Prop := d.Judged m.place ∨ ∃ vs, vs <:+ us ∧ m.Before vs d

/-- The rule does not say that a semicolon is missing in front of the word. -/
structure Rests (r : Rule α) : Prop where
  left : Trails Notes r
  rests : ∀ us c, m.Before us c → Yields r c fun _ d => m.Nears us d

variable {m}

/-! ### Rules that settle the question -/

namespace Judges

variable {r s : Rule α} {f : α → Rule β}

/-- What settles the question first settles it, if what follows takes no note back. -/
theorem bind (h : m.Judges r) (next : ∀ x, Trails Notes (f x)) : m.Judges (r >>= f) := fun c before =>
  (h c before).bind fun x d judged => (next x d).imp fun _ _ noted => noted.judged judged

/-- Behind a look. -/
theorem look (looks : ∀ c, Yields r c fun _ d => Same c d) (next : ∀ x, m.Judges (f x)) : m.Judges (r >>= f) :=
  fun c before => (looks c).bind fun x d same => next x d (before.same same)

/-- Behind a test, of which the answer is known. -/
theorem ask {v : List Word → Option Limit → α} (answers : Answers r v) (next : m.Judges (f (v m.ahead none))) :
    m.Judges (r >>= f) := fun c before => (answers c).bind fun x d post => by
  obtain ⟨rfl, same⟩ := post
  rw [before.rest, before.refused]
  exact next d (before.same same)

/-- A choice settles the question if each branch that can be taken does. -/
theorem ite {b : Prop} [Decidable b] (yes : b → m.Judges r) (no : ¬b → m.Judges s) :
    m.Judges (if b then r else s) := by
  split
  · exact yes ‹_›
  · exact no ‹_›

theorem throw (b : Breach) : m.Judges (throw b : Rule α) := fun _ _ => .throw b

/-- Reading the word settles the question. -/
theorem takeAs (label : LeafKind) : m.Judges (takeAs label) := fun _ before => before.takeAs label

theorem bump : m.Judges bump := .look (fun c => (current_answers c).imp fun _ _ post => post.2) fun _ => takeAs _

theorem bumpKeyword : m.Judges bumpKeyword :=
  .look (fun c => (currentText_answers c).imp fun _ _ post => post.2) fun _ => takeAs _

/-- Complaining of anything but the missing semicolon settles it. -/
theorem complain {k : Nat → Option Nat → Complaint} (other : ∀ i o o', k i o ≠ .noSemicolon m.place o') :
    m.Judges (complain k) := fun _ before => before.judged_complain other

theorem error (kind : DiagnosticKind) : m.Judges (error kind) := complain nofun

theorem errorWith (kind : DiagnosticKind) (detail : String) : m.Judges (errorWith kind detail) := complain nofun

/-- A node settles what its body settles. -/
theorem node {kind : NodeKind} {body : Rule Unit} (h : m.Judges body) : m.Judges (node kind body) := fun _ before =>
  node_builds fun d stays => (h d (before.stays stays)).imp fun _ _ judged _ stays => stays.judged judged

/-- A node begun earlier settles what its body settles. -/
theorem nodeAt {kind : NodeKind} {body : Rule Unit} (h : m.Judges body) (point : Checkpoint) :
    m.Judges (nodeAt point kind body) := fun _ before =>
  nodeAt_builds fun d stays => (h d (before.stays stays)).imp fun _ _ judged _ stays => stays.judged judged

theorem assertAt {kind : TokenKind} (h : m.Judges r) : m.Judges (do assertAt kind; r) :=
  .look (fun c => (current_answers c).bind fun _ _ post => .ite (fun _ => .throw _) fun _ => .pure post.2) fun _ => h

/-- A rule that comes to the word if another one has not read it. -/
theorem eaten {t : Rule Bool} {is : Word → Prop} {label : LeafKind} (eats : ∀ c, Yields t c (Eaten is label c))
    (yes : Trails Notes r) (no : m.Judges s) : m.Judges (t >>= fun b => if b = true then r else s) := fun c before =>
  (eats c).bind fun b d post => by
    cases b with
    | true =>
      obtain ⟨_, _, took⟩ := post
      exact (yes d).imp fun _ _ noted => noted.judged (before.judged_took took)
    | false => exact no d (before.same post.1)

/-- A word that is asked for is read or complained of. -/
theorem expect (kind : TokenKind) (what : String) : m.Judges (expect kind what) :=
  .eaten (eat_yields kind) (noting.pure (p := Anywhere) (V := .same) (y := true) rfl) <|
    (errorWith _ _).bind fun _ => noting.pure (p := Anywhere) (V := .same) (y := false) rfl

/-- Between delimiters the word is the opening one, and is read. -/
theorem inside (kind : TokenKind) {body : Rule Unit} (notes : Trails Notes body) : m.Judges (inside kind body) :=
  fun c before => inside_yields fun {d e _ _} same took => (notes e).imp fun _ f noted => by
    have opened : m.Before [] (d.pushOpener kind) := { before.same same with }
    have judged := noted.judged (opened.judged_took took)
    exact ⟨judged.behind, judged.whole⟩

end Judges

/-! ### Rules that find nothing -/

namespace Idles

variable {r s : Rule α} {f : α → Rule β} {x : α} {y : β}

/-- Nothing is found where nothing is asked. -/
theorem pure (x : α) : m.Idles (Pure.pure x) x := fun _ off => .pure ⟨rfl, off⟩

/-- Two rules that find nothing find nothing together. -/
theorem bind (h : m.Idles r x) (next : m.Idles (f x) y) : m.Idles (r >>= f) y := fun c off =>
  (h c off).bind fun z d post => by
    obtain ⟨rfl, off⟩ := post
    exact next d off

/-- A test that finds nothing where a statement begins. -/
theorem answers {v : List Word → Option Limit → α} (answers : Answers r v)
    (finds : ∀ u, beginsStatement (u :: m.ahead) = true → v (u :: m.ahead) none = x) : m.Idles r x := fun c off => by
  refine (answers c).imp fun z d post => ?_
  obtain ⟨rfl, same⟩ := post
  refine ⟨?_, off.same same⟩
  obtain ⟨u, before, begins⟩ := off
  rw [before.rest, before.refused]
  exact finds u begins

/-- A choice finds nothing if the branch that is taken does not. -/
theorem ite {b : Prop} [Decidable b] (yes : b → m.Idles r x) (no : ¬b → m.Idles s x) :
    m.Idles (if b then r else s) x := by
  split
  · exact yes ‹_›
  · exact no ‹_›

/-- A complaint leaves the run before the statement that begins. -/
theorem complain {k : Nat → Option Nat → Complaint} (place : ∀ i o, (k i o).place = i) :
    m.Idles (complain k) () := fun _ off => by
  obtain ⟨u, before, begins⟩ := off
  exact (before.complain (List.cons_ne_nil u []) place).imp fun _ _ before => ⟨rfl, u, before, begins⟩

end Idles

/-- Statements begin with identifiers. -/
theorem ident_of_beginsStatement {ws : List Word} (h : beginsStatement ws = true) : kindIn ws 0 = some .ident := by
  unfold beginsStatement at h
  split at h
  · cases h
  · next ident => exact Classical.not_not.1 ident

namespace Idles

variable (kind : TokenKind) (other : kind ≠ .ident)
include other

/-- The word ahead begins a statement, so it is of no such kind. -/
theorem currentIs : m.Idles (currentIs kind) false :=
  answers (currentIs_answers kind) fun u begins => by
    rw [ident_of_beginsStatement begins]
    simpa using Ne.symm other

/-- Nothing of such a kind is read there. -/
theorem eat : m.Idles (eat kind) false := (currentIs kind other).bind (.pure false)

/-- An optional part is not begun there. -/
theorem optional {body : Rule Unit} : m.Idles (optional kind body) () := (currentIs kind other).bind (.pure ())

/-- A word that is asked for is missing there. -/
theorem expect (what : String) : m.Idles (expect kind what) false :=
  (eat kind other).bind <| (complain fun _ _ => rfl).bind (.pure false)

end Idles

/-! ### Rules that do not ask for semicolons -/

/-- A run that was near is near to more. -/
theorem Nears.trans (h : m.Nears vs d) (nearer : vs <:+ us) : m.Nears us d := h.imp id fun before => by
  obtain ⟨ws, nearest, before⟩ := before
  exact ⟨ws, nearest.trans nearer, before⟩

theorem Before.nears (h : m.Before us c) : m.Nears us c := .inr ⟨us, List.suffix_refl us, h⟩

/-- Nearness stays while nothing is read. -/
theorem Nears.stays (h : m.Nears us c) (stays : Stays c d) : m.Nears us d :=
  h.imp stays.judged fun before => before.imp fun _ both => ⟨both.1, both.2.stays stays⟩

/-- A word that is read brings the run nearer. -/
theorem Before.nears_took (h : m.Before us c) {label : LeafKind} {w : Word} (took : Took label w c d) :
    m.Nears us d := by
  cases us with
  | nil => exact .inl (h.judged_took took)
  | cons u us => exact (h.took took).nears.trans (List.suffix_cons u us)

namespace Rests

variable {r s : Rule α} {f : α → Rule β}

/-- From a cursor that is adrift the run settles the question or stays adrift. -/
theorem adrift (h : m.Rests r) {early : Bool} (adrift : m.Adrift early c) :
    Yields r c fun _ d => d.Judged m.place ∨ m.Adrift early d := by
  rcases adrift with before | ⟨early, u, before, begins⟩
  · refine (h.rests [] c before).imp fun _ d => .imp id fun near => ?_
    obtain ⟨vs, nearer, before⟩ := near
    exact .inl (List.suffix_nil.1 nearer ▸ before)
  · refine (h.rests [u] c before).imp fun _ d => .imp id fun near => ?_
    obtain ⟨vs, nearer, before⟩ := near
    rcases List.suffix_cons_iff.1 nearer with rfl | nearer
    · exact .inr ⟨early, u, before, begins⟩
    · exact .inl (List.suffix_nil.1 nearer ▸ before)

/-- Looking says nothing. -/
theorem look (looks : ∀ c, Yields r c fun _ d => Same c d) : m.Rests r where
  left := notes_trail.look looks
  rests _ c before := (looks c).imp fun _ _ same => (before.same same).nears

/-- A question says nothing. -/
theorem answers {v : List Word → Option Limit → α} (answers : Answers r v) : m.Rests r :=
  look fun c => (answers c).imp fun _ _ post => post.2

theorem pure (x : α) : m.Rests (Pure.pure x) := answers (.pure x)

theorem throw (b : Breach) : m.Rests (throw b : Rule α) := ⟨fun _ => .throw b, fun _ _ _ => .throw b⟩

/-- Two rules that do not say it do not say it together. -/
theorem bind (h : m.Rests r) (next : ∀ x, m.Rests (f x)) : m.Rests (r >>= f) where
  left := notes_trail.bind h.left fun x => (next x).left
  rests us c before := (h.rests us c before).bind fun x d near => by
    rcases near with judged | ⟨vs, nearer, before⟩
    · exact ((next x).left d).imp fun _ _ noted => .inl (noted.judged judged)
    · exact ((next x).rests vs d before).imp fun _ _ near => near.trans nearer

/-- A choice does not say it if neither branch does. -/
theorem ite {b : Prop} [Decidable b] (yes : m.Rests r) (no : m.Rests s) : m.Rests (if b then r else s) := by
  split
  · exact yes
  · exact no

/-- Reading a word says nothing. -/
theorem takeAs (label : LeafKind) : m.Rests (takeAs label) where
  left c := (takeAs_yields label c).imp fun _ _ took => .took took.choose_spec
  rests _ c before := (takeAs_yields label c).imp fun _ _ took => before.nears_took took.choose_spec

theorem bump : m.Rests bump := (answers current_answers).bind fun _ => takeAs _

theorem bumpKeyword : m.Rests bumpKeyword := (answers currentText_answers).bind fun _ => takeAs _

/-- A complaint other than the one in question may be made. -/
theorem complain {k : Nat → Option Nat → Complaint} (makes : ∀ c : Cursor, c.Makes (k c.passed c.innermost))
    (other : ∀ i o o', k i o ≠ .noSemicolon m.place o') (place : ∀ i o, (k i o).place = i) : m.Rests (complain k) where
  left := notes_trail.complain k makes
  rests us c before := by
    cases us with
    | nil => exact (before.judged_complain other).imp fun _ _ => .inl
    | cons u us => exact (before.complain (List.cons_ne_nil u us) place).imp fun _ _ before => before.nears

theorem here {kind : DiagnosticKind} (closed : kind.isUnclosed = false) (detail : Option String) :
    m.Rests (Grammar.complain (.here kind detail)) := complain (fun _ => ⟨rfl, fun _ => rfl, closed⟩) nofun fun _ _ => rfl

theorem unclosed {kind : DiagnosticKind} (unclosed : kind.isUnclosed = true) (note : String) (opener : Nat) :
    m.Rests (errorUnclosed kind note opener) :=
  complain (Cursor.makes_unclosed unclosed note opener) (fun _ _ _ => Complaint.noConfusion) fun _ _ => rfl

/-- A node says what its body says. -/
theorem node {kind : NodeKind} {body : Rule Unit} (h : m.Rests body) : m.Rests (node kind body) where
  left := notes_trail.node trivial h.left
  rests us _ before := node_builds fun d stays =>
    (h.rests us d (before.stays stays)).imp fun _ _ near _ stays => near.stays stays

/-- Delimiters add the complaint of a missing closer, which is another one. -/
theorem inside (kind : TokenKind) {body : Rule Unit} (h : m.Rests body) : m.Rests (inside kind body) where
  left := notes_trail.inside kind h.left
  rests us _ before := inside_yields fun {d e _ _} same took => by
    have opened : m.Before us (d.pushOpener kind) := { before.same same with }
    have popped {f : Cursor} : m.Nears us f → m.Nears us f.popOpener := .imp (fun judged => ⟨judged.behind, judged.whole⟩)
      fun near => near.imp fun _ both => ⟨both.1, { both.2 with }⟩
    rcases opened.nears_took took with judged | ⟨vs, nearer, before⟩
    · exact (h.left e).imp fun _ _ noted => popped (.inl (noted.judged judged))
    · exact (h.rests vs e before).imp fun _ _ near => popped (near.trans nearer)

/-- Rounds that do not say it, by induction on their number. -/
theorem rounds {step : σ → Rule (Turn σ)} (turn : ∀ s, m.Rests (step s)) (n : Nat) (s : σ) :
    m.Rests (rounds step n s) := by
  induction n generalizing s with
  | zero => exact throw _
  | succ n ih =>
    refine (turn s).bind fun t => ?_
    cases t with
    | again s' => exact ih s'
    | done s' => exact pure s'

/-- A rule that is given its rounds by the length of the text. -/
theorem bounded {f : Nat → Rule α} (h : ∀ n, m.Rests (f n)) : m.Rests (do f (← get).total) where
  left := fun c => .get ((h c.total).left c)
  rests := fun us c before => .get ((h c.total).rests us c before)

/-- A loop does not say it if no turn does. -/
theorem loop {step : σ → Rule (Turn σ)} (turn : ∀ s, m.Rests (step s)) (s : σ) : m.Rests (loop s step) :=
  bounded (f := fun n => Grammar.rounds step (n + 1) s) fun _ => rounds turn _ s

/-- A repetition does not say it if no turn does. -/
theorem repeatWhile {turn : Rule Bool} (h : m.Rests turn) : m.Rests (repeatWhile turn) :=
  loop (fun _ => h.bind fun _ => ite (pure _) (pure _)) ()

end Rests

end Mending

end ImplicitGlobals.Grammar
